import Inkpress.Proofs.Document.Draws
import Inkpress.Proofs.Document.Numbering
import Mathlib.Data.Set.Function

namespace Inkpress.Document

def Part.rename (f : String → String) : Part → Part
  | paragraph text => paragraph text
  | image id => image (f id)

/-- Two lists of different ids that are equally long are one list under a renaming. -/
theorem exists_bijOn_map_eq {ids ids' : List String} (h : ids.Nodup) (h' : ids'.Nodup)
    (hlength : ids.length = ids'.length) :
    ∃ f : String → String, ids.map f = ids' ∧ Set.BijOn f {id | id ∈ ids} {id | id ∈ ids'} := by
  let f (id : String) : String := ids'.getD (ids.idxOf id) ""
  have hmap : ids.map f = ids' := by
    refine List.ext_getElem (by rw [List.length_map, hlength]) ?_
    intro k hk hk'
    have hindex : ids.idxOf ids[k] = k := h.idxOf_getElem k (by rwa [List.length_map] at hk)
    simp only [f, List.getElem_map, hindex, List.getD_eq_getElem?_getD, List.getElem?_eq_getElem hk',
      Option.getD_some]
  refine ⟨f, hmap, ?_, ?_, ?_⟩
  · intro id hid
    have hmem : f id ∈ ids.map f := List.mem_map_of_mem hid
    rwa [hmap] at hmem
  · intro a ha b hb he
    exact List.inj_on_of_nodup_map (hmap.symm ▸ h') ha hb he
  · intro id hid
    have hmem : id ∈ ids.map f := hmap.symm ▸ hid
    exact List.mem_map.1 hmem

namespace Piece

theorem length_slotsOf (ps : List Piece) :
    (slotsOf ps).length = (ps.map mark).countP Mark.isDrawing := by
  rw [slotsOf, List.length_filterMap_eq_countP, List.countP_map]
  refine List.countP_congr ?_
  intro q _
  cases q <;> rfl

theorem map_part_rename {f : String → String} {ps qs : List Piece}
    (hmarks : ps.map mark = qs.map mark)
    (hids : (slotsOf ps).map (fun c => f c.id) = (slotsOf qs).map (·.id)) :
    (ps.map part).map (Part.rename f) = qs.map part := by
  induction ps generalizing qs with
  | nil =>
      rw [List.map_eq_nil_iff.1 hmarks.symm]
      rfl
  | cons a ps ih =>
      obtain ⟨b, qs, rfl, hmark, hrest⟩ := List.map_eq_cons_iff.1 hmarks.symm
      cases a with
      | text s =>
          cases b with
          | text s' =>
              obtain rfl : s' = s := Mark.text.inj hmark
              rw [List.map_cons, List.map_cons, List.map_cons, ih hrest.symm hids]
              rfl
          | drawing d => cases hmark
      | drawing c =>
          cases b with
          | text s' => cases hmark
          | drawing d =>
              obtain ⟨hid, hids⟩ := List.cons.inj hids
              have hpart : Part.rename f (.image c.id) = .image d.id := congrArg Part.image hid
              rw [List.map_cons, List.map_cons, List.map_cons, ih hrest.symm hids, part, hpart, part]

end Piece

theorem paragraphsOf_congr {p q : Package} (h : p.mainDocument = q.mainDocument) :
    paragraphsOf p = paragraphsOf q := by
  rw [paragraphsOf, paragraphsOf, h]

theorem Progress.exists_place_ofPieces [Image.Library] {p : Package} {folder : Folder} {draws : Draws}
    {ps : List Piece} (h : Numbered (slotsOf ps)) {id : String} {e : ImageEntry}
    (he : (ofPieces p folder ps draws).done.images.find? id = some e) :
    ∃ k, (imageIds (ps.map Piece.part))[k]? = some id ∧ e.sourceIndex = k + 1 := by
  obtain ⟨k, c, hc, rfl, rfl⟩ := exists_slot_ofPieces p folder draws he
  refine ⟨k, ?_, h.number_eq hc⟩
  rw [Piece.imageIds_map_part, List.getElem?_map, hc]
  rfl

/-- Progress after pieces with the same marks is the same under a renaming of the ids. -/
theorem Progress.exists_rename_ofPieces [Image.Library] {ps qs : List Piece}
    (hps : Numbered (slotsOf ps)) (hqs : Numbered (slotsOf qs))
    (hsame : ps.map Piece.mark = qs.map Piece.mark) (p q : Package) (folder folder' : Folder)
    (draws draws' : Draws) :
    let s := ofPieces p folder ps draws
    let s' := ofPieces q folder' qs draws'
    ∃ f, Set.BijOn f {id | id ∈ imageIds s.done.parts} {id | id ∈ imageIds s'.done.parts} ∧
      s'.done.parts = s.done.parts.map (Part.rename f) ∧
      s'.done.images.entries.length = s.done.images.entries.length ∧
      ∀ id e, s.done.images.find? id = some e →
        ∃ e', s'.done.images.find? (f id) = some e' ∧ e'.sourceIndex = e.sourceIndex := by
  intro s s'
  have hlength : (slotsOf ps).length = (slotsOf qs).length := by
    rw [Piece.length_slotsOf, Piece.length_slotsOf, hsame]
  have hids : imageIds s.done.parts = (slotsOf ps).map (·.id) := Piece.imageIds_map_part ps
  have hids' : imageIds s'.done.parts = (slotsOf qs).map (·.id) := Piece.imageIds_map_part qs
  obtain ⟨f, hmap, hf⟩ := exists_bijOn_map_eq (hids ▸ hps.nodup) (hids' ▸ hqs.nodup)
    (by rw [hids, hids', List.length_map, List.length_map, hlength])
  refine ⟨f, hf, ?_, ?_, ?_⟩
  · refine (Piece.map_part_rename hsame ?_).symm
    rw [hids, hids', List.map_map] at hmap
    exact hmap
  · simp only [s, s', ofPieces, List.length_map, hlength]
  · intro id e hfind
    obtain ⟨k, hk, hindex⟩ := exists_place_ofPieces hps hfind
    have hplace : (imageIds s'.done.parts)[k]? = some (f id) := by
      rw [← hmap, List.getElem?_map]
      exact congrArg (Option.map f) hk
    obtain ⟨e', hfind', hindex'⟩ := sourceIndex_ofPieces q folder' draws' hqs hplace
    exact ⟨e', hfind', hindex'.trans hindex.symm⟩

/-- Packages that open and have the same main document: the extraction fails in both in the same way,
or both have a result, given draws enough. The parts are then the same under a one-to-one renaming of
the image ids, and so are the numbers in the two maps, which are equally large. -/
theorem extract_rename [Image.Library] {a b : Option Zip.Archive} {p q : Package} (hp : Package.ofFile a = .ok p)
    (hq : Package.ofFile b = .ok q) (hsame : p.mainDocument = q.mainDocument)
    (folder folder' : Folder) (draws draws' : Draws)
    (hdraws : ∀ paragraphs, paragraphsOf p = .ok paragraphs →
      drawingCount paragraphs ≤ draws.toFinset.card ∧
      drawingCount paragraphs ≤ draws'.toFinset.card) :
    (∃ fault, extract a folder draws = .fault fault ∧ extract b folder' draws' = .fault fault) ∨
    ∃ s s' f, extract a folder draws = .ok s ∧ extract b folder' draws' = .ok s' ∧
      Set.BijOn f {id | id ∈ imageIds s.done.parts} {id | id ∈ imageIds s'.done.parts} ∧
      s'.done.parts = s.done.parts.map (Part.rename f) ∧
      s'.done.images.entries.length = s.done.images.entries.length ∧
      ∀ id e, s.done.images.find? id = some e →
        ∃ e', s'.done.images.find? (f id) = some e' ∧ e'.sourceIndex = e.sourceIndex := by
  have hparagraphs := paragraphsOf_congr hsame
  cases h : paragraphsOf p with
  | error fault =>
      exact .inl ⟨fault, extract_of_fault hp folder h draws,
        extract_of_fault hq folder' (hparagraphs ▸ h) draws'⟩
  | ok paragraphs =>
      right
      obtain ⟨hcount, hcount'⟩ := hdraws paragraphs h
      obtain ⟨s, hs⟩ := exists_extract_ok hp folder h hcount
      obtain ⟨s', hs'⟩ := exists_extract_ok hq folder' (hparagraphs ▸ h) hcount'
      obtain ⟨p', qs, ps, hp', hqs, hmarks, hnumbered, he⟩ := extract_ok hs
      obtain ⟨q', qs', ps', hq', hqs', hmarks', hnumbered', he'⟩ := extract_ok hs'
      obtain rfl : p = p' := Except.ok.inj (hp.symm.trans hp')
      obtain rfl : q = q' := Except.ok.inj (hq.symm.trans hq')
      obtain rfl : paragraphs = qs := Except.ok.inj (h.symm.trans hqs)
      obtain rfl : paragraphs = qs' := Except.ok.inj ((hparagraphs ▸ h).symm.trans hqs')
      obtain ⟨f, hf⟩ := Progress.exists_rename_ofPieces hnumbered hnumbered'
        (hmarks.trans hmarks'.symm) p q folder folder' s.draws s'.draws
      rw [← he, ← he'] at hf
      exact ⟨s, s', f, hs, hs', hf⟩

/-- One of two packages has no relationships, its ids are others, and its folder takes no files. -/
theorem extract_rename_pictures :
    let body := Bytes.ofString
      "<body><p><r><t>x</t></r><drawing><blip embed='a'/></drawing></p><p><drawing/></p></body>"
    let a : Zip.Archive := .ofMembers [("word/document.xml", body),
      ("word/_rels/document.xml.rels", Bytes.ofString "<Relationship Id='a' Target='i.gif'/>"),
      ("word/i.gif", ⟨#[71, 73, 70, 56, 57, 97, 2, 0, 3, 0, 0, 0, 0, 44, 0]⟩)]
    let b : Zip.Archive := .ofMembers [("word/document.xml", body)]
    ∃ p q s s' f, Package.ofFile (some a) = .ok p ∧ Package.ofFile (some b) = .ok q ∧
      p.mainDocument = q.mainDocument ∧
      extract (some a) ⟨"dir", [], fun _ => true⟩ [5, 5, 7] = .ok s ∧
      extract (some b) ⟨"other", [], fun _ => false⟩ [9, 8] = .ok s' ∧
      s.done.images.stagedCount = 1 ∧ s'.done.images.stagedCount = 0 ∧
      s'.done.parts = s.done.parts.map (Part.rename f) ∧
      Set.BijOn f {id | id ∈ imageIds s.done.parts} {id | id ∈ imageIds s'.done.parts} := by
  intro body a b
  let read (archive : Zip.Archive) : Option (Option String × Option (List Body.Paragraph)) :=
    (Package.ofFile (some archive)).toOption.map fun p =>
      (p.mainDocument.toOption, (paragraphsOf p).toOption)
  have ha : read a = some (Text.Utf8.decode? body, some [⟨"x", [some "a"]⟩, ⟨"", [none]⟩]) := by
    decide +kernel
  have hb : read b = some (Text.Utf8.decode? body, some [⟨"x", [some "a"]⟩, ⟨"", [none]⟩]) := by
    decide +kernel
  have hcount : ((extract (some a) ⟨"dir", [], fun _ => true⟩ [5, 5, 7]).value?.map
      (·.done.images.stagedCount)) = some 1 := by decide +kernel
  have hcount' : ((extract (some b) ⟨"other", [], fun _ => false⟩ [9, 8]).value?.map
      (·.done.images.stagedCount)) = some 0 := by decide +kernel
  have hsome : (Text.Utf8.decode? body).isSome := by decide +kernel
  obtain ⟨xml, hxml⟩ := Option.isSome_iff_exists.1 hsome
  rw [hxml] at ha hb
  obtain ⟨p, hp, he⟩ := Option.map_eq_some_iff.1 ha
  obtain ⟨q, hq, he'⟩ := Option.map_eq_some_iff.1 hb
  obtain ⟨hmain, hparagraphs⟩ := Prod.mk.inj he
  obtain ⟨hmain', -⟩ := Prod.mk.inj he'
  have hp := ok_of_toOption hp
  have hq := ok_of_toOption hq
  have hparagraphs := ok_of_toOption hparagraphs
  have hsame : p.mainDocument = q.mainDocument :=
    (ok_of_toOption hmain).trans (ok_of_toOption hmain').symm
  rcases extract_rename hp hq hsame ⟨"dir", [], fun _ => true⟩ ⟨"other", [], fun _ => false⟩
    [5, 5, 7] [9, 8] (by
      intro paragraphs h
      obtain rfl := Except.ok.inj (hparagraphs.symm.trans h)
      decide) with ⟨fault, hfault, -⟩ | ⟨s, s', f, hs, hs', hf, hparts, -, -⟩
  · rw [hfault] at hcount
    cases hcount
  · rw [hs] at hcount
    rw [hs'] at hcount'
    exact ⟨p, q, s, s', f, hp, hq, hsame, hs, hs', Option.some.inj hcount, Option.some.inj hcount',
      hparts, hf⟩

end Inkpress.Document
