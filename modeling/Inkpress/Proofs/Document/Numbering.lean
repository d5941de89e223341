import Inkpress.Image.Header
import Inkpress.Proofs.Document.Pieces

namespace Inkpress.Document

/-- The part for the text of a paragraph, if a character of it is not white space. -/
def textPart (q : Body.Paragraph) : List Part :=
  if q.text.toList.any (!Text.isBlankChar ·) then [.paragraph q.text] else []

/-- The parts of paragraphs: for each its text and then one image per drawing, of whatever id. -/
inductive PartsOf : List Body.Paragraph → List Part → Prop
  | nil : PartsOf [] []
  | cons {q : Body.Paragraph} {qs : List Body.Paragraph} {ids : List String} {parts : List Part}
      (hids : ids.length = q.drawings.length) (rest : PartsOf qs parts) :
      PartsOf (q :: qs) (textPart q ++ ids.map .image ++ parts)

def imageIds (parts : List Part) : List String :=
  parts.filterMap Part.imageId?

theorem any_not_isBlankChar (q : Body.Paragraph) :
    q.text.toList.any (!Text.isBlankChar ·) = !q.isBlank := by
  rw [Body.Paragraph.isBlank, Text.isBlank, ← List.not_all_eq_any_not]

theorem textPart_eq (q : Body.Paragraph) :
    textPart q = if q.isBlank then [] else [.paragraph q.text] := by
  rw [textPart, any_not_isBlankChar]
  cases q.isBlank <;> rfl

namespace Piece

theorem map_part_of_text {ps : List Piece} {q : Body.Paragraph}
    (h : ps.map mark = if q.isBlank then [] else [.text q.text]) : ps.map part = textPart q := by
  rw [textPart_eq]
  split at h
  · next hblank =>
      rw [List.map_eq_nil_iff.1 h, if_pos hblank]
      rfl
  · next hblank =>
      obtain ⟨p, rfl, hp⟩ := List.map_eq_singleton_iff.1 h
      rw [if_neg hblank]
      cases p with
      | text s => rw [← Mark.text.inj hp]; rfl
      | drawing c => cases hp

theorem map_part_of_drawings {ps : List Piece} {embeds : List (Option String)}
    (h : ps.map mark = embeds.map .drawing) :
    ∃ ids : List String, ids.length = embeds.length ∧ ps.map part = ids.map .image := by
  induction embeds generalizing ps with
  | nil =>
      rw [List.map_eq_nil_iff.1 h]
      exact ⟨[], rfl, rfl⟩
  | cons embed embeds ih =>
      obtain ⟨p, ps, rfl, hp, hps⟩ := List.map_eq_cons_iff.1 h
      obtain ⟨ids, hlength, hids⟩ := ih hps
      cases p with
      | text s => cases hp
      | drawing c =>
          refine ⟨c.id :: ids, ?_, ?_⟩
          · rw [List.length_cons, List.length_cons, hlength]
          · rw [List.map_cons, List.map_cons, hids]
            rfl

theorem partsOf {ps : List Piece} {qs : List Body.Paragraph}
    (h : ps.map mark = qs.flatMap marksOf) : PartsOf qs (ps.map part) := by
  induction qs generalizing ps with
  | nil =>
      rw [List.map_eq_nil_iff.1 h]
      exact .nil
  | cons q qs ih =>
      rw [List.flatMap_cons, marksOf] at h
      obtain ⟨front, rest, rfl, hfront, hrest⟩ := List.map_eq_append_iff.1 h
      obtain ⟨texts, drawings, rfl, htexts, hdrawings⟩ := List.map_eq_append_iff.1 hfront
      obtain ⟨ids, hlength, hids⟩ := map_part_of_drawings hdrawings
      rw [List.map_append, List.map_append, map_part_of_text htexts, hids]
      exact .cons hlength (ih hrest)

theorem imageIds_map_part (ps : List Piece) :
    imageIds (ps.map part) = (slotsOf ps).map (·.id) := by
  rw [imageIds, slotsOf, List.filterMap_map, List.map_filterMap]
  refine List.filterMap_congr ?_
  intro p _
  cases p <;> rfl

end Piece

section

variable {slots : List Slot} (h : Numbered slots)

include h

theorem Numbered.nodup : (slots.map (·.id)).Nodup := List.pairwise_map.2 h.ids

theorem Numbered.number_eq {k : Nat} {c : Slot} (hc : slots[k]? = some c) : c.number = k + 1 := by
  have hlt : k < slots.length := (List.getElem?_eq_some_iff.1 hc).1
  have hnumber : (slots.map (·.number))[k]? = some c.number := by rw [List.getElem?_map, hc]; rfl
  rw [h.numbers, List.getElem?_range' hlt] at hnumber
  have := Option.some.inj hnumber
  omega

end

namespace Progress

variable [Image.Library] (p : Package) (folder : Folder) (draws : Draws) {ps : List Piece}

theorem keys_ofPieces (ps : List Piece) :
    (ofPieces p folder ps draws).done.images.entries.map (·.1) =
      imageIds (ofPieces p folder ps draws).done.parts := by
  rw [ofPieces, Piece.imageIds_map_part, List.map_map]
  rfl

theorem values_ofPieces (ps : List Piece) : (ofPieces p folder ps draws).done.images.values =
    (slotsOf ps).map fun c => c.entry p folder := by
  rw [ofPieces, Table.values, List.map_map]
  rfl

theorem exists_slot_ofPieces {id : String} {e : ImageEntry}
    (he : (ofPieces p folder ps draws).done.images.find? id = some e) :
    ∃ (k : Nat) (c : Slot), (slotsOf ps)[k]? = some c ∧ c.id = id ∧ c.entry p folder = e := by
  obtain ⟨entry, hentry, rfl⟩ := Option.map_eq_some_iff.1 he
  obtain ⟨c, hc, rfl⟩ := List.mem_map.1 (List.mem_of_find?_eq_some hentry)
  obtain ⟨k, hk⟩ := List.mem_iff_getElem?.1 hc
  have hid : decide (c.id = id) = true :=
    List.find?_some (p := fun e : String × ImageEntry => decide (e.1 = id)) hentry
  exact ⟨k, c, hk, of_decide_eq_true hid, rfl⟩

variable (h : Numbered (slotsOf ps))

include h

theorem sourceIndex_ofPieces {k : Nat} {id : String}
    (hid : (imageIds (ofPieces p folder ps draws).done.parts)[k]? = some id) :
    ∃ e, (ofPieces p folder ps draws).done.images.find? id = some e ∧ e.sourceIndex = k + 1 := by
  rw [ofPieces, Piece.imageIds_map_part, List.getElem?_map] at hid
  obtain ⟨c, hc, rfl⟩ := Option.map_eq_some_iff.1 hid
  refine ⟨c.entry p folder, ?_, h.number_eq hc⟩
  exact find?_map_of_mem (fun c => c.entry p folder) h.ids (List.mem_of_getElem? hc)

theorem stagedCount_ofPieces :
    (ofPieces p folder ps draws).done.images.stagedCount =
      (imageIds (ofPieces p folder ps draws).done.parts).countP
        fun id => ((ofPieces p folder ps draws).done.images.staged? id).isSome := by
  have hstaged : ∀ c ∈ slotsOf ps, (ofPieces p folder ps draws).done.images.staged? c.id =
      (c.entry p folder).staged := fun c hc => staged?_ofPieces h draws hc
  have hids : imageIds (ofPieces p folder ps draws).done.parts = (slotsOf ps).map (·.id) :=
    Piece.imageIds_map_part ps
  rw [ImageMap.stagedCount, values_ofPieces, hids, List.countP_map, List.countP_map]
  refine List.countP_congr ?_
  intro c hc
  rw [Function.comp_apply, Function.comp_apply, hstaged c hc]

end Progress

namespace Outcome

def value? {α : Type} : Outcome α → Option α
  | ok value => some value
  | fault _ => none
  | exhausted => none

theorem eq_ok_of_value? {α : Type} {o : Outcome α} {a : α} (h : o.value? = some a) : o = .ok a := by
  cases o with
  | ok value => exact congrArg _ (Option.some.inj h)
  | fault fault => cases h
  | exhausted => cases h

end Outcome

/-- Whatever ids are drawn and whichever pictures can be had: the images among the parts have
different ids, the map has these and no others, the entry of the one that comes k-th has the number k,
and the parts are those of the paragraphs. -/
theorem extract_numbered [Image.Library] {archive : Option Zip.Archive} {folder : Folder} {draws : Draws}
    {s : Progress} (h : extract archive folder draws = .ok s) :
    let ids := imageIds s.done.parts
    ids.Nodup ∧ s.done.images.entries.map (·.1) = ids ∧
    (∀ k id, ids[k]? = some id →
      ∃ e, s.done.images.find? id = some e ∧ e.sourceIndex = k + 1) ∧
    (∃ p paragraphs, Package.ofFile archive = .ok p ∧ paragraphsOf p = .ok paragraphs ∧
      PartsOf paragraphs s.done.parts) ∧
    s.done.images.stagedCount = ids.countP fun id => (s.done.images.staged? id).isSome := by
  obtain ⟨p, paragraphs, ps, hp, hparagraphs, hmarks, hnumbered, hs⟩ := extract_ok h
  rw [hs]
  refine ⟨?_, Progress.keys_ofPieces p folder s.draws ps, ?_, ?_, ?_⟩
  · rw [Progress.ofPieces, Piece.imageIds_map_part]
    exact hnumbered.nodup
  · intro k id hid
    exact Progress.sourceIndex_ofPieces p folder s.draws hnumbered hid
  · exact ⟨p, paragraphs, hp, hparagraphs, Piece.partsOf hmarks⟩
  · exact Progress.stagedCount_ofPieces p folder s.draws hnumbered

/-- Two drawings around a blank text; the second is drawn a taken id twice and has no picture. -/
theorem extract_numbered_drawings :
    let archive : Zip.Archive := .ofMembers [
      ("word/document.xml", Bytes.ofString
        ("<body><p><r><t>x</t></r><drawing><blip embed='a'/></drawing></p>" ++
          "<p><r><t> </t></r><drawing/></p></body>")),
      ("word/_rels/document.xml.rels", Bytes.ofString "<Relationship Id='a' Target='i.gif'/>"),
      ("word/i.gif", ⟨#[71, 73, 70, 56, 57, 97, 2, 0, 3, 0, 0, 0, 0, 44, 0]⟩)]
    let parts : List Part := [.paragraph "x", .image "img_00000001", .image "img_00000002"]
    ∃ s, extract archive ⟨"dir", [], fun _ => true⟩ [1, 1, 1, 2] = .ok s ∧ s.done.parts = parts ∧
      s.done.images.entries.map (·.1) = ["img_00000001", "img_00000002"] ∧
      (∃ e, s.done.images.find? "img_00000002" = some e ∧ e.sourceIndex = 2) ∧
      PartsOf [⟨"x", [some "a"]⟩, ⟨" ", [none]⟩] parts ∧ s.done.images.stagedCount = 1 := by
  intro archive parts
  have hextract : (extract archive ⟨"dir", [], fun _ => true⟩ [1, 1, 1, 2]).value?.map
      (fun s => (s.done.parts, s.done.images.stagedCount)) = some (parts, 1) := by decide +kernel
  have hbody : ((Package.ofFile archive).toOption.bind fun p => (paragraphsOf p).toOption) =
      some [⟨"x", [some "a"]⟩, ⟨" ", [none]⟩] := by decide +kernel
  obtain ⟨s, hs, he⟩ := Option.map_eq_some_iff.1 hextract
  have hs := Outcome.eq_ok_of_value? hs
  obtain ⟨hdone, hcount⟩ := Prod.mk.inj he
  obtain ⟨-, hkeys, hnumbers, ⟨p, paragraphs, hp, hparagraphs, hparts⟩, -⟩ := extract_numbered hs
  rw [hp] at hbody
  have hbody : (paragraphsOf p).toOption = _ := hbody
  rw [hparagraphs] at hbody
  have hbody := Option.some.inj hbody
  rw [hdone] at hkeys hnumbers hparts
  exact ⟨s, hs, hdone, hkeys, hnumbers 1 _ rfl, hbody ▸ hparts, hcount⟩

end Inkpress.Document
