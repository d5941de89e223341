import Inkpress.Proofs.Document.Staging
import Inkpress.Proofs.Table

namespace Inkpress.Document

inductive Mark
  | text (s : String)
  | drawing (embed : Option String)

/-- The text of a paragraph, unless it is blank, and then its drawings. -/
def marksOf (q : Body.Paragraph) : List Mark :=
  (if q.isBlank then [] else [.text q.text]) ++ q.drawings.map .drawing

structure Slot where
  id : String
  number : Nat
  embed : Option String

inductive Piece
  | text (s : String)
  | drawing (c : Slot)

namespace Piece

def mark : Piece → Mark
  | text s => .text s
  | drawing c => .drawing c.embed

def part : Piece → Part
  | text s => .paragraph s
  | drawing c => .image c.id

def slot? : Piece → Option Slot
  | text _ => none
  | drawing c => some c

end Piece

def slotsOf (ps : List Piece) : List Slot :=
  ps.filterMap Piece.slot?

theorem slotsOf_text (ps : List Piece) (t : String) : slotsOf (ps ++ [.text t]) = slotsOf ps := by
  rw [slotsOf, List.filterMap_append]
  exact List.append_nil _

theorem slotsOf_drawing (ps : List Piece) (c : Slot) :
    slotsOf (ps ++ [.drawing c]) = slotsOf ps ++ [c] := by
  rw [slotsOf, List.filterMap_append]
  rfl

section

variable [Image.Library] (p : Package) (folder : Folder)

namespace Slot

def entry (c : Slot) : ImageEntry :=
  ⟨c.number, (pictureOf p folder c.embed c.id).map (·.1)⟩

def write (files : List (String × ByteArray)) (c : Slot) : List (String × ByteArray) :=
  match pictureOf p folder c.embed c.id with
  | some (s, data) => Assoc.put s.fileName data files
  | none => files

end Slot

/-- Where an extraction stands after some pieces. -/
def Progress.ofPieces (ps : List Piece) (draws : Draws) : Progress :=
  let slots := slotsOf ps
  { done := ⟨ps.map Piece.part, ⟨slots.map fun c => (c.id, c.entry p folder)⟩⟩
    drawings := slots.length
    folder := { folder with files := slots.foldl (Slot.write p folder) folder.files }
    draws }

end

/-- Ids were drawn and none twice, and drawings are counted from 1. -/
structure Numbered (slots : List Slot) : Prop where
  drawn : ∀ c ∈ slots, ∃ n, c.id = ImageId.ofDraw n
  ids : slots.Pairwise fun c d => c.id ≠ d.id
  numbers : slots.map (·.number) = List.range' 1 slots.length

namespace Progress

theorem find?_map_of_mem {α β : Type} {key : α → String} (f : α → β) {l : List α}
    (h : l.Pairwise fun a b => key a ≠ key b) {a : α} (ha : a ∈ l) :
    (Table.mk (l.map fun a => (key a, f a))).find? (key a) = some (f a) := by
  induction l with
  | nil => cases ha
  | cons b l ih =>
      obtain ⟨hb, hl⟩ := List.pairwise_cons.1 h
      rcases List.mem_cons.1 ha with rfl | ha
      · simp [Table.find?]
      · simpa [Table.find?, hb a ha] using ih hl ha

theorem numbered_snoc {ps : List Piece} (h : Numbered (slotsOf ps)) {n : UInt32}
    (hnew : ∀ c ∈ slotsOf ps, c.id ≠ ImageId.ofDraw n) (embed : Option String) :
    Numbered (slotsOf ps ++ [⟨ImageId.ofDraw n, (slotsOf ps).length + 1, embed⟩]) := by
  refine ⟨?_, ?_, ?_⟩
  · intro c hc
    rcases List.mem_append.1 hc with hc | hc
    · exact h.drawn c hc
    · obtain rfl := List.mem_singleton.1 hc
      exact ⟨n, rfl⟩
  · rw [List.pairwise_append]
    refine ⟨h.ids, List.pairwise_singleton _ _, ?_⟩
    intro c hc d hd
    obtain rfl := List.mem_singleton.1 hd
    exact hnew c hc
  · rw [List.map_append, h.numbers, List.length_append, List.length_singleton,
      List.range'_1_concat, Nat.add_comm 1]
    rfl

variable [Image.Library]

def mark (p : Package) (s : Progress) : Mark → Option Progress
  | .text t => some { s with done.parts := s.done.parts ++ [.paragraph t] }
  | .drawing embed => s.drawing p embed

variable {p : Package} {folder : Folder}

theorem foldlM_drawing (p : Package) (s : Progress) (embeds : List (Option String)) :
    embeds.foldlM (drawing p) s = (embeds.map Mark.drawing).foldlM (mark p) s := by
  rw [List.foldlM_map]
  rfl

theorem paragraph_eq (p : Package) (s : Progress) (q : Body.Paragraph) :
    s.paragraph p q = (marksOf q).foldlM (mark p) s := by
  rw [paragraph, marksOf, List.foldlM_append]
  split <;> rw [foldlM_drawing] <;> rfl

theorem foldlM_paragraph (p : Package) (s : Progress) (qs : List Body.Paragraph) :
    qs.foldlM (paragraph p) s = (qs.flatMap marksOf).foldlM (mark p) s := by
  induction qs generalizing s with
  | nil => rfl
  | cons q qs ih =>
      rw [List.foldlM_cons, List.flatMap_cons, List.foldlM_append, paragraph_eq]
      congr 1
      funext s
      exact ih s

theorem ofPieces_text (ps : List Piece) (draws : Draws) (t : String) :
    ofPieces p folder (ps ++ [.text t]) draws =
      { ofPieces p folder ps draws with
        done.parts := (ofPieces p folder ps draws).done.parts ++ [.paragraph t] } := by
  simp only [ofPieces, slotsOf_text, List.map_append]
  rfl

theorem ofPieces_drawing (ps : List Piece) (draws draws' : Draws) (c : Slot) :
    let s := ofPieces p folder ps draws
    ofPieces p folder (ps ++ [.drawing c]) draws' =
      { done := ⟨s.done.parts ++ [.image c.id], ⟨s.done.images.entries ++ [(c.id, c.entry p folder)]⟩⟩
        drawings := s.drawings + 1
        folder := { s.folder with files := c.write p folder s.folder.files }
        draws := draws' } := by
  simp only [ofPieces, slotsOf_drawing, List.map_append, List.length_append, List.foldl_append]
  rfl

/-- A drawing comes last, under an id that is new, with its picture if it has one. -/
theorem drawing_of_new {s : Progress} {id : String} {rest : Draws}
    (hfresh : ImageId.fresh? (fun id => (s.done.images.find? id).isSome) s.draws = some (id, rest))
    (hnew : s.done.images.find? id = none) (embed : Option String) :
    let c : Slot := ⟨id, s.drawings + 1, embed⟩
    s.drawing p embed = some {
      done := ⟨s.done.parts ++ [.image id], ⟨s.done.images.entries ++ [(id, c.entry p s.folder)]⟩⟩
      drawings := s.drawings + 1
      folder := { s.folder with files := c.write p s.folder s.folder.files }
      draws := rest } := by
  intro c
  have hstage := stage_eq p embed id s.folder
  have hinsert := Table.insert_of_find?_eq_none hnew
  rw [drawing, hfresh]
  cases hp : stage p embed id s.folder with
  | error fault =>
      have hnone : pictureOf p s.folder embed id = none := by
        simpa [hp, Except.toOption] using hstage.symm
      simp only [Option.bind_eq_bind, Option.bind_some, hp, hinsert, c, Slot.entry, Slot.write, hnone]
      rfl
  | ok staged =>
      rw [hp] at hstage
      obtain ⟨⟨image, data⟩, hsome, rfl⟩ := Option.map_eq_some_iff.1 hstage.symm
      simp only [Option.bind_eq_bind, Option.bind_some, hp, hinsert, c, Slot.entry, Slot.write, hsome]
      rfl

theorem mark_ofPieces {ps : List Piece} {draws : Draws} {m : Mark} {s : Progress}
    (hps : Numbered (slotsOf ps)) (h : (ofPieces p folder ps draws).mark p m = some s) :
    ∃ q : Piece, q.mark = m ∧ Numbered (slotsOf (ps ++ [q])) ∧
      s = ofPieces p folder (ps ++ [q]) s.draws := by
  cases m with
  | text t =>
      refine ⟨.text t, rfl, by rwa [slotsOf_text], ?_⟩
      rw [mark, Option.some.injEq] at h
      rw [ofPieces_text, ← h]
      rfl
  | drawing embed =>
      obtain ⟨⟨id, rest⟩, hfresh, -⟩ := Option.bind_eq_some_iff.1 h
      obtain ⟨n, rfl⟩ := ImageId.exists_draw_of_fresh? hfresh
      have hfree : (ofPieces p folder ps draws).done.images.find? (ImageId.ofDraw n) = none := by
        simpa using ImageId.not_taken_of_fresh? hfresh
      have hnew : ∀ d ∈ slotsOf ps, d.id ≠ ImageId.ofDraw n := by
        simpa [ofPieces, Table.find?] using hfree
      obtain rfl := Option.some.inj ((drawing_of_new hfresh hfree embed).symm.trans h)
      refine ⟨.drawing ⟨ImageId.ofDraw n, (slotsOf ps).length + 1, embed⟩, rfl, ?_, ?_⟩
      · rw [slotsOf_drawing]
        exact numbered_snoc hps hnew embed
      · rw [ofPieces_drawing ps draws]
        rfl

theorem foldlM_mark (ps : List Piece) {draws : Draws} {ms : List Mark} {s : Progress}
    (hps : Numbered (slotsOf ps))
    (h : ms.foldlM (mark p) (ofPieces p folder ps draws) = some s) :
    ∃ qs : List Piece, qs.map Piece.mark = ms ∧ Numbered (slotsOf (ps ++ qs)) ∧
      s = ofPieces p folder (ps ++ qs) s.draws := by
  induction ms generalizing ps draws with
  | nil =>
      refine ⟨[], rfl, by rwa [List.append_nil], ?_⟩
      rw [List.append_nil, ← Option.some.inj h]
      rfl
  | cons m ms ih =>
      rw [List.foldlM_cons] at h
      obtain ⟨u, hu, h⟩ := Option.bind_eq_some_iff.1 h
      obtain ⟨q, hq, hps, hu⟩ := mark_ofPieces hps hu
      rw [hu] at h
      obtain ⟨qs, hqs, hps, hs⟩ := ih (ps ++ [q]) hps h
      refine ⟨q :: qs, by rw [List.map_cons, hq, hqs], ?_⟩
      rw [List.append_cons]
      exact ⟨hps, hs⟩

theorem staged?_ofPieces {ps : List Piece} (hps : Numbered (slotsOf ps)) (draws : Draws) {c : Slot}
    (hc : c ∈ slotsOf ps) : (ofPieces p folder ps draws).done.images.staged? c.id =
      (pictureOf p folder c.embed c.id).map (·.1) := by
  have hfind := find?_map_of_mem (fun c => c.entry p folder) hps.ids hc
  simp only [ofPieces, ImageMap.staged?, hfind]
  rfl

theorem find?_write (c : Slot) (files : List (String × ByteArray)) (name : String) :
    (Table.mk (c.write p folder files)).find? name =
      match pictureOf p folder c.embed c.id with
      | some (s, data) => if name = s.fileName then some data else (Table.mk files).find? name
      | none => (Table.mk files).find? name := by
  rw [Slot.write]
  split
  · next s data hpicture =>
      exact Table.find?_insert ⟨files⟩ s.fileName data name
  · rfl

theorem find?_foldl_write {slots : List Slot} {name : String}
    (h : ∀ c ∈ slots, ∀ s data, pictureOf p folder c.embed c.id = some (s, data) →
      name ≠ s.fileName) (files : List (String × ByteArray)) :
    (Table.mk (slots.foldl (Slot.write p folder) files)).find? name =
      (Table.mk files).find? name := by
  induction slots generalizing files with
  | nil => rfl
  | cons c slots ih =>
      obtain ⟨hc, hslots⟩ := List.forall_mem_cons.1 h
      rw [List.foldl_cons, ih hslots, find?_write]
      split
      · next s data hpicture => rw [if_neg (hc s data hpicture)]
      · rfl

theorem fileName_ne {c d : Slot} (hc : ∃ n, c.id = ImageId.ofDraw n)
    (hd : ∃ n, d.id = ImageId.ofDraw n) (hne : c.id ≠ d.id) {s s' : StagedImage}
    {data data' : ByteArray} (hs : pictureOf p folder c.embed c.id = some (s, data))
    (hs' : pictureOf p folder d.embed d.id = some (s', data')) : s.fileName ≠ s'.fileName := by
  obtain ⟨m, hm⟩ := hc
  obtain ⟨n, hn⟩ := hd
  obtain ⟨_, _, _, _, _, _, _, _, rfl⟩ := pictureOf_eq_some.1 hs
  obtain ⟨_, _, _, _, _, _, _, _, rfl⟩ := pictureOf_eq_some.1 hs'
  rw [hm, hn] at hne ⊢
  exact fun he => hne (id_eq_of_fileNameOf he)

/-- In the end each file still holds the bytes that were written for its drawing. -/
theorem readPath?_ofPieces {ps : List Piece} (hps : Numbered (slotsOf ps)) (draws : Draws)
    {c : Slot} (hc : c ∈ slotsOf ps) {s : StagedImage} {data : ByteArray}
    (hs : pictureOf p folder c.embed c.id = some (s, data)) :
    (ofPieces p folder ps draws).folder.readPath? s.path = some data := by
  have hpath : s.path = (ofPieces p folder ps draws).folder.pathOf s.fileName := by
    obtain ⟨_, _, _, _, _, _, _, _, rfl⟩ := pictureOf_eq_some.1 hs
    rfl
  obtain ⟨before, after, he⟩ := List.append_of_mem hc
  have hafter : ∀ d ∈ after, c.id ≠ d.id := by
    have hids := hps.ids
    rw [he, List.pairwise_append] at hids
    exact (List.pairwise_cons.1 hids.2.1).1
  have hothers : ∀ d ∈ after, ∀ s' data', pictureOf p folder d.embed d.id = some (s', data') →
      s.fileName ≠ s'.fileName := by
    intro d hd s' data' hs'
    have hdrawn := hps.drawn d (by simp [he, hd])
    exact fileName_ne (hps.drawn c hc) hdrawn (hafter d hd) hs hs'
  rw [hpath, Folder.readPath?_pathOf, ofPieces]
  simp only [he, List.foldl_append, List.foldl_cons]
  rw [find?_foldl_write hothers, find?_write, hs]
  exact if_pos rfl

end Progress

section

variable [Image.Library]

theorem extract_ok {archive : Option Zip.Archive} {folder : Folder} {draws : Draws} {s : Progress}
    (h : extract archive folder draws = .ok s) :
    ∃ p paragraphs ps, Package.ofFile archive = .ok p ∧ paragraphsOf p = .ok paragraphs ∧
      ps.map Piece.mark = paragraphs.flatMap marksOf ∧ Numbered (slotsOf ps) ∧
      s = .ofPieces p folder ps s.draws := by
  rw [extract] at h
  cases hp : Package.ofFile archive with
  | error fault =>
      rw [hp] at h
      cases h
  | ok p =>
      rw [hp] at h
      simp only [Except.mapError] at h
      cases hparagraphs : paragraphsOf p with
      | error fault =>
          rw [hparagraphs] at h
          cases h
      | ok paragraphs =>
          rw [hparagraphs] at h
          simp only at h
          split at h
          · next u hu =>
              obtain rfl : u = s := Outcome.ok.inj h
              rw [Progress.foldlM_paragraph] at hu
              obtain ⟨ps, hps, hnumbered, hu⟩ := Progress.foldlM_mark [] ⟨nofun, .nil, rfl⟩ hu
              exact ⟨p, paragraphs, ps, rfl, hparagraphs, hps, hnumbered, hu⟩
          · cases h

/-- An extraction that comes to an end has a package, paragraphs and a folder, and it has numbered
the pieces of the paragraphs. -/
theorem extractFile_ok {path : String} {source : Source} {staging staging' : Staging}
    {draws : Draws} {s : Progress}
    (h : extractFile path source staging draws = (.ok s, staging')) :
    ∃ archive p paragraphs folder ps, source = .file archive ∧ Package.ofFile archive = .ok p ∧
      paragraphsOf p = .ok paragraphs ∧ staging.create? = some folder ∧
      ps.map Piece.mark = paragraphs.flatMap marksOf ∧ Numbered (slotsOf ps) ∧
      s = .ofPieces p folder ps s.draws := by
  cases source with
  | missing => cases (Prod.mk.inj h).1
  | file archive =>
      simp only [extractFile] at h
      split at h
      · cases (Prod.mk.inj h).1
      · next folder hfolder =>
          split at h
          · next u hu =>
              obtain rfl : u = s := Except.ok.inj (Prod.mk.inj h).1
              obtain ⟨p, paragraphs, ps, hp, hparagraphs, hps, hnumbered, hu⟩ := extract_ok hu
              exact ⟨archive, p, paragraphs, folder, ps, rfl, hp, hparagraphs, hfolder, hps,
                hnumbered, hu⟩
          · cases (Prod.mk.inj h).1
          · cases (Prod.mk.inj h).1

end

end Inkpress.Document
