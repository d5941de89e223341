import Inkpress.Proofs.Document.Pieces
import Mathlib.Data.Finset.Card

namespace Inkpress.Document

namespace ImageId

theorem hexDigit_inj : ∀ m n : Fin 16, Json.hexDigit m = Json.hexDigit n → m = n := by decide

theorem hexDigits_inj {n x y : Nat} (hx : x < Nat.pow 16 n) (hy : y < Nat.pow 16 n)
    (h : hexDigits n x = hexDigits n y) : x = y := by
  induction n generalizing x y with
  | zero =>
      change x < 1 at hx
      change y < 1 at hy
      omega
  | succ n ih =>
      change x < Nat.pow 16 n * 16 at hx
      change y < Nat.pow 16 n * 16 at hy
      rw [hexDigits, hexDigits] at h
      obtain ⟨hhigh, hlow⟩ := List.append_inj' h rfl
      have hhigh : x / 16 = y / 16 := ih (by omega) (by omega) hhigh
      have hlow : x % 16 = y % 16 := congrArg Fin.val (hexDigit_inj
        ⟨x % 16, Nat.mod_lt x (by decide)⟩ ⟨y % 16, Nat.mod_lt y (by decide)⟩
        (List.singleton_inj.1 hlow))
      omega

theorem ofDraw_inj {m n : UInt32} (h : ofDraw m = ofDraw n) : m = n := by
  have hlist := List.append_cancel_left (String.ofList_injective h)
  have hbound (k : UInt32) : k.toNat < Nat.pow 16 8 := k.toNat_lt
  exact UInt32.toNat_inj.1 (hexDigits_inj (hbound m) (hbound n) hlist)

def free (taken : String → Bool) (draws : Draws) : Finset UInt32 :=
  {n ∈ draws.toFinset | taken (ofDraw n) = false}

theorem mem_free {taken : String → Bool} {draws : Draws} {n : UInt32} :
    n ∈ free taken draws ↔ n ∈ draws ∧ taken (ofDraw n) = false := by
  rw [free, Finset.mem_filter, List.mem_toFinset]

/-- An id can be drawn as long as a draw is free; all other free draws are still to come. -/
theorem exists_fresh? {taken : String → Bool} {draws : Draws} (h : 0 < (free taken draws).card) :
    ∃ n rest, fresh? taken draws = some (ofDraw n, rest) ∧
      (free taken draws).erase n ⊆ free taken rest := by
  induction draws with
  | nil =>
      rw [free, List.toFinset_nil, Finset.filter_empty] at h
      cases h
  | cons m draws ih =>
      rw [fresh?]
      cases hm : taken (ofDraw m) with
      | true =>
          have hfree : free taken (m :: draws) = free taken draws := by
            ext n
            rw [mem_free, mem_free, List.mem_cons]
            constructor
            · rintro ⟨rfl | hn, hfree⟩
              · rw [hm] at hfree
                cases hfree
              · exact ⟨hn, hfree⟩
            · rintro ⟨hn, hfree⟩
              exact ⟨.inr hn, hfree⟩
          rw [hfree] at h ⊢
          exact ih h
      | false =>
          refine ⟨m, draws, rfl, ?_⟩
          intro n hn
          obtain ⟨hne, hn⟩ := Finset.mem_erase.1 hn
          obtain ⟨hn, hfree⟩ := mem_free.1 hn
          exact mem_free.2 ⟨(List.mem_cons.1 hn).resolve_left hne, hfree⟩

end ImageId

def Mark.isDrawing : Mark → Bool
  | text _ => false
  | drawing _ => true

def drawingCount (paragraphs : List Body.Paragraph) : Nat :=
  (paragraphs.flatMap (·.drawings)).length

theorem countP_isDrawing (paragraphs : List Body.Paragraph) :
    (paragraphs.flatMap marksOf).countP Mark.isDrawing = drawingCount paragraphs := by
  induction paragraphs with
  | nil => rfl
  | cons q qs ih =>
      have hq : (marksOf q).countP Mark.isDrawing = q.drawings.length := by
        rw [marksOf, List.countP_append, List.countP_map]
        cases q.isBlank <;> simp [Mark.isDrawing, Function.comp_def]
      rw [List.flatMap_cons, List.countP_append, hq, ih, drawingCount, drawingCount,
        List.flatMap_cons, List.length_append]

namespace Progress

def isTaken (s : Progress) (id : String) : Bool :=
  (s.done.images.find? id).isSome

def freeDraws (s : Progress) : Finset UInt32 :=
  ImageId.free s.isTaken s.draws

theorem drawing_of_fresh? [Image.Library] {p : Package} {s : Progress} {id : String} {rest : Draws}
    (h : ImageId.fresh? s.isTaken s.draws = some (id, rest)) (embed : Option String) :
    ∃ t, s.drawing p embed = some t ∧ t.draws = rest ∧
      ∀ k, t.isTaken k = (decide (k = id) || s.isTaken k) := by
  have hinsert (e : ImageEntry) (k : String) : ((s.done.images.insert id e).find? k).isSome =
      (decide (k = id) || s.isTaken k) := by
    rw [Table.find?_insert]
    by_cases hk : k = id
    · rw [if_pos hk, decide_eq_true hk]
      rfl
    · rw [if_neg hk, decide_eq_false hk]
      rfl
  have hfresh : ImageId.fresh? (fun id => (s.done.images.find? id).isSome) s.draws =
      some (id, rest) := h
  rw [drawing, hfresh]
  exact ⟨_, rfl, rfl, hinsert _⟩

theorem exists_drawing [Image.Library] {p : Package} {s : Progress} (h : 0 < s.freeDraws.card) (embed : Option String) :
    ∃ t, s.drawing p embed = some t ∧ s.freeDraws.card ≤ t.freeDraws.card + 1 := by
  obtain ⟨n, rest, hfresh, hrest⟩ := ImageId.exists_fresh? h
  obtain ⟨t, ht, hdraws, htaken⟩ := drawing_of_fresh? (p := p) hfresh embed
  have hsub : s.freeDraws.erase n ⊆ t.freeDraws := by
    intro m hm
    obtain ⟨hdraw, hfree⟩ := ImageId.mem_free.1 (hrest hm)
    have hne : ImageId.ofDraw m ≠ ImageId.ofDraw n :=
      fun he => (Finset.mem_erase.1 hm).1 (ImageId.ofDraw_inj he)
    refine ImageId.mem_free.2 ⟨hdraws ▸ hdraw, ?_⟩
    rw [htaken, hfree, decide_eq_false hne]
    rfl
  have hcard := Finset.card_le_card hsub
  have herase := Finset.pred_card_le_card_erase (s := s.freeDraws) (a := n)
  exact ⟨t, ht, by omega⟩

theorem exists_foldlM_mark [Image.Library] {p : Package} {ms : List Mark} {s : Progress}
    (h : ms.countP Mark.isDrawing ≤ s.freeDraws.card) : ∃ t, ms.foldlM (mark p) s = some t := by
  induction ms generalizing s with
  | nil => exact ⟨s, rfl⟩
  | cons m ms ih =>
      cases m with
      | text t => exact ih (s := { s with done.parts := s.done.parts ++ [.paragraph t] }) h
      | drawing embed =>
          rw [List.countP_cons_of_pos rfl] at h
          obtain ⟨t, ht, hcard⟩ := exists_drawing (p := p) (s := s) (by omega) embed
          obtain ⟨u, hu⟩ := ih (s := t) (by omega)
          refine ⟨u, ?_⟩
          have ht : mark p s (.drawing embed) = some t := ht
          rw [List.foldlM_cons, ht]
          exact hu

theorem freeDraws_start (folder : Folder) (draws : Draws) :
    (start folder draws).freeDraws = draws.toFinset :=
  Finset.filter_true_of_mem fun _ _ => rfl

end Progress

section

variable [Image.Library] {archive : Option Zip.Archive} {p : Package} (hp : Package.ofFile archive = .ok p)
  (folder : Folder) {draws : Draws}

include hp

theorem extract_of_fault {fault : Fault} (h : paragraphsOf p = .error fault) (draws : Draws) :
    extract archive folder draws = .fault fault := by
  simp only [extract, hp, Except.mapError, h]

theorem exists_extract_ok {paragraphs : List Body.Paragraph}
    (h : paragraphsOf p = .ok paragraphs) (hdraws : drawingCount paragraphs ≤ draws.toFinset.card) :
    ∃ s, extract archive folder draws = .ok s := by
  rw [← countP_isDrawing, ← Progress.freeDraws_start folder] at hdraws
  obtain ⟨s, hs⟩ := Progress.exists_foldlM_mark (p := p) hdraws
  refine ⟨s, ?_⟩
  simp only [extract, hp, Except.mapError, h, Progress.foldlM_paragraph, hs]

end

end Inkpress.Document
