import Inkpress.Proofs.Body.Drawings

namespace Inkpress.Body

open Xml (Tag Event)

/-- The depths that a paragraph keeps are those of open elements of their names. -/
structure OpenParagraph.Points (p : OpenParagraph) (opened : List (List Char)) : Prop where
  inBody : 0 < p.depth ∧ opened[p.depth - 1]? = some "body".toList
  paragraph : opened[p.depth]? = some "p".toList
  drawing : ∀ d ∈ p.drawing,
    p.depth < d ∧ opened[d]? = some "drawing".toList ∧ p.read.drawings ≠ []

theorem getElem?_dropLast_of_ne {opened : List (List Char)} {n : Nat} (hn : n < opened.length)
    (hne : n ≠ opened.dropLast.length) : opened.dropLast[n]? = opened[n]? := by
  rw [List.length_dropLast] at hne
  rw [List.getElem?_dropLast, if_pos (by omega)]

namespace OpenParagraph

variable {p : OpenParagraph}

theorem mem_drawing_close {n d : Nat} : d ∈ (p.close n).drawing ↔ d ∈ p.drawing ∧ d ≠ n := by
  rw [close]
  split
  · next hn => simp [hn, eq_comm]
  · next hn =>
      refine ⟨fun hd => ⟨hd, ?_⟩, And.left⟩
      rintro rfl
      exact hn hd

end OpenParagraph

namespace OpenParagraph.Points

variable {p : OpenParagraph} {opened : List (List Char)}

theorem depth_lt (h : p.Points opened) : p.depth < opened.length :=
  (List.getElem?_eq_some_iff.1 h.paragraph).1

theorem drawing_lt (h : p.Points opened) : ∀ d ∈ p.drawing, d < opened.length :=
  fun d hd => (List.getElem?_eq_some_iff.1 (h.drawing d hd).2.1).1

theorem append (h : p.Points opened) (s : String) : (p.append s).Points opened :=
  ⟨h.inBody, h.paragraph, h.drawing⟩

theorem begin (h : opened.getLast? = some "body".toList) :
    (⟨opened.length, none, .empty⟩ : OpenParagraph).Points (opened ++ ["p".toList]) where
  inBody := by
    rw [List.getLast?_eq_getElem?] at h
    have hlt := (List.getElem?_eq_some_iff.1 h).1
    refine ⟨Nat.zero_lt_of_lt hlt, ?_⟩
    rw [List.getElem?_append_left hlt]
    exact h
  paragraph := List.getElem?_concat_length
  drawing d hd := by cases hd

theorem element (h : p.Points opened) {opened' : List (List Char)} {tag : Tag} {opens : Bool}
    (hkept : ∀ n < opened.length, opened'[n]? = opened[n]?)
    (hopens : opens → opened'[opened.length]? = some tag.localName) :
    (p.element opened tag opens).Points opened' where
  inBody := by
    rw [depth_element, hkept _ (Nat.lt_of_le_of_lt (Nat.sub_le _ _) h.depth_lt)]
    exact h.inBody
  paragraph := by
    rw [depth_element, hkept _ h.depth_lt]
    exact h.paragraph
  drawing d hd := by
    -- A drawing that opens takes the depth of its element; any other keeps its own.
    rw [drawing_element] at hd
    rw [depth_element, drawings_element]
    split at hd
    · next hnew =>
        obtain ⟨htag, hopen⟩ := Bool.and_eq_true_iff.1 hnew
        obtain rfl := Option.some.inj hd
        refine ⟨h.depth_lt, ?_, ?_⟩
        · rw [hopens hopen, of_decide_eq_true htag]
        · rw [if_pos htag]
          exact List.concat_ne_nil _ _
    · obtain ⟨hlt, hname, hne⟩ := h.drawing d hd
      refine ⟨hlt, ?_, ?_⟩
      · rw [hkept d (h.drawing_lt d hd), hname]
      · split
        · exact List.concat_ne_nil _ _
        · rw [← List.length_pos_iff, length_fill]
          exact List.length_pos_iff.2 hne

theorem close (h : p.Points opened) (hdepth : p.depth ≠ opened.dropLast.length) :
    (p.close opened.dropLast.length).Points opened.dropLast where
  inBody := by
    have hlt := h.depth_lt
    rw [List.length_dropLast] at hdepth
    rw [depth_close, getElem?_dropLast_of_ne (by omega) (by rw [List.length_dropLast]; omega)]
    exact h.inBody
  paragraph := by
    rw [depth_close, getElem?_dropLast_of_ne h.depth_lt hdepth]
    exact h.paragraph
  drawing d hd := by
    -- The drawing that closes is forgotten, so any other is still open.
    obtain ⟨hd, hne⟩ := mem_drawing_close.1 hd
    rw [depth_close, read_close, getElem?_dropLast_of_ne (h.drawing_lt d hd) hne]
    exact h.drawing d hd

end OpenParagraph.Points

def Walk.Points (w : Walk) : Prop :=
  ∀ p ∈ w.current, p.Points w.opened

namespace Walk.Points

variable {w v : Walk}

theorem start : Walk.start.Points := fun _ hp => by cases hp

theorem step_start (h : w.Points) {tag : Tag} (hv : w.step (.start tag) = .ok v) : v.Points := by
  obtain ⟨opened, current, collected⟩ := w
  cases hv
  intro p hp
  cases current with
  | some q =>
      obtain rfl := Option.some.inj hp
      exact (h q rfl).element (fun n hn => List.getElem?_append_left hn)
        (fun _ => List.getElem?_concat_length)
  | none =>
      dsimp only at hp
      split at hp
      · next hbegins =>
          obtain ⟨hname, hbody⟩ := beginsParagraph_iff.1 hbegins
          obtain rfl := Option.some.inj hp
          rw [hname]
          exact .begin hbody
      · cases hp

theorem step_empty (h : w.Points) {tag : Tag} (hv : w.step (.empty tag) = .ok v) : v.Points := by
  obtain ⟨opened, current, collected⟩ := w
  cases current with
  | some q =>
      cases hv
      intro p hp
      obtain rfl := Option.some.inj hp
      exact (h q rfl).element (fun _ _ => rfl) Bool.noConfusion
  | none =>
      cases hv
      intro p hp
      split at hp <;> cases hp

theorem step_text (h : w.Points) {raw : List Char} (hv : w.step (.text raw) = .ok v) : v.Points := by
  obtain ⟨opened, current, collected⟩ := w
  cases current with
  | some q =>
      simp only [step] at hv
      split at hv
      · split at hv
        · next cs hcs =>
            cases hv
            intro p hp
            obtain rfl := Option.some.inj hp
            exact (h q rfl).append _
        · cases hv
      · cases hv
        exact h
  | none =>
      cases hv
      exact h

theorem step_stop (h : w.Points) (hv : w.step .stop = .ok v) : v.Points := by
  obtain ⟨opened, current, collected⟩ := w
  cases current with
  | some q =>
      simp only [step] at hv
      split at hv
      · cases hv
        intro p hp
        cases hp
      · next hdepth =>
          cases hv
          intro p hp
          obtain rfl := Option.some.inj hp
          rw [OpenParagraph.depth_close] at hdepth
          exact (h q rfl).close hdepth
  | none =>
      cases hv
      intro p hp
      cases hp

theorem step (h : w.Points) {e : Event} (hv : w.step e = .ok v) : v.Points := by
  cases e with
  | start tag => exact h.step_start hv
  | empty tag => exact h.step_empty hv
  | text raw => exact h.step_text hv
  | stop => exact h.step_stop hv
  | fault => cases hv

theorem run (h : w.Points) {es : List Event} (hv : w.run es = .ok v) : v.Points :=
  run_induction h step hv

end Walk.Points

end Inkpress.Body
