import Inkpress.Proofs.Body.Indices
import Inkpress.Proofs.Body.Tags
import Inkpress.Proofs.Xml.Respelling
import Mathlib.Logic.Relation

namespace Inkpress.Body

open Xml (Tag Event Alike Respells textEvents WithinReference)

def nestsDrawing (opened : List (List Char)) : Event → Bool
  | .start tag | .empty tag => isDrawing tag && opened.contains "drawing".toList
  | .text _ | .stop | .fault => false

/-- Whether no drawing begins inside another, given the local names of the elements around. -/
def drawingsApart (opened : List (List Char)) : List Event → Bool
  | [] => true
  | e :: es => !nestsDrawing opened e && drawingsApart (openedAfter opened e) es

theorem drawingsApart_textEvents (opened : List (List Char)) (raw : List Char) (es : List Event) :
    drawingsApart opened (textEvents raw ++ es) = drawingsApart opened es := by
  rw [textEvents]
  split <;> rfl

theorem drawingsApart_alike {es es' : List Event} (h : Alike es es') (opened : List (List Char))
    (after : List Event) : drawingsApart opened (es' ++ after) = drawingsApart opened (es ++ after) := by
  cases h with
  | element tag =>
      simp only [List.cons_append, List.nil_append, drawingsApart, openedAfter, nestsDrawing,
        List.dropLast_concat, Bool.not_false, Bool.true_and]
  | text h => simp only [List.append_assoc, drawingsApart_textEvents]

theorem drawingsApart_append {es es' : List Event}
    (h : ∀ opened, drawingsApart opened es' = drawingsApart opened es) (before : List Event)
    (opened : List (List Char)) :
    drawingsApart opened (before ++ es') = drawingsApart opened (before ++ es) := by
  induction before generalizing opened with
  | nil => exact h opened
  | cons e before ih => rw [List.cons_append, List.cons_append, drawingsApart, drawingsApart, ih]

theorem drawingsApart_respells {cs cs' : List Char} (h : Respells cs cs') :
    drawingsApart [] (Xml.events cs') = drawingsApart [] (Xml.events cs) := by
  obtain ⟨before, es, es', after, halike, hcs, hcs'⟩ := h.events
  rw [hcs, hcs']
  exact drawingsApart_append (fun opened => drawingsApart_alike halike opened after) before []

namespace OpenParagraph

variable {p : OpenParagraph} {opened : List (List Char)}

theorem append_append (s t : String) : (p.append s).append t = p.append (s ++ t) := by
  simp only [append, String.append_assoc]

theorem close_element (h : p.Points opened) {tag : Tag}
    (hapart : nestsDrawing opened (.empty tag) = false) :
    (p.element opened tag true).close opened.length = p.element opened tag false := by
  by_cases htag : isDrawing tag = true
  -- A drawing that is open has its name among those around, so there is none here.
  · have hdrawing : p.drawing = none := by
      cases hd : p.drawing with
      | none => rfl
      | some d =>
          have hmem : "drawing".toList ∈ opened := List.mem_of_getElem? (h.drawing d hd).2.1
          rw [nestsDrawing, htag, List.contains_iff_mem.2 hmem] at hapart
          cases hapart
    have hname : tag.localName = "drawing".toList := of_decide_eq_true htag
    simp [element, close, hname, hdrawing]
  · have hsame : p.element opened tag true = p.element opened tag false := by
      have hname : tag.localName ≠ "drawing".toList := fun hname => htag (decide_eq_true hname)
      simp only [element, if_neg hname]
    have hdrawing : (p.element opened tag false).drawing = p.drawing := by
      rw [drawing_element, Bool.and_false]
      rfl
    rw [hsame, close_of_lt (hdrawing ▸ h.drawing_lt)]

end OpenParagraph

namespace Walk

variable {w v : Walk}

theorem run_element (h : w.Points) {tag : Tag} (hapart : nestsDrawing w.opened (.empty tag) = false) :
    w.run [.start tag, .stop] = w.run [.empty tag] := by
  obtain ⟨opened, current, collected⟩ := w
  rw [run_singleton]
  cases current with
  | some p =>
      have hp := h p rfl
      have hstart : step ⟨opened, some p, collected⟩ (.start tag) =
          .ok ⟨opened ++ [tag.localName], some (p.element opened tag true), collected⟩ := rfl
      have hdepth : (p.element opened tag false).depth ≠ opened.length := by
        rw [OpenParagraph.depth_element]
        exact Nat.ne_of_lt hp.depth_lt
      rw [run_cons hstart, run_singleton]
      simp only [step, List.dropLast_concat, OpenParagraph.close_element hp hapart, if_neg hdepth]
  | none =>
      have hstart : step ⟨opened, none, collected⟩ (.start tag) = .ok ⟨opened ++ [tag.localName],
          if beginsParagraph ⟨opened, none, collected⟩ tag then some ⟨opened.length, none, .empty⟩
          else none, collected⟩ := rfl
      rw [run_cons hstart, run_singleton]
      by_cases hbegins : beginsParagraph ⟨opened, none, collected⟩ tag
      · simp only [hbegins, if_true, step, List.dropLast_concat, OpenParagraph.close, reduceCtorEq,
          if_false]
      · simp only [hbegins, step, List.dropLast_concat, Bool.false_eq_true, if_false]

theorem run_textEvents (raw : List Char) : w.run (textEvents raw) = w.step (.text raw) := by
  rw [textEvents]
  split
  · next hraw =>
      obtain rfl := List.isEmpty_iff.1 hraw
      obtain ⟨opened, current, collected⟩ := w
      cases current with
      | some p =>
          have hnil : p.append (String.ofList []) = p := by
            simp only [OpenParagraph.append, String.ofList_nil, String.append_empty]
          have hunescape : Xml.unescape [] = some [] := rfl
          simp only [step, hunescape, hnil, ite_self]
          rfl
      | none => rfl
  · exact w.run_singleton _

section

variable {p : OpenParagraph} {opened : List (List Char)} {collected : List Paragraph} {raw cs : List Char}

theorem step_text_ok (hpath : isTextPath (p.path opened)) (h : Xml.unescape raw = some cs) :
    step ⟨opened, some p, collected⟩ (.text raw) =
      .ok ⟨opened, some (p.append (String.ofList cs)), collected⟩ := by
  simp only [step, hpath, if_true, h]

theorem step_text_error (hpath : isTextPath (p.path opened)) (h : Xml.unescape raw = none) :
    step ⟨opened, some p, collected⟩ (.text raw) = .error .badText := by
  simp only [step, hpath, if_true, h]

theorem step_text_elsewhere (hpath : ¬isTextPath (p.path opened)) :
    step ⟨opened, some p, collected⟩ (.text raw) = .ok ⟨opened, some p, collected⟩ := by
  simp only [step, hpath, Bool.false_eq_true, if_false]

end

theorem run_text {raw raw' : List Char} (h : Xml.unescape (raw ++ raw') =
      (Xml.unescape raw).bind fun cs => (Xml.unescape raw').map (cs ++ ·)) :
    w.run (textEvents raw ++ textEvents raw') = w.run (textEvents (raw ++ raw')) := by
  have hpieces : w.run (textEvents raw ++ textEvents raw') =
      w.step (.text raw) >>= fun u => u.step (.text raw') := by
    rw [run, List.foldlM_append]
    exact congrArg₂ bind (run_textEvents raw) (funext fun u => run_textEvents raw')
  rw [hpieces, run_textEvents]
  -- Between the pieces the path is the same; the whole is a fault just if one of the pieces is.
  obtain ⟨opened, current, collected⟩ := w
  cases current with
  | none => rfl
  | some p =>
      by_cases hpath : isTextPath (p.path opened)
      · cases hraw : Xml.unescape raw with
        | none =>
            rw [hraw] at h
            rw [step_text_error hpath hraw, step_text_error hpath h]
            rfl
        | some cs =>
            have hpath' : isTextPath ((p.append (String.ofList cs)).path opened) := hpath
            rw [hraw] at h
            rw [step_text_ok hpath hraw]
            cases hraw' : Xml.unescape raw' with
            | none =>
                rw [hraw'] at h
                rw [step_text_error hpath h]
                exact step_text_error hpath' hraw'
            | some cs' =>
                rw [hraw'] at h
                rw [step_text_ok hpath h, String.ofList_append, ← OpenParagraph.append_append]
                exact step_text_ok hpath' hraw'
      · rw [step_text_elsewhere hpath, step_text_elsewhere hpath]
        exact step_text_elsewhere hpath

theorem drawingsApart_of_run {es es' : List Event} (hv : w.run es = .ok v)
    (h : drawingsApart w.opened (es ++ es')) : drawingsApart v.opened es' := by
  induction es generalizing w with
  | nil =>
      cases hv
      exact h
  | cons e es ih =>
      obtain ⟨u, hstep, hrun⟩ := exists_step_of_run_cons hv
      apply ih hrun
      rw [opened_eq_of_step hstep]
      exact (Bool.and_eq_true_iff.1 h).2

theorem run_alike {es es' after : List Event} (h : Alike es es') (hw : w.Points)
    (hapart : drawingsApart w.opened (es ++ after)) : w.run (es' ++ after) = w.run (es ++ after) := by
  have hrun : w.run es' = w.run es := by
    cases h with
    | element tag =>
        obtain ⟨hfirst, -⟩ := Bool.and_eq_true_iff.1 hapart
        exact run_element hw (Bool.not_eq_true' _ ▸ hfirst)
    | text h => exact run_text (Xml.unescape_append h)
  rw [run, run, List.foldlM_append, List.foldlM_append]
  exact congrArg (· >>= fun u => u.run after) hrun

end Walk

theorem paragraphsOfEvents_alike {before es es' after : List Event} (h : Alike es es')
    (hapart : drawingsApart [] (before ++ (es ++ after))) :
    paragraphsOfEvents (before ++ (es' ++ after)) = paragraphsOfEvents (before ++ (es ++ after)) := by
  rw [paragraphsOfEvents, paragraphsOfEvents]
  congr 1
  -- Up to the place the two walks are one, and what it keeps there points at open elements.
  cases hrun : Walk.start.run before with
  | error fault => rw [Walk.run_append_error hrun, Walk.run_append_error hrun]
  | ok w =>
      rw [Walk.run_append hrun, Walk.run_append hrun]
      exact Walk.run_alike h (Walk.Points.start.run hrun) (Walk.drawingsApart_of_run hrun hapart)

theorem paragraphs_respells {cs cs' : List Char} (h : Respells cs cs')
    (hapart : drawingsApart [] (Xml.events cs)) :
    paragraphsOfEvents (Xml.events cs') = paragraphsOfEvents (Xml.events cs) := by
  obtain ⟨before, es, es', after, halike, hcs, hcs'⟩ := h.events
  rw [hcs] at hapart
  rw [hcs, hcs']
  exact paragraphsOfEvents_alike halike hapart

theorem drawingsApart_eqvGen {cs cs' : List Char} (h : Relation.EqvGen Respells cs cs') :
    drawingsApart [] (Xml.events cs') = drawingsApart [] (Xml.events cs) := by
  induction h with
  | rel cs cs' h => exact drawingsApart_respells h
  | refl cs => rfl
  | symm cs cs' _ ih => exact ih.symm
  | trans cs cs' cs'' _ _ ih ih' => exact ih'.trans ih

theorem paragraphs_eqvGen {cs cs' : List Char} (h : Relation.EqvGen Respells cs cs')
    (hapart : drawingsApart [] (Xml.events cs)) :
    paragraphsOfEvents (Xml.events cs') = paragraphsOfEvents (Xml.events cs) := by
  induction h with
  | rel cs cs' h => exact paragraphs_respells h hapart
  | refl cs => rfl
  | symm cs cs' h ih =>
      rw [drawingsApart_eqvGen h] at hapart
      exact (ih hapart).symm
  | trans cs cs' cs'' h _ ih ih' =>
      rw [drawingsApart_eqvGen h] at ih'
      exact (ih' hapart).trans (ih hapart)

/-- A document with no drawing inside another has the same paragraphs in every spelling, or is the same
fault. -/
theorem paragraphs_spelling {xml xml' : String} (h : Relation.EqvGen Respells xml.toList xml'.toList)
    (hapart : drawingsApart [] (Xml.events xml.toList)) : paragraphs xml' = paragraphs xml :=
  paragraphs_eqvGen h hapart

/-- A comment inside character data, and a drawing with an end tag of its own. -/
theorem paragraphs_spelling_drawing :
    let xml := "<body><p><r><t>a&amp;b</t><drawing/></r></p></body>"
    let xml' := "<body><p><r><t>a&amp;<!-- > -->b</t><drawing></drawing></r></p></body>"
    Relation.EqvGen Respells xml.toList xml'.toList ∧ drawingsApart [] (Xml.events xml.toList) ∧
      paragraphs xml = .ok [⟨"a&b", [none]⟩] ∧ paragraphs xml' = paragraphs xml := by
  intro xml xml'
  let commented := "<body><p><r><t>a&amp;<!-- > -->b</t><drawing/></r></p></body>"
  have hcomment : Respells xml.toList commented.toList := by
    let before := "<body><p><r><t>a&amp;".toList
    let after := "b</t><drawing/></r></p></body>".toList
    have hreference : ¬WithinReference before after := by
      rintro ⟨_, _, name, rest, -, hafter, -⟩
      have hmem : ';' ∈ after := hafter ▸ List.mem_append_right name List.mem_cons_self
      exact absurd hmem (by decide)
    have hfront : before = [] → after.head? ≠ some '\uFEFF' := by decide
    have hxml : xml.toList = before ++ after := by decide +kernel
    have hcommented : commented.toList = before ++ ("<!-- > -->".toList ++ after) := by decide +kernel
    rw [hxml, hcommented]
    exact .aside before after (by decide +kernel) (.comment " > ".toList (by decide)) hreference hfront
  have hdrawing : Respells commented.toList xml'.toList := by
    let before := "<body><p><r><t>a&amp;<!-- > -->b</t>".toList
    let after := "</r></p></body>".toList
    have hcommented : commented.toList = before ++ ("<drawing/>".toList ++ after) := by decide +kernel
    have hxml' : xml'.toList = before ++ ("<drawing></drawing>".toList ++ after) := by decide +kernel
    have hstart : Xml.IsStartTag "drawing".toList := by decide
    rw [hcommented, hxml']
    exact .element before after (by decide +kernel) hstart
  have hspelling : Relation.EqvGen Respells xml.toList xml'.toList :=
    .trans _ _ _ (.rel _ _ hcomment) (.rel _ _ hdrawing)
  have hapart : drawingsApart [] (Xml.events xml.toList) := by decide +kernel
  exact ⟨hspelling, hapart, by decide +kernel, paragraphs_spelling hspelling hapart⟩

/-- Inside another drawing the spelling does matter. -/
example :
    paragraphs "<body><p><drawing><drawing/><blip embed='a'/></drawing></p></body>" =
        .ok [⟨"", [none, some "a"]⟩] ∧
      paragraphs "<body><p><drawing><drawing></drawing><blip embed='a'/></drawing></p></body>" =
        .ok [⟨"", [none, none]⟩] := by
  decide +kernel

end Inkpress.Body
