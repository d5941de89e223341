import Inkpress.Body.Walk
import Inkpress.Proofs.Body.Collect
import Inkpress.Proofs.Xml.Scanning

namespace Inkpress.Body

open Xml (Tag Event nest nestAll)

def Forest.tags (f : Forest) : List Event :=
  f.events.filter Event.isTag

theorem Forest.nestAll_events (f : Forest) (opened : List (List Char)) :
    nestAll opened f.events = some opened := by
  induction f generalizing opened with
  | nil => rfl
  | text data rest ih => exact ih opened
  | element tag content rest ihContent ihRest =>
      have hcontent := Xml.nestAll_append (tag.name :: opened) content.events (.stop :: rest.events)
      rw [ihContent, Option.bind_some] at hcontent
      exact hcontent.trans (ihRest opened)
  | closed tag rest ih => exact ih opened

/-- Forests with the closing tags between them. -/
def spill (f : Forest) : List Forest → List Event
  | [] => f.events
  | g :: gs => f.events ++ .stop :: spill g gs

theorem exists_spill {es : List Event} (hes : ∀ e ∈ es, e.isTag) {opened : List (List Char)}
    (h : nestAll opened es = some []) : ∃ f fs, fs.length = opened.length ∧ spill f fs = es := by
  induction es generalizing opened with
  | nil =>
      obtain rfl := Option.some.inj h
      exact ⟨.nil, [], rfl, rfl⟩
  | cons e es ih =>
      obtain ⟨he, hes⟩ := List.forall_mem_cons.1 hes
      obtain ⟨opened', hopened, h⟩ := Option.bind_eq_some_iff.1 h
      obtain ⟨f, fs, hlength, hspill⟩ := ih hes h
      cases e with
      | start tag =>
          obtain rfl := Option.some.inj hopened
          obtain ⟨g, gs, rfl⟩ := List.exists_cons_of_length_eq_add_one hlength
          refine ⟨.element tag f g, gs, Nat.succ.inj hlength, ?_⟩
          rw [← hspill]
          cases gs with
          | nil => rfl
          | cons g' gs => simp only [spill, Forest.events, List.cons_append, List.append_assoc]
      | empty tag =>
          obtain rfl := Option.some.inj hopened
          refine ⟨.closed tag f, fs, hlength, ?_⟩
          rw [← hspill]
          cases fs with
          | nil => rfl
          | cons g gs => rfl
      | stop =>
          cases opened with
          | nil => cases hopened
          | cons name opened =>
              obtain rfl := Option.some.inj hopened
              refine ⟨.nil, f :: fs, congrArg (· + 1) hlength, ?_⟩
              rw [← hspill]
              rfl
      | text raw => cases he
      | fault => cases he

theorem exists_forest {es : List Event} (hes : ∀ e ∈ es, e.isTag) (h : nestAll [] es = some []) :
    ∃ f : Forest, f.events = es := by
  obtain ⟨f, fs, hlength, hspill⟩ := exists_spill hes h
  obtain rfl := List.eq_nil_of_length_eq_zero hlength
  exact ⟨f, hspill⟩

def openedAfter (opened : List (List Char)) : Event → List (List Char)
  | .start tag => opened ++ [tag.localName]
  | .stop => opened.dropLast
  | .empty _ | .text _ | .fault => opened

namespace Walk

variable {w v : Walk} {opened opened' : List (List Char)}

theorem opened_eq_of_step {e : Event} (h : w.step e = .ok v) : v.opened = openedAfter w.opened e := by
  cases e with
  | start tag =>
      cases h
      rfl
  | empty tag =>
      simp only [step] at h
      split at h
      · cases h
        rfl
      · cases h
        split <;> rfl
  | text raw =>
      simp only [step] at h
      split at h
      · split at h
        · split at h
          · cases h
            rfl
          · cases h
        · cases h
          rfl
      · cases h
        rfl
  | stop =>
      simp only [step] at h
      split at h
      · split at h
        · cases h
          rfl
        · cases h
          rfl
      · cases h
        rfl
  | fault => cases h

theorem opened_step {e : Event} (hw : w.opened = (opened.map Xml.localName).reverse)
    (h : w.step e = .ok v) (ho : nest opened e = some opened') :
    v.opened = (opened'.map Xml.localName).reverse := by
  rw [opened_eq_of_step h, hw]
  cases e with
  | start tag =>
      obtain rfl := Option.some.inj ho
      rw [List.map_cons, List.reverse_cons]
      rfl
  | stop =>
      cases opened with
      | nil => cases ho
      | cons name opened =>
          obtain rfl := Option.some.inj ho
          rw [List.map_cons, List.reverse_cons]
          exact List.dropLast_concat
  | _ =>
      obtain rfl := Option.some.inj ho
      rfl

theorem opened_run {es : List Event} (hw : w.opened = (opened.map Xml.localName).reverse)
    (h : w.run es = .ok v) (ho : nestAll opened es = some opened') :
    v.opened = (opened'.map Xml.localName).reverse := by
  induction es generalizing w opened with
  | nil =>
      cases h
      obtain rfl := Option.some.inj ho
      exact hw
  | cons e es ih =>
      obtain ⟨o, ho, ho'⟩ := Option.bind_eq_some_iff.1 ho
      obtain ⟨u, hstep, hrun⟩ := exists_step_of_run_cons h
      exact ih (opened_step hw hstep ho) hrun ho'

end Walk

theorem exists_run_of_paragraphsOfEvents {es : List Event} {ps : List Paragraph}
    (h : paragraphsOfEvents es = .ok ps) :
    ∃ w, Walk.start.run es = .ok w ∧ w.opened = [] ∧ w.collected.reverse = ps := by
  rw [paragraphsOfEvents] at h
  cases hrun : Walk.start.run es with
  | error fault =>
      rw [hrun] at h
      cases h
  | ok w =>
      rw [hrun] at h
      cases hlast : w.opened.getLast? with
      | none =>
          simp only [bind, Except.bind, Walk.finish, hlast] at h
          cases h
          exact ⟨w, rfl, List.getLast?_eq_none_iff.1 hlast, rfl⟩
      | some name => simp [bind, Except.bind, Walk.finish, hlast] at h

theorem opened_of_paragraphsOfEvents {es : List Event} {ps : List Paragraph}
    (h : paragraphsOfEvents es = .ok ps) {opened : List (List Char)}
    (ho : nestAll [] es = some opened) : opened = [] := by
  obtain ⟨w, hrun, hnil, -⟩ := exists_run_of_paragraphsOfEvents h
  have hopened := Walk.opened_run rfl hrun ho
  rw [hnil] at hopened
  exact List.map_eq_nil_iff.1 (List.reverse_eq_nil_iff.1 hopened.symm)

end Inkpress.Body
