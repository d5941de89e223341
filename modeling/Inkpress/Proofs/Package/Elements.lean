import Inkpress.Package.Tables
import Inkpress.Proofs.Store.Sound
import Inkpress.Proofs.Xml.Scanning

namespace Inkpress.Package

open Store (ok_of_bind)
open Xml (Tag Event complete scan tagsIn)

def elementsIn (cs : List Char) : List Tag :=
  (tagsIn cs).filterMap element?

theorem filterMap_element?_complete (cs : List Char) :
    (complete cs).filterMap element? = elementsIn cs := by
  rw [elementsIn, tagsIn, List.filterMap_filter]
  congr 1
  funext e
  cases e <;> rfl

section

variable {β : Type} (visit : β → Tag → Except Fault β)

def visitEvent (acc : β) : Event → Except Fault β
  | .fault => .error .markup
  | e => match element? e with
    | some tag => visit acc tag
    | none => .ok acc

theorem foldlM_visitEvent {es : List Event} (hes : .fault ∉ es) (acc : β) :
    es.foldlM (visitEvent visit) acc = (es.filterMap element?).foldlM visit acc := by
  induction es generalizing acc with
  | nil => rfl
  | cons e es ih =>
      obtain ⟨he, hrest⟩ := not_or.1 (mt List.mem_cons.2 hes)
      have ih := funext (ih hrest)
      cases e with
      | fault => exact absurd rfl he
      | start tag =>
          rw [List.foldlM_cons, ih]
          rfl
      | empty tag =>
          rw [List.foldlM_cons, ih]
          rfl
      | text raw => exact congrFun ih acc
      | stop => exact congrFun ih acc

theorem foldlM_visitEvent_fault {es : List Event} (hes : .fault ∉ es) (acc : β) :
    (es ++ [Event.fault]).foldlM (visitEvent visit) acc =
      (es.filterMap element?).foldlM visit acc >>= fun _ => .error .markup := by
  rw [List.foldlM_append, foldlM_visitEvent visit hes]
  rfl

/-- A table is made of the elements of a text, whether or not they are closed, unless the text ends
inside markup. -/
theorem foldElements_eq (start : β) (xml : String) :
    foldElements visit start xml = (elementsIn xml.toList).foldlM visit start >>= fun acc =>
      if (scan xml.toList).isOutside then .ok acc else .error .markup := by
  have hfold : foldElements visit start xml =
      (complete xml.toList ++ (scan xml.toList).rest).foldlM (visitEvent visit) start := by
    rw [← Xml.events_eq]
    rfl
  have hfaulty := Xml.faulty_scan xml.toList
  have hsound (h : (scan xml.toList).mode ≠ .failed) : .fault ∉ complete xml.toList :=
    fun hmem => hfaulty.sound h (List.mem_reverse.1 hmem)
  rw [hfold, ← filterMap_element?_complete]
  cases hmode : (scan xml.toList).mode with
  | text read =>
      have hsound := hsound (by rw [hmode]; exact Xml.Mode.noConfusion)
      have hrest : .fault ∉ (scan xml.toList).rest ∧
          (scan xml.toList).rest.filterMap element? = [] := by
        simp only [Xml.Scanner.rest, hmode]
        split <;> simp [element?]
      rw [foldlM_visitEvent visit (List.not_mem_append hsound hrest.1), List.filterMap_append, hrest.2,
        List.append_nil]
      simp only [Xml.Scanner.isOutside, hmode, if_true]
      exact (bind_pure _).symm
  | failed =>
      obtain ⟨read, hread, hmem⟩ := hfaulty.failed hmode
      have hrest : (scan xml.toList).rest = [] := by simp only [Xml.Scanner.rest, hmode]
      have hcomplete : complete xml.toList = read.reverse ++ [.fault] := by
        rw [complete, hread, List.reverse_cons]
      have hend : (read.reverse ++ [Event.fault]).filterMap element? =
          read.reverse.filterMap element? := by
        rw [List.filterMap_append]
        exact List.append_nil _
      rw [hrest, List.append_nil, hcomplete, hend,
        foldlM_visitEvent_fault visit (fun h => hmem (List.mem_reverse.1 h))]
      simp only [Xml.Scanner.isOutside, hmode, Bool.false_eq_true, if_false]
  | _ =>
      have hsound := hsound (by rw [hmode]; exact Xml.Mode.noConfusion)
      have hrest : (scan xml.toList).rest = [.fault] := by simp only [Xml.Scanner.rest, hmode]
      rw [hrest, foldlM_visitEvent_fault visit hsound]
      simp only [Xml.Scanner.isOutside, hmode, Bool.false_eq_true, if_false]

theorem exists_error_of_inside (start : β) {xml : String}
    (h : (scan xml.toList).isOutside = false) :
    ∃ fault, foldElements visit start xml = .error fault := by
  rw [foldElements_eq, h]
  cases (elementsIn xml.toList).foldlM visit start with
  | error fault => exact ⟨fault, rfl⟩
  | ok acc => exact ⟨.markup, rfl⟩

theorem foldElements_of_outside (start : β) {xml : String}
    (h : (scan xml.toList).isOutside = true) :
    foldElements visit start xml = (elementsIn xml.toList).foldlM visit start := by
  rw [foldElements_eq, h]
  exact bind_pure _

theorem isPrefix_elementsIn (cs ds : List Char) : elementsIn cs <+: elementsIn (cs ++ ds) :=
  (Xml.isPrefix_tagsIn cs ds).filterMap _

/-- A text that was read and is cut off is refused only where the cut is inside markup. -/
theorem error_cut_iff {start acc : β} {xml : String} (h : foldElements visit start xml = .ok acc)
    (k : Nat) : (∃ fault, foldElements visit start (String.ofList (xml.toList.take k)) = .error fault) ↔
      (scan (xml.toList.take k)).isOutside = false := by
  have hprefix : elementsIn (xml.toList.take k) <+: elementsIn xml.toList := by
    conv_rhs => rw [← List.take_append_drop k xml.toList]
    exact isPrefix_elementsIn _ _
  obtain ⟨rest, hrest⟩ := hprefix
  rw [foldElements_eq] at h
  obtain ⟨acc', hacc, -⟩ := ok_of_bind h
  rw [← hrest, List.foldlM_append] at hacc
  obtain ⟨acc'', hacc'', -⟩ := ok_of_bind hacc
  constructor
  · rintro ⟨fault, hfault⟩
    by_contra hne
    have hout : (scan (String.ofList (xml.toList.take k)).toList).isOutside = true := by
      rw [String.toList_ofList]
      exact eq_true_of_ne_false hne
    rw [foldElements_of_outside visit start hout, String.toList_ofList, hacc''] at hfault
    cases hfault
  · intro hin
    exact exists_error_of_inside visit start (by rwa [String.toList_ofList])

end

/-- The tables of a part are made of the elements whose start tags are complete, whether or not they are
closed. Only a text that ends inside markup, or whose end tags do not fit, is refused for its shape;
so a part that was cut off is refused where the cut is inside markup, and nowhere else. -/
theorem table_parts_cut (xml : String) :
    ((scan xml.toList).isOutside = false →
      (∃ fault, readRelationships xml = .error fault) ∧
      ∃ fault, readContentTypes xml = .error fault) ∧
    ((scan xml.toList).isOutside = true →
      readRelationships xml = (elementsIn xml.toList).foldlM Relationship.visit .empty ∧
      readContentTypes xml = (elementsIn xml.toList).foldlM ContentTypes.visit .empty) ∧
    (∀ rels, readRelationships xml = .ok rels → ∀ k,
      (∃ fault, readRelationships (String.ofList (xml.toList.take k)) = .error fault) ↔
        (scan (xml.toList.take k)).isOutside = false) ∧
    (∀ types, readContentTypes xml = .ok types → ∀ k,
      (∃ fault, readContentTypes (String.ofList (xml.toList.take k)) = .error fault) ↔
        (scan (xml.toList.take k)).isOutside = false) := by
  refine ⟨?_, ?_, ?_, ?_⟩
  · intro h
    exact ⟨exists_error_of_inside _ _ h, exists_error_of_inside _ _ h⟩
  · intro h
    exact ⟨foldElements_of_outside _ _ h, foldElements_of_outside _ _ h⟩
  · intro rels hrels k
    exact error_cut_iff _ hrels k
  · intro types htypes k
    exact error_cut_iff _ htypes k

/-- Parts whose roots are never closed are read as far as they go. -/
theorem table_parts_unclosed :
    let rels := "<Relationships><Relationship Id='a' Target='i.gif'/>"
    let types := "<Types><Default Extension='gif' ContentType='image/gif'/>"
    ((scan rels.toList).opened = ["Relationships".toList] ∧
      (readRelationships rels).map (·.entries) = .ok [("a", ⟨"", "i.gif", false⟩)]) ∧
    ((scan types.toList).opened = ["Types".toList] ∧
      (readContentTypes types).map (·.defaults.entries) = .ok [("gif", "image/gif")]) := by
  decide +kernel

end Inkpress.Package
