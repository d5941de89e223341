import Inkpress.Xml.Entity
import Mathlib.Data.List.Induction

namespace Inkpress.Xml

namespace Decoding

theorem run_before (reference : Option (List Char)) (before read cs : List Char) :
    run ⟨reference, read ++ before⟩ cs =
      (run ⟨reference, read⟩ cs).map fun d => ⟨d.reference, d.read ++ before⟩ := by
  induction cs generalizing reference read with
  | nil => rfl
  | cons c cs ih =>
      have hstep : step ⟨reference, read ++ before⟩ c =
          (step ⟨reference, read⟩ c).map fun d => ⟨d.reference, d.read ++ before⟩ := by
        cases reference with
        | none =>
            simp only [step]
            split <;> rfl
        | some name =>
            simp only [step]
            split
            · cases resolve? name.reverse <;> rfl
            · split <;> rfl
      rw [run, run, List.foldlM_cons, List.foldlM_cons, hstep]
      cases step ⟨reference, read⟩ c with
      | none => rfl
      | some d => exact ih d.reference d.read

theorem exists_of_reference {cs name : List Char} {d : Decoding} (h : start.run cs = some d)
    (hname : d.reference = some name) : ∃ before, cs = before ++ '&' :: name.reverse := by
  induction cs using List.reverseRecOn generalizing d name with
  | nil =>
      cases h
      cases hname
  | append_singleton cs c ih =>
      rw [run, List.foldlM_append] at h
      obtain ⟨e, he, hc⟩ := Option.bind_eq_some_iff.1 h
      have hc : e.step c = some d := by
        rw [List.foldlM_cons] at hc
        simpa using hc
      -- The last character opened the reference or goes on with its name.
      cases hopen : e.reference with
      | none =>
          simp only [step, hopen] at hc
          split at hc
          · next hamp =>
              cases hc
              cases hname
              exact ⟨cs, by rw [hamp]; rfl⟩
          · cases hc
            cases hname
      | some open' =>
          simp only [step, hopen] at hc
          split at hc
          · obtain ⟨r, -, rfl⟩ := Option.map_eq_some_iff.1 hc
            cases hname
          · split at hc
            · cases hc
            · cases hc
              cases hname
              obtain ⟨before, rfl⟩ := ih he hopen
              exact ⟨before, by simp⟩

theorem run_open (name read cs : List Char) :
    (run ⟨some name, read⟩ cs).bind finish = none ∨
      ∃ rest after, cs = rest ++ ';' :: after ∧ (resolve? (name.reverse ++ rest)).isSome := by
  induction cs generalizing name with
  | nil => exact .inl rfl
  | cons c cs ih =>
      rw [run, List.foldlM_cons]
      by_cases hend : c = ';'
      · subst hend
        cases hresolve : resolve? name.reverse with
        | none =>
            left
            simp only [step, if_true, hresolve]
            rfl
        | some r => exact .inr ⟨[], cs, rfl, by rw [List.append_nil, hresolve]; rfl⟩
      · by_cases hamp : c = '&'
        · left
          simp only [step, hamp, if_true]
          rfl
        · have hstep : step ⟨some name, read⟩ c = some ⟨some (c :: name), read⟩ := by
            simp only [step, if_neg hend, if_neg hamp]
          rw [hstep]
          rcases ih (c :: name) with hnone | ⟨rest, after, rfl, hresolve⟩
          · exact .inl hnone
          · refine .inr ⟨c :: rest, after, rfl, ?_⟩
            rwa [List.reverse_cons, List.append_assoc] at hresolve

end Decoding

/-- The place between two texts is within a reference. -/
def WithinReference (cs ds : List Char) : Prop :=
  ∃ before name name' after, cs = before ++ '&' :: name ∧ ds = name' ++ ';' :: after ∧
    (resolve? (name ++ name')).isSome

theorem WithinReference.extend {cs ds : List Char} (h : WithinReference cs ds) (before after : List Char) :
    WithinReference (before ++ cs) (ds ++ after) := by
  obtain ⟨before', name, name', after', rfl, rfl, hresolve⟩ := h
  exact ⟨before ++ before', name, name', after' ++ after, by simp, by simp, hresolve⟩

theorem unescape_append_of_eq_some {cs x : List Char} (h : unescape cs = some x) (ds : List Char) :
    unescape (cs ++ ds) = (unescape ds).map (x ++ ·) := by
  have hrun : Decoding.start.run (cs ++ ds) = (Decoding.start.run cs).bind fun d => d.run ds :=
    List.foldlM_append
  obtain ⟨⟨reference, read⟩, hcs, hread⟩ := Option.bind_eq_some_iff.1 h
  cases reference with
  | none =>
      obtain rfl : read.reverse = x := Option.some.inj hread
      have hbefore := Decoding.run_before none read [] ds
      rw [List.nil_append] at hbefore
      rw [unescape, hrun, hcs, Option.bind_some, hbefore, unescape, Decoding.start]
      cases Decoding.run ⟨none, []⟩ ds with
      | none => rfl
      | some e =>
          obtain ⟨reference, read'⟩ := e
          cases reference with
          | none => simp [Decoding.finish]
          | some name => rfl
  | some name => cases hread

theorem unescape_append {cs ds : List Char} (h : ¬WithinReference cs ds) :
    unescape (cs ++ ds) = (unescape cs).bind fun x => (unescape ds).map (x ++ ·) := by
  cases hread : unescape cs with
  | some x => exact unescape_append_of_eq_some hread ds
  | none =>
      have hrun : Decoding.start.run (cs ++ ds) = (Decoding.start.run cs).bind fun d => d.run ds :=
        List.foldlM_append
      rw [unescape, hrun]
      -- Where the first text leaves a reference open, the second may not close it to one that is known.
      cases hcs : Decoding.start.run cs with
      | none => rfl
      | some d =>
          rw [unescape, hcs] at hread
          obtain ⟨reference, read⟩ := d
          cases reference with
          | none => cases hread
          | some name =>
              obtain ⟨before, rfl⟩ := Decoding.exists_of_reference hcs rfl
              rw [Option.bind_some]
              rcases Decoding.run_open name read ds with hnone | ⟨rest, after, rfl, hresolve⟩
              · exact hnone
              · exact absurd ⟨before, name.reverse, rest, after, rfl, rfl, hresolve⟩ h

/-- A text that is written character by character reads back if each of them does. -/
theorem unescape_flatMap {write : Char → List Char}
    (h : ∀ c read, Decoding.run ⟨none, read⟩ (write c) = some ⟨none, c :: read⟩) (cs : List Char) :
    unescape (cs.flatMap write) = some cs := by
  have hrun (read : List Char) :
      Decoding.run ⟨none, read⟩ (cs.flatMap write) = some ⟨none, cs.reverse ++ read⟩ := by
    induction cs generalizing read with
    | nil => rfl
    | cons c cs ih =>
        have happend : Decoding.run ⟨none, read⟩ (write c ++ cs.flatMap write) =
            (Decoding.run ⟨none, read⟩ (write c)).bind fun d => d.run (cs.flatMap write) :=
          List.foldlM_append
        rw [List.flatMap_cons, happend, h, Option.bind_some, ih, List.reverse_cons, List.append_assoc]
        rfl
  rw [unescape, Decoding.start, hrun, List.append_nil]
  simp [Decoding.finish]

theorem run_escapeChar (c : Char) (read : List Char) :
    Decoding.run ⟨none, read⟩ (escapeChar c) = some ⟨none, c :: read⟩ := by
  fun_cases escapeChar c with
  | case1 => rfl
  | case2 => rfl
  | case3 => rfl
  | case4 => rfl
  | case5 _ hamp =>
      have hstep : Decoding.step ⟨none, read⟩ c = some ⟨none, c :: read⟩ := if_neg hamp
      rw [Decoding.run, List.foldlM_cons, hstep]
      rfl

theorem unescape_escape (cs : List Char) : unescape (escape cs) = some cs :=
  unescape_flatMap run_escapeChar cs

theorem quote_notMem_escape (cs : List Char) : '"' ∉ escape cs := by
  rw [escape, List.mem_flatMap]
  rintro ⟨c, -, hc⟩
  revert hc
  fun_cases escapeChar c with
  | case1 => decide
  | case2 => decide
  | case3 => decide
  | case4 => decide
  | case5 _ _ _ _ hquote => exact fun hc => hquote (List.mem_singleton.1 hc).symm

end Inkpress.Xml
