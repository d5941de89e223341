import Inkpress.Proofs.Xml.Markup
import Inkpress.Proofs.Xml.Reference

namespace Inkpress.Xml

/-- The same document with one place written in another way. -/
inductive Respells : List Char → List Char → Prop
  | element (before after : List Char) {content : List Char} (hbefore : (scan before).isOutside)
      (h : IsStartTag content) :
      Respells (before ++ ('<' :: content ++ ['/', '>'] ++ after))
        (before ++ ('<' :: content ++ ['>'] ++ ('<' :: '/' :: (Tag.ofText content).name ++ ['>']) ++ after))
  | aside (before after : List Char) {written : List Char} (hbefore : (scan before).isOutside)
      (h : IsAside written) (hreference : ¬WithinReference before after)
      (hfront : before = [] → after.head? ≠ some '\uFEFF') :
      Respells (before ++ after) (before ++ (written ++ after))

/-- Events of the same written in two ways. -/
inductive Alike : List Event → List Event → Prop
  | element (tag : Tag) : Alike [.empty tag] [.start tag, .stop]
  | text {raw raw' : List Char} (h : ¬WithinReference raw raw') :
      Alike (textEvents (raw ++ raw')) (textEvents raw ++ textEvents raw')

namespace Scanner

variable {opened : List (List Char)} {s : Scanner} {read : List Char}

theorem exists_text_of_isOutside (h : s.isOutside) : ∃ read, s.mode = .text read := by
  rw [isOutside] at h
  split at h
  · next read hread => exact ⟨read, hread⟩
  all_goals cases h

theorem finish_text (read : List Char) (before : List Event) :
    finish ⟨.text read, opened, before⟩ = before.reverse ++ textEvents read.reverse := by
  rw [finish_eq, rest, textEvents, List.isEmpty_reverse]

theorem finish_run_bracket (read : List Char) (before : List Event) (cs : List Char) :
    (run ⟨.text read, opened, before⟩ ('<' :: cs)).finish =
      before.reverse ++ (textEvents read.reverse ++ eventsIn opened ('<' :: cs)) := by
  have hafter (es : List Event) := after_run es ⟨.bracket, opened, []⟩ cs
  rw [run_bracket, eventsIn, run_bracket]
  refine (congrArg finish (hafter ((textEvents read.reverse).reverse ++ before))).trans ?_
  rw [after_finish, List.reverse_append, List.reverse_reverse, List.append_assoc]
  rfl

theorem finish_run_text (read : List Char) (before : List Event) (cs : List Char) :
    (run ⟨.text read, opened, before⟩ cs).finish =
      before.reverse ++ (textEvents (read.reverse ++ cs.takeWhile (· ≠ '<')) ++
        eventsIn opened (cs.dropWhile (· ≠ '<'))) := by
  have hraw : '<' ∉ cs.takeWhile (· ≠ '<') := by
    intro h
    simpa using List.all_eq_true.1 List.all_takeWhile _ h
  have hrun : (run ⟨.text read, opened, before⟩ cs) =
      run ⟨.text ((cs.takeWhile (· ≠ '<')).reverse ++ read), opened, before⟩
        (cs.dropWhile (· ≠ '<')) := by
    conv_lhs => rw [← cs.takeWhile_append_dropWhile (p := (· ≠ '<'))]
    rw [run_append, run_text before hraw]
  have hread : ((cs.takeWhile (· ≠ '<')).reverse ++ read).reverse =
      read.reverse ++ cs.takeWhile (· ≠ '<') := by
    rw [List.reverse_append, List.reverse_reverse]
  have hfirst := List.head?_dropWhile_not (· ≠ '<') cs
  rw [hrun, ← hread]
  cases hrest : cs.dropWhile (· ≠ '<') with
  | nil =>
      refine (finish_text _ _).trans ?_
      exact congrArg _ (List.append_nil _).symm
  | cons c rest =>
      rw [hrest] at hfirst
      obtain rfl : c = '<' := by simpa using hfirst
      exact finish_run_bracket _ before rest

theorem mode_closeTag {reversed : List Char} (h : (s.closeTag reversed).mode = .text read) :
    read = [] := by
  rw [closeTag] at h
  repeat' split at h
  all_goals cases h
  all_goals rfl

theorem declarationMode_ne_text (cs : List Char) : declarationMode cs ≠ .text read := by
  rw [declarationMode]
  repeat' split
  all_goals exact Mode.noConfusion

theorem step_mode {c : Char} (h : (s.step c).mode = .text read) :
    read = [] ∨ ∃ read', s.mode = .text read' ∧ read = c :: read' := by
  cases hm : s.mode with
  | text read' =>
      simp only [step, hm] at h
      split at h
      · cases h
      · cases h
        exact .inr ⟨read', rfl, rfl⟩
  | tag read' quote =>
      left
      cases quote with
      | none =>
          simp only [step, hm] at h
          split at h
          · exact mode_closeTag h
          · split at h <;> cases h
      | some q =>
          simp only [step, hm] at h
          cases h
  | declaration read' =>
      left
      simp only [step, hm] at h
      split at h
      · cases h
      · exact absurd h (declarationMode_ne_text _)
  | failed =>
      rw [step_failed hm, hm] at h
      cases h
  | _ =>
      left
      simp only [step, hm] at h
      repeat' split at h
      all_goals cases h
      all_goals rfl

theorem suffix_of_run_start {cs : List Char} (h : (start.run cs).mode = .text read) :
    read.reverse <:+ cs := by
  induction cs using List.reverseRecOn generalizing read with
  | nil =>
      cases h
      exact List.suffix_rfl
  | append_singleton cs c ih =>
      rw [run_append] at h
      rcases step_mode h with rfl | ⟨read', hread, rfl⟩
      · exact List.nil_suffix
      · rw [List.reverse_cons]
        obtain ⟨before, hbefore⟩ := ih hread
        exact ⟨before, by rw [← List.append_assoc, hbefore]⟩

end Scanner

theorem unmarked_suffix (cs : List Char) : unmarked cs <:+ cs := by
  fun_cases unmarked cs with
  | case1 rest => exact List.suffix_cons _ rest
  | case2 => exact List.suffix_rfl

theorem scan_append_of_front {cs ds : List Char} (h : cs = [] → ds.head? ≠ some '\uFEFF') :
    scan (cs ++ ds) = (scan cs).run ds := by
  by_cases hcs : cs = []
  · subst hcs
    rw [List.nil_append, scan, unmarked_of_front (h rfl)]
    rfl
  · exact scan_append hcs ds

variable {before after written : List Char}

theorem events_append_bracket (h : (scan before).isOutside) (cs : List Char) :
    events (before ++ '<' :: cs) = events before ++ eventsIn (scan before).opened ('<' :: cs) := by
  have hscan : scan (before ++ '<' :: cs) = (scan before).run ('<' :: cs) :=
    scan_append_of_front fun _ h => absurd (Option.some.inj h) (by decide)
  have hevents (cs : List Char) : events cs = (scan cs).finish := rfl
  obtain ⟨read, hread⟩ := Scanner.exists_text_of_isOutside h
  rw [hevents, hevents, hscan]
  generalize scan before = s at hread ⊢
  obtain ⟨mode, opened, es⟩ := s
  obtain rfl : mode = .text read := hread
  rw [Scanner.finish_run_bracket, Scanner.finish_text, List.append_assoc]

theorem events_part (h : (scan before).isOutside) {opened : List (List Char)} {es : List Event}
    (hpart : Spells ('<' :: written) (scan before).opened es opened) (after : List Char) :
    events (before ++ ('<' :: written ++ after)) = events before ++ (es ++ eventsIn opened after) := by
  rw [← hpart.eventsIn_append, List.cons_append, events_append_bracket h]

/-- Character data on both sides of a place is one piece with what stands there, if that is character
data as well. -/
theorem exists_events_append {raw : List Char} (h : (scan before).isOutside) (hraw : '<' ∉ raw)
    (hfront : before = [] → (raw ++ after).head? ≠ some '\uFEFF') :
    ∃ es piece piece' es', piece <:+ before ∧ piece' <+: after ∧ events before = es ++ textEvents piece ∧
      eventsIn (scan before).opened after = textEvents piece' ++ es' ∧
      events (before ++ (raw ++ after)) = es ++ (textEvents (piece ++ raw ++ piece') ++ es') := by
  obtain ⟨read, hread⟩ := Scanner.exists_text_of_isOutside h
  have hsuffix : read.reverse <:+ before :=
    (Scanner.suffix_of_run_start hread).trans (unmarked_suffix before)
  have hevents (cs : List Char) : events cs = (scan cs).finish := rfl
  have htext : ∀ c ∈ raw, decide (c ≠ '<') := fun c hc => decide_eq_true fun hlt => hraw (hlt ▸ hc)
  rw [hevents, hevents, scan_append_of_front hfront]
  generalize scan before = s at hread ⊢
  obtain ⟨mode, opened, es⟩ := s
  obtain rfl : mode = .text read := hread
  refine ⟨es.reverse, read.reverse, after.takeWhile (· ≠ '<'), _, hsuffix, List.takeWhile_prefix _,
    Scanner.finish_text _ _, Scanner.finish_run_text [] [] after, ?_⟩
  rw [Scanner.finish_run_text, List.takeWhile_append_of_pos htext, List.dropWhile_append_of_pos htext,
    List.append_assoc]

theorem IsAside.exists_cons (h : IsAside written) : ∃ part, written = '<' :: part := by
  cases h with
  | comment body h => exact ⟨_, rfl⟩
  | instruction body h hfirst => exact ⟨_, rfl⟩

theorem Respells.events {cs cs' : List Char} (h : Respells cs cs') :
    ∃ before es es' after, Alike es es' ∧ Xml.events cs = before ++ (es ++ after) ∧
      Xml.events cs' = before ++ (es' ++ after) := by
  cases h with
  | @element before after content hbefore h =>
      have hclosed := (Spells.startTag h (scan before).opened).append (.stopTag h _)
      exact ⟨_, _, _, _, .element (.ofText content), events_part hbefore (.emptyTag h _) after,
        events_part hbefore hclosed after⟩
  | @aside before after written hbefore h hreference hfront =>
      have hnil : '<' ∉ ([] : List Char) := List.not_mem_nil
      obtain ⟨es, raw, raw', es', ⟨cs, hraw⟩, ⟨cs', hraw'⟩, hevents, hin, happend⟩ :=
        exists_events_append hbefore hnil hfront
      rw [List.append_nil] at happend
      refine ⟨es, _, _, es', .text ?_, happend, ?_⟩
      · intro hwithin
        apply hreference
        rw [← hraw, ← hraw']
        exact hwithin.extend cs cs'
      -- Nothing is read at the place but the end of one piece and the start of the next.
      · obtain ⟨part, rfl⟩ := h.exists_cons
        have haside := events_part hbefore (.aside h _) after
        rw [haside, hevents, List.nil_append, hin]
        simp only [List.append_assoc]

end Inkpress.Xml
