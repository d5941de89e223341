import Inkpress.Xml.Scan
import Mathlib.Data.List.Basic

namespace Inkpress.Xml

def Event.isTag : Event → Bool
  | .start _ | .empty _ | .stop => true
  | .text _ | .fault => false

def nest (opened : List (List Char)) : Event → Option (List (List Char))
  | .start tag => some (tag.name :: opened)
  | .stop =>
    match opened with
    | [] => none
    | _ :: rest => some rest
  | .empty _ | .text _ | .fault => some opened

def nestAll (opened : List (List Char)) (es : List Event) : Option (List (List Char)) :=
  es.foldlM nest opened

theorem nestAll_append (opened : List (List Char)) (es es' : List Event) :
    nestAll opened (es ++ es') = (nestAll opened es).bind fun o => nestAll o es' :=
  List.foldlM_append

theorem nest_of_not_isTag {e : Event} (he : e.isTag = false) (opened : List (List Char)) :
    nest opened e = some opened := by
  cases e with
  | text raw => rfl
  | fault => rfl
  | _ => cases he

theorem nestAll_filter_isTag (opened : List (List Char)) (es : List Event) :
    nestAll opened (es.filter Event.isTag) = nestAll opened es := by
  induction es generalizing opened with
  | nil => rfl
  | cons e es ih =>
      by_cases he : e.isTag = true
      · rw [List.filter_cons_of_pos he, nestAll, nestAll, List.foldlM_cons, List.foldlM_cons]
        exact congrArg _ (funext ih)
      · have he := Bool.eq_false_iff.2 he
        rw [List.filter_cons_of_neg (by rw [he]; decide), ih, nestAll, nestAll, List.foldlM_cons,
          nest_of_not_isTag he]
        rfl

theorem nestAll_frame {opened opened' : List (List Char)} {es : List Event}
    (h : nestAll opened es = some opened') (around : List (List Char)) :
    nestAll (opened ++ around) es = some (opened' ++ around) := by
  induction es generalizing opened with
  | nil =>
      obtain rfl := Option.some.inj h
      rfl
  | cons e es ih =>
      rw [nestAll, List.foldlM_cons] at h ⊢
      obtain ⟨o, ho, h⟩ := Option.bind_eq_some_iff.1 h
      have hframe : nest (opened ++ around) e = some (o ++ around) := by
        cases e with
        | stop =>
            cases opened with
            | nil => cases ho
            | cons name opened =>
                obtain rfl := Option.some.inj ho
                rfl
        | _ =>
            obtain rfl := Option.some.inj ho
            rfl
      rw [hframe]
      exact ih h

namespace Scanner

/-- What becomes of a scanner with one more character, as long as the text is markup. -/
inductive Moves (s : Scanner) : Scanner → Prop
  | enter (m : Mode) (hm : m ≠ .failed) : Moves s (s.enter m)
  | text (raw : List Char) : Moves s ⟨.bracket, s.opened, .text raw :: s.read⟩
  | opens (tag : Tag) : Moves s ⟨.text [], tag.name :: s.opened, .start tag :: s.read⟩
  | empty (tag : Tag) : Moves s ⟨.text [], s.opened, .empty tag :: s.read⟩
  | stop (name : List Char) (rest : List (List Char)) (h : s.opened = name :: rest) :
      Moves s ⟨.text [], rest, .stop :: s.read⟩
  | fail : Moves s s.fail

theorem moves_flush (s : Scanner) (read : List Char) : s.Moves ((s.flush read).enter .bracket) := by
  rw [flush]
  split
  · exact .enter .bracket Mode.noConfusion
  · exact .text read.reverse

theorem moves_closeTag (s : Scanner) (reversed : List Char) : s.Moves (s.closeTag reversed) := by
  rw [closeTag]
  split
  · split
    · exact .fail
    · next name rest hopened =>
        split
        · exact .stop name rest hopened
        · exact .fail
  · split
    · exact .empty _
    · exact .opens _

theorem moves_step {s : Scanner} (hs : s.mode ≠ .failed) (c : Char) : s.Moves (s.step c) := by
  cases hm : s.mode with
  | text read =>
      simp only [step, hm]
      split
      · exact s.moves_flush read
      · exact .enter _ Mode.noConfusion
  | bracket =>
      simp only [step, hm]
      split
      · exact .enter _ Mode.noConfusion
      · split
        · exact .enter _ Mode.noConfusion
        · split
          · exact s.moves_closeTag []
          · split <;> exact .enter _ Mode.noConfusion
  | tag read quote =>
      cases quote with
      | none =>
          simp only [step, hm]
          split
          · exact s.moves_closeTag read
          · split <;> exact .enter _ Mode.noConfusion
      | some q =>
          simp only [step, hm]
          exact .enter _ Mode.noConfusion
  | declaration read =>
      simp only [step, hm]
      split
      · exact .fail
      · next hne => exact .enter _ hne
  | comment n =>
      simp only [step, hm]
      split <;> exact .enter _ Mode.noConfusion
  | cdata n =>
      simp only [step, hm]
      split <;> exact .enter _ Mode.noConfusion
  | doctype named depth =>
      simp only [step, hm]
      split
      · split
        · split
          · exact .enter _ Mode.noConfusion
          · exact .fail
        · exact .enter _ Mode.noConfusion
      · exact .enter _ Mode.noConfusion
  | instructionStart =>
      simp only [step, hm]
      split
      · exact .fail
      · exact .enter _ Mode.noConfusion
  | instruction mark =>
      simp only [step, hm]
      split <;> exact .enter _ Mode.noConfusion
  | failed => exact absurd hm hs

theorem step_failed {s : Scanner} (hs : s.mode = .failed) (c : Char) : s.step c = s := by
  rw [step, hs]

/-- What holds of a scanner and is kept by its moves holds after any text. -/
theorem run_induction {P : Scanner → Prop} {s : Scanner} (hs : P s)
    (hmoves : ∀ t u : Scanner, t.mode ≠ .failed → t.Moves u → P t → P u) (cs : List Char) :
    P (s.run cs) := by
  induction cs generalizing s with
  | nil => exact hs
  | cons c cs ih =>
      refine ih ?_
      by_cases hfailed : s.mode = .failed
      · rwa [step_failed hfailed]
      · exact hmoves s (s.step c) hfailed (moves_step hfailed c) hs

theorem Moves.nestAll {s t : Scanner} (h : s.Moves t)
    (hs : nestAll [] s.read.reverse = some s.opened) : Xml.nestAll [] t.read.reverse = some t.opened := by
  have hsnoc (e : Event) :
      Xml.nestAll [] (e :: s.read).reverse = (nest s.opened e).bind fun o => some o := by
    rw [List.reverse_cons, nestAll_append, hs]
    rfl
  cases h with
  | enter m hm => exact hs
  | text raw => exact hsnoc _
  | opens tag => exact hsnoc _
  | empty tag => exact hsnoc _
  | stop name rest hopened =>
      refine (hsnoc _).trans ?_
      rw [hopened]
      rfl
  | fail => exact hsnoc _

theorem Moves.read_suffix {s t : Scanner} (h : s.Moves t) : s.read <:+ t.read := by
  cases h with
  | enter m hm => exact List.suffix_rfl
  | text raw => exact List.suffix_cons _ _
  | opens tag => exact List.suffix_cons _ _
  | empty tag => exact List.suffix_cons _ _
  | stop name rest hopened => exact List.suffix_cons _ _
  | fail => exact List.suffix_cons _ _

theorem read_suffix_run (s : Scanner) (cs : List Char) : s.read <:+ (s.run cs).read :=
  run_induction (P := fun t => s.read <:+ t.read) List.suffix_rfl
    (fun _ _ _ hmoves hs => hs.trans hmoves.read_suffix) cs

/-- There is a fault among the events only where the scanner failed, and then it is the last. -/
structure Faulty (s : Scanner) : Prop where
  sound : s.mode ≠ .failed → .fault ∉ s.read
  failed : s.mode = .failed → ∃ read, s.read = .fault :: read ∧ .fault ∉ read

theorem Moves.faulty {s t : Scanner} (h : s.Moves t) (hs : .fault ∉ s.read) : t.Faulty := by
  have hcons {e : Event} (he : e ≠ .fault) : .fault ∉ e :: s.read :=
    fun hmem => (List.mem_cons.1 hmem).elim (fun h => he h.symm) hs
  cases h with
  | enter m hm => exact ⟨fun _ => hs, fun h => absurd h hm⟩
  | text raw => exact ⟨fun _ => hcons Event.noConfusion, Mode.noConfusion⟩
  | opens tag => exact ⟨fun _ => hcons Event.noConfusion, Mode.noConfusion⟩
  | empty tag => exact ⟨fun _ => hcons Event.noConfusion, Mode.noConfusion⟩
  | stop name rest hopened => exact ⟨fun _ => hcons Event.noConfusion, Mode.noConfusion⟩
  | fail => exact ⟨fun h => absurd rfl h, fun _ => ⟨s.read, rfl, hs⟩⟩

def isOutside (s : Scanner) : Bool :=
  match s.mode with
  | .text _ => true
  | .bracket | .tag _ _ | .declaration _ | .comment _ | .cdata _ | .doctype _ _
  | .instructionStart | .instruction _ | .failed => false

def rest (s : Scanner) : List Event :=
  match s.mode with
  | .text read => if read.isEmpty then [] else [.text read.reverse]
  | .failed => []
  | .bracket | .tag _ _ | .declaration _ | .comment _ | .cdata _ | .doctype _ _
  | .instructionStart | .instruction _ => [.fault]

theorem finish_eq (s : Scanner) : s.finish = s.read.reverse ++ s.rest := by
  rw [finish, rest]
  cases s.mode with
  | text read =>
      simp only [flush]
      split
      · exact (List.append_nil _).symm
      · exact List.reverse_cons
  | failed => exact (List.append_nil _).symm
  | _ => exact List.reverse_cons

end Scanner

def unmarked : List Char → List Char
  | '\uFEFF' :: rest => rest
  | cs => cs

def scan (cs : List Char) : Scanner :=
  Scanner.start.run (unmarked cs)

def complete (cs : List Char) : List Event :=
  (scan cs).read.reverse

theorem unmarked_of_front {cs : List Char} (h : cs.head? ≠ some '\uFEFF') : unmarked cs = cs := by
  rw [unmarked]
  rintro rest rfl
  exact h rfl

theorem unmarked_append {cs : List Char} (h : cs ≠ []) (ds : List Char) :
    unmarked (cs ++ ds) = unmarked cs ++ ds := by
  obtain ⟨c, cs, rfl⟩ := List.exists_cons_of_ne_nil h
  by_cases hc : c = '\uFEFF'
  · subst hc
    rfl
  · have hunmarked (es : List Char) : unmarked (c :: es) = c :: es :=
      unmarked_of_front fun h => hc (Option.some.inj h)
    rw [List.cons_append, hunmarked, hunmarked, List.cons_append]

theorem scan_append {cs : List Char} (h : cs ≠ []) (ds : List Char) :
    scan (cs ++ ds) = (scan cs).run ds := by
  rw [scan, unmarked_append h, Scanner.run_append]
  rfl

theorem exists_scan_append (cs ds : List Char) : ∃ rest, scan (cs ++ ds) = (scan cs).run rest := by
  by_cases h : cs = []
  · subst h
    exact ⟨unmarked ds, rfl⟩
  · exact ⟨ds, scan_append h ds⟩

theorem isPrefix_complete (cs ds : List Char) : complete cs <+: complete (cs ++ ds) := by
  obtain ⟨rest, hrest⟩ := exists_scan_append cs ds
  rw [complete, complete, hrest, List.reverse_prefix]
  exact (scan cs).read_suffix_run rest

theorem events_eq (cs : List Char) : events cs = complete cs ++ (scan cs).rest :=
  (scan cs).finish_eq

def tagsIn (cs : List Char) : List Event :=
  (complete cs).filter Event.isTag

theorem isPrefix_tagsIn (cs ds : List Char) : tagsIn cs <+: tagsIn (cs ++ ds) :=
  (isPrefix_complete cs ds).filter _

theorem filter_isTag_events (cs : List Char) : (events cs).filter Event.isTag = tagsIn cs := by
  have hrest : (scan cs).rest.filter Event.isTag = [] := by
    rw [Scanner.rest]
    cases (scan cs).mode with
    | text read =>
        simp only
        split
        · rfl
        · rfl
    | _ => rfl
  rw [events_eq, List.filter_append, hrest, List.append_nil, tagsIn]

theorem nestAll_events (cs : List Char) : nestAll [] (events cs) = nestAll [] (tagsIn cs) := by
  rw [← nestAll_filter_isTag, filter_isTag_events]

theorem nestAll_tagsIn (cs : List Char) : nestAll [] (tagsIn cs) = some (scan cs).opened := by
  rw [tagsIn, nestAll_filter_isTag]
  exact Scanner.run_induction (P := fun s => nestAll [] s.read.reverse = some s.opened) rfl
    (fun _ _ _ hmoves hs => hmoves.nestAll hs) (unmarked cs)

theorem faulty_scan (cs : List Char) : (scan cs).Faulty := by
  refine Scanner.run_induction (P := Scanner.Faulty) ⟨fun _ => List.not_mem_nil, Mode.noConfusion⟩ ?_
    (unmarked cs)
  intro s t hs hmoves hfaulty
  exact hmoves.faulty (hfaulty.sound hs)

end Inkpress.Xml
