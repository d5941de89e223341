import Inkpress.Proofs.Body.Spelling

namespace Inkpress.Body

open Xml (Tag Event WithinReference textEvents scan)

/-- The depth of the paragraph that some open elements are in: that of the first `p` right below a
`body`. -/
def paragraphDepth? : List (List Char) → Option Nat
  | parent :: name :: names =>
    if parent = "body".toList ∧ name = "p".toList then some 1
    else (paragraphDepth? (name :: names)).map (· + 1)
  | _ => none

/-- Whether the character data inside some open elements belongs to a paragraph. -/
def isTextPlace (opened : List (List Char)) : Bool :=
  (paragraphDepth? opened).any fun d => isTextPath (opened.drop (d + 1))

def openNames (cs : List Char) : List (List Char) :=
  ((scan cs).opened.map Xml.localName).reverse

theorem paragraphDepth?_concat (opened : List (List Char)) (name : List Char) :
    paragraphDepth? (opened ++ [name]) = (paragraphDepth? opened).or
      (if name = "p".toList ∧ opened.getLast? = some "body".toList then some opened.length else none) := by
  fun_induction paragraphDepth? opened with
  | case1 parent child names h => simp [paragraphDepth?, h]
  | case2 parent child names h ih =>
      have hcons : paragraphDepth? (parent :: child :: names ++ [name]) =
          (paragraphDepth? (child :: names ++ [name])).map (· + 1) := if_neg h
      rw [hcons, ih, List.getLast?_cons_cons]
      cases paragraphDepth? (child :: names) with
      | some d => rfl
      | none =>
          rw [Option.map_none, Option.none_or, Option.none_or]
          split <;> rfl
  | case3 opened h =>
      cases opened with
      | nil => simp [paragraphDepth?]
      | cons parent names =>
          cases names with
          | nil => simp [paragraphDepth?, and_comm]
          | cons child names => exact absurd rfl (h parent child names)

theorem lt_of_paragraphDepth? {opened : List (List Char)} {d : Nat} (h : paragraphDepth? opened = some d) :
    d < opened.length := by
  induction opened using List.reverseRecOn generalizing d with
  | nil => cases h
  | append_singleton opened name ih =>
      rw [paragraphDepth?_concat] at h
      rw [List.length_append, List.length_singleton]
      rcases Option.or_eq_some_iff.1 h with h | ⟨-, h⟩
      · exact Nat.lt_succ_of_lt (ih h)
      · split at h
        · cases h
          exact Nat.lt_succ_self _
        · cases h

namespace Walk

def KnowsDepth (w : Walk) : Prop :=
  w.current.map (·.depth) = paragraphDepth? w.opened

namespace KnowsDepth

variable {w v : Walk}

theorem start : Walk.start.KnowsDepth := rfl

theorem step_start (h : w.KnowsDepth) {tag : Tag} (hv : w.step (.start tag) = .ok v) : v.KnowsDepth := by
  obtain ⟨opened, current, collected⟩ := w
  cases hv
  rw [KnowsDepth] at h ⊢
  rw [paragraphDepth?_concat, ← h]
  cases current with
  | some p => exact congrArg some (OpenParagraph.depth_element opened tag true)
  | none =>
      simp only [beginsParagraph, atBody, Bool.and_eq_true, decide_eq_true_eq, Option.map_none,
        Option.none_or]
      split <;> rfl

theorem step_empty (h : w.KnowsDepth) {tag : Tag} (hv : w.step (.empty tag) = .ok v) : v.KnowsDepth := by
  obtain ⟨opened, current, collected⟩ := w
  cases current with
  | some p =>
      cases hv
      exact (congrArg some (OpenParagraph.depth_element opened tag false)).trans h
  | none =>
      cases hv
      split <;> exact h

theorem step_text (h : w.KnowsDepth) {raw : List Char} (hv : w.step (.text raw) = .ok v) :
    v.KnowsDepth := by
  obtain ⟨opened, current, collected⟩ := w
  cases current with
  | some p =>
      simp only [step] at hv
      split at hv
      · split at hv
        · cases hv
          exact h
        · cases hv
      · cases hv
        exact h
  | none =>
      cases hv
      exact h

theorem step_stop (h : w.KnowsDepth) (hv : w.step .stop = .ok v) : v.KnowsDepth := by
  obtain ⟨opened, current, collected⟩ := w
  rw [KnowsDepth] at h
  rcases List.eq_nil_or_concat' opened with rfl | ⟨opened, name, rfl⟩
  · cases current with
    | some p => cases h
    | none =>
        cases hv
        rfl
  · rw [paragraphDepth?_concat] at h
    simp only [step, List.dropLast_concat, OpenParagraph.depth_close] at hv
    cases current with
    | none =>
        cases hv
        exact (Option.or_eq_none_iff.1 h.symm).1.symm
    | some p =>
        simp only at hv
        rw [Option.map_some] at h
        rcases Option.or_eq_some_iff.1 h.symm with hdepth | ⟨hdepth, hname⟩
        -- The paragraph began further out, and the one element that is closed is not its own.
        · have hne : p.depth ≠ opened.length := Nat.ne_of_lt (lt_of_paragraphDepth? hdepth)
          rw [if_neg hne] at hv
          cases hv
          exact (congrArg some (OpenParagraph.depth_close _)).trans hdepth.symm
        · split at hname
          · have heq : p.depth = opened.length := (Option.some.inj hname).symm
            rw [if_pos heq] at hv
            cases hv
            exact hdepth.symm
          · cases hname

theorem step (h : w.KnowsDepth) {e : Event} (hv : w.step e = .ok v) : v.KnowsDepth := by
  cases e with
  | start tag => exact h.step_start hv
  | empty tag => exact h.step_empty hv
  | text raw => exact h.step_text hv
  | stop => exact h.step_stop hv
  | fault => cases hv

theorem run (h : w.KnowsDepth) {es : List Event} (hv : w.run es = .ok v) : v.KnowsDepth :=
  run_induction h step hv

end KnowsDepth

theorem isTextPlace_iff {w : Walk} (h : w.KnowsDepth) :
    isTextPlace w.opened ↔ ∃ p, w.current = some p ∧ isTextPath (p.path w.opened) := by
  rw [KnowsDepth] at h
  rw [isTextPlace, ← h, Option.any_map]
  cases w.current with
  | none => simp
  | some p => simp [OpenParagraph.path]

theorem step_text_of_not {w : Walk} (h : ¬∃ p, w.current = some p ∧ isTextPath (p.path w.opened))
    (raw : List Char) : w.step (.text raw) = .ok w := by
  obtain ⟨opened, current, collected⟩ := w
  cases current with
  | some p => exact step_text_elsewhere fun hpath => h ⟨p, rfl, hpath⟩
  | none => rfl

theorem opened_of_run {cs : List Char} {w : Walk} (h : Walk.start.run (Xml.events cs) = .ok w) :
    w.opened = openNames cs := by
  have hnest : Xml.nestAll [] (Xml.events cs) = some (scan cs).opened :=
    (Xml.nestAll_events cs).trans (Xml.nestAll_tagsIn cs)
  exact opened_run rfl h hnest

end Walk

inductive Agree {α : Type} (R : α → α → Prop) : Except Fault α → Except Fault α → Prop
  | error (fault : Fault) : Agree R (.error fault) (.error fault)
  | ok {a b : α} (h : R a b) : Agree R (.ok a) (.ok b)

theorem Agree.bind {α β : Type} {R : α → α → Prop} {S : β → β → Prop} {x y : Except Fault α}
    {f g : α → Except Fault β} (h : Agree R x y)
    (hf : ∀ a b, x = .ok a → R a b → Agree S (f a) (g b)) : Agree S (x >>= f) (y >>= g) := by
  cases h with
  | error fault => exact .error fault
  | ok h => exact hf _ _ rfl h

def Paragraph.before (s : String) (q : Paragraph) : Paragraph :=
  { q with text := s ++ q.text }

namespace OpenParagraph

def before (s : String) (p : OpenParagraph) : OpenParagraph :=
  { p with read := p.read.before s }

variable (s : String) (p : OpenParagraph)

theorem append_before (t : String) : (p.before s).append t = (p.append t).before s := by
  simp only [append, before, Paragraph.before, String.append_assoc]

theorem element_before (opened : List (List Char)) (tag : Tag) (opens : Bool) :
    (p.before s).element opened tag opens = (p.element opened tag opens).before s := by
  have hpath : (p.before s).path opened = p.path opened := rfl
  have hdrawing : (p.before s).drawing = p.drawing := rfl
  simp only [element, hpath, hdrawing, append_before]
  split
  · rfl
  · split
    · rfl
    · repeat' split
      all_goals rfl

theorem close_before (n : Nat) : (p.before s).close n = (p.close n).before s := by
  have hdrawing : (p.before s).drawing = p.drawing := rfl
  rw [close, close, hdrawing]
  split <;> rfl

end OpenParagraph

namespace Walk

def above (earlier : List Paragraph) (w : Walk) : Walk :=
  { w with collected := w.collected ++ earlier }

theorem step_above (earlier : List Paragraph) (w : Walk) (e : Event) :
    (w.above earlier).step e = (w.step e).map (above earlier) := by
  obtain ⟨opened, current, collected⟩ := w
  have habove : above earlier ⟨opened, current, collected⟩ = ⟨opened, current, collected ++ earlier⟩ := rfl
  rw [habove]
  cases e with
  | start tag => cases current <;> rfl
  | empty tag =>
      cases current with
      | some p => rfl
      | none =>
          have hbegins : beginsParagraph ⟨opened, none, collected ++ earlier⟩ tag =
              beginsParagraph ⟨opened, none, collected⟩ tag := rfl
          simp only [step, hbegins]
          by_cases h : beginsParagraph ⟨opened, none, collected⟩ tag
          · rw [if_pos h, if_pos h]
            rfl
          · rw [if_neg h, if_neg h]
            rfl
  | text raw =>
      cases current with
      | none => rfl
      | some p =>
          by_cases hpath : isTextPath (p.path opened)
          · cases hraw : Xml.unescape raw with
            | none =>
                rw [step_text_error hpath hraw, step_text_error hpath hraw]
                rfl
            | some cs =>
                rw [step_text_ok hpath hraw, step_text_ok hpath hraw]
                rfl
          · rw [step_text_elsewhere hpath, step_text_elsewhere hpath]
            rfl
  | stop =>
      cases current with
      | none => rfl
      | some p =>
          simp only [step]
          by_cases h : (p.close opened.dropLast.length).depth = opened.dropLast.length
          · rw [if_pos h, if_pos h]
            rfl
          · rw [if_neg h, if_neg h]
            rfl
  | fault => rfl

/-- Two walks that differ in what is in front of one paragraph, which has something more there in the
second. -/
inductive Lacks (front s : String) (earlier : List Paragraph) : Walk → Walk → Prop
  | reading (opened : List (List Char)) (p : OpenParagraph) :
    Lacks front s earlier ⟨opened, some (p.before front), earlier⟩
      ⟨opened, some (p.before (front ++ s)), earlier⟩
  | collected (w : Walk) (q : Paragraph) :
    Lacks front s earlier (w.above (q.before front :: earlier)) (w.above (q.before (front ++ s) :: earlier))

namespace Lacks

variable {front s : String} {earlier : List Paragraph} {w w' : Walk}

theorem step_reading (opened : List (List Char)) (p : OpenParagraph) (e : Event) :
    Agree (Lacks front s earlier) (step ⟨opened, some (p.before front), earlier⟩ e)
      (step ⟨opened, some (p.before (front ++ s)), earlier⟩ e) := by
  cases e with
  | start tag =>
      simp only [step, OpenParagraph.element_before]
      exact .ok (.reading _ _)
  | empty tag =>
      simp only [step, OpenParagraph.element_before]
      exact .ok (.reading _ _)
  | text raw =>
      by_cases hpath : isTextPath (p.path opened)
      · have hpath (t : String) : isTextPath ((p.before t).path opened) := hpath
        cases hraw : Xml.unescape raw with
        | none =>
            rw [step_text_error (hpath front) hraw, step_text_error (hpath _) hraw]
            exact .error _
        | some cs =>
            rw [step_text_ok (hpath front) hraw, step_text_ok (hpath _) hraw, OpenParagraph.append_before,
              OpenParagraph.append_before]
            exact .ok (.reading _ _)
      · have hpath (t : String) : ¬isTextPath ((p.before t).path opened) := hpath
        rw [step_text_elsewhere (hpath front), step_text_elsewhere (hpath _)]
        exact .ok (.reading _ _)
  | stop =>
      have hdepth (t : String) : ((p.close opened.dropLast.length).before t).depth =
          (p.close opened.dropLast.length).depth := rfl
      simp only [step, OpenParagraph.close_before, hdepth]
      by_cases h : (p.close opened.dropLast.length).depth = opened.dropLast.length
      · rw [if_pos h, if_pos h]
        exact .ok (.collected ⟨opened.dropLast, none, []⟩ _)
      · rw [if_neg h, if_neg h]
        exact .ok (.reading _ _)
  | fault => exact .error _

theorem step (h : Lacks front s earlier w w') (e : Event) :
    Agree (Lacks front s earlier) (w.step e) (w'.step e) := by
  cases h with
  | reading opened p => exact step_reading opened p e
  | collected w q =>
      rw [step_above, step_above]
      cases w.step e with
      | error fault => exact .error fault
      | ok v => exact .ok (.collected v q)

theorem run (h : Lacks front s earlier w w') (es : List Event) :
    Agree (Lacks front s earlier) (w.run es) (w'.run es) := by
  induction es generalizing w w' with
  | nil => exact .ok h
  | cons e es ih =>
      rw [Walk.run, Walk.run, List.foldlM_cons, List.foldlM_cons]
      exact (h.step e).bind fun _ _ _ h => ih h

end Lacks

end Walk

/-- Lists of paragraphs of which one has some more text at one place in the second. -/
def OneLacks (s : String) (ps ps' : List Paragraph) : Prop :=
  ∃ earlier front rest ds later, ps = earlier ++ ⟨front ++ rest, ds⟩ :: later ∧
    ps' = earlier ++ ⟨front ++ s ++ rest, ds⟩ :: later

theorem OneLacks.eq_iff {s : String} {ps ps' : List Paragraph} (h : OneLacks s ps ps') :
    ps = ps' ↔ s = "" := by
  obtain ⟨earlier, front, rest, ds, later, rfl, rfl⟩ := h
  constructor
  · intro h
    obtain ⟨hq, -⟩ := List.cons.inj (List.append_cancel_left h)
    have htext : front ++ rest = front ++ s ++ rest := congrArg Paragraph.text hq
    have hlength := congrArg String.length htext
    simp only [String.length_append] at hlength
    exact String.length_eq_zero_iff.1 (by omega)
  · rintro rfl
    rw [String.append_empty]

namespace Walk

theorem Lacks.finish {front s : String} {earlier : List Paragraph} {w w' : Walk}
    (h : Lacks front s earlier w w') (hpoints : w.Points) : Agree (OneLacks s) w.finish w'.finish := by
  cases h with
  | reading opened p =>
      -- An element is open around the paragraph, so that the text ends too early.
      have hopened : opened ≠ [] := by
        rintro rfl
        exact Nat.not_lt_zero _ (hpoints _ rfl).depth_lt
      have hlast : opened.getLast? = some (opened.getLast hopened) := List.getLast?_eq_some_getLast hopened
      simp only [Walk.finish, hlast]
      exact .error _
  | collected w q =>
      cases hlast : w.opened.getLast? with
      | some name =>
          simp only [Walk.finish, above, hlast]
          exact .error _
      | none =>
          simp only [Walk.finish, above, hlast]
          refine .ok ⟨earlier.reverse, front, q.text, q.drawings, w.collected.reverse, ?_, ?_⟩
          · simp [Paragraph.before]
          · simp [Paragraph.before]

/-- Character data in a place of text is all that two walks over the same events differ in. -/
theorem agree_of_text {w : Walk} (hpoints : w.Points) {p : OpenParagraph} (hcurrent : w.current = some p)
    (hpath : isTextPath (p.path w.opened)) {raw data : List Char} (hdata : Xml.unescape raw = some data)
    (es : List Event) : Agree (OneLacks (String.ofList data)) (w.run es >>= Walk.finish)
      ((w.step (.text raw) >>= fun v => v.run es) >>= Walk.finish) := by
  obtain ⟨opened, current, collected⟩ := w
  obtain rfl : current = some p := hcurrent
  obtain ⟨depth, drawing, text, drawings⟩ := p
  let p : OpenParagraph := ⟨depth, drawing, "", drawings⟩
  have hfront : (⟨depth, drawing, text, drawings⟩ : OpenParagraph) = p.before text := by
    simp only [p, OpenParagraph.before, Paragraph.before, String.append_empty]
  have hwhole : (p.before text).append (String.ofList data) = p.before (text ++ String.ofList data) := by
    simp only [p, OpenParagraph.before, Paragraph.before, OpenParagraph.append, String.append_empty]
  have hlacks : Lacks text (String.ofList data) collected ⟨opened, some (p.before text), collected⟩
      ⟨opened, some (p.before (text ++ String.ofList data)), collected⟩ := .reading opened p
  rw [step_text_ok hpath hdata, hfront, hwhole]
  refine (hlacks.run es).bind fun v v' hv h => h.finish ?_
  rw [hfront] at hpoints
  exact hpoints.run hv

theorem run_append_eq_bind (w : Walk) (es es' : List Event) :
    w.run (es ++ es') = w.run es >>= fun v => v.run es' :=
  List.foldlM_append

section

variable {before raw after data : List Char}

theorem run_raw (hbefore : (scan before).isOutside) (hraw : '<' ∉ raw) (hdata : Xml.unescape raw = some data)
    (hreference : ¬WithinReference before (raw ++ after))
    (hfront : before = [] → (raw ++ after).head? ≠ some '\uFEFF') :
    Walk.start.run (Xml.events (before ++ (raw ++ after))) =
      Walk.start.run (Xml.events before) >>= fun w => w.step (.text raw) >>= fun v =>
        v.run (Xml.eventsIn (scan before).opened after) := by
  obtain ⟨es, piece, piece', es', ⟨cs, hpiece⟩, ⟨cs', hpiece'⟩, hevents, hin, hall⟩ :=
    Xml.exists_events_append hbefore hraw hfront
  have hwithin : ¬WithinReference piece (raw ++ piece') := by
    intro h
    apply hreference
    rw [← hpiece, ← hpiece', ← List.append_assoc raw]
    exact h.extend cs cs'
  have hsecond : Xml.unescape (raw ++ piece') =
      (Xml.unescape raw).bind fun cs => (Xml.unescape piece').map (cs ++ ·) := by
    rw [Xml.unescape_append_of_eq_some hdata, hdata]
    rfl
  have hpieces (w : Walk) : w.run (textEvents (piece ++ raw ++ piece')) =
      w.run (textEvents piece) >>= fun u => u.step (.text raw) >>= fun v => v.run (textEvents piece') := by
    rw [List.append_assoc, ← run_text (Xml.unescape_append hwithin), run_append_eq_bind]
    congr 1
    funext u
    rw [← run_text hsecond, run_append_eq_bind, run_textEvents]
  rw [hall, hevents, hin]
  simp only [run_append_eq_bind, hpieces, bind_assoc]

theorem run_sections {sections : List (List Char)} (hbefore : (scan before).isOutside)
    (hne : sections ≠ []) (hsections : ∀ body ∈ sections, ¬"]]>".toList <:+: body) :
    Walk.start.run (Xml.events (before ++ (sections.flatMap Xml.cdata ++ after))) =
      Walk.start.run (Xml.events before) >>= fun w =>
        w.run (Xml.eventsIn (scan before).opened after) := by
  obtain ⟨part, hpart⟩ : ∃ part, sections.flatMap Xml.cdata = '<' :: part := by
    obtain ⟨body, sections, rfl⟩ := List.exists_cons_of_ne_nil hne
    exact ⟨_, rfl⟩
  have hspells := Xml.Spells.flatMap_cdata hsections (scan before).opened
  rw [hpart] at hspells ⊢
  rw [Xml.events_part hbefore hspells, List.nil_append, run_append_eq_bind]

end

end Walk

/-- Character data in CDATA sections is read as nothing. In a place of text the paragraphs are those of the
escaped spelling but for these characters, which one of them lacks; anywhere else they are the same. So the
two spellings agree just where there are no characters or the place is none of text. -/
theorem paragraphs_sections {before raw after : List Char} {sections : List (List Char)}
    (hbefore : (scan before).isOutside) (hraw : '<' ∉ raw)
    (hdata : Xml.unescape raw = some sections.flatten) (hne : sections ≠ [])
    (hsections : ∀ body ∈ sections, ¬"]]>".toList <:+: body)
    (hreference : ¬WithinReference before (raw ++ after))
    (hfront : before = [] → (raw ++ after).head? ≠ some '\uFEFF') :
    let escaped := paragraphs (String.ofList (before ++ (raw ++ after)))
    let sectioned := paragraphs (String.ofList (before ++ (sections.flatMap Xml.cdata ++ after)))
    (isTextPlace (openNames before) →
      Agree (OneLacks (String.ofList sections.flatten)) sectioned escaped) ∧
    (¬isTextPlace (openNames before) → sectioned = escaped) ∧
    ∀ ps, escaped = .ok ps →
      (sectioned = escaped ↔ sections.flatten = [] ∨ ¬isTextPlace (openNames before)) := by
  intro escaped sectioned
  have hescaped : escaped = (Walk.start.run (Xml.events before) >>= fun w =>
      w.step (.text raw) >>= fun v => v.run (Xml.eventsIn (scan before).opened after)) >>= Walk.finish := by
    rw [← Walk.run_raw hbefore hraw hdata hreference hfront, ← paragraphsOfEvents]
    simp only [escaped, paragraphs, String.toList_ofList]
  have hsectioned : sectioned = (Walk.start.run (Xml.events before) >>= fun w =>
      w.run (Xml.eventsIn (scan before).opened after)) >>= Walk.finish := by
    rw [← Walk.run_sections hbefore hne hsections, ← paragraphsOfEvents]
    simp only [sectioned, paragraphs, String.toList_ofList]
  have hplace {w : Walk} (hrun : Walk.start.run (Xml.events before) = .ok w) :
      isTextPlace (openNames before) ↔ ∃ p, w.current = some p ∧ isTextPath (p.path w.opened) := by
    rw [← Walk.opened_of_run hrun]
    exact Walk.isTextPlace_iff (Walk.KnowsDepth.start.run hrun)
  have hinside : isTextPlace (openNames before) →
      Agree (OneLacks (String.ofList sections.flatten)) sectioned escaped := by
    intro hinside
    rw [hescaped, hsectioned]
    cases hrun : Walk.start.run (Xml.events before) with
    | error fault => exact .error fault
    | ok w =>
        obtain ⟨p, hcurrent, hpath⟩ := (hplace hrun).1 hinside
        exact Walk.agree_of_text (Walk.Points.start.run hrun) hcurrent hpath hdata _
  have houtside : ¬isTextPlace (openNames before) → sectioned = escaped := by
    intro houtside
    rw [hescaped, hsectioned]
    cases hrun : Walk.start.run (Xml.events before) with
    | error fault => rfl
    | ok w =>
        have hstep := Walk.step_text_of_not (mt (hplace hrun).2 houtside) raw
        simp only [bind, Except.bind, hstep]
  refine ⟨hinside, houtside, ?_⟩
  intro ps hps
  constructor
  · intro hsame
    by_cases h : isTextPlace (openNames before)
    · left
      have hagree := hinside h
      rw [hsame, hps] at hagree
      cases hagree with
      | ok hlacks => exact String.ofList_inj.1 (hlacks.eq_iff.1 rfl)
    · exact .inr h
  · rintro (hnil | h)
    · by_cases h : isTextPlace (openNames before)
      · have hagree := hinside h
        rw [hps, hnil] at hagree
        rw [hps]
        generalize sectioned = result at hagree ⊢
        cases hagree with
        | ok hlacks => rw [hlacks.eq_iff.2 String.ofList_nil]
      · exact houtside h
    · exact houtside h

/-- Two sections in the middle of a run. -/
theorem paragraphs_sections_run :
    let before := "<body><p><r><t>x".toList
    let after := "y</t></r></p></body>".toList
    let escaped := paragraphs (String.ofList (before ++ ("a&lt;b".toList ++ after)))
    let sectioned := paragraphs (String.ofList
      (before ++ (["a<".toList, "b".toList].flatMap Xml.cdata ++ after)))
    escaped = .ok [⟨"xa<by", []⟩] ∧ sectioned ≠ escaped := by
  intro before after escaped sectioned
  have hreference : ¬WithinReference before ("a&lt;b".toList ++ after) := by
    rintro ⟨start, name, -, -, hbefore, -⟩
    have hmem : '&' ∈ before := hbefore ▸ List.mem_append_right start List.mem_cons_self
    exact absurd hmem (by decide)
  have hfront : before = [] → ("a&lt;b".toList ++ after).head? ≠ some '\uFEFF' := by decide
  have hbefore : (scan before).isOutside := by decide +kernel
  have hdata : Xml.unescape "a&lt;b".toList = some ["a<".toList, "b".toList].flatten := by decide
  obtain ⟨-, -, hsame⟩ := paragraphs_sections hbefore (by decide) hdata (List.cons_ne_nil _ _)
    (by decide) hreference hfront
  have hescaped : escaped = .ok [⟨"xa<by", []⟩] := by decide +kernel
  refine ⟨hescaped, fun h => ?_⟩
  have hplace : isTextPlace (openNames before) := by decide +kernel
  rcases (hsame _ hescaped).1 h with hnil | hno
  · exact absurd hnil (by decide)
  · exact hno hplace

/-- The text of a run is lost when it is written as a section. -/
theorem paragraphs_cdata :
    paragraphs "<body><p><r><t>a</t></r></p></body>" = .ok [⟨"a", []⟩] ∧
      paragraphs "<body><p><r><t><![CDATA[a]]></t></r></p></body>" = .ok [⟨"", []⟩] := by
  decide +kernel

end Inkpress.Body
