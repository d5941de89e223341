import Inkpress.Proofs.Xml.Scanning

namespace Inkpress.Xml

def textEvents (raw : List Char) : List Event :=
  if raw.isEmpty then [] else [.text raw]

namespace Scanner

def after (before : List Event) (s : Scanner) : Scanner :=
  { s with read := s.read ++ before }

variable (before : List Event)

theorem after_flush (s : Scanner) (read : List Char) :
    (s.after before).flush read = (s.flush read).after before := by
  rw [flush, flush]
  split <;> rfl

theorem after_closeTag (s : Scanner) (reversed : List Char) :
    (s.after before).closeTag reversed = (s.closeTag reversed).after before := by
  simp only [closeTag, after]
  split
  · split
    · rfl
    · split <;> rfl
  · split <;> rfl

theorem after_step (s : Scanner) (c : Char) :
    (s.after before).step c = (s.step c).after before := by
  have hmode : (s.after before).mode = s.mode := rfl
  cases hm : s.mode with
  | text read =>
      simp only [step, hmode, hm]
      split
      · rw [after_flush]
        rfl
      · rfl
  | bracket =>
      simp only [step, hmode, hm]
      repeat' split
      all_goals rfl
  | tag read quote =>
      cases quote with
      | none =>
          simp only [step, hmode, hm]
          repeat' split
          all_goals first | rfl | exact after_closeTag before s read
      | some q =>
          simp only [step, hmode, hm]
          rfl
  | failed => rw [step_failed hm, step_failed (hmode.trans hm)]
  | _ =>
      simp only [step, hmode, hm]
      repeat' split
      all_goals rfl

theorem after_run (s : Scanner) (cs : List Char) : (s.after before).run cs = (s.run cs).after before := by
  induction cs generalizing s with
  | nil => rfl
  | cons c cs ih =>
      rw [run, List.foldl_cons, after_step]
      exact ih (s.step c)

theorem after_finish (s : Scanner) : (s.after before).finish = before.reverse ++ s.finish := by
  rw [finish_eq, finish_eq, ← List.append_assoc, ← List.reverse_append]
  rfl

variable {opened : List (List Char)}

theorem run_text {raw : List Char} (h : '<' ∉ raw) (read : List Char) :
    run ⟨.text read, opened, before⟩ raw = ⟨.text (raw.reverse ++ read), opened, before⟩ := by
  induction raw generalizing read with
  | nil => rfl
  | cons c raw ih =>
      obtain ⟨hc, hraw⟩ := not_or.1 (mt List.mem_cons.2 h)
      have hstep : step ⟨.text read, opened, before⟩ c = ⟨.text (c :: read), opened, before⟩ :=
        if_neg (Ne.symm hc)
      rw [run, List.foldl_cons, hstep, List.reverse_cons, List.append_assoc]
      exact ih hraw (c :: read)

theorem run_bracket (read cs : List Char) :
    run ⟨.text read, opened, before⟩ ('<' :: cs) =
      run ⟨.bracket, opened, (textEvents read.reverse).reverse ++ before⟩ cs := by
  have hflush : (flush ⟨.text read, opened, before⟩ read).enter .bracket =
      ⟨.bracket, opened, (textEvents read.reverse).reverse ++ before⟩ := by
    simp only [flush, textEvents, List.isEmpty_reverse]
    split <;> rfl
  rw [← hflush]
  rfl

end Scanner

def quoteStep (quote : Option Char) (c : Char) : Option Char :=
  match quote with
  | none => if c = '"' ∨ c = '\'' then some c else none
  | some q => if c = q then none else some q

/-- Characters of a tag after which no quote is open, with no closing bracket outside of quotes. -/
def staysInTag (quote : Option Char) : List Char → Bool
  | [] => quote.isNone
  | c :: cs => (quote.isSome || c ≠ '>') && staysInTag (quoteStep quote c) cs

theorem staysInTag_append {quote : Option Char} {cs : List Char} (h : staysInTag quote cs) (ds : List Char) :
    staysInTag quote (cs ++ ds) = staysInTag none ds := by
  induction cs generalizing quote with
  | nil => rw [List.nil_append, Option.isNone_iff_eq_none.1 h]
  | cons c cs ih =>
      obtain ⟨hc, hcs⟩ := Bool.and_eq_true_iff.1 h
      rw [List.cons_append, staysInTag, hc, ih hcs, Bool.true_and]

theorem staysInTag_of_append {cs ds : List Char} (h : staysInTag none (cs ++ ds))
    (hcs : ∀ c ∈ cs, c ≠ '"' ∧ c ≠ '\'') : staysInTag none cs := by
  induction cs with
  | nil => rfl
  | cons c cs ih =>
      obtain ⟨hc, hcs⟩ := List.forall_mem_cons.1 hcs
      have hquote : quoteStep none c = none := if_neg (not_or.2 hc)
      rw [List.cons_append, staysInTag, hquote, Bool.and_eq_true] at h
      rw [staysInTag, hquote, Bool.and_eq_true]
      exact ⟨h.1, ih h.2 hcs⟩

namespace Scanner

variable {opened : List (List Char)} (before : List Event)

theorem run_tag {quote : Option Char} {cs : List Char} (h : staysInTag quote cs) (read : List Char) :
    run ⟨.tag read quote, opened, before⟩ cs = ⟨.tag (cs.reverse ++ read) none, opened, before⟩ := by
  induction cs generalizing quote read with
  | nil =>
      rw [Option.isNone_iff_eq_none.1 h]
      rfl
  | cons c cs ih =>
      obtain ⟨hc, hcs⟩ := Bool.and_eq_true_iff.1 h
      have hstep : step ⟨.tag read quote, opened, before⟩ c =
          ⟨.tag (c :: read) (quoteStep quote c), opened, before⟩ := by
        cases quote with
        | none =>
            have hc : c ≠ '>' := of_decide_eq_true hc
            simp only [step, quoteStep, if_neg hc]
            split <;> rfl
        | some q => rfl
      rw [run, List.foldl_cons, hstep, List.reverse_cons, List.append_assoc]
      exact ih hcs (c :: read)

theorem run_closeTag {content : List Char} (h : staysInTag none content)
    (hfirst : ∃ c ∈ content.head?, c ≠ '!' ∧ c ≠ '?') :
    run ⟨.bracket, opened, before⟩ (content ++ ['>']) =
      closeTag ⟨.bracket, opened, before⟩ content.reverse := by
  obtain ⟨c, hc, hbang, hmark⟩ := hfirst
  obtain ⟨cs, rfl⟩ := List.head?_eq_some_iff.1 hc
  obtain ⟨hbracket, hcs⟩ := Bool.and_eq_true_iff.1 h
  have hbracket : c ≠ '>' := of_decide_eq_true hbracket
  have hstep : step ⟨.bracket, opened, before⟩ c = ⟨.tag [c] (quoteStep none c), opened, before⟩ := by
    simp only [step, quoteStep, if_neg hbang, if_neg hmark, if_neg hbracket]
    split <;> rfl
  rw [List.cons_append, run, List.foldl_cons, hstep, ← run, run_append, run_tag before hcs,
    List.reverse_cons]
  rfl

theorem closeTag_start (s : Scanner) {content : List Char} (hfirst : content.head? ≠ some '/')
    (hlast : content.getLast? ≠ some '/') :
    s.closeTag content.reverse = { s.emit (.start (.ofText content)) with
      opened := (Tag.ofText content).name :: s.opened } := by
  rw [closeTag, List.reverse_reverse]
  split
  · exact absurd rfl hfirst
  · split
    · next before hbefore =>
        refine absurd ?_ hlast
        rw [List.getLast?_eq_head?_reverse, hbefore]
        rfl
    · rfl

theorem closeTag_empty (s : Scanner) {content : List Char} (hnil : content ≠ [])
    (hfirst : content.head? ≠ some '/') :
    s.closeTag (content ++ ['/']).reverse = s.emit (.empty (.ofText content)) := by
  rw [closeTag, List.reverse_reverse, List.reverse_append]
  split
  · next h =>
      refine absurd ?_ hfirst
      rw [← List.head?_append_of_ne_nil content hnil, h]
      rfl
  · simp only [List.reverse_cons, List.reverse_nil, List.nil_append, List.singleton_append,
      List.reverse_reverse]

theorem closingName_reverse {name space : List Char} (hname : ∀ c ∈ name, Text.isGap c = false)
    (hspace : ∀ c ∈ space, Text.isGap c) (hnil : name = [] → space = []) :
    closingName (name ++ space).reverse = name := by
  rw [closingName, List.reverse_append]
  have hdrop : (space.reverse ++ name.reverse).dropWhile Text.isGap = name.reverse := by
    rw [List.dropWhile_append_of_pos fun c hc => hspace c (List.mem_reverse.1 hc)]
    cases hreverse : name.reverse with
    | nil => rfl
    | cons c cs =>
        have hc : Text.isGap c = false := hname c (List.mem_reverse.1 (hreverse ▸ List.mem_cons_self))
        exact List.dropWhile_cons_of_neg (by rw [hc]; decide)
  split
  · next hall =>
      have hempty : name = [] := by
        cases name with
        | nil => rfl
        | cons c name =>
            have hc := List.all_eq_true.1 hall c
              (List.mem_append_right _ (List.mem_reverse.2 List.mem_cons_self))
            rw [hname c List.mem_cons_self] at hc
            cases hc
      rw [hempty, hnil hempty]
      rfl
  · rw [hdrop, List.reverse_reverse]

theorem closeTag_stop (s : Scanner) {name written : List Char} {rest : List (List Char)}
    (hopened : s.opened = name :: rest) (hname : closingName written.reverse = name) :
    s.closeTag ('/' :: written).reverse = { s.emit .stop with opened := rest } := by
  rw [closeTag, List.reverse_reverse, hopened]
  simp only [List.reverse_cons, List.dropLast_concat, hname, if_true]

end Scanner

theorem not_isInfix_count {mark c : Char} {n : Nat} {body : List Char}
    (h : ¬[mark, mark, '>'] <:+: List.replicate n mark ++ c :: body) :
    ¬(c = '>' ∧ n = 2) ∧
      ¬[mark, mark, '>'] <:+: List.replicate (if c = mark then min 2 (n + 1) else 0) mark ++ body := by
  constructor
  · rintro ⟨rfl, rfl⟩
    exact h ⟨[], body, rfl⟩
  · by_cases hc : c = mark
    · subst hc
      refine fun hend => h (hend.trans (List.IsSuffix.isInfix ?_))
      have hmarks : List.replicate (n + 1) c ++ body = List.replicate n c ++ c :: body := by
        rw [List.replicate_succ', List.append_assoc]
        rfl
      rw [← hmarks, if_pos rfl]
      refine ⟨List.replicate (n + 1 - min 2 (n + 1)) c, ?_⟩
      rw [← List.append_assoc, List.replicate_append_replicate]
      congr 2
      omega
    · rw [if_neg hc]
      refine fun hend => h (hend.trans (List.IsSuffix.isInfix ?_))
      exact ⟨List.replicate n mark ++ [c], by simp⟩

namespace Scanner

variable {opened : List (List Char)} (before : List Event)

theorem run_comment {n : Nat} (hn : n ≤ 2) {body : List Char}
    (h : ¬"-->".toList <:+: List.replicate n '-' ++ body) :
    ∃ m ≤ 2, run ⟨.comment n, opened, before⟩ body = ⟨.comment m, opened, before⟩ := by
  induction body generalizing n with
  | nil => exact ⟨n, hn, rfl⟩
  | cons c body ih =>
      obtain ⟨hopen, hbody⟩ := not_isInfix_count h
      have hstep : step ⟨.comment n, opened, before⟩ c =
          ⟨.comment (if c = '-' then min 2 (n + 1) else 0), opened, before⟩ := if_neg hopen
      rw [run, List.foldl_cons, hstep]
      exact ih (by split <;> omega) hbody

theorem run_cdata {n : Nat} (hn : n ≤ 2) {body : List Char}
    (h : ¬"]]>".toList <:+: List.replicate n ']' ++ body) :
    ∃ m ≤ 2, run ⟨.cdata n, opened, before⟩ body = ⟨.cdata m, opened, before⟩ := by
  induction body generalizing n with
  | nil => exact ⟨n, hn, rfl⟩
  | cons c body ih =>
      obtain ⟨hopen, hbody⟩ := not_isInfix_count h
      have hstep : step ⟨.cdata n, opened, before⟩ c =
          ⟨.cdata (if c = ']' then min 2 (n + 1) else 0), opened, before⟩ := if_neg hopen
      rw [run, List.foldl_cons, hstep]
      exact ih (by split <;> omega) hbody

theorem isSuffix_mark (c : Char) (body : List Char) :
    (if decide (c = '?') then ['?'] else []) ++ body <:+ c :: body := by
  by_cases hc : c = '?'
  · subst hc
    exact List.suffix_rfl
  · simp only [hc, decide_false, Bool.false_eq_true, if_false, List.nil_append]
    exact List.suffix_cons c body

theorem run_instruction {mark : Bool} {body : List Char}
    (h : ¬"?>".toList <:+: (if mark then ['?'] else []) ++ body) :
    ∃ mark', run ⟨.instruction mark, opened, before⟩ body = ⟨.instruction mark', opened, before⟩ := by
  induction body generalizing mark with
  | nil => exact ⟨mark, rfl⟩
  | cons c body ih =>
      have hopen : ¬(c = '>' ∧ mark = true) := by
        rintro ⟨rfl, rfl⟩
        exact h ⟨[], body, rfl⟩
      have hstep : step ⟨.instruction mark, opened, before⟩ c =
          ⟨.instruction (c = '?'), opened, before⟩ := if_neg hopen
      rw [run, List.foldl_cons, hstep]
      refine ih fun hend => h (hend.trans (List.IsSuffix.isInfix ?_))
      exact (isSuffix_mark c body).trans (List.suffix_append _ _)

end Scanner

inductive IsAside : List Char → Prop
  | comment (body : List Char) (h : ¬"-->".toList <:+: body) :
      IsAside ('<' :: "!--".toList ++ (body ++ "-->".toList))
  | instruction (body : List Char) (h : ¬"?>".toList <:+: body) (hfirst : body.head? ≠ some '>') :
      IsAside ('<' :: "?".toList ++ (body ++ "?>".toList))

def cdata (body : List Char) : List Char :=
  '<' :: "![CDATA[".toList ++ (body ++ "]]>".toList)

structure IsStartTag (content : List Char) : Prop where
  stays : staysInTag none content
  first : content.head? ∉ [none, some '/', some '!', some '?']
  last : content.getLast? ≠ some '/'
  name : ∀ c ∈ (Tag.ofText content).name, c ≠ '"' ∧ c ≠ '\''

theorem isStartTag_iff {content : List Char} : IsStartTag content ↔
    staysInTag none content ∧ content.head? ∉ [none, some '/', some '!', some '?'] ∧
      content.getLast? ≠ some '/' ∧
      (Tag.ofText content).name.all (fun c => decide (c ≠ '"' ∧ c ≠ '\'')) := by
  simp only [List.all_eq_true, decide_eq_true_eq]
  exact ⟨fun h => ⟨h.stays, h.first, h.last, h.name⟩, fun h => ⟨h.1, h.2.1, h.2.2.1, h.2.2.2⟩⟩

instance (content : List Char) : Decidable (IsStartTag content) :=
  decidable_of_iff' _ isStartTag_iff

namespace IsStartTag

variable {content : List Char}

theorem exists_first (h : IsStartTag content) :
    ∃ c, content.head? = some c ∧ c ≠ '/' ∧ c ≠ '!' ∧ c ≠ '?' := by
  have hfirst := h.first
  cases content with
  | nil => simp at hfirst
  | cons c cs => exact ⟨c, rfl, by simpa using hfirst⟩

theorem head?_ne (h : IsStartTag content) : content.head? ≠ some '/' := by
  obtain ⟨c, hc, hslash, -⟩ := h.exists_first
  rw [hc]
  exact fun he => hslash (Option.some.inj he)

theorem staysInTag_name (h : IsStartTag content) : staysInTag none (Tag.ofText content).name := by
  have hcontent : (Tag.ofText content).name ++ content.dropWhile (fun c => !Text.isGap c) = content :=
    List.takeWhile_append_dropWhile
  exact staysInTag_of_append (hcontent.symm ▸ h.stays) h.name

end IsStartTag

theorem isGap_eq_false_of_mem_name {content : List Char} :
    ∀ c ∈ (Tag.ofText content).name, Text.isGap c = false := by
  intro c hc
  simpa using List.all_eq_true.1 List.all_takeWhile c hc

/-- A part of a text that begins and ends outside of markup spells some events, which may open and close
elements. -/
def Spells (cs : List Char) (opened : List (List Char)) (es : List Event)
    (opened' : List (List Char)) : Prop :=
  Scanner.run ⟨.text [], opened, []⟩ cs = ⟨.text [], opened', es.reverse⟩

namespace Spells

variable {cs ds content raw name : List Char} {opened opened' opened'' : List (List Char)}
  {es es' : List Event}

theorem run (h : Spells cs opened es opened') (before : List Event) :
    Scanner.run ⟨.text [], opened, before⟩ cs = ⟨.text [], opened', es.reverse ++ before⟩ := by
  have hafter := Scanner.after_run before ⟨.text [], opened, []⟩ cs
  rw [h] at hafter
  exact hafter

theorem nil : Spells [] opened [] opened := rfl

theorem append (h : Spells cs opened es opened') (h' : Spells ds opened' es' opened'') :
    Spells (cs ++ ds) opened (es ++ es') opened'' := by
  rw [Spells, Scanner.run_append, h, h'.run, List.reverse_append]

theorem text (hraw : '<' ∉ raw) (h : Spells ('<' :: cs) opened es opened') :
    Spells (raw ++ '<' :: cs) opened (textEvents raw ++ es) opened' := by
  have hrun := h.run (textEvents raw).reverse
  rw [Scanner.run_bracket] at hrun
  rw [Spells, Scanner.run_append, Scanner.run_text [] hraw, Scanner.run_bracket]
  simp only [List.append_nil, List.reverse_reverse, List.reverse_append]
  exact hrun

theorem startTag (h : IsStartTag content) (opened : List (List Char)) :
    Spells ('<' :: content ++ ['>']) opened [.start (.ofText content)]
      ((Tag.ofText content).name :: opened) := by
  obtain ⟨c, hc, -, hbang, hmark⟩ := h.exists_first
  rw [Spells, List.cons_append, Scanner.run_bracket,
    Scanner.run_closeTag _ h.stays ⟨c, hc, hbang, hmark⟩,
    Scanner.closeTag_start _ h.head?_ne h.last]
  rfl

theorem emptyTag (h : IsStartTag content) (opened : List (List Char)) :
    Spells ('<' :: content ++ ['/', '>']) opened [.empty (.ofText content)] opened := by
  obtain ⟨c, hc, -, hbang, hmark⟩ := h.exists_first
  have hstays : staysInTag none (content ++ ['/']) := staysInTag_append h.stays ['/']
  have hnil : content ≠ [] := by
    rintro rfl
    cases hc
  have hfirst : (content ++ ['/']).head? = some c := by
    rw [List.head?_append_of_ne_nil content hnil, hc]
  have hsplit : '<' :: content ++ ['/', '>'] = '<' :: ((content ++ ['/']) ++ ['>']) := by simp
  rw [Spells, hsplit, Scanner.run_bracket, Scanner.run_closeTag _ hstays ⟨c, hfirst, hbang, hmark⟩,
    Scanner.closeTag_empty _ hnil h.head?_ne]
  rfl

theorem stopTag (h : IsStartTag content) (opened : List (List Char)) :
    Spells ('<' :: '/' :: (Tag.ofText content).name ++ ['>']) ((Tag.ofText content).name :: opened)
      [.stop] opened := by
  have hstays : staysInTag none ('/' :: (Tag.ofText content).name) := h.staysInTag_name
  have hname : Scanner.closingName ((Tag.ofText content).name ++ []).reverse =
      (Tag.ofText content).name :=
    Scanner.closingName_reverse isGap_eq_false_of_mem_name (fun _ hc => nomatch hc) (fun _ => rfl)
  rw [List.append_nil] at hname
  rw [Spells, List.cons_append, Scanner.run_bracket,
    Scanner.run_closeTag _ hstays ⟨'/', rfl, by decide, by decide⟩,
    Scanner.closeTag_stop _ rfl hname]
  rfl

theorem aside (h : IsAside cs) (opened : List (List Char)) : Spells cs opened [] opened := by
  cases h with
  | comment body h =>
      obtain ⟨n, hn, hbody⟩ := Scanner.run_comment [] (Nat.zero_le 2) h
      have hopen : Scanner.run ⟨.text [], opened, []⟩ ('<' :: "!--".toList) =
          ⟨.comment 0, opened, []⟩ := rfl
      rw [Spells, Scanner.run_append, hopen, Scanner.run_append, hbody]
      rcases n with _ | _ | _ | n
      · rfl
      · rfl
      · rfl
      · omega
  | instruction body h hfirst =>
      cases body with
      | nil => rfl
      | cons c body =>
          have hopen : Scanner.run ⟨.text [], opened, []⟩ ('<' :: "?".toList) =
              ⟨.instructionStart, opened, []⟩ := rfl
          have hc : c ≠ '>' := fun hc => hfirst (congrArg some hc)
          have hstep : Scanner.step ⟨.instructionStart, opened, []⟩ c =
              ⟨.instruction (c = '?'), opened, []⟩ := if_neg hc
          have hend : ¬"?>".toList <:+: (if decide (c = '?') then ['?'] else []) ++ body :=
            fun hend => h (hend.trans (Scanner.isSuffix_mark c body).isInfix)
          obtain ⟨mark, hbody⟩ := Scanner.run_instruction [] hend
          rw [Spells, Scanner.run_append, hopen, List.cons_append, Scanner.run, List.foldl_cons, hstep,
            ← Scanner.run, Scanner.run_append, hbody]
          rfl

/-- A CDATA section is passed over, whatever stands in it. -/
theorem cdata {body : List Char} (h : ¬"]]>".toList <:+: body) (opened : List (List Char)) :
    Spells (cdata body) opened [] opened := by
  obtain ⟨n, hn, hbody⟩ := Scanner.run_cdata [] (Nat.zero_le 2) h
  have hopen : Scanner.run ⟨.text [], opened, []⟩ ('<' :: "![CDATA[".toList) =
      ⟨.cdata 0, opened, []⟩ := rfl
  rw [Spells, Xml.cdata, Scanner.run_append, hopen, Scanner.run_append, hbody]
  rcases n with _ | _ | _ | n
  · rfl
  · rfl
  · rfl
  · omega

theorem flatMap_cdata {sections : List (List Char)} (h : ∀ body ∈ sections, ¬"]]>".toList <:+: body)
    (opened : List (List Char)) : Spells (sections.flatMap Xml.cdata) opened [] opened := by
  induction sections with
  | nil => exact .nil
  | cons body sections ih =>
      obtain ⟨hbody, hsections⟩ := List.forall_mem_cons.1 h
      exact (cdata hbody opened).append (ih hsections)

section

variable {opening closing inner : List Char} {tag : Tag}

theorem element (content : List Char) (h : IsStartTag content) (htag : Tag.ofText content = tag)
    (hopening : opening = '<' :: content ++ ['>']) (hclosing : closing = '<' :: '/' :: tag.name ++ ['>'])
    (hinner : Spells inner (tag.name :: opened) es (tag.name :: opened)) :
    Spells (opening ++ inner ++ closing) opened (.start tag :: (es ++ [.stop])) opened := by
  subst htag hopening hclosing
  rw [List.append_assoc]
  exact (startTag h opened).append (hinner.append (stopTag h opened))

theorem textElement (content : List Char) (h : IsStartTag content) (htag : Tag.ofText content = tag)
    (hopening : opening = '<' :: content ++ ['>']) (hclosing : closing = '<' :: '/' :: tag.name ++ ['>'])
    (hraw : '<' ∉ raw) (opened : List (List Char)) :
    Spells (opening ++ raw ++ closing) opened (.start tag :: (textEvents raw ++ [.stop])) opened := by
  subst htag hopening hclosing
  rw [List.append_assoc]
  exact (startTag h opened).append (text hraw (stopTag h opened))

end

end Spells

/-- The events of a text that begins outside of markup, where some elements are open. -/
def eventsIn (opened : List (List Char)) (cs : List Char) : List Event :=
  (Scanner.run ⟨.text [], opened, []⟩ cs).finish

theorem events_eq_eventsIn (cs : List Char) : events cs = eventsIn [] (unmarked cs) := rfl

theorem Spells.eventsIn_append {cs : List Char} {opened opened' : List (List Char)} {es : List Event}
    (h : Spells cs opened es opened') (ds : List Char) :
    eventsIn opened (cs ++ ds) = es ++ eventsIn opened' ds := by
  have hafter := Scanner.after_run es.reverse ⟨.text [], opened', []⟩ ds
  rw [eventsIn, Scanner.run_append, h]
  refine (congrArg Scanner.finish hafter).trans ?_
  rw [Scanner.after_finish, List.reverse_reverse]
  rfl

theorem Spells.events_eq {cs : List Char} {opened : List (List Char)} {es : List Event}
    (h : Spells cs [] es opened) (hfront : cs.head? ≠ some '\uFEFF') : events cs = es := by
  have hend := h.eventsIn_append []
  rw [List.append_nil] at hend
  rw [events_eq_eventsIn, unmarked_of_front hfront, hend]
  exact List.append_nil es

end Inkpress.Xml
