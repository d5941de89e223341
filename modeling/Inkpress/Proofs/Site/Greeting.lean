import Inkpress.Proofs.Site.Lookup
import Inkpress.Proofs.Site.Template

namespace Inkpress.Site

namespace Html

def special : List Char :=
  ['&', '<', '>', '"', '\'']

def references : List (List Char) :=
  ["&amp;".toList, "&lt;".toList, "&gt;".toList, "&quot;".toList, "&#x27;".toList]

def unescape : List Char → List Char
  | '&' :: 'a' :: 'm' :: 'p' :: ';' :: cs => '&' :: unescape cs
  | '&' :: 'l' :: 't' :: ';' :: cs => '<' :: unescape cs
  | '&' :: 'g' :: 't' :: ';' :: cs => '>' :: unescape cs
  | '&' :: 'q' :: 'u' :: 'o' :: 't' :: ';' :: cs => '"' :: unescape cs
  | '&' :: '#' :: 'x' :: '2' :: '7' :: ';' :: cs => '\'' :: unescape cs
  | c :: cs => c :: unescape cs
  | [] => []

/-- Characters that are written as they are, and references. -/
inductive IsEscaped : List Char → Prop
  | nil : IsEscaped []
  | plain {c : Char} {cs : List Char} (hc : c ∉ special) (h : IsEscaped cs) : IsEscaped (c :: cs)
  | reference {r cs : List Char} (hr : r ∈ references) (h : IsEscaped cs) : IsEscaped (r ++ cs)

variable {c : Char} {cs t : List Char}

theorem escapeChar_of_special (h : c ∈ special) : escapeChar c ∈ references := by
  have hall : (special.all fun c => references.contains (escapeChar c)) = true := by decide
  exact List.contains_iff_mem.1 (List.all_eq_true.1 hall c h)

theorem escapeChar_of_plain (h : c ∉ special) : escapeChar c = [c] := by
  simp only [special, List.mem_cons, List.not_mem_nil, or_false, not_or] at h
  obtain ⟨hamp, hlt, hgt, hquot, hapos⟩ := h
  simp only [escapeChar, hamp, hlt, hgt, hquot, hapos, if_false]

theorem isEscaped_escape (cs : List Char) : IsEscaped (escape cs) := by
  induction cs with
  | nil => exact .nil
  | cons c cs ih =>
      rw [escape, List.flatMap_cons, ← escape]
      by_cases hc : c ∈ special
      · exact .reference (escapeChar_of_special hc) ih
      · rw [escapeChar_of_plain hc]
        exact .plain hc ih

theorem IsEscaped.not_mem (h : IsEscaped t) : ∀ c ∈ ['<', '>', '"', '\''], c ∉ t := by
  have hspecial : (['<', '>', '"', '\''].all special.contains) = true := by decide
  have hreferences : (references.all fun r => r.all fun d => !(['<', '>', '"', '\''].contains d)) = true :=
    by decide
  intro c hc
  induction h with
  | nil => exact List.not_mem_nil
  | @plain d t hd h ih =>
      rw [List.mem_cons, not_or]
      exact ⟨fun heq => hd (heq ▸ List.contains_iff_mem.1 (List.all_eq_true.1 hspecial c hc)), ih⟩
  | @reference r t hr h ih =>
      rw [List.mem_append, not_or]
      refine ⟨?_, ih⟩
      intro hmem
      have hnone := List.all_eq_true.1 (List.all_eq_true.1 hreferences r hr) c hmem
      rw [List.contains_iff_mem.2 hc] at hnone
      cases hnone

theorem IsEscaped.reference_of_ampersand (h : IsEscaped t) {before after : List Char}
    (ht : t = before ++ '&' :: after) : ∃ r ∈ references, r <+: '&' :: after := by
  have htail : (references.all fun r => !r.tail.contains '&') = true := by decide
  induction h generalizing before with
  | nil => exact absurd ht.symm (List.append_ne_nil_of_right_ne_nil _ (List.cons_ne_nil _ _))
  | @plain d t hd h ih =>
      cases before with
      | nil =>
          obtain ⟨rfl, -⟩ := List.cons.inj ht
          exact absurd (by decide) hd
      | cons c before => exact ih (List.cons.inj ht).2
  | @reference r t hr h ih =>
      rcases List.append_eq_append_iff.1 ht with ⟨between, -, hrest⟩ | ⟨rest, hr', hrest⟩
      · exact ih hrest
      · cases rest with
        | nil => exact @ih [] hrest.symm
        | cons c rest =>
            obtain ⟨rfl, rfl⟩ := List.cons.inj hrest
            -- The ampersand is one of the reference, and there it can only be the first character.
            cases before with
            | nil => exact ⟨r, hr, hr' ▸ List.prefix_append ('&' :: rest) t⟩
            | cons c before =>
                have hmem : '&' ∈ r.tail := by
                  rw [hr']
                  exact List.mem_append_right _ List.mem_cons_self
                have hnone := List.all_eq_true.1 htail r hr
                rw [List.contains_iff_mem.2 hmem] at hnone
                cases hnone

theorem unescape_cons (h : c ≠ '&') (cs : List Char) : unescape (c :: cs) = c :: unescape cs := by
  rw [unescape] <;> exact fun _ hc => absurd hc h

theorem unescape_escapeChar (c : Char) (rest : List Char) :
    unescape (escapeChar c ++ rest) = c :: unescape rest := by
  by_cases hc : c ∈ special
  · simp only [special, List.mem_cons, List.not_mem_nil, or_false] at hc
    rcases hc with rfl | rfl | rfl | rfl | rfl <;> rfl
  · rw [escapeChar_of_plain hc]
    refine unescape_cons ?_ rest
    rintro rfl
    exact hc (by decide)

theorem unescape_escape_append (cs rest : List Char) :
    unescape (escape cs ++ rest) = cs ++ unescape rest := by
  induction cs with
  | nil => rfl
  | cons c cs ih =>
      rw [escape, List.flatMap_cons, ← escape, List.append_assoc, unescape_escapeChar, ih]
      rfl

theorem unescape_escape (cs : List Char) : unescape (escape cs) = cs := by
  have h := unescape_escape_append cs []
  rwa [List.append_nil, unescape, List.append_nil] at h

theorem escape_injective : Function.Injective escape :=
  Function.LeftInverse.injective unescape_escape

inductive Piece
  | tag (name : List Char)
  | text (shown : List Char)
  deriving Repr, DecidableEq

/-- Takes a page apart: every bracket begins a tag, and what stands between tags is text. -/
def pieces : List Char → List Piece
  | [] => []
  | '<' :: cs => .tag (cs.takeWhile (· ≠ '>')) :: pieces ((cs.dropWhile (· ≠ '>')).drop 1)
  | c :: cs =>
    .text (unescape (c :: cs.takeWhile (· ≠ '<'))) :: pieces (cs.dropWhile (· ≠ '<'))
  termination_by cs => cs.length
  decreasing_by
    · have hdrop := ((List.drop_suffix 1 (cs.dropWhile (· ≠ '>'))).trans (List.dropWhile_suffix _)).length_le
      exact Nat.lt_succ_of_le hdrop
    · exact Nat.lt_succ_of_le (List.dropWhile_suffix _).length_le

theorem pieces_tag {name : List Char} (h : '>' ∉ name) (rest : List Char) :
    pieces ('<' :: (name ++ '>' :: rest)) = .tag name :: pieces rest := by
  have hname : ∀ c ∈ name, decide (c ≠ '>') = true := by
    intro c hc
    exact decide_eq_true fun heq => h (heq ▸ hc)
  rw [pieces, List.takeWhile_append_of_pos hname, List.dropWhile_append_of_pos hname]
  simp

theorem pieces_cons (h : c ≠ '<') (cs : List Char) : pieces (c :: cs) =
    .text (unescape (c :: cs.takeWhile (· ≠ '<'))) :: pieces (cs.dropWhile (· ≠ '<')) := by
  rw [pieces]
  exact h

theorem pieces_text (hne : cs ≠ []) (h : '<' ∉ cs) (rest : List Char) :
    pieces (cs ++ '<' :: rest) = .text (unescape cs) :: pieces ('<' :: rest) := by
  obtain ⟨c, cs, rfl⟩ := List.exists_cons_of_ne_nil hne
  obtain ⟨hc, hcs⟩ := not_or.1 (mt List.mem_cons.2 h)
  have hplain : ∀ d ∈ cs, decide (d ≠ '<') = true := by
    intro d hd
    exact decide_eq_true fun heq => hcs (heq ▸ hd)
  rw [List.cons_append, pieces_cons (Ne.symm hc), List.takeWhile_append_of_pos hplain,
    List.dropWhile_append_of_pos hplain]
  simp

theorem pieces_greeting (name : String) :
    pieces (greeting name).toList = [.tag "h1".toList, .text ("Hello ".toList ++ name.toList ++ [' ']),
      .tag "/br".toList, .text [' '], .tag "/h1".toList] := by
  have hpage : (greeting name).toList = '<' :: ("h1".toList ++ '>' ::
      (escape ("Hello ".toList ++ name.toList ++ [' ']) ++ '<' :: ("/br".toList ++ '>' ::
        ([' '] ++ '<' :: ("/h1".toList ++ '>' :: []))))) := by
    simp only [greeting, String.toList_append, String.toList_ofList, escape, List.flatMap_append]
    simp [escapeChar]
  have hne : escape ("Hello ".toList ++ name.toList ++ [' ']) ≠ [] := by
    intro hnil
    have hshown := unescape_escape ("Hello ".toList ++ name.toList ++ [' '])
    rw [hnil] at hshown
    exact absurd hshown.symm (List.concat_ne_nil _ _)
  have hbracket := (isEscaped_escape ("Hello ".toList ++ name.toList ++ [' '])).not_mem '<' (by decide)
  rw [hpage, pieces_tag (by decide), pieces_text hne hbracket, unescape_escape, pieces_tag (by decide),
    pieces_text (by decide) (by decide), pieces_tag (by decide)]
  rw [pieces]
  rfl

end Html

theorem Route.ofPath?_home {segment : List Char} (hne : segment ≠ []) (hslash : '/' ∉ segment) :
    ofPath? ("/home/".toList ++ segment) = some (home segment) := by
  have hsplit : Text.split '/' ([] ++ '/' :: ("home".toList ++ '/' :: segment)) =
      [[], "home".toList, segment] := by
    rw [Text.split_append (by decide), Text.split_append (by decide), Text.split_of_not_mem hslash]
  exact ofPath?_eq_some_iff.2 ⟨hne, hsplit⟩

/-- Escaped text has no brackets and no quotes, and no ampersands but those of references; it is read back
as it was, also where it was escaped before, and no two texts are escaped alike. A greeting by any name is
therefore a page of the same three tags, which shows the name as it is. -/
theorem greeting_escaped :
    (∀ cs, (∀ c ∈ ['<', '>', '"', '\''], c ∉ Html.escape cs) ∧
      (∀ before after, Html.escape cs = before ++ '&' :: after →
        ∃ r ∈ Html.references, r <+: '&' :: after) ∧
      Html.unescape (Html.escape cs) = cs ∧
      Html.unescape (Html.escape (Html.escape cs)) = Html.escape cs) ∧
    Function.Injective Html.escape ∧
    ∀ (b : Blog) (origin newId : String) (segment : List Char) (query : Option (List Char))
      (headers : List (String × String)) (name : String),
      segment ≠ [] → '/' ∉ segment → Address.decode? segment = some name →
      (handle b origin newId (.get ("/home/".toList ++ segment) query headers)).1 =
          (Response.html 200 (Html.greeting name)).dressed origin
            (((Request.get [] none headers).header? "x-request-id").getD newId) ∧
        Html.pieces (Html.greeting name).toList = [.tag "h1".toList,
          .text ("Hello ".toList ++ name.toList ++ [' ']), .tag "/br".toList, .text [' '],
          .tag "/h1".toList] := by
  refine ⟨?_, Html.escape_injective, ?_⟩
  · intro cs
    have hescaped := Html.isEscaped_escape cs
    exact ⟨hescaped.not_mem, fun _ _ => hescaped.reference_of_ampersand, Html.unescape_escape cs,
      Html.unescape_escape _⟩
  · intro b origin newId segment query headers name hne hslash hname
    refine ⟨?_, Html.pieces_greeting name⟩
    have hhome : homeResponse segment = .html 200 (Html.greeting name) := by
      rw [homeResponse, hname]
    rw [handle_fst, respond_get b (Route.ofPath?_home hne hslash), ← hhome]
    rfl

/-- A name with a tag and with text that looks escaped. -/
theorem greeting_escaped_markup :
    let b : Blog := ⟨⟨.fresh, none⟩, .empty⟩
    let answer := (handle b "*" "id" (.get "/home/%3Cb%3E&lt;".toList none [])).1
    Address.decode? "%3Cb%3E&lt;".toList = some "<b>&lt;" ∧
      answer = (Response.html 200 "<h1>Hello &lt;b&gt;&amp;lt; </br> </h1>").dressed "*" "id" ∧
      Html.pieces "<h1>Hello &lt;b&gt;&amp;lt; </br> </h1>".toList = [.tag "h1".toList,
        .text "Hello <b>&lt; ".toList, .tag "/br".toList, .text [' '], .tag "/h1".toList] := by
  intro b answer
  have hname : Address.decode? "%3Cb%3E&lt;".toList = some "<b>&lt;" := by decide +kernel
  have hpage : Html.greeting "<b>&lt;" = "<h1>Hello &lt;b&gt;&amp;lt; </br> </h1>" := by decide +kernel
  obtain ⟨hanswer, hpieces⟩ :=
    greeting_escaped.2.2 b "*" "id" "%3Cb%3E&lt;".toList none [] "<b>&lt;" (by decide) (by decide) hname
  rw [hpage] at hanswer hpieces
  exact ⟨hname, hanswer, hpieces⟩

end Inkpress.Site
