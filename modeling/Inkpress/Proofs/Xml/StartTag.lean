import Inkpress.Proofs.Xml.Markup
import Inkpress.Proofs.Xml.Reference
import Mathlib.Data.List.Nodup

namespace Inkpress.Xml

open Text (isGap)

def isNameChar (c : Char) : Bool :=
  !isGap c && !List.contains ['<', '>', '&', '"', '\'', '=', '/', '!', '?'] c

structure IsName (cs : List Char) : Prop where
  ne_nil : cs ≠ []
  chars : ∀ c ∈ cs, isNameChar c

instance (cs : List Char) : Decidable (IsName cs) :=
  decidable_of_iff (cs ≠ [] ∧ cs.all isNameChar) ⟨fun h => ⟨h.1, List.all_eq_true.1 h.2⟩,
    fun h => ⟨h.1, List.all_eq_true.2 h.2⟩⟩

def IsSpace (cs : List Char) : Prop :=
  ∀ c ∈ cs, isGap c

instance (cs : List Char) : Decidable (IsSpace cs) :=
  decidable_of_iff (cs.all isGap) List.all_eq_true

theorem ne_of_isNameChar {c d : Char} (hc : isNameChar c) (hd : isNameChar d = false) : c ≠ d := by
  rintro rfl
  rw [hc] at hd
  cases hd

theorem isGap_of_isNameChar {c : Char} (h : isNameChar c) : isGap c = false :=
  Bool.not_eq_true' _ ▸ (Bool.and_eq_true_iff.1 h).1

theorem ne_of_isGap {c d : Char} (hc : isGap c) (hd : isGap d = false) : c ≠ d := by
  rintro rfl
  rw [hc] at hd
  cases hd

theorem IsName.exists_cons {cs : List Char} (h : IsName cs) :
    ∃ c rest, cs = c :: rest ∧ isNameChar c ∧ ∀ d ∈ rest, isNameChar d := by
  obtain ⟨c, rest, rfl⟩ := List.exists_cons_of_ne_nil h.ne_nil
  exact ⟨c, rest, rfl, List.forall_mem_cons.1 h.chars⟩

structure WrittenAttribute where
  before : List Char
  key : List Char
  beforeSign : List Char
  afterSign : List Char
  quote : Char
  value : List Char
  text : List Char
  before_ne_nil : before ≠ []
  isSpace_before : IsSpace before
  isName_key : IsName key
  isSpace_beforeSign : IsSpace beforeSign
  isSpace_afterSign : IsSpace afterSign
  isQuote : quote = '"' ∨ quote = '\''
  quote_notMem : quote ∉ value
  unescape_value : unescape value = some text

namespace WrittenAttribute

def written (a : WrittenAttribute) : List Char :=
  a.before ++ (a.key ++ (a.beforeSign ++ '=' :: (a.afterSign ++ a.quote :: (a.value ++ [a.quote]))))

def read (a : WrittenAttribute) : Attribute :=
  ⟨a.key, a.value⟩

end WrittenAttribute

namespace Attribute.Reader

variable {keys : List (List Char)} {read : List (Option Attribute)} {cs key : List Char}

def run (r : Reader) (cs : List Char) : Reader :=
  cs.foldl step r

theorem run_append (r : Reader) (cs ds : List Char) : r.run (cs ++ ds) = (r.run cs).run ds :=
  List.foldl_append

theorem run_cons (r : Reader) (c : Char) (cs : List Char) : r.run (c :: cs) = (r.step c).run cs := rfl

theorem run_gap (h : IsSpace cs) : run ⟨.gap, keys, read⟩ cs = ⟨.gap, keys, read⟩ := by
  induction cs with
  | nil => rfl
  | cons c cs ih =>
      obtain ⟨hc, hcs⟩ := List.forall_mem_cons.1 h
      have hstep : step ⟨.gap, keys, read⟩ c = ⟨.gap, keys, read⟩ := if_pos hc
      rw [run_cons, hstep, ih hcs]

theorem run_keyChars (h : ∀ c ∈ cs, isNameChar c) (before : List Char) :
    run ⟨.key before, keys, read⟩ cs = ⟨.key (cs.reverse ++ before), keys, read⟩ := by
  induction cs generalizing before with
  | nil => rfl
  | cons c cs ih =>
      obtain ⟨hc, hcs⟩ := List.forall_mem_cons.1 h
      have hsign : c ≠ '=' := ne_of_isNameChar hc (by decide)
      have hstep : step ⟨.key before, keys, read⟩ c = ⟨.key (c :: before), keys, read⟩ := by
        simp only [step, if_neg hsign, isGap_of_isNameChar hc, Bool.false_eq_true, if_false]
      rw [run_cons, hstep, ih hcs, List.reverse_cons, List.append_assoc]
      rfl

theorem run_key (h : IsName key) :
    run ⟨.gap, keys, read⟩ key = ⟨.key key.reverse, keys, read⟩ := by
  obtain ⟨c, rest, rfl, hc, hrest⟩ := h.exists_cons
  have hstep : step ⟨.gap, keys, read⟩ c = ⟨.key [c], keys, read⟩ := by
    simp only [step, isGap_of_isNameChar hc, Bool.false_eq_true, if_false]
  rw [run_cons, hstep, run_keyChars hrest, List.reverse_cons]

theorem run_sign (h : IsSpace cs) (hkey : key ∉ keys) :
    run ⟨.key key.reverse, keys, read⟩ (cs ++ ['=']) = ⟨.quote key, key :: keys, read⟩ := by
  have hclose (place : Place) : closeKey ⟨place, keys, read⟩ key = ⟨.quote key, key :: keys, read⟩ :=
    if_neg hkey
  have hend (place : Place) (hplace : step ⟨place, keys, read⟩ '=' =
      closeKey ⟨place, keys, read⟩ key.reverse.reverse) :
      run ⟨place, keys, read⟩ ['='] = ⟨.quote key, key :: keys, read⟩ := by
    rw [run_cons, hplace, List.reverse_reverse, hclose]
    rfl
  cases cs with
  | nil => exact hend _ rfl
  | cons c cs =>
      obtain ⟨hc, hcs⟩ := List.forall_mem_cons.1 h
      have hsign : c ≠ '=' := ne_of_isGap hc (by decide)
      have hstep : step ⟨.key key.reverse, keys, read⟩ c = ⟨.sign key.reverse, keys, read⟩ := by
        simp only [step, if_neg hsign, if_pos hc]
      rw [List.cons_append, run_cons, hstep]
      clear h hc hsign hstep
      induction cs with
      | nil => exact hend _ rfl
      | cons d cs ih =>
          obtain ⟨hd, hcs⟩ := List.forall_mem_cons.1 hcs
          have hstep : step ⟨.sign key.reverse, keys, read⟩ d = ⟨.sign key.reverse, keys, read⟩ :=
            if_pos hd
          rw [List.cons_append, run_cons, hstep]
          exact ih hcs

theorem run_quote (h : IsSpace cs) {q : Char} (hq : q = '"' ∨ q = '\'') :
    run ⟨.quote key, keys, read⟩ (cs ++ [q]) = ⟨.value key q [], keys, read⟩ := by
  induction cs with
  | nil =>
      have hgap : isGap q = false := by rcases hq with rfl | rfl <;> decide
      simp only [List.nil_append, run, List.foldl_cons, List.foldl_nil, step, hgap, Bool.false_eq_true,
        if_false, if_pos hq]
  | cons c cs ih =>
      obtain ⟨hc, hcs⟩ := List.forall_mem_cons.1 h
      have hstep : step ⟨.quote key, keys, read⟩ c = ⟨.quote key, keys, read⟩ := if_pos hc
      rw [List.cons_append, run_cons, hstep, ih hcs]

theorem run_value {q : Char} (h : q ∉ cs) (before : List Char) :
    run ⟨.value key q before, keys, read⟩ (cs ++ [q]) =
      ⟨.gap, keys, some ⟨key, before.reverse ++ cs⟩ :: read⟩ := by
  induction cs generalizing before with
  | nil =>
      rw [List.nil_append, List.append_nil, run_cons]
      exact if_pos rfl
  | cons c cs ih =>
      obtain ⟨hc, hcs⟩ := not_or.1 (mt List.mem_cons.2 h)
      have hstep : step ⟨.value key q before, keys, read⟩ c = ⟨.value key q (c :: before), keys, read⟩ :=
        if_neg (Ne.symm hc)
      rw [List.cons_append, run_cons, hstep, ih hcs, List.reverse_cons, List.append_assoc]
      rfl

theorem run_written (a : WrittenAttribute) (hkey : a.key ∉ keys) :
    run ⟨.gap, keys, read⟩ a.written = ⟨.gap, a.key :: keys, some a.read :: read⟩ := by
  have hsplit : a.written = a.before ++ (a.key ++ ((a.beforeSign ++ ['=']) ++
      ((a.afterSign ++ [a.quote]) ++ (a.value ++ [a.quote])))) := by
    simp only [WrittenAttribute.written, List.append_assoc, List.singleton_append]
  rw [hsplit, run_append, run_gap a.isSpace_before, run_append, run_key a.isName_key, run_append,
    run_sign a.isSpace_beforeSign hkey, run_append, run_quote a.isSpace_afterSign a.isQuote,
    run_value a.quote_notMem]
  rfl

theorem run_attributes {attributes : List WrittenAttribute}
    (hnodup : (attributes.map WrittenAttribute.key).Nodup)
    (hnew : ∀ a ∈ attributes, a.key ∉ keys) :
    run ⟨.gap, keys, read⟩ (attributes.flatMap WrittenAttribute.written) =
      ⟨.gap, (attributes.map WrittenAttribute.key).reverse ++ keys,
        (attributes.map fun a => some a.read).reverse ++ read⟩ := by
  induction attributes generalizing keys read with
  | nil => rfl
  | cons a attributes ih =>
      obtain ⟨ha, hnodup⟩ := List.nodup_cons.1 hnodup
      obtain ⟨hnewa, hnew⟩ := List.forall_mem_cons.1 hnew
      have hnew' : ∀ b ∈ attributes, b.key ∉ a.key :: keys := by
        intro b hb hmem
        rcases List.mem_cons.1 hmem with hkey | hmem
        · exact ha (hkey ▸ List.mem_map_of_mem hb)
        · exact hnew b hb hmem
      rw [List.flatMap_cons, run_append, run_written a hnewa, ih hnodup hnew']
      simp only [List.map_cons, List.reverse_cons, List.append_assoc, List.singleton_append]

end Attribute.Reader

/-- A start tag with different attributes. -/
structure WrittenTag where
  name : List Char
  attributes : List WrittenAttribute
  after : List Char
  isName_name : IsName name
  nodup_keys : (attributes.map WrittenAttribute.key).Nodup
  isSpace_after : IsSpace after

theorem staysInTag_of_forall {cs : List Char} (h : ∀ c ∈ cs, c ≠ '>' ∧ c ≠ '"' ∧ c ≠ '\'') :
    staysInTag none cs := by
  induction cs with
  | nil => rfl
  | cons c cs ih =>
      obtain ⟨⟨hend, hquote⟩, hcs⟩ := List.forall_mem_cons.1 h
      have hstep : quoteStep none c = none := if_neg (not_or.2 hquote)
      rw [staysInTag, hstep, ih hcs, Bool.and_true, Bool.or_eq_true, decide_eq_true_eq]
      exact .inr hend

theorem staysInTag_quoted {q : Char} {cs : List Char} (h : q ∉ cs) :
    staysInTag (some q) (cs ++ [q]) := by
  induction cs with
  | nil =>
      have hstep : quoteStep (some q) q = none := if_pos rfl
      rw [List.nil_append, staysInTag, hstep]
      rfl
  | cons c cs ih =>
      obtain ⟨hc, hcs⟩ := not_or.1 (mt List.mem_cons.2 h)
      have hstep : quoteStep (some q) c = some q := if_neg (Ne.symm hc)
      rw [List.cons_append, staysInTag, hstep, ih hcs]
      rfl

theorem IsSpace.staysInTag {cs : List Char} (h : IsSpace cs) : Xml.staysInTag none cs :=
  staysInTag_of_forall fun c hc =>
    ⟨ne_of_isGap (h c hc) (by decide), ne_of_isGap (h c hc) (by decide), ne_of_isGap (h c hc) (by decide)⟩

theorem IsName.staysInTag {cs : List Char} (h : IsName cs) : Xml.staysInTag none cs :=
  staysInTag_of_forall fun c hc => ⟨ne_of_isNameChar (h.chars c hc) (by decide),
    ne_of_isNameChar (h.chars c hc) (by decide), ne_of_isNameChar (h.chars c hc) (by decide)⟩

theorem getLast?_append_ne {cs ds : List Char} {c : Char} (h : cs.getLast? ≠ some c)
    (h' : ds.getLast? ≠ some c) : (cs ++ ds).getLast? ≠ some c := by
  rw [List.getLast?_append]
  cases hlast : ds.getLast? with
  | none => exact h
  | some d =>
      rw [hlast] at h'
      exact h'

namespace WrittenAttribute

theorem staysInTag_written (a : WrittenAttribute) : staysInTag none a.written := by
  have hquote : quoteStep none a.quote = some a.quote := if_pos a.isQuote
  have hopen : a.quote ≠ '>' := by
    rcases a.isQuote with h | h
    · rw [h]; decide
    · rw [h]; decide
  rw [written, staysInTag_append a.isSpace_before.staysInTag, staysInTag_append a.isName_key.staysInTag,
    staysInTag_append a.isSpace_beforeSign.staysInTag]
  have hsign : staysInTag none (a.afterSign ++ a.quote :: (a.value ++ [a.quote])) := by
    rw [staysInTag_append a.isSpace_afterSign.staysInTag, staysInTag, hquote,
      staysInTag_quoted a.quote_notMem, Bool.and_true, Bool.or_eq_true, decide_eq_true_eq]
    exact .inr hopen
  exact hsign

theorem getLast?_written (a : WrittenAttribute) : a.written.getLast? ≠ some '/' := by
  have hquote : a.quote ≠ '/' := by
    rcases a.isQuote with h | h
    · rw [h]; decide
    · rw [h]; decide
  have hsplit : a.written = (a.before ++ (a.key ++ (a.beforeSign ++ '=' :: (a.afterSign ++
      a.quote :: a.value)))) ++ [a.quote] := by
    simp only [written, List.append_assoc, List.cons_append]
  rw [hsplit, List.getLast?_concat]
  exact fun h => hquote (Option.some.inj h)

theorem head?_written (a : WrittenAttribute) : ∃ c ∈ a.written.head?, isGap c := by
  obtain ⟨c, rest, hbefore⟩ := List.exists_cons_of_ne_nil a.before_ne_nil
  refine ⟨c, ?_, a.isSpace_before c (hbefore ▸ List.mem_cons_self)⟩
  rw [written, hbefore]
  rfl

end WrittenAttribute

namespace WrittenTag

variable (t : WrittenTag)

def content : List Char :=
  t.name ++ (t.attributes.flatMap WrittenAttribute.written ++ t.after)

def tag : Tag :=
  ⟨t.name, t.attributes.map fun a => some a.read⟩

def localName : List Char :=
  Xml.localName t.name

theorem ofText_attributes :
    Attribute.ofText (t.attributes.flatMap WrittenAttribute.written ++ t.after) =
      t.attributes.map fun a => some a.read := by
  have hrun := @Attribute.Reader.run_attributes [] [] t.attributes t.nodup_keys
    (fun _ _ => List.not_mem_nil)
  have hafter : (Attribute.Reader.start.run
      (t.attributes.flatMap WrittenAttribute.written ++ t.after)).finish =
        t.attributes.map fun a => some a.read := by
    rw [Attribute.Reader.run_append, Attribute.Reader.start, hrun,
      Attribute.Reader.run_gap t.isSpace_after]
    simp only [Attribute.Reader.finish, List.append_nil, List.reverse_reverse]
  exact hafter

theorem ofText_content : Tag.ofText t.content = t.tag := by
  have hrest : ∀ c ∈ (t.attributes.flatMap WrittenAttribute.written ++ t.after).head?, isGap c := by
    cases hattributes : t.attributes with
    | nil =>
        intro c hc
        exact t.isSpace_after c (List.mem_of_mem_head? hc)
    | cons a attributes =>
        obtain ⟨c, hc, hgap⟩ := a.head?_written
        obtain ⟨cs, hcs⟩ := List.head?_eq_some_iff.1 hc
        intro d hd
        rw [List.flatMap_cons, hcs] at hd
        exact Option.some.inj hd ▸ hgap
  have hname : ∀ c ∈ t.name, (fun c => !isGap c) c = true := by
    intro c hc
    simp only [isGap_of_isNameChar (t.isName_name.chars c hc), Bool.not_false]
  generalize hwritten : t.attributes.flatMap WrittenAttribute.written ++ t.after = rest at hrest
  have htake : rest.takeWhile (fun c => !isGap c) = [] := by
    cases rest with
    | nil => rfl
    | cons c rest => exact List.takeWhile_cons_of_neg (by simp [hrest c rfl])
  have hdrop : rest.dropWhile (fun c => !isGap c) = rest := by
    cases rest with
    | nil => rfl
    | cons c rest => exact List.dropWhile_cons_of_neg (by simp [hrest c rfl])
  rw [Tag.ofText, content, hwritten, List.takeWhile_append_of_pos hname,
    List.dropWhile_append_of_pos hname, htake, hdrop, List.append_nil, tag, ← hwritten,
    ofText_attributes]

theorem staysInTag_content : staysInTag none t.content := by
  have hattributes (as : List WrittenAttribute) :
      staysInTag none (as.flatMap WrittenAttribute.written ++ t.after) := by
    induction as with
    | nil => exact t.isSpace_after.staysInTag
    | cons a as ih =>
        rw [List.flatMap_cons, List.append_assoc, staysInTag_append a.staysInTag_written]
        exact ih
  rw [content, staysInTag_append t.isName_name.staysInTag]
  exact hattributes t.attributes

theorem getLast?_content : t.content.getLast? ≠ some '/' := by
  have hname : t.name.getLast? ≠ some '/' := fun h =>
    ne_of_isNameChar (t.isName_name.chars _ (List.mem_of_getLast? h)) (by decide) rfl
  have hafter : t.after.getLast? ≠ some '/' := fun h =>
    ne_of_isGap (t.isSpace_after _ (List.mem_of_getLast? h)) (by decide) rfl
  have hattributes (as : List WrittenAttribute) :
      (as.flatMap WrittenAttribute.written).getLast? ≠ some '/' := by
    induction as with
    | nil => exact fun h => nomatch h
    | cons a as ih => exact getLast?_append_ne a.getLast?_written ih
  exact getLast?_append_ne hname (getLast?_append_ne (hattributes t.attributes) hafter)

theorem isStartTag : IsStartTag t.content where
  stays := t.staysInTag_content
  first := by
    obtain ⟨c, rest, hname, hc, -⟩ := t.isName_name.exists_cons
    have hhead : t.content.head? = some c := by
      rw [content, hname]
      rfl
    have hslash : c ≠ '/' := ne_of_isNameChar hc (by decide)
    have hbang : c ≠ '!' := ne_of_isNameChar hc (by decide)
    have hmark : c ≠ '?' := ne_of_isNameChar hc (by decide)
    rw [hhead]
    simp [hslash, hbang, hmark]
  last := t.getLast?_content
  name c hc := by
    rw [t.ofText_content] at hc
    have hc := t.isName_name.chars c hc
    exact ⟨ne_of_isNameChar hc (by decide), ne_of_isNameChar hc (by decide)⟩

theorem spells_start (opened : List (List Char)) :
    Spells ('<' :: t.content ++ ['>']) opened [.start t.tag] (t.name :: opened) := by
  have h := Spells.startTag t.isStartTag opened
  rwa [t.ofText_content] at h

theorem spells_empty (opened : List (List Char)) :
    Spells ('<' :: t.content ++ ['/', '>']) opened [.empty t.tag] opened := by
  have h := Spells.emptyTag t.isStartTag opened
  rwa [t.ofText_content] at h

theorem spells_stop {space : List Char} (hspace : IsSpace space) (opened : List (List Char)) :
    Spells ('<' :: '/' :: t.name ++ space ++ ['>']) (t.name :: opened) [.stop] opened := by
  have hstays : staysInTag none ('/' :: (t.name ++ space)) := by
    have hname : staysInTag none ('/' :: t.name) := t.isName_name.staysInTag
    rw [← List.cons_append, staysInTag_append hname]
    exact hspace.staysInTag
  have hclosing : Scanner.closingName (t.name ++ space).reverse = t.name :=
    Scanner.closingName_reverse (fun c hc => isGap_of_isNameChar (t.isName_name.chars c hc)) hspace
      (fun h => absurd h t.isName_name.ne_nil)
  have hsplit : '<' :: '/' :: t.name ++ space ++ ['>'] = '<' :: ('/' :: (t.name ++ space) ++ ['>']) := by
    simp only [List.cons_append]
  rw [Spells, hsplit, Scanner.run_bracket,
    Scanner.run_closeTag _ hstays ⟨'/', rfl, by decide, by decide⟩,
    Scanner.closeTag_stop _ rfl hclosing]
  rfl

end WrittenTag

def encodeAttribute (key text : String) : List Char :=
  ' ' :: key.toList ++ ['=', '"'] ++ escape text.toList ++ ['"']

def plainAttribute (key : String) (hkey : IsName key.toList) (text : String) : WrittenAttribute where
  before := [' ']
  key := key.toList
  beforeSign := []
  afterSign := []
  quote := '"'
  value := escape text.toList
  text := text.toList
  before_ne_nil := List.cons_ne_nil _ _
  isSpace_before := by decide
  isName_key := hkey
  isSpace_beforeSign := by decide
  isSpace_afterSign := by decide
  isQuote := .inl rfl
  quote_notMem := quote_notMem_escape text.toList
  unescape_value := unescape_escape text.toList

theorem written_plainAttribute (key : String) (hkey : IsName key.toList) (text : String) :
    (plainAttribute key hkey text).written = encodeAttribute key text := by
  simp only [WrittenAttribute.written, plainAttribute, encodeAttribute, List.cons_append, List.nil_append,
    List.append_assoc]

theorem localKey_plainAttribute {key : String} (hkey : IsName key.toList) (hcolon : ':' ∉ key.toList)
    (text : String) : (plainAttribute key hkey text).read.localKey = key.toList :=
  if_neg hcolon

def encodeElement (name : String) (fields : List (String × String)) : List Char :=
  '<' :: name.toList ++ fields.flatMap (fun f => encodeAttribute f.1 f.2) ++ ['/', '>']

structure ArePlain (fields : List (String × String)) : Prop where
  isName : ∀ f ∈ fields, IsName f.1.toList
  colon_notMem : ∀ f ∈ fields, ':' ∉ f.1.toList
  nodup : (fields.map (·.1)).Nodup

def plainTag (name : String) (hname : IsName name.toList) {fields : List (String × String)}
    (h : ArePlain fields) : WrittenTag where
  name := name.toList
  attributes := fields.pmap (fun f hf => plainAttribute f.1 hf f.2) h.isName
  after := []
  isName_name := hname
  nodup_keys := by
    have hkeys : (fields.map fun f => f.1.toList).Nodup := by
      have hmap := h.nodup.map (f := String.toList) fun _ _ => String.toList_inj.1
      rwa [List.map_map] at hmap
    rw [List.map_pmap]
    exact (List.pmap_eq_map h.isName).symm ▸ hkeys
  isSpace_after := by decide

theorem content_plainTag (name : String) (hname : IsName name.toList) {fields : List (String × String)}
    (h : ArePlain fields) :
    '<' :: (plainTag name hname h).content ++ ['/', '>'] = encodeElement name fields := by
  have hwritten : (fields.pmap (fun f hf => plainAttribute f.1 hf f.2) h.isName).flatMap
      WrittenAttribute.written = fields.flatMap fun f => encodeAttribute f.1 f.2 := by
    rw [List.flatMap_def, List.flatMap_def, List.map_pmap]
    simp only [written_plainAttribute]
    rw [List.pmap_eq_map]
  simp only [WrittenTag.content, plainTag, encodeElement, hwritten, List.append_nil, List.cons_append]

end Inkpress.Xml
