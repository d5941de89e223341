import Inkpress.Proofs.Settings.Layering
import Inkpress.Proofs.Settings.Replacing

namespace Inkpress.Settings

open Value (sect)

/-- What the text of a variable is taken as where a text is wanted: a switch in small letters, a whole
number of 64 bits in digits, a floating number without an exponent, and any other text as it is. -/
inductive TakenAs (s : String) : String → Prop
  | switch (b : Bool) (h : Text.lowerAscii s = Value.boolText b) : TakenAs s (Value.boolText b)
  | whole (n : Int) (h : Text.Numeral.Writes s.toList n) (hlow : -(Nat.pow 2 63 : Int) ≤ n)
      (hhigh : n < Nat.pow 2 63) : TakenAs s (toString n)
  | floating (x : Binary64) (hswitch : ∀ b, Text.lowerAscii s ≠ Value.boolText b)
      (hwhole : Text.Numeral.signed? 64 s.toList = none) (h : Binary64.ofText? s.toList = some x) :
      TakenAs s x.text
  | verbatim (hswitch : ∀ b, Text.lowerAscii s ≠ Value.boolText b)
      (hwhole : Text.Numeral.signed? 64 s.toList = none) (hfloating : Binary64.ofText? s.toList = none) :
      TakenAs s s

/-- The texts that stay as they are: switches and numbers that are written as they are shown, and what
reads as neither. -/
inductive IsKept (s : String) : Prop
  | switch (b : Bool) (h : s = Value.boolText b)
  | whole (n : Int) (hlow : -(Nat.pow 2 63 : Int) ≤ n) (hhigh : n < Nat.pow 2 63) (h : s = toString n)
  | floating (x : Binary64) (hswitch : ∀ b, Text.lowerAscii s ≠ Value.boolText b)
      (hwhole : Text.Numeral.signed? 64 s.toList = none) (h : Binary64.ofText? s.toList = some x)
      (hshown : s = x.text)
  | verbatim (hswitch : ∀ b, Text.lowerAscii s ≠ Value.boolText b)
      (hwhole : Text.Numeral.signed? 64 s.toList = none) (hfloating : Binary64.ofText? s.toList = none)

variable {s t : String}

theorem lowerAscii_boolText (b : Bool) : Text.lowerAscii (Value.boolText b) = Value.boolText b := by
  cases b <;> decide +kernel

theorem ofVariable_of_signed? {n : Int} (h : Text.Numeral.signed? 64 s.toList = some n) :
    Value.ofVariable s = .integer n := by
  have hswitch := lowerAscii_ne_boolText (Text.Numeral.signed?_eq_some_iff.1 h).1
  rw [ofVariable_of_ne hswitch, h]
  rfl

theorem TakenAs.text?_ofVariable (h : TakenAs s t) : (Value.ofVariable s).text? = some t := by
  cases h with
  | switch b h => rw [(Scalar.Spelled.switch h).ofVariable]; rfl
  | whole n h hlow hhigh =>
      rw [ofVariable_of_signed? (Text.Numeral.signed?_eq_some_iff.2 ⟨h, hlow, hhigh⟩)]
      rfl
  | floating x hswitch hwhole h => rw [ofVariable_of_ne hswitch, hwhole, h]; rfl
  | verbatim hswitch hwhole hfloating => rw [ofVariable_of_ne hswitch, hwhole, hfloating]; rfl

theorem exists_takenAs (s : String) : ∃ t, TakenAs s t := by
  by_cases hswitch : ∃ b, Text.lowerAscii s = Value.boolText b
  · obtain ⟨b, hb⟩ := hswitch
    exact ⟨_, .switch b hb⟩
  · have hne (b : Bool) : Text.lowerAscii s ≠ Value.boolText b := fun hb => hswitch ⟨b, hb⟩
    cases hwhole : Text.Numeral.signed? 64 s.toList with
    | some n =>
        obtain ⟨hn, hlow, hhigh⟩ := Text.Numeral.signed?_eq_some_iff.1 hwhole
        exact ⟨_, .whole n hn hlow hhigh⟩
    | none =>
        cases hfloating : Binary64.ofText? s.toList with
        | some x => exact ⟨_, .floating x hne hwhole hfloating⟩
        | none => exact ⟨s, .verbatim hne hwhole hfloating⟩

theorem takenAs_iff : TakenAs s t ↔ (Value.ofVariable s).text? = some t := by
  refine ⟨TakenAs.text?_ofVariable, ?_⟩
  intro h
  obtain ⟨u, hu⟩ := exists_takenAs s
  obtain rfl := Option.some.inj (h.symm.trans hu.text?_ofVariable)
  exact hu

theorem existsUnique_takenAs (s : String) : ∃! t, TakenAs s t := by
  obtain ⟨t, ht⟩ := exists_takenAs s
  refine ⟨t, ht, ?_⟩
  intro u hu
  exact Option.some.inj (hu.text?_ofVariable.symm.trans ht.text?_ofVariable)

theorem TakenAs.isKept (h : TakenAs s t) (ht : s = t) : IsKept s := by
  cases h with
  | switch b => exact .switch b ht
  | whole n _ hlow hhigh => exact .whole n hlow hhigh ht
  | floating x hswitch hwhole h => exact .floating x hswitch hwhole h ht
  | verbatim hswitch hwhole hfloating => exact .verbatim hswitch hwhole hfloating

theorem IsKept.takenAs (h : IsKept s) : TakenAs s s := by
  cases h with
  | switch b h => exact h ▸ .switch b (lowerAscii_boolText b)
  | whole n hlow hhigh h =>
      have hwrites : Text.Numeral.Writes (toString n).toList n :=
        Text.Numeral.integer?_eq_some_iff.1 (Text.Numeral.integer?_toString n)
      exact h ▸ .whole n hwrites hlow hhigh
  | floating x hswitch hwhole h hshown =>
      have htaken := TakenAs.floating x hswitch hwhole h
      rwa [← hshown] at htaken
  | verbatim hswitch hwhole hfloating => exact .verbatim hswitch hwhole hfloating

def isPlain (c : Char) : Bool :=
  c.isDigit || c = '-' || c = '.'

theorem isPlain_of_mem_digits {n k : Nat} {c : Char}
    (hc : c ∈ Nat.toDigits 10 n ∨ c ∈ List.replicate k '0') : isPlain c := by
  rcases hc with hc | hc
  · rw [isPlain, Text.Numeral.isDigit_of_mem_toDigits hc]; rfl
  · rw [List.eq_of_mem_replicate hc]; rfl

theorem isPlain_of_mem_decimal {d : Binary64.Decimal} {c : Char} (hc : c ∈ d.text.toList) : isPlain c := by
  unfold Binary64.Decimal.text at hc
  split at hc
  · rw [String.toList_ofList] at hc
    exact isPlain_of_mem_digits (List.mem_append.1 hc)
  · rw [String.toList_ofList] at hc
    rcases List.mem_append.1 hc with hc | hc
    · exact isPlain_of_mem_digits (List.mem_append.1 (List.mem_of_mem_take hc)).symm
    · rcases List.mem_cons.1 hc with rfl | hc
      · rfl
      · exact isPlain_of_mem_digits (List.mem_append.1 (List.mem_of_mem_drop hc)).symm

theorem isPlain_of_mem_finite {negative : Bool} {m : Nat} {e : Int} {c : Char}
    (hc : c ∈ (Binary64.finite negative m e).text.toList) : isPlain c := by
  have hsign : (Binary64.sign negative).toList.all isPlain := by cases negative <;> decide
  rw [Binary64.text, String.toList_append] at hc
  rcases List.mem_append.1 hc with hc | hc
  · exact List.all_eq_true.1 hsign c hc
  · split at hc
    · obtain rfl := List.mem_singleton.1 hc
      rfl
    · exact isPlain_of_mem_decimal hc

/-- What is written anew is a word for a switch, a word for what is no number, or has only digits, a
minus sign and a point: no plus sign, no exponent and no capital letter but those of the word. -/
theorem TakenAs.eq_or (h : TakenAs s t) : t = s ∨ t ∈ ["true", "false", "NaN", "inf", "-inf"] ∨
    ∀ c ∈ t.toList, isPlain c := by
  cases h with
  | switch b h => cases b <;> exact .inr (.inl (by decide))
  | whole n =>
      refine .inr (.inr ?_)
      intro c hc
      rcases Text.Numeral.mem_toString hc with rfl | hc
      · rfl
      · rw [isPlain, hc]; rfl
  | floating x =>
      cases x with
      | nan => exact .inr (.inl (by decide))
      | infinite negative => cases negative <;> exact .inr (.inl (by decide))
      | finite negative m e => exact .inr (.inr fun c hc => isPlain_of_mem_finite hc)
  | verbatim => exact .inl rfl

variable {files : Files} {before after : Environment} {name : String} {k : Key}

theorem ofEnvironment_append (before after : Environment) :
    ofEnvironment (before ++ after) = ofEnvironment before ++ ofEnvironment after :=
  List.filterMap_append

theorem ofEnvironment_cons (hname : keyOfVariable? name = some k.name) (s : String) (after : Environment) :
    ofEnvironment ((name, s) :: after) = (k.name, Value.ofVariable s) :: ofEnvironment after := by
  rw [ofEnvironment, List.filterMap_cons, hname]
  rfl

theorem layerNames_eq (hname : keyOfVariable? name = some k.name) (s s' : String) :
    layerNames (before ++ (name, s) :: after) = layerNames (before ++ (name, s') :: after) := by
  have hne : name ≠ "APP_ENV" := by
    rintro rfl
    have hnone : keyOfVariable? "APP_ENV" = none := by decide +kernel
    rw [hnone] at hname
    cases hname
  simp only [layerNames, Environment.find?, List.find?_append, List.find?_cons, hne, decide_false]

theorem exists_combine (hk : k.kind = .text) (layers : List Layer) (first : Layer) {last : Layer}
    (h : Passes k last) :
    ∃ v : Value, ∀ s, sect (combine (layers ++ [first ++ (k.name, Value.ofVariable s) :: last])) =
      v.set k (Value.ofVariable s) := by
  let u := writeLayer (layers.foldl writeLayer .empty) first
  refine ⟨writeLayer (u.set k .null) last, ?_⟩
  intro s
  have hread : (k.kind.read? (Value.ofVariable s)).isSome := by
    obtain ⟨t, ht⟩ := exists_takenAs s
    rw [hk, Kind.read?, ht.text?_ofVariable]
    rfl
  have hnull : ((u.set k .null).setting? k).isSome := by rw [Value.setting?_set, if_pos rfl]; rfl
  have hfold : (layers ++ [first ++ (k.name, Value.ofVariable s) :: last]).foldl writeLayer .empty =
      (writeLayer (u.set k .null) last).set k (Value.ofVariable s) := by
    rw [← writeLayer_set h hnull, Value.set_set, ← Value.write_name hread, List.foldl_append]
    simp only [List.foldl_cons, List.foldl_nil, writeLayer, List.foldl_append, u]
  obtain ⟨es, hes⟩ : ((writeLayer (u.set k .null) last).set k (Value.ofVariable s)).IsSect :=
    Value.isSect_atKey _
  rw [combine, hfold, hes]

theorem ofEntries_combine (hk : k.kind = .text) (layers : List Layer)
    (hname : keyOfVariable? name = some k.name) (hafter : Passes k (ofEnvironment after)) (s' : String)
    (ht : TakenAs s t) :
    ofEntries (combine (layers ++ [ofEnvironment (before ++ (name, s) :: after)])) =
      (ofEntries (combine (layers ++ [ofEnvironment (before ++ (name, s') :: after)]))).map
        (·.withText k t) := by
  obtain ⟨v, hv⟩ := exists_combine hk layers (ofEnvironment before) hafter
  obtain ⟨t', ht'⟩ := exists_takenAs s'
  simp only [ofEnvironment_append, ofEnvironment_cons hname]
  -- Both are one value in which the setting has been given its text last.
  refine ofEntries_set hk (w := Value.ofVariable s') ?_ ht'.text?_ofVariable ht.text?_ofVariable ?_
  · rw [hv, Value.setting?_set, if_pos rfl]
  · rw [hv, hv, Value.set_set]

theorem load_withText (hk : k.kind = .text) (hname : keyOfVariable? name = some k.name)
    (hafter : Passes k (ofEnvironment after)) (s' : String) (ht : TakenAs s t) :
    load files (before ++ (name, s) :: after) =
      (load files (before ++ (name, s') :: after)).map (·.withText k t) := by
  rw [load, load, layerNames_eq hname s s']
  exact bind_eq_map fun layers => ofEntries_combine hk (base :: layers) hname hafter s' ht

theorem loadFile_withText (hk : k.kind = .text) (hname : keyOfVariable? name = some k.name)
    (hafter : Passes k (ofEnvironment after)) (s' : String) (ht : TakenAs s t) (path : String) :
    loadFile files (before ++ (name, s) :: after) path =
      (loadFile files (before ++ (name, s') :: after) path).map (·.withText k t) := by
  rw [loadFile, loadFile]
  exact bind_eq_map fun layer => ofEntries_combine hk [layer] hname hafter s' ht

/-- Whether settings that load still load and differ only in a text, which is a given one. -/
def Takes (k : Key) (t : String) (old new : Except Fault Settings) : Prop :=
  ∀ r, old = .ok r → ∃ r', new = .ok r' ∧ r'.get? k = some (.text t) ∧ ∀ j ≠ k, r'.get? j = r.get? j

theorem takes_map (hk : k.kind = .text) (t : String) (old : Except Fault Settings) :
    Takes k t old (old.map (·.withText k t)) := by
  rintro r rfl
  refine ⟨r.withText k t, rfl, ?_, ?_⟩
  · rw [get?_withText hk, if_pos rfl]
  · intro j hj
    rw [get?_withText hk, if_neg hj]

theorem takes_load (hk : k.kind = .text) (hname : keyOfVariable? name = some k.name)
    (hafter : Passes k (ofEnvironment after)) (ht : TakenAs s t) (s' : String) :
    Takes k t (load files (before ++ (name, s') :: after)) (load files (before ++ (name, s) :: after)) := by
  rw [load_withText hk hname hafter s' ht]
  exact takes_map hk t _

theorem takes_loadFile (hk : k.kind = .text) (hname : keyOfVariable? name = some k.name)
    (hafter : Passes k (ofEnvironment after)) (ht : TakenAs s t) (s' path : String) :
    Takes k t (loadFile files (before ++ (name, s') :: after) path)
      (loadFile files (before ++ (name, s) :: after) path) := by
  rw [loadFile_withText hk hname hafter s' ht]
  exact takes_map hk t _

end Inkpress.Settings
