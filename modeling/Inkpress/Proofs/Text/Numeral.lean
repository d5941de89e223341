import Inkpress.Text.Basic

namespace Inkpress.Text.Numeral

/-- A text of a whole number: decimal digits after a plus sign, a minus sign or none. -/
inductive Writes : List Char → Int → Prop
  | plain {ds : List Char} (hne : ds ≠ []) (h : ds.all Char.isDigit) :
      Writes ds (Nat.ofDigitChars 10 ds 0)
  | plus {ds : List Char} (hne : ds ≠ []) (h : ds.all Char.isDigit) :
      Writes ('+' :: ds) (Nat.ofDigitChars 10 ds 0)
  | minus {ds : List Char} (hne : ds ≠ []) (h : ds.all Char.isDigit) :
      Writes ('-' :: ds) (-(Nat.ofDigitChars 10 ds 0 : Int))

theorem Writes.exists_isDigit {cs : List Char} {n : Int} (h : Writes cs n) : ∃ c ∈ cs, c.isDigit := by
  have hmem {ds : List Char} (hne : ds ≠ []) (h : ds.all Char.isDigit) : ∃ c ∈ ds, c.isDigit := by
    obtain ⟨c, hc⟩ := List.exists_mem_of_ne_nil ds hne
    exact ⟨c, hc, List.all_eq_true.1 h c hc⟩
  cases h with
  | plain hne h => exact hmem hne h
  | plus hne h | minus hne h =>
      obtain ⟨c, hc, hdigit⟩ := hmem hne h
      exact ⟨c, List.mem_cons_of_mem _ hc, hdigit⟩

theorem natural?_of_digits {ds : List Char} (hne : ds ≠ []) (h : ds.all Char.isDigit) :
    natural? ds = some (Nat.ofDigitChars 10 ds 0) := by
  rw [natural?, if_pos ⟨hne, h⟩, Nat.ofDigitChars_eq_foldl]
  rfl

theorem of_natural? {ds : List Char} {n : Int}
    (h : (do let m ← natural? ds; pure (m : Int)) = some n) :
    ds ≠ [] ∧ ds.all Char.isDigit ∧ n = Nat.ofDigitChars 10 ds 0 := by
  obtain ⟨m, hm, hn⟩ := Option.bind_eq_some_iff.1 h
  by_cases hds : ds ≠ [] ∧ ds.all Char.isDigit
  · rw [natural?_of_digits hds.1 hds.2] at hm
    cases hm
    cases hn
    exact ⟨hds.1, hds.2, rfl⟩
  · rw [natural?, if_neg hds] at hm
    cases hm

theorem toList_toString_ofNat (m : Nat) :
    (toString (Int.ofNat m)).toList = Nat.toDigits 10 m := by
  rw [Int.toString_eq_repr]
  exact Nat.toList_repr

theorem toList_toString_negSucc (m : Nat) :
    (toString (Int.negSucc m)).toList = '-' :: Nat.toDigits 10 (m + 1) := by
  rw [Int.toString_eq_repr]
  simp only [Int.repr, String.toList_append, Nat.toList_repr, Nat.succ_eq_add_one]
  rfl

theorem isDigit_of_mem_toDigits {m : Nat} {c : Char} (hc : c ∈ Nat.toDigits 10 m) : c.isDigit :=
  Nat.isDigit_of_mem_toDigits (by omega) (by omega) hc

theorem mem_toString {n : Int} {c : Char} (hc : c ∈ (toString n).toList) :
    c = '-' ∨ c.isDigit := by
  cases n with
  | ofNat m =>
      rw [toList_toString_ofNat] at hc
      exact .inr (isDigit_of_mem_toDigits hc)
  | negSucc m =>
      rw [toList_toString_negSucc] at hc
      exact (List.mem_cons.1 hc).imp_right isDigit_of_mem_toDigits

theorem natural?_toDigits (m : Nat) : natural? (Nat.toDigits 10 m) = some m := by
  have hdigits : (Nat.toDigits 10 m).all Char.isDigit :=
    List.all_eq_true.2 fun _ hc => isDigit_of_mem_toDigits hc
  rw [natural?, if_pos ⟨Nat.toDigits_ne_nil, hdigits⟩]
  congr 1
  calc (Nat.toDigits 10 m).foldl (fun n c => 10 * n + (c.toNat - 48)) 0
      = Nat.ofDigitChars 10 (Nat.toDigits 10 m) 0 := Nat.ofDigitChars_eq_foldl.symm
    _ = m := Nat.ofDigitChars_ten_toDigits

theorem integer?_of_isDigit {c : Char} (cs : List Char) (hc : c.isDigit) :
    integer? (c :: cs) = (natural? (c :: cs)).map fun n => (n : Int) := by
  rw [integer?]
  · rintro ds h
    obtain ⟨rfl, -⟩ := List.cons.inj h
    cases hc
  · rintro ds h
    obtain ⟨rfl, -⟩ := List.cons.inj h
    cases hc

theorem integer?_toString (n : Int) : integer? (toString n).toList = some n := by
  cases n with
  | ofNat m =>
      rw [toList_toString_ofNat]
      cases hd : Nat.toDigits 10 m with
      | nil => exact absurd hd Nat.toDigits_ne_nil
      | cons c cs =>
          have hc : c.isDigit := isDigit_of_mem_toDigits (hd ▸ List.mem_cons_self)
          rw [integer?_of_isDigit cs hc, ← hd, natural?_toDigits]
          rfl
  | negSucc m =>
      rw [toList_toString_negSucc, integer?, natural?_toDigits]
      rfl

theorem signed?_toString {bits : Nat} {n : Int} (hlow : -(Nat.pow 2 (bits - 1) : Int) ≤ n)
    (hhigh : n < Nat.pow 2 (bits - 1)) : signed? bits (toString n).toList = some n := by
  simp only [signed?, integer?_toString, Option.bind_eq_bind, Option.bind_some]
  exact if_pos ⟨hlow, hhigh⟩

theorem integer?_eq_some_iff {cs : List Char} {n : Int} : integer? cs = some n ↔ Writes cs n := by
  constructor
  · intro h
    unfold integer? at h
    split at h
    · obtain ⟨m, hm, rfl⟩ := Option.map_eq_some_iff.1 h
      obtain ⟨hne, hdigits, rfl⟩ := of_natural? hm
      exact .plus hne hdigits
    · obtain ⟨m, hm, rfl⟩ := Option.map_eq_some_iff.1 h
      obtain ⟨hne, hdigits, rfl⟩ := of_natural? hm
      exact .minus hne hdigits
    · obtain ⟨m, hm, rfl⟩ := Option.map_eq_some_iff.1 h
      obtain ⟨hne, hdigits, rfl⟩ := of_natural? hm
      exact .plain hne hdigits
  · intro h
    cases h with
    | plain hne h =>
        obtain ⟨c, cs, rfl⟩ := List.exists_cons_of_ne_nil hne
        have hc : c.isDigit := List.all_eq_true.1 h c List.mem_cons_self
        rw [integer?_of_isDigit cs hc, natural?_of_digits hne h]
        rfl
    | plus hne h => rw [integer?, natural?_of_digits hne h]; rfl
    | minus hne h => rw [integer?, natural?_of_digits hne h]; rfl

theorem signed?_eq_some_iff {bits : Nat} {cs : List Char} {n : Int} :
    signed? bits cs = some n ↔
      Writes cs n ∧ -(Nat.pow 2 (bits - 1) : Int) ≤ n ∧ n < Nat.pow 2 (bits - 1) := by
  rw [← integer?_eq_some_iff, signed?]
  constructor
  · intro h
    obtain ⟨m, hm, h⟩ := Option.bind_eq_some_iff.1 h
    split at h
    · next hrange =>
        cases h
        exact ⟨hm, hrange⟩
    · cases h
  · rintro ⟨hn, hrange⟩
    rw [hn]
    exact if_pos hrange

end Inkpress.Text.Numeral
