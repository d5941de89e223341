import Inkpress.Bytes
import Inkpress.Text.Base64
import Inkpress.Text.Utf8
import Mathlib.Data.Option.Basic

namespace Inkpress

namespace Bytes

theorem toList_loop (b : ByteArray) (i : Nat) (read : List UInt8) :
    ByteArray.toList.loop b i read = read.reverse ++ b.data.toList.drop i := by
  fun_induction ByteArray.toList.loop b i read with
  | case1 i read hlt ih =>
      have hi : i < b.data.toList.length := by simpa using hlt
      rw [ih, List.drop_eq_getElem_cons hi]
      simp [ByteArray.get!, hlt]
  | case2 i read hge =>
      rw [List.drop_eq_nil_of_le (by simpa using Nat.le_of_not_lt hge), List.append_nil]

theorem toList_eq_data (b : ByteArray) : b.toList = b.data.toList := by
  rw [ByteArray.toList, toList_loop]
  rfl

theorem foldlM_loop {α : Type} (f : α → UInt8 → α) (b : ByteArray) (n i : Nat) (a : α)
    (hn : n + i = b.size) :
    ByteArray.foldlM.loop (m := Id) (fun a x => pure (f a x)) b b.size (Nat.le_refl _) n i a =
      (b.data.toList.drop i).foldl f a := by
  induction n generalizing i a with
  | zero =>
      have hi : b.size = i := by omega
      rw [List.drop_of_length_le (by simpa using Nat.le_of_eq hi), ByteArray.foldlM.loop,
        dif_neg (by omega)]
      rfl
  | succ n ih =>
      have hlt : i < b.size := by omega
      have hi : i < b.data.toList.length := by simpa using hlt
      rw [ByteArray.foldlM.loop, dif_pos hlt, List.drop_eq_getElem_cons hi]
      exact ih (i + 1) _ (by omega)

theorem foldl_eq_toList {α : Type} (f : α → UInt8 → α) (b : ByteArray) (a : α) :
    b.foldl f a = b.toList.foldl f a := by
  rw [toList_eq_data, ByteArray.foldl, ByteArray.foldlM, dif_pos (Nat.le_refl _)]
  exact foldlM_loop f b _ 0 a rfl

theorem mk_toList (b : ByteArray) : ⟨b.toList.toArray⟩ = b := by
  rw [toList_eq_data]

end Bytes

namespace Text.Utf8

open Decoder

variable {read : List (Option Char)}

theorem step_first {n : Nat} (hn : n < 256) : step ⟨none, read⟩ (UInt8.ofNat n) = first read n := by
  rw [step, UInt8.toNat_ofNat', Nat.mod_eq_of_lt hn]

theorem step_more {value missing least most n : Nat} (hn : n < 256) (h : least ≤ n ∧ n ≤ most)
    (hm : 1 < missing) : step ⟨some ⟨value, missing, least, most⟩, read⟩ (UInt8.ofNat n) =
      ⟨some ⟨value * 64 + (n - 0x80), missing - 1, 0x80, 0xBF⟩, read⟩ := by
  simp only [step, UInt8.toNat_ofNat', Nat.mod_eq_of_lt hn, h, and_self, if_true,
    Nat.not_le.2 hm, if_false]

theorem step_last {value least most n : Nat} (hn : n < 256) (h : least ≤ n ∧ n ≤ most) :
    step ⟨some ⟨value, 1, least, most⟩, read⟩ (UInt8.ofNat n) =
      ⟨none, some (Char.ofNat (value * 64 + (n - 0x80))) :: read⟩ := by
  simp only [step, UInt8.toNat_ofNat', Nat.mod_eq_of_lt hn, h, and_self, if_true, Nat.le_refl]

theorem first_two {b : Nat} (h : 0xC2 ≤ b ∧ b < 0xE0) :
    first read b = ⟨some ⟨b - 0xC0, 1, 0x80, 0xBF⟩, read⟩ := by
  rw [first, if_neg (by omega), if_neg (by omega), if_pos h.2]

theorem first_three {b : Nat} (h : 0xE0 ≤ b ∧ b < 0xF0) :
    first read b = ⟨some ⟨b - 0xE0, 2, if b = 0xE0 then 0xA0 else 0x80,
      if b = 0xED then 0x9F else 0xBF⟩, read⟩ := by
  rw [first, if_neg (by omega), if_neg (by omega), if_neg (by omega)]
  by_cases h0 : b = 0xE0
  · simp [h0]
  · by_cases h1 : b = 0xED
    · simp [h1]
    · simp [h0, h1, h.2]

theorem first_four {b : Nat} (h : 0xF0 ≤ b ∧ b < 0xF5) :
    first read b = ⟨some ⟨b - 0xF0, 3, if b = 0xF0 then 0x90 else 0x80,
      if b = 0xF4 then 0x8F else 0xBF⟩, read⟩ := by
  obtain rfl | rfl | rfl | rfl | rfl : b = 0xF0 ∨ b = 0xF1 ∨ b = 0xF2 ∨ b = 0xF3 ∨ b = 0xF4 := by
    omega
  all_goals rfl

theorem foldl_encodeChar (read : List (Option Char)) (c : Char) :
    (String.utf8EncodeChar c).foldl step ⟨none, read⟩ = ⟨none, some c :: read⟩ := by
  have hc : Char.ofNat c.val.toNat = c := Char.ofNat_toNat c
  have hvalid : c.val.toNat < 0xD800 ∨ 0xDFFF < c.val.toNat ∧ c.val.toNat < 0x110000 := c.valid
  simp only [String.utf8EncodeChar]
  generalize c.val.toNat = v at hc hvalid ⊢
  split
  · rw [List.foldl_cons, step_first (by omega), first, if_pos (by omega), hc, List.foldl_nil]
  split
  · have hv : (v / 64 % 32 + 192 - 0xC0) * 64 + (v % 64 + 128 - 0x80) = v := by omega
    rw [List.foldl_cons, step_first (by omega), first_two (by omega), List.foldl_cons,
      step_last (by omega) (by omega), hv, hc, List.foldl_nil]
  split
  · have hsecond : (if v / 4096 % 16 + 224 = 0xE0 then 0xA0 else 0x80) ≤ v / 64 % 64 + 128 ∧
        v / 64 % 64 + 128 ≤ (if v / 4096 % 16 + 224 = 0xED then 0x9F else 0xBF) := by
      constructor <;> split <;> omega
    have hv : ((v / 4096 % 16 + 224 - 0xE0) * 64 + (v / 64 % 64 + 128 - 0x80)) * 64 +
        (v % 64 + 128 - 0x80) = v := by omega
    rw [List.foldl_cons, step_first (by omega), first_three (by omega), List.foldl_cons,
      step_more (by omega) hsecond (by omega), List.foldl_cons, step_last (by omega) (by omega),
      hv, hc, List.foldl_nil]
  · have hsecond : (if v / 262144 % 8 + 240 = 0xF0 then 0x90 else 0x80) ≤ v / 4096 % 64 + 128 ∧
        v / 4096 % 64 + 128 ≤ (if v / 262144 % 8 + 240 = 0xF4 then 0x8F else 0xBF) := by
      constructor <;> split <;> omega
    have hv : (((v / 262144 % 8 + 240 - 0xF0) * 64 + (v / 4096 % 64 + 128 - 0x80)) * 64 +
        (v / 64 % 64 + 128 - 0x80)) * 64 + (v % 64 + 128 - 0x80) = v := by omega
    rw [List.foldl_cons, step_first (by omega), first_four (by omega), List.foldl_cons,
      step_more (by omega) hsecond (by omega), List.foldl_cons,
      step_more (by omega) (by omega) (by omega), List.foldl_cons,
      step_last (by omega) (by omega), hv, hc, List.foldl_nil]

theorem le_of_mem_encodeChar {c : Char} (hc : 0x7F < c.val.toNat) :
    ∀ o ∈ String.utf8EncodeChar c, 0x80 ≤ o.toNat := by
  have hvalid : c.val.toNat < 0xD800 ∨ 0xDFFF < c.val.toNat ∧ c.val.toNat < 0x110000 := c.valid
  simp only [String.utf8EncodeChar, Nat.not_le.2 hc, if_false]
  repeat' split
  all_goals
    simp only [List.forall_mem_cons, UInt8.toNat_ofNat', List.not_mem_nil, false_imp_iff,
      implies_true, and_true]
    omega

theorem eq_of_mem_encodeChar {c : Char} {o : UInt8} (ho : o.toNat < 0x80)
    (h : o ∈ String.utf8EncodeChar c) : c = Char.ofNat o.toNat := by
  by_cases hc : 0x7F < c.val.toNat
  · exact absurd (le_of_mem_encodeChar hc o h) (Nat.not_le.2 ho)
  · simp only [String.utf8EncodeChar, Nat.not_lt.1 hc, if_true] at h
    rw [List.mem_singleton.1 h, UInt8.toNat_ofNat', Nat.mod_eq_of_lt (by omega)]
    exact (Char.ofNat_toNat c).symm

theorem foldl_encode (read : List (Option Char)) (cs : List Char) :
    (cs.flatMap String.utf8EncodeChar).foldl step ⟨none, read⟩ =
      ⟨none, (cs.map some).reverse ++ read⟩ := by
  induction cs generalizing read with
  | nil => rfl
  | cons c cs ih =>
      rw [List.flatMap_cons, List.foldl_append, foldl_encodeChar, ih]
      simp

theorem toList_toUTF8 (cs : List Char) :
    (String.ofList cs).toUTF8.toList = cs.flatMap String.utf8EncodeChar := by
  rw [Bytes.toList_eq_data, String.toUTF8_eq_toByteArray, String.toByteArray_ofList,
    List.utf8Encode, List.toList_data_toByteArray]

theorem characters_toUTF8 (cs : List Char) :
    characters (String.ofList cs).toUTF8 = cs.map some := by
  rw [characters, Bytes.foldl_eq_toList, toList_toUTF8, start, foldl_encode, finish]
  simp

theorem decode?_toUTF8 (s : String) : decode? s.toUTF8 = some s := by
  obtain ⟨cs, rfl⟩ : ∃ cs, s = String.ofList cs := ⟨s.toList, String.ofList_toList.symm⟩
  have hall : (cs.map some).mapM id = some cs := by
    calc (cs.map some).mapM id = cs.mapM fun c => pure (id c) := List.mapM_map
      _ = some (cs.map id) := List.mapM_pure
      _ = some cs := by rw [List.map_id]
  rw [decode?, characters_toUTF8, hall, Option.map_some]

end Text.Utf8

namespace Text.Base64

theorem value?_digit : ∀ n < 64, value? (digit n) = some n := by
  decide +kernel

theorem digit_ne_pad {n : Nat} (h : n < 64) : digit n ≠ '=' := by
  intro hn
  have hvalue := value?_digit n h
  rw [hn] at hvalue
  cases hvalue

theorem toUInt8_eq {n : Nat} {o : UInt8} (h : n = o.toNat) : n.toUInt8 = o := by
  rw [h]
  exact UInt8.ofNat_toNat

theorem decodeOnto_four {i j k l : Nat} (hi : i < 64) (hj : j < 64) (hk : k < 64) (hl : l < 64)
    (read : List UInt8) (cs : List Char) :
    decodeOnto read (digit i :: digit j :: digit k :: digit l :: cs) =
      decodeOnto (((((i * 64 + j) * 64 + k) * 64 + l) % 256).toUInt8 ::
        ((((i * 64 + j) * 64 + k) * 64 + l) / 256 % 256).toUInt8 ::
          ((((i * 64 + j) * 64 + k) * 64 + l) / 65536).toUInt8 :: read) cs := by
  rw [decodeOnto]
  · simp only [value?_digit _ hi, value?_digit _ hj, value?_digit _ hk, value?_digit _ hl,
      Option.bind_eq_bind, Option.bind_some]
  · intro _ h _
    exact digit_ne_pad hl h
  · intro h _
    exact digit_ne_pad hl h

theorem decodeOnto_encodeOctets (octets read : List UInt8) :
    decodeOnto read (encodeOctets octets) = some (octets.reverse ++ read) := by
  fun_induction encodeOctets octets generalizing read with
  | case1 => rfl
  | case2 a n =>
      have ha := a.toNat_lt
      have hn : n / 64 * 64 + n % 64 = n := by omega
      have hvalue : (n / 16).toUInt8 = a := toUInt8_eq (by omega)
      have hzero : (guard (n % 16 = 0) : Option Unit) = some () := if_pos (by omega)
      simp only [decodeOnto, value?_digit (n / 64) (by omega), value?_digit (n % 64) (by omega),
        Option.bind_eq_bind, Option.bind_some, hn, hzero, hvalue]
      rfl
  | case3 a b n =>
      have ha := a.toNat_lt
      have hb := b.toNat_lt
      have hn : (n / 4096 * 64 + n / 64 % 64) * 64 + n % 64 = n := by omega
      have hfirst : (n / 1024).toUInt8 = a := toUInt8_eq (by omega)
      have hsecond : (n / 4 % 256).toUInt8 = b := toUInt8_eq (by omega)
      have hzero : (guard (n % 4 = 0) : Option Unit) = some () := if_pos (by omega)
      rw [decodeOnto]
      · simp only [value?_digit (n / 4096) (by omega), value?_digit (n / 64 % 64) (by omega),
          value?_digit (n % 64) (by omega), Option.bind_eq_bind, Option.bind_some, hn, hzero,
          hfirst, hsecond]
        rfl
      · exact digit_ne_pad (by omega)
  | case4 a b c rest n ih =>
      have ha := a.toNat_lt
      have hb := b.toNat_lt
      have hc := c.toNat_lt
      have hn : ((n / 262144 * 64 + n / 4096 % 64) * 64 + n / 64 % 64) * 64 + n % 64 = n := by
        omega
      have hfirst : (n / 65536).toUInt8 = a := toUInt8_eq (by omega)
      have hsecond : (n / 256 % 256).toUInt8 = b := toUInt8_eq (by omega)
      have hthird : (n % 256).toUInt8 = c := toUInt8_eq (by omega)
      rw [decodeOnto_four (by omega) (by omega) (by omega) (by omega), hn, hfirst, hsecond,
        hthird, ih]
      simp

theorem decode?_encode (b : ByteArray) : decode? (encode b) = some b := by
  rw [decode?, encode, String.toList_ofList, decodeOnto_encodeOctets, List.append_nil,
    Option.map_some, List.reverse_reverse, Bytes.mk_toList]

end Text.Base64

end Inkpress
