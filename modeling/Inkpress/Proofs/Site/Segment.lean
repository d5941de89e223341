import Inkpress.Proofs.Text.Decoding
import Inkpress.Proofs.Text.Numeral
import Inkpress.Proofs.Text.Splitting
import Inkpress.Site.Handle

namespace Inkpress

namespace Site

open Text

namespace Address

theorem decodeOctets_eq (os : List UInt8) (h : 0x25 ∉ os) : decodeOctets os = os := by
  fun_induction decodeOctets os with
  | case1 a b rest => exact absurd List.mem_cons_self h
  | case2 => exact absurd List.mem_cons_self h
  | case3 c rest hne ih => rw [ih (mt (List.mem_cons_of_mem c) h)]
  | case4 => rfl

theorem decode?_eq {segment : List Char} (h : '%' ∉ segment) :
    decode? segment = some (String.ofList segment) := by
  have hoctets : 0x25 ∉ (String.ofList segment).toUTF8.toList := by
    rw [Utf8.toList_toUTF8]
    intro ho
    obtain ⟨c, hc, ho⟩ := List.mem_flatMap.1 ho
    exact h (Utf8.eq_of_mem_encodeChar (by decide) ho ▸ hc)
  rw [decode?, decodeOctets_eq _ hoctets, Bytes.mk_toList, Utf8.decode?_toUTF8]

end Address

/-- The ids that an address can name: numbers of 32 bits, one of them for the sign. -/
def IsId (n : Int) : Prop :=
  -2147483648 ≤ n ∧ n < 2147483648

theorem idOf?_toString {n : Int} (hn : IsId n) : idOf? (toString n).toList = some n := by
  have hpercent : '%' ∉ (toString n).toList := by
    intro hc
    rcases Numeral.mem_toString hc with h | h <;> cases h
  simp only [idOf?, Address.decode?_eq hpercent, Option.bind_eq_bind, Option.bind_some,
    String.toList_ofList]
  exact Numeral.signed?_toString hn.1 hn.2

namespace Route

theorem toString_ne_nil (n : Int) : (toString n).toList ≠ [] := by
  intro hnil
  have hread := Numeral.integer?_toString n
  rw [hnil] at hread
  cases hread

theorem slash_not_mem_toString (n : Int) : '/' ∉ (toString n).toList := by
  intro hc
  rcases Numeral.mem_toString hc with h | h <;> cases h

def imagePath (id : Int) : List Char :=
  "/api/blog/image/".toList ++ (toString id).toList

def postPath (id : Int) : List Char :=
  "/api/blog/".toList ++ (toString id).toList

section

variable {segment : List Char}

theorem ofPath?_post (hne : segment ≠ []) (hslash : '/' ∉ segment) :
    ofPath? ("/api/blog/".toList ++ segment) = some (post segment) := by
  have hsplit : split '/' ("api".toList ++ '/' :: ("blog".toList ++ '/' :: segment)) =
      ["api".toList, "blog".toList, segment] := by
    rw [split_append (by decide), split_append (by decide), split_of_not_mem hslash]
  calc ofPath? ("/api/blog/".toList ++ segment)
      = ofSegments? ["api".toList, "blog".toList, segment] := congrArg ofSegments? hsplit
    _ = some (post segment) := if_pos ⟨rfl, rfl, hne⟩

theorem ofPath?_image (hne : segment ≠ []) (hslash : '/' ∉ segment) :
    ofPath? ("/api/blog/image/".toList ++ segment) = some (image segment) := by
  have hsplit : split '/' ("api".toList ++ '/' :: ("blog".toList ++ '/' :: ("image".toList ++
      '/' :: segment))) = ["api".toList, "blog".toList, "image".toList, segment] := by
    rw [split_append (by decide), split_append (by decide), split_append (by decide),
      split_of_not_mem hslash]
  calc ofPath? ("/api/blog/image/".toList ++ segment)
      = ofSegments? ["api".toList, "blog".toList, "image".toList, segment] :=
        congrArg ofSegments? hsplit
    _ = some (image segment) := if_pos ⟨rfl, rfl, rfl, hne⟩

end

theorem ofPath?_postPath (id : Int) : ofPath? (postPath id) = some (post (toString id).toList) :=
  ofPath?_post (toString_ne_nil id) (slash_not_mem_toString id)

theorem ofPath?_imagePath (id : Int) :
    ofPath? (imagePath id) = some (image (toString id).toList) :=
  ofPath?_image (toString_ne_nil id) (slash_not_mem_toString id)

end Route

end Site

end Inkpress
