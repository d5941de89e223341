import Inkpress.Proofs.Text.Octets

namespace Inkpress.Text.Utf8

open Decoder

variable {read : List (Option Char)} {os : List UInt8}

theorem suffix_first (read : List (Option Char)) (b : Nat) : read <:+ (first read b).read := by
  simp only [first]
  repeat' split
  all_goals first | exact List.suffix_rfl | exact List.suffix_cons _ _

theorem suffix_step (d : Decoder) (o : UInt8) : d.read <:+ (step d o).read := by
  simp only [step]
  split
  · exact suffix_first d.read _
  · split
    · split
      · exact List.suffix_cons _ _
      · exact List.suffix_rfl
    · exact (List.suffix_cons none d.read).trans (suffix_first _ _)

theorem suffix_foldl (d : Decoder) (os : List UInt8) : d.read <:+ (os.foldl step d).read := by
  induction os generalizing d with
  | nil => exact List.suffix_rfl
  | cons o os ih => exact (suffix_step d o).trans (ih (step d o))

theorem mem_finish {d : Decoder} {c : Option Char} (h : c ∈ d.read) : c ∈ d.finish := by
  rw [finish]
  split
  · exact List.mem_reverse.2 h
  · exact List.mem_reverse.2 (List.mem_cons_of_mem none h)

def ReadsOn (d : Decoder) (os : List UInt8) : Prop :=
  none ∉ (os.foldl step d).finish

theorem ReadsOn.not_mem {d : Decoder} (h : ReadsOn d os) : none ∉ d.read := fun hmem =>
  h (mem_finish ((suffix_foldl d os).mem hmem))

theorem ReadsOn.more {value missing least most : Nat}
    (h : ReadsOn ⟨some ⟨value, missing, least, most⟩, read⟩ os) :
    ∃ o os', os = o :: os' ∧ (least ≤ o.toNat ∧ o.toNat ≤ most) ∧
      ReadsOn (if missing ≤ 1 then ⟨none, some (Char.ofNat (value * 64 + (o.toNat - 0x80))) :: read⟩
        else ⟨some ⟨value * 64 + (o.toNat - 0x80), missing - 1, 0x80, 0xBF⟩, read⟩) os' := by
  cases os with
  | nil => exact absurd (List.mem_reverse.2 List.mem_cons_self) h
  | cons o os =>
      have hstep : ReadsOn (step ⟨some ⟨value, missing, least, most⟩, read⟩ o) os := h
      by_cases hrange : least ≤ o.toNat ∧ o.toNat ≤ most
      · refine ⟨o, os, rfl, hrange, ?_⟩
        simpa only [step, hrange, and_self, if_true] using hstep
      · simp only [step, hrange, if_false] at hstep
        exact absurd ((suffix_first (none :: read) o.toNat).mem List.mem_cons_self) hstep.not_mem

end Inkpress.Text.Utf8
