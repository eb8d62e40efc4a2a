import Mathlib.Data.Nat.Digits.Defs
import Mathlib.Tactic.Common
import Mathlib.Tactic.Ring

/-!
# Decimal numerals

A numeral is a string of ASCII digits, the first one the most significant. Reading it from the left is
the recurrence `n * 10 + digit`.
-/

namespace Decimal

/-- A decimal digit. -/
def isDigit (c : UInt8) : Bool := 48 ≤ c ∧ c ≤ 57

/-- The value of a digit. -/
def digit (c : UInt8) : ℕ := c.toNat - 48

/-- A string of digits that is not empty. -/
def Numeral (w : List UInt8) : Prop := w ≠ [] ∧ ∀ c ∈ w, isDigit c = true

instance (w : List UInt8) : Decidable (Numeral w) := inferInstanceAs (Decidable (_ ∧ _))

/-- What a string of digits denotes. -/
def value (w : List UInt8) : ℕ := Nat.ofDigits 10 (w.reverse.map digit)

section
variable {u v w : List UInt8} {c : UInt8}

@[simp] lemma value_nil : value [] = 0 := rfl

/-- The digits of `v` follow those of `u`. -/
lemma value_append (u v : List UInt8) : value (u ++ v) = value u * 10 ^ v.length + value v := by
  unfold value
  rw [List.reverse_append, List.map_append, Nat.ofDigits_append, List.length_map, List.length_reverse]
  ring

lemma value_singleton (c : UInt8) : value [c] = digit c := Nat.ofDigits_singleton

/-- The recurrence from the left. -/
lemma foldl_eq (w : List UInt8) (n : ℕ) :
    w.foldl (fun n c => n * 10 + digit c) n = n * 10 ^ w.length + value w := by
  induction w generalizing n with
  | nil => simp
  | cons c w ih =>
    have hcons : value (c :: w) = digit c * 10 ^ w.length + value w := by
      rw [← List.singleton_append, value_append, value_singleton]
    rw [List.foldl_cons, ih, hcons, List.length_cons, pow_succ]
    ring

/-- The first digits of a numeral denote no more than the whole of it. -/
theorem value_le_append (u v : List UInt8) : value u ≤ value (u ++ v) := by
  rw [value_append]
  have hle : value u * 1 ≤ value u * 10 ^ v.length :=
    Nat.mul_le_mul_left _ (Nat.one_le_pow _ _ (by decide))
  omega

/-- A numeral that denotes the same when digits at its end are left out denotes 0. -/
theorem value_eq_zero (hv : v ≠ []) (h : value (u ++ v) = value u) : value (u ++ v) = 0 := by
  have hlen : 0 < v.length := List.length_pos_iff.mpr hv
  have hpow : 10 ^ 1 ≤ 10 ^ v.length := Nat.pow_le_pow_right (by decide) hlen
  have hle : value u * 10 ≤ value u * 10 ^ v.length := Nat.mul_le_mul_left _ hpow
  have happ := value_append u v
  omega

end

end Decimal
