import Mathlib.Data.List.GetD
import Mathlib.Data.Nat.Notation
import Mathlib.Tactic.Common
import Mathlib.Tactic.Ring

/-!
# Byte strings as functions

A byte string is a function `ℕ → UInt8`: a sector, the contents of a file, the image of a C
structure. Three operations are enough for on-disk formats: reading `w` bytes as a
little-endian number, the bytes of a number, and copying a range over another string.

The lemmas come in pairs: what is read inside the range that was written, and that nothing
changed outside of it.
-/

namespace Bytes

/-- The number whose `w` little-endian bytes start at `off`. -/
def le (b : ℕ → UInt8) (off : ℕ) : ℕ → ℕ
  | 0 => 0
  | w + 1 => (b off).toNat + 256 * le b (off + 1) w

/-- Byte `k` of the number `v`. -/
def leByte (v k : ℕ) : UInt8 := UInt8.ofNat (v / 256 ^ k)

/-- `b` with `len` bytes of `src` copied to offset `off`. -/
def blit (b : ℕ → UInt8) (off len : ℕ) (src : ℕ → UInt8) : ℕ → UInt8 :=
  fun i => if off ≤ i ∧ i < off + len then src (i - off) else b i

/-- The bytes of a list, and zeros after them. -/
def ofList (l : List UInt8) : ℕ → UInt8 := fun i => l.getD i 0

/-- Only the bytes that are read count. -/
lemma le_congr {b c : ℕ → UInt8} {off off' w : ℕ} (h : ∀ i < w, b (off + i) = c (off' + i)) :
    le b off w = le c off' w := by
  induction w generalizing off off' with
  | zero => rfl
  | succ w ih =>
    have hhead : b off = c off' := h 0 (by omega)
    have htail : le b (off + 1) w = le c (off' + 1) w := by
      apply ih
      intro i hi
      have := h (i + 1) (by omega)
      rwa [show off + (i + 1) = off + 1 + i by omega,
        show off' + (i + 1) = off' + 1 + i by omega] at this
    rw [le, le, hhead, htail]

lemma le_lt (b : ℕ → UInt8) (off w : ℕ) : le b off w < 256 ^ w := by
  induction w generalizing off with
  | zero => simp [le]
  | succ w ih =>
    have hb : (b off).toNat < 256 := (b off).toNat_lt
    have ht := ih (off + 1)
    rw [le, Nat.pow_succ]
    omega

lemma le_zero {b : ℕ → UInt8} {off w : ℕ} (h : ∀ i < w, b (off + i) = 0) : le b off w = 0 := by
  induction w generalizing off with
  | zero => rfl
  | succ w ih =>
    have hhead : b off = 0 := h 0 (by omega)
    have htail : le b (off + 1) w = 0 := by
      apply ih
      intro i hi
      have := h (i + 1) (by omega)
      rwa [show off + (i + 1) = off + 1 + i by omega] at this
    rw [le, hhead, htail]
    rfl

/-- Bytes `k`, `k + 1`, … of `v`, read back. -/
lemma le_of_leByte {b : ℕ → UInt8} {off w v k : ℕ} (h : ∀ i < w, b (off + i) = leByte v (k + i)) :
    le b off w = v / 256 ^ k % 256 ^ w := by
  induction w generalizing off k with
  | zero => simp [le, Nat.mod_one]
  | succ w ih =>
    have hhead : b off = leByte v k := h 0 (by omega)
    have htail : le b (off + 1) w = v / 256 ^ (k + 1) % 256 ^ w := by
      apply ih
      intro i hi
      have := h (i + 1) (by omega)
      rwa [show off + (i + 1) = off + 1 + i by omega,
        show k + (i + 1) = k + 1 + i by omega] at this
    have hsplit : v / 256 ^ k % 256 ^ (w + 1)
        = v / 256 ^ k % 256 + 256 * (v / 256 ^ k / 256 % 256 ^ w) := by
      rw [Nat.pow_succ', Nat.mod_mul]
    rw [le, hhead, htail, leByte, UInt8.toNat_ofNat', hsplit, Nat.div_div_eq_div_mul,
      ← Nat.pow_succ]

/-- The bytes of a number are read back. -/
lemma le_leByte {b : ℕ → UInt8} {off w v : ℕ} (h : ∀ i < w, b (off + i) = leByte v i)
    (hv : v < 256 ^ w) : le b off w = v := by
  have hread : le b off w = v / 256 ^ 0 % 256 ^ w :=
    le_of_leByte fun i hi => by rw [Nat.zero_add]; exact h i hi
  rwa [Nat.pow_zero, Nat.div_one, Nat.mod_eq_of_lt hv] at hread

lemma blit_in {b src : ℕ → UInt8} {off len i : ℕ} (h : off ≤ i) (h' : i < off + len) :
    blit b off len src i = src (i - off) := if_pos ⟨h, h'⟩

lemma blit_out {b src : ℕ → UInt8} {off len i : ℕ} (h : i < off ∨ off + len ≤ i) :
    blit b off len src i = b i := if_neg (by omega)

/-- A read inside the copied range reads the source. -/
lemma le_blit_in {b src : ℕ → UInt8} {off len p w : ℕ} (h : off ≤ p) (h' : p + w ≤ off + len) :
    le (blit b off len src) p w = le src (p - off) w := by
  apply le_congr
  intro i hi
  rw [blit_in (by omega) (by omega), show p + i - off = p - off + i by omega]

/-- A read outside the copied range reads what was there before. -/
lemma le_blit_out {b src : ℕ → UInt8} {off len p w : ℕ} (h : p + w ≤ off ∨ off + len ≤ p) :
    le (blit b off len src) p w = le b p w := by
  apply le_congr
  intro i hi
  rw [blit_out (by omega)]

/-- Bytes put behind the end of a list extend the list. -/
lemma ofList_append_take (l p : List UInt8) {n : ℕ} (hn : n ≤ p.length) :
    ofList (l ++ p.take n) = blit (ofList l) l.length n (ofList p) := by
  funext k
  unfold ofList
  by_cases hlt : k < l.length
  · rw [blit_out (.inl hlt), List.getD_append _ _ _ _ hlt]
  · rw [List.getD_append_right _ _ _ _ (by omega)]
    by_cases hin : k < l.length + n
    · rw [blit_in (by omega) hin, List.getD_eq_getElem?_getD, List.getD_eq_getElem?_getD,
        List.getElem?_take_of_lt (by omega)]
    · rw [blit_out (by omega), List.getD_eq_default _ _ (by rw [List.length_take]; omega),
        List.getD_eq_default _ _ (by omega)]

end Bytes
