import OhMyXv6.Lib.Moves
import Mathlib.Algebra.Group.Nat.Defs

/-!
# `memmove`, in the kernel and in the user library

`string.c` and `ulib.c` have a `memmove` each. Addresses are 64 bits wide and wrap around. The kernel
takes the length as a `uint`, and the user library takes the same 32 bits as an `int`.
-/

namespace OhMyXv6
namespace Memmove

/-- The bytes at the addresses. -/
abbrev Memory := UInt64 → UInt8

/-- `while (n-- > 0) *d++ = *s++;` -/
def ascending (m : Memory) (d s : UInt64) : ℕ → Memory
  | 0 => m
  | n + 1 => ascending (Function.update m d (m s)) (d + 1) (s + 1) n

/-- `while (n-- > 0) *--d = *--s;` -/
def descending (m : Memory) (d s : UInt64) : ℕ → Memory
  | 0 => m
  | n + 1 => descending (Function.update m (d - 1) (m (s - 1))) (d - 1) (s - 1) n

/-- `memmove` of `string.c`: the memory after it, and what it returns. -/
def Kernel.memmove (m : Memory) (dst src : UInt64) (n : UInt32) : Memory × UInt64 :=
  if src < dst ∧ src + n.toUInt64 > dst then
    (descending m (dst + n.toUInt64) (src + n.toUInt64) n.toNat, dst)
  else
    (ascending m dst src n.toNat, dst)

/-- `memmove` of `ulib.c`. A negative length is none. -/
def Ulib.memmove (m : Memory) (vdst vsrc : UInt64) (n : Int32) : Memory × UInt64 :=
  (ascending m vdst vsrc n.toInt.toNat, vdst)

/-- Byte `k` of a range that begins at `a`. -/
def byteAt (a : UInt64) (k : ℕ) : UInt64 := a + UInt64.ofNat k

/-- The range at `dst` has what the one at `src` held, and no byte outside of it has changed. -/
def Copied (m m' : Memory) (dst src : UInt64) (n : ℕ) : Prop :=
  Moves.Moved m m' (byteAt dst) (byteAt src) n

/-- Both functions copy the range, and they agree. -/
def BothCopy (m : Memory) (dst src : UInt64) (n : UInt32) : Prop :=
  Copied m (Kernel.memmove m dst src n).1 dst src n.toNat ∧
    Copied m (Ulib.memmove m dst src n.toInt32).1 dst src n.toNat ∧
    Kernel.memmove m dst src n = Ulib.memmove m dst src n.toInt32

/-- A byte of the range is the one `period` places in front of it, where the range has that one too. -/
def Repeats (m : Memory) (src : UInt64) (period n : ℕ) : Prop :=
  ∀ j, j + period < n → m (byteAt src (j + period)) = m (byteAt src j)

variable {m : Memory} {dst src : UInt64} {n : UInt32} {j k len : ℕ}

/-! ## Addresses in a range -/

lemma byteAt_succ (a : UInt64) (k : ℕ) : byteAt (a + 1) k = byteAt a (k + 1) := by
  simp only [byteAt, UInt64.ofNat_add]
  grind

lemma toNat_byteAt (a : UInt64) (k : ℕ) : (byteAt a k).toNat = (a.toNat + k) % 2 ^ 64 := by
  simp [byteAt]

/-- Fewer than 2^32 bytes do not wrap onto each other. -/
lemma byteAt_inj {a : UInt64} (hj : j < 2 ^ 32) (hk : k < 2 ^ 32) (h : byteAt a j = byteAt a k) :
    j = k := by
  have hnat := congrArg UInt64.toNat h
  rw [toNat_byteAt, toNat_byteAt] at hnat
  omega

/-- Where a range that begins at `dst` meets the one that begins at `src`. -/
theorem byteAt_eq_iff (hj : j < 2 ^ 32) (hk : k < 2 ^ 32) (hjk : j < k) :
    byteAt src k = byteAt dst j ↔ k = j + (dst - src).toNat := by
  have hd := dst.toNat_lt
  have hs := src.toNat_lt
  rw [← UInt64.toNat_inj, toNat_byteAt, toNat_byteAt, UInt64.toNat_sub]
  omega

/-! ## The loops -/

/-- The loop of `memmove` going up. -/
lemma ascending_eq (m : Memory) (d s : UInt64) (n : ℕ) :
    ascending m d s n = Moves.run (byteAt d) (byteAt s) m n := by
  induction n generalizing m d s with
  | zero => rfl
  | succ n ih =>
    have hd : byteAt d 0 = d := by simp [byteAt]
    have hs : byteAt s 0 = s := by simp [byteAt]
    rw [ascending, ih, Moves.run_front, hd, hs]
    simp only [← byteAt_succ]

lemma descending_eq (m : Memory) (d s : UInt64) (n : ℕ) :
    descending m (byteAt d n) (byteAt s n) n =
      Moves.run (fun k => byteAt d (n - 1 - k)) (fun k => byteAt s (n - 1 - k)) m n := by
  induction n generalizing m with
  | zero => rfl
  | succ n ih =>
    have hpred : ∀ a, byteAt a (n + 1) - 1 = byteAt a n := by
      intro a
      simp only [byteAt, UInt64.ofNat_add]
      grind
    have hshift : ∀ a, (fun k => byteAt a (n + 1 - 1 - (k + 1))) = fun k => byteAt a (n - 1 - k) := by
      intro a
      funext k
      congr 1
      omega
    rw [descending, hpred, hpred, ih, Moves.run_front, hshift, hshift]
    rfl

/-- Going up is right exactly if the source has the distance to the destination as a period. -/
theorem copied_ascending (hlen : len ≤ 2 ^ 32) :
    Copied m (ascending m dst src len) dst src len ↔ Repeats m src (dst - src).toNat len := by
  have hinj : ∀ j < len, ∀ k < len, byteAt dst j = byteAt dst k → j = k :=
    fun j hj k hk => byteAt_inj (by omega) (by omega)
  rw [Copied, ascending_eq, Moves.moved_iff hinj]
  constructor
  · intro h j hj
    by_cases hzero : (dst - src).toNat = 0
    · rw [hzero]
      rfl
    · have hmeet : byteAt src (j + (dst - src).toNat) = byteAt dst j := by
        rw [byteAt_eq_iff (j := j) (by omega) (by omega) (by omega)]
      exact h j _ (by omega) hj hmeet
  · intro h j k hjk hk hmeet
    have hperiod := (byteAt_eq_iff (by omega) (by omega) hjk).mp hmeet
    subst hperiod
    exact h j hk

/-- Going down is right if the destination begins inside the source. -/
theorem copied_descending (hlen : len < 2 ^ 32) (hinside : (dst - src).toNat < len) :
    Copied m (descending m (byteAt dst len) (byteAt src len) len) dst src len := by
  rw [Copied, descending_eq, ← Moves.moved_reverse]
  have hinj : ∀ j < len, ∀ k < len, byteAt dst (len - 1 - j) = byteAt dst (len - 1 - k) → j = k := by
    intro j hj k hk heq
    have := byteAt_inj (by omega) (by omega) heq
    omega
  rw [Moves.moved_iff hinj]
  intro j k hjk hk hmeet
  -- the destination is not in front of the source
  have hnat := congrArg UInt64.toNat hmeet
  have hd := dst.toNat_lt
  have hs := src.toNat_lt
  rw [UInt64.toNat_sub] at hinside
  rw [toNat_byteAt, toNat_byteAt] at hnat
  omega

/-! ## The two functions -/

/-- `s + n` as the kernel computes it. -/
lemma add_eq_byteAt (a : UInt64) (n : UInt32) : a + n.toUInt64 = byteAt a n.toNat := by
  simp [byteAt]

/-- The kernel goes down only if the destination begins inside the source. -/
theorem inside_of_lt (h : src < dst) (hn : src + n.toUInt64 > dst) : (dst - src).toNat < n.toNat := by
  have hd := dst.toNat_lt
  have hs := src.toNat_lt
  have hlen := n.toNat_lt
  rw [gt_iff_lt, add_eq_byteAt, UInt64.lt_iff_toNat_lt, toNat_byteAt] at hn
  rw [UInt64.lt_iff_toNat_lt] at h
  rw [UInt64.toNat_sub]
  omega

/-- The turns that the user library takes. -/
lemma toNat_toInt32 (n : UInt32) :
    n.toInt32.toInt.toNat = if n.toNat < 2 ^ 31 then n.toNat else 0 := by
  have hlen := n.toNat_lt
  have hint : n.toInt32.toInt = n.toBitVec.toInt := rfl
  rw [hint, BitVec.toInt_eq_toNat_cond, UInt32.toNat_toBitVec]
  split <;> split <;> omega

/-- The kernel copies where the overlap, going up, repeats itself. -/
lemma copied_kernel (h : Repeats m src (dst - src).toNat n.toNat) :
    Copied m (Kernel.memmove m dst src n).1 dst src n.toNat := by
  have hlen := n.toNat_lt
  rw [Kernel.memmove]
  split
  · next hdir =>
    simp only [add_eq_byteAt]
    exact copied_descending hlen (inside_of_lt hdir.1 hdir.2)
  · exact (copied_ascending (Nat.le_of_lt hlen)).mpr h

/-- The kernel copies every range that ends in front of the last address, whatever it overlaps. -/
theorem copied_kernel_of_lt (h : src.toNat + n.toNat < 2 ^ 64) :
    Copied m (Kernel.memmove m dst src n).1 dst src n.toNat := by
  have hd := dst.toNat_lt
  have hlen := n.toNat_lt
  by_cases hdir : src < dst ∧ src + n.toUInt64 > dst
  · rw [Kernel.memmove, if_pos hdir, add_eq_byteAt, add_eq_byteAt]
    exact copied_descending hlen (inside_of_lt hdir.1 hdir.2)
  · apply copied_kernel
    -- going up, the destination begins nowhere in the source but at its first byte
    have hfar : (dst - src).toNat = 0 ∨ n.toNat ≤ (dst - src).toNat := by
      rw [gt_iff_lt, add_eq_byteAt, UInt64.lt_iff_toNat_lt, UInt64.lt_iff_toNat_lt, toNat_byteAt] at hdir
      rw [UInt64.toNat_sub]
      omega
    intro j hj
    have hzero : (dst - src).toNat = 0 := by omega
    rw [hzero]
    rfl

/-- The user library copies exactly if the source has the distance to the destination as a period, and with
a negative length if there is nothing to do. -/
theorem copied_ulib_iff :
    Copied m (Ulib.memmove m dst src n.toInt32).1 dst src n.toNat ↔
      if n.toNat < 2 ^ 31 then Repeats m src (dst - src).toNat n.toNat
      else ∀ k < n.toNat, m (byteAt dst k) = m (byteAt src k) := by
  have hlen := n.toNat_lt
  rw [Ulib.memmove, toNat_toInt32]
  by_cases hneg : n.toNat < 2 ^ 31
  · rw [if_pos hneg, if_pos hneg]
    exact copied_ascending (Nat.le_of_lt hlen)
  · rw [if_neg hneg, if_neg hneg]
    -- nothing is moved
    exact ⟨fun h => h.1, fun h => ⟨h, fun _ _ => rfl⟩⟩

/-- What there is already may have any period. -/
lemma repeats_of_eq (h : ∀ k < len, m (byteAt dst k) = m (byteAt src k)) (hlen : len ≤ 2 ^ 32) :
    Repeats m src (dst - src).toNat len := by
  rw [← copied_ascending hlen, ascending_eq, Moves.run_eq_self h]
  exact ⟨h, fun _ _ => rfl⟩

/-- The kernel is right wherever the user library is, on ranges that wrap around too. -/
theorem bothCopy_iff (m : Memory) (dst src : UInt64) (n : UInt32) :
    BothCopy m dst src n ↔
      if n.toNat < 2 ^ 31 then Repeats m src (dst - src).toNat n.toNat
      else ∀ k < n.toNat, m (byteAt dst k) = m (byteAt src k) := by
  rw [← copied_ulib_iff]
  constructor
  · intro ⟨_, hulib, _⟩
    exact hulib
  · intro hulib
    have hrepeats : Repeats m src (dst - src).toNat n.toNat := by
      have hcond := copied_ulib_iff.mp hulib
      split at hcond
      · exact hcond
      · exact repeats_of_eq hcond (Nat.le_of_lt n.toNat_lt)
    have hkernel := copied_kernel hrepeats
    have hreturn : (Kernel.memmove m dst src n).2 = dst := by
      rw [Kernel.memmove]
      split <;> rfl
    refine ⟨hkernel, hulib, Prod.ext (hkernel.unique hulib) ?_⟩
    rw [hreturn]
    rfl

/-- The bytes 1 and 2, with zeros around them. -/
def sample : Memory := fun a => if a = 0x2000 then 1 else if a = 0x2001 then 2 else 0

/-- One byte up: the user library stores the first byte twice. -/
theorem not_bothCopy_sample : ¬ BothCopy sample 0x2001 0x2000 2 := by
  intro ⟨_, hulib, _⟩
  have hsecond : (Ulib.memmove sample 0x2001 0x2000 2).1 (byteAt 0x2001 1) = sample (byteAt 0x2000 1) :=
    hulib.1 1 (by decide)
  exact absurd hsecond (by decide)

end Memmove
end OhMyXv6
