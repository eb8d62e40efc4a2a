import Mathlib.Data.Nat.Bitwise
import OhMyXv6.Fs.Layout

/-!
# The free bitmap

The bit of a block, read from the bitmap blocks of a disk, and what setting or clearing one bit
does to all of them.
-/

namespace OhMyXv6

lemma toNat_mask {i : ℕ} (hi : i < 8) : (1 <<< UInt8.ofNat i : UInt8).toNat = 2 ^ i := by
  have hof : (UInt8.ofNat i).toNat % 8 = i := by
    rw [UInt8.toNat_ofNat']
    omega
  rw [UInt8.toNat_shiftLeft, hof, UInt8.toNat_one, Nat.one_shiftLeft]
  exact Nat.mod_eq_of_lt (Nat.pow_lt_pow_right (by omega) hi)

/-- Testing with the mask is looking at the bit. -/
lemma testBit_eq (b : Block) (bi : ℕ) : testBit b bi = (b (bi / 8)).toNat.testBit (bi % 8) := by
  have hlt : bi % 8 < 8 := Nat.mod_lt _ (by omega)
  have hzero : b (bi / 8) &&& 1 <<< UInt8.ofNat (bi % 8) = 0 ↔
      (b (bi / 8)).toNat.testBit (bi % 8) = false := by
    rw [← UInt8.toNat_inj, UInt8.toNat_and, toNat_mask hlt, Nat.and_two_pow]
    cases (b (bi / 8)).toNat.testBit (bi % 8) with
    | true => simp
    | false => simp
  unfold testBit
  cases h : (b (bi / 8)).toNat.testBit (bi % 8) with
  | true => simp [hzero, h]
  | false => simp [hzero, h]

/-- One bit is set and the others stay. -/
lemma testBit_setBit (b : Block) (i j : ℕ) :
    testBit (setBit b i) j = (testBit b j || decide (j = i)) := by
  have hlt : i % 8 < 8 := Nat.mod_lt _ (by omega)
  rw [testBit_eq, testBit_eq]
  unfold setBit
  by_cases hbyte : j / 8 = i / 8
  · rw [hbyte, Function.update_self, UInt8.toNat_or, toNat_mask hlt, Nat.testBit_or,
      Nat.testBit_two_pow]
    have hiff : i % 8 = j % 8 ↔ j = i := by omega
    simp only [hiff]
  · have hne : j ≠ i := fun h => hbyte (by rw [h])
    rw [Function.update_of_ne hbyte]
    simp [hne]

/-! ## The bitmap of a disk -/

/-- The bit of block `b`. -/
def bit (sb : Superblock) (d : Disk) (b : ℕ) : Bool := testBit (d (BBLOCK sb b)) (b % BPB)

variable {sb : Superblock}

/-- The bit of a block is in one block of the bitmap. -/
lemma bit_congr {d d' : Disk} {b : ℕ} (h : d' (BBLOCK sb b) = d (BBLOCK sb b)) :
    bit sb d' b = bit sb d b := by
  unfold bit
  rw [h]

/-- The disk with the bit of block `c` set. -/
def markUsed (sb : Superblock) (d : Disk) (c : ℕ) : Disk :=
  Function.update d (BBLOCK sb c) (setBit (d (BBLOCK sb c)) (c % BPB))

/-- Two blocks of one bitmap block have different bits. -/
lemma mod_eq_iff {b c : ℕ} (h : BBLOCK sb b = BBLOCK sb c) : b % BPB = c % BPB ↔ b = c := by
  have hb := Nat.div_add_mod b BPB
  have hc := Nat.div_add_mod c BPB
  have hdiv : b / BPB = c / BPB := by
    unfold BBLOCK at h
    omega
  rw [hdiv] at hb
  omega

lemma bit_markUsed (d : Disk) (b c : ℕ) :
    bit sb (markUsed sb d c) b = (bit sb d b || decide (b = c)) := by
  unfold bit markUsed
  by_cases hblock : BBLOCK sb b = BBLOCK sb c
  · rw [hblock, Function.update_self, testBit_setBit]
    simp only [mod_eq_iff hblock]
  · have hne : b ≠ c := fun h => hblock (by rw [h])
    rw [Function.update_of_ne hblock]
    simp [hne]

end OhMyXv6
