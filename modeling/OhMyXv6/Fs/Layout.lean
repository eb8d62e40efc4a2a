import Mathlib.Data.Fin.Basic
import Mathlib.Logic.Function.Basic
import OhMyXv6.Lib.Bytes
import OhMyXv6.Param

/-!
# `fs.h`: the on-disk format

`mkfs` writes the format and the kernel reads and changes it, so both are modelled over this
one description of it: a disk is an array of blocks, a block is a string of bytes, and an
inode, a directory entry or a block address is what the bytes at its place say.

The results are the read-over-write laws: an inode that was written is read back, and a write
changes no other inode.
-/

namespace OhMyXv6

open Bytes

/-- The bytes of a block; those from `BSIZE` on have no meaning. -/
abbrev Block := ℕ → UInt8

/-- The blocks of a device, by number. -/
abbrev Disk := ℕ → Block

/-- A block of zeros. -/
def zeroBlock : Block := fun _ => 0

/-- `struct superblock`. -/
structure Superblock where
  size : ℕ
  nblocks : ℕ
  ninodes : ℕ
  nlog : ℕ
  logstart : ℕ
  inodestart : ℕ
  bmapstart : ℕ
deriving DecidableEq

/-- Byte `i` of the image of a superblock. -/
def Superblock.byte (sb : Superblock) (i : ℕ) : UInt8 :=
  leByte ([sb.size, sb.nblocks, sb.ninodes, sb.nlog, sb.logstart, sb.inodestart,
    sb.bmapstart].getD (i / 4) 0) (i % 4)

/-- An inode has a first pointer. -/
instance addrs_neZero : NeZero 13 := ⟨by decide⟩

/-- `struct dinode`. -/
@[ext]
structure Dinode where
  type : ℕ
  major : ℕ
  minor : ℕ
  nlink : ℕ
  size : ℕ
  addrs : Fin 13 → ℕ

namespace Dinode

/-- The fields fit the widths that `struct dinode` gives them. -/
structure Fits (x : Dinode) : Prop where
  type : x.type < 2 ^ 16
  major : x.major < 2 ^ 16
  minor : x.minor < 2 ^ 16
  nlink : x.nlink < 2 ^ 16
  size : x.size < 2 ^ 32
  addrs : ∀ k, x.addrs k < 2 ^ 32

/-- All bytes zero, as after `bzero` or `memset`. -/
def zero : Dinode := ⟨0, 0, 0, 0, 0, fun _ => 0⟩

/-- The inode whose image starts at byte `off`. -/
def read (b : Block) (off : ℕ) : Dinode where
  type := le b off 2
  major := le b (off + 2) 2
  minor := le b (off + 4) 2
  nlink := le b (off + 6) 2
  size := le b (off + 8) 4
  addrs := fun k => le b (off + 12 + 4 * k) 4

/-- Byte `i` of the image of an inode. -/
def byte (x : Dinode) (i : ℕ) : UInt8 :=
  if i < 2 then leByte x.type i
  else if i < 4 then leByte x.major (i - 2)
  else if i < 6 then leByte x.minor (i - 4)
  else if i < 8 then leByte x.nlink (i - 6)
  else if i < 12 then leByte x.size (i - 8)
  else leByte (x.addrs (Fin.ofNat 13 ((i - 12) / 4))) ((i - 12) % 4)

/-- A block with the image of an inode put at byte `off`. -/
def write (b : Block) (off : ℕ) (x : Dinode) : Block := blit b off DINODESIZE x.byte

lemma fits_read (b : Block) (off : ℕ) : (read b off).Fits :=
  ⟨le_lt _ _ _, le_lt _ _ _, le_lt _ _ _, le_lt _ _ _, le_lt _ _ _, fun _ => le_lt _ _ _⟩

lemma fits_zero : zero.Fits :=
  ⟨by decide, by decide, by decide, by decide, by decide, fun _ => Nat.two_pow_pos 32⟩

/-- What was written is read back. -/
lemma read_write {x : Dinode} (hx : x.Fits) (b : Block) (off : ℕ) :
    read (write b off x) off = x := by
  have hread : ∀ p w, p + w ≤ 64 → le (write b off x) (off + p) w = le x.byte p w := by
    intro p w hp
    unfold write
    rw [le_blit_in (by omega) (by rw [DINODESIZE]; omega), Nat.add_sub_cancel_left]
  ext k
  · show le (write b off x) (off + 0) 2 = x.type
    rw [hread 0 2 (by omega)]
    refine le_leByte (fun i hi => ?_) hx.type
    rw [byte, if_pos (by omega), Nat.zero_add]
  · show le (write b off x) (off + 2) 2 = x.major
    rw [hread 2 2 (by omega)]
    refine le_leByte (fun i hi => ?_) hx.major
    rw [byte, if_neg (by omega), if_pos (by omega), Nat.add_sub_cancel_left]
  · show le (write b off x) (off + 4) 2 = x.minor
    rw [hread 4 2 (by omega)]
    refine le_leByte (fun i hi => ?_) hx.minor
    rw [byte, if_neg (by omega), if_neg (by omega), if_pos (by omega), Nat.add_sub_cancel_left]
  · show le (write b off x) (off + 6) 2 = x.nlink
    rw [hread 6 2 (by omega)]
    refine le_leByte (fun i hi => ?_) hx.nlink
    rw [byte, if_neg (by omega), if_neg (by omega), if_neg (by omega), if_pos (by omega),
      Nat.add_sub_cancel_left]
  · show le (write b off x) (off + 8) 4 = x.size
    rw [hread 8 4 (by omega)]
    refine le_leByte (fun i hi => ?_) hx.size
    rw [byte, if_neg (by omega), if_neg (by omega), if_neg (by omega), if_neg (by omega),
      if_pos (by omega), Nat.add_sub_cancel_left]
  · show le (write b off x) (off + 12 + 4 * k) 4 = x.addrs k
    rw [Nat.add_assoc, hread (12 + 4 * k) 4 (by omega)]
    refine le_leByte (fun i hi => ?_) (hx.addrs k)
    -- byte `i` of address `k` is byte `12 + 4 * k + i` of the inode
    have hk : Fin.ofNat 13 ((12 + 4 * (k : ℕ) + i - 12) / 4) = k := by
      ext
      rw [Fin.val_ofNat, show (12 + 4 * (k : ℕ) + i - 12) / 4 = k by omega]
      omega
    rw [byte, if_neg (by omega), if_neg (by omega), if_neg (by omega), if_neg (by omega),
      if_neg (by omega), hk, show (12 + 4 * (k : ℕ) + i - 12) % 4 = i by omega]

/-- Another inode of the same block is not changed. -/
lemma read_write_of_ne (b : Block) (x : Dinode) {i j : ℕ} (h : i ≠ j) :
    read (write b (j * DINODESIZE) x) (i * DINODESIZE) = read b (i * DINODESIZE) := by
  have hout : ∀ p w, p + w ≤ 64 →
      le (write b (j * DINODESIZE) x) (i * DINODESIZE + p) w = le b (i * DINODESIZE + p) w := by
    intro p w hp
    unfold write
    apply le_blit_out
    simp only [DINODESIZE]
    omega
  ext k
  · exact hout 0 2 (by omega)
  · exact hout 2 2 (by omega)
  · exact hout 4 2 (by omega)
  · exact hout 6 2 (by omega)
  · exact hout 8 4 (by omega)
  · show le (write b (j * DINODESIZE) x) (i * DINODESIZE + 12 + 4 * k) 4
      = le b (i * DINODESIZE + 12 + 4 * k) 4
    rw [Nat.add_assoc]
    exact hout (12 + 4 * k) 4 (by omega)

end Dinode

/-! ## Inodes of a disk -/

variable (sb : Superblock)

/-- The block that holds an inode. -/
def IBLOCK (inum : ℕ) : ℕ := inum / IPB + sb.inodestart

/-- The inode with number `inum`, as it is on the disk. -/
def dinode (d : Disk) (inum : ℕ) : Dinode :=
  .read (d (IBLOCK sb inum)) (inum % IPB * DINODESIZE)

/-- The disk after an inode has been written to its place. -/
def setDinode (d : Disk) (inum : ℕ) (x : Dinode) : Disk :=
  Function.update d (IBLOCK sb inum)
    (Dinode.write (d (IBLOCK sb inum)) (inum % IPB * DINODESIZE) x)

variable {sb}

lemma fits_dinode (d : Disk) (inum : ℕ) : (dinode sb d inum).Fits := Dinode.fits_read _ _

/-- The inode written is read back. -/
lemma dinode_setDinode {x : Dinode} (hx : x.Fits) (d : Disk) (inum : ℕ) :
    dinode sb (setDinode sb d inum x) inum = x := by
  unfold dinode setDinode
  rw [Function.update_self, Dinode.read_write hx]

lemma dinode_setDinode_of_ne {i j : ℕ} (h : i ≠ j) (d : Disk) (x : Dinode) :
    dinode sb (setDinode sb d j x) i = dinode sb d i := by
  unfold dinode setDinode
  by_cases hb : IBLOCK sb i = IBLOCK sb j
  · rw [hb, Function.update_self]
    apply Dinode.read_write_of_ne
    have hi := Nat.div_add_mod i IPB
    have hj := Nat.div_add_mod j IPB
    unfold IBLOCK at hb
    intro hmod
    rw [show i / IPB = j / IPB by omega, hmod] at hi
    omega
  · rw [Function.update_of_ne hb]

/-- A write to another block leaves the inode alone. -/
lemma dinode_congr {d d' : Disk} {inum : ℕ} (h : d' (IBLOCK sb inum) = d (IBLOCK sb inum)) :
    dinode sb d' inum = dinode sb d inum := by
  unfold dinode
  rw [h]

lemma setDinode_of_ne {b inum : ℕ} (h : b ≠ IBLOCK sb inum) (d : Disk) (x : Dinode) :
    setDinode sb d inum x b = d b := Function.update_of_ne h _ _

/-! ## Block addresses -/

/-- Entry `k` of an indirect block. -/
def entry (b : Block) (k : ℕ) : ℕ := le b (4 * k) 4

/-- An indirect block with entry `k` changed. -/
def setEntry (b : Block) (k v : ℕ) : Block := blit b (4 * k) 4 (leByte v)

/-- The entry written is read back. -/
lemma entry_setEntry {v : ℕ} (hv : v < 2 ^ 32) (b : Block) (k : ℕ) :
    entry (setEntry b k v) k = v := by
  unfold entry setEntry
  rw [le_blit_in (by omega) (by omega), Nat.sub_self]
  exact le_leByte (fun i _ => by rw [Nat.zero_add]) hv

lemma entry_setEntry_of_ne {i k : ℕ} (h : i ≠ k) (b : Block) (v : ℕ) :
    entry (setEntry b k v) i = entry b i := by
  unfold entry setEntry
  exact le_blit_out (by omega)

/-- A block of zeros has no entry. -/
lemma entry_zeroBlock (k : ℕ) : entry zeroBlock k = 0 := le_zero fun _ _ => rfl

/-! ## The bitmap -/

/-- `data[bi / 8] |= 1 << (bi % 8)`. -/
def setBit (b : Block) (bi : ℕ) : Block :=
  Function.update b (bi / 8) (b (bi / 8) ||| 1 <<< UInt8.ofNat (bi % 8))

/-- `data[bi / 8] &= ~(1 << (bi % 8))`. -/
def clearBit (b : Block) (bi : ℕ) : Block :=
  Function.update b (bi / 8) (b (bi / 8) &&& ~~~(1 <<< UInt8.ofNat (bi % 8)))

/-- `(data[bi / 8] & (1 << (bi % 8))) != 0`. -/
def testBit (b : Block) (bi : ℕ) : Bool := b (bi / 8) &&& 1 <<< UInt8.ofNat (bi % 8) ≠ 0

/-- The block of the free map that contains the bit for block `b`. -/
def BBLOCK (sb : Superblock) (b : ℕ) : ℕ := b / BPB + sb.bmapstart

/-- The superblock whose image a block holds. -/
def Superblock.read (b : Block) : Superblock where
  size := le b 0 4
  nblocks := le b 4 4
  ninodes := le b 8 4
  nlog := le b 12 4
  logstart := le b 16 4
  inodestart := le b 20 4
  bmapstart := le b 24 4

/-! ## Directory entries -/

/-- `struct dirent`: the number, and the name as `strncpy` puts it into a zeroed array. -/
def direntBytes (inum : ℕ) (name : List UInt8) : List UInt8 :=
  [leByte inum 0, leByte inum 1] ++ name.take DIRSIZ
    ++ List.replicate (DIRSIZ - name.length) 0

end OhMyXv6
