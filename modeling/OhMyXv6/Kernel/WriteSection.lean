import Mathlib.Order.Interval.Finset.Nat
import OhMyXv6.Kernel.Small
import OhMyXv6.Kernel.Write

/-!
# One transaction of `filewrite`

A write to a regular file is a sequence of transactions, each with one call of `writei`. Here is
what one of them does to an open file when nothing else is running, and how many blocks it logs.
-/

namespace OhMyXv6
namespace Kernel

open Bytes Prog

/-- `f` is an open regular file, which nobody has locked. -/
structure RegularFile (s : State) (f : ℕ) (X : ℕ → Dinode) (A : Nodes) : Prop where
  holds : Holds s (s.ftable f).ip X A
  type : (s.ftable f).type = .FD_INODE
  regular : (s.icache (s.ftable f).ip).din.type = T_FILE
  valid : (s.icache (s.ftable f).ip).valid = true
  ref : 0 < (s.icache (s.ftable f).ip).ref
  unlocked : (s.icache (s.ftable f).ip).lock = none

/-- The same when no system call is running. -/
structure OpenFile (s : State) (f : ℕ) (X : ℕ → Dinode) (A : Nodes) : Prop extends
    RegularFile s f X A where
  lh : s.lh = []
  outstanding : s.outstanding = 0
  nlog : s.sb.nlog = LOGSIZE

/-! ## A disk with one empty file

The layout is the one that `mkfs` gives a disk of `FSSIZE` blocks. Inode 1 is the root directory, with
one block, and inode 2 an empty file, which process 1 has open. -/

/-- The disk that `mkfs` makes has this size. -/
def oneFileSb : Superblock := ⟨FSSIZE, 1941, 200, LOGSIZE, 2, 32, 58⟩

/-- The root directory. -/
def rootInode : Dinode :=
  { Dinode.zero with type := T_DIR, nlink := 1, size := BSIZE, addrs := fun k => if k = 0 then 59 else 0 }

/-- The empty file. -/
def emptyInode : Dinode := { Dinode.zero with type := T_FILE, nlink := 1 }

/-- The root directory: `.`, `..` and `f`. -/
def rootBlock : Block :=
  ofList (direntBytes 1 [46] ++ direntBytes 1 [46, 46] ++ direntBytes 2 [102])

/-- A disk with these two inodes. -/
def oneFileDisk : Disk :=
  setDinode oneFileSb (setDinode oneFileSb (fun b =>
    if b = 1 then oneFileSb.byte
    else if b = 58 then (List.range 60).foldl setBit zeroBlock
    else if b = 59 then rootBlock
    else zeroBlock) 1 rootInode) 2 emptyInode

/-- The inodes of this disk. -/
def oneFileInodes : ℕ → Dinode := fun i =>
  if i = 1 then rootInode else if i = 2 then emptyInode else .zero

/-- The files of this disk. -/
def oneFileNodes : Nodes := fun i =>
  if i < 200 then nodeOf oneFileDisk (oneFileInodes i) else .free

/-- The empty file is open. -/
def oneFile : State where
  sb := oneFileSb
  disk := oneFileDisk
  icache := fun k =>
    if k = 0 then ⟨2, 1, none, true, emptyInode⟩
    else if k = 1 then ⟨1, 1, none, true, rootInode⟩
    else ⟨0, 0, none, false, .zero⟩
  ftable := fun f =>
    if f = 0 then ⟨.FD_INODE, 1, true, true, 0, 0, 0⟩ else ⟨.FD_NONE, 0, false, false, 0, 0, 0⟩
  proc := fun p =>
    if p = 1 then ⟨true, fun fd => if fd = 0 then some 0 else none, 1⟩
    else ⟨false, fun _ => none, 0⟩
  pipe := fun _ => none
  outstanding := 0
  lh := []
  inOp := []

section

/-- The free map of a disk on which the first blocks are taken. -/
lemma testBit_foldl_setBit (n b : ℕ) :
    testBit ((List.range n).foldl setBit zeroBlock) b = decide (b < n) := by
  induction n with
  | zero =>
    rw [testBit_eq]
    simp [zeroBlock]
  | succ n ih =>
    rw [List.range_succ, List.foldl_append, List.foldl_cons, List.foldl_nil, testBit_setBit, ih,
      ← Bool.decide_or, decide_eq_decide]
    omega

/-- The parts of the disk lie one behind the other. -/
lemma geometry_oneFile : Geometry oneFileSb := by
  refine ⟨by decide, fun i hi => ?_, by decide, fun b hb => ?_, by decide, by decide, by decide,
    by decide⟩
  · have hlt : i < 200 := hi
    show i / 8 + 32 < 58
    omega
  · have hlt : b < 2000 := hb
    show b / 4096 + 58 < 59
    omega

/-- The blocks of the disk without the two inodes. -/
def oneFileBase : Disk := fun b =>
  if b = 1 then oneFileSb.byte
  else if b = 58 then (List.range 60).foldl setBit zeroBlock
  else if b = 59 then rootBlock
  else zeroBlock

lemma fits_rootInode : rootInode.Fits := by
  refine ⟨by decide, by decide, by decide, by decide, by decide, fun k => ?_⟩
  show (if k = 0 then 59 else 0) < 2 ^ 32
  split
  · decide
  · decide

/-- The disk is one with two inodes. -/
lemma twoFiles_oneFile : TwoFiles oneFileSb oneFileBase rootInode emptyInode 0 := by
  have hz := Dinode.fits_zero
  refine ⟨geometry_oneFile, by decide, by decide +kernel, fun i hi => ?_, fun c hc => ?_, by decide,
    .inl rfl, ⟨rfl, ?_⟩, ⟨by decide, by decide⟩, ⟨by decide, by decide⟩,
    ⟨by decide, by decide, fun _ => rfl⟩, fits_rootInode,
    by decide, hz.major, hz.minor, by decide, hz.size, hz.addrs⟩
  · have hblock : IBLOCK oneFileSb i = i / 8 + 32 := rfl
    have hlt : i < 200 := hi
    unfold oneFileBase
    rw [hblock, if_neg (by omega), if_neg (by omega), if_neg (by omega)]
  · have hlt : c < 2000 := hc
    have hblock : BBLOCK oneFileSb c = 58 := by
      show c / 4096 + 58 = 58
      omega
    unfold bit
    rw [hblock]
    show testBit ((List.range 60).foldl setBit zeroBlock) (c % 4096) = _
    rw [testBit_foldl_setBit, Nat.mod_eq_of_lt (by omega), decide_eq_decide]
    show c < 60 ↔ c ≤ 59 ∨ c = 0
    omega
  · funext k
    exact (ite_self 0).symm

lemma image_oneFile : Image oneFileSb oneFileDisk oneFileInodes oneFileNodes := twoFiles_oneFile.image

lemma bit_oneFile {b : ℕ} (hb : b < 2000) : bit oneFileSb oneFileDisk b = decide (b < 60) := by
  refine (twoFiles_oneFile.bit_eq hb).trans ?_
  rw [decide_eq_decide]
  show b ≤ 59 ∨ b = 0 ↔ b < 60
  omega

lemma le_freeCount_oneFile : 1940 ≤ freeCount oneFileSb oneFileDisk := by
  have hsub : Finset.Ico 60 2000 ⊆
      (Finset.range oneFileSb.size).filter fun b => bit oneFileSb oneFileDisk b = false := by
    intro b hb
    rw [Finset.mem_Ico] at hb
    rw [Finset.mem_filter, Finset.mem_range, bit_oneFile hb.2, decide_eq_false_iff_not]
    exact ⟨hb.2, by omega⟩
  have hcard := Finset.card_le_card hsub
  rw [Nat.card_Ico] at hcard
  exact hcard

lemma slot_oneFile (u : ℕ) : oneFile.slot 0 u = 0 :=
  (ref_oneAddr twoFiles_oneFile.addrs.2 _ u).trans (ite_self 0)

lemma openFile_oneFile : OpenFile oneFile 0 oneFileInodes oneFileNodes := by
  have hX : Function.update oneFileInodes 2 emptyInode = oneFileInodes :=
    Function.update_eq_self 2 oneFileInodes
  refine ⟨⟨⟨?_, by decide, by decide, List.nodup_nil⟩, rfl, rfl, rfl, by decide, rfl⟩, rfl, rfl, rfl⟩
  show Image oneFileSb oneFileDisk (Function.update oneFileInodes 2 emptyInode) oneFileNodes
  rw [hX]
  exact image_oneFile

end

/-- The part of `filewriteRound` from `ilock` to `iunlock`. -/
def writeSection (p f ip : ℕ) (src : List UInt8) : M (Option ℕ) := do
  ilock p ip
  let off ← get fun s => (s.ftable f).off
  let r ← writei ip src off
  advance f (r.getD 0)
  iunlock ip
  return r

/-- The part of `filewriteRound` from `begin_op` up to `end_op`. -/
def filewriteSection (p f ip : ℕ) (src : List UInt8) : M (Option ℕ) := do
  begin_op p
  writeSection p f ip src

/-- A transaction is the section and its end. -/
lemma filewriteRound_eq (p f ip : ℕ) (src : List UInt8) : filewriteRound p f ip src =
    filewriteSection p f ip src >>= fun r => end_op p >>= fun _ => pure r := by
  unfold filewriteSection writeSection filewriteRound
  simp only [bind_bind]
  rfl

section
variable {s t : State} {p f ip : ℕ} {X : ℕ → Dinode} {A : Nodes} {src : List UInt8}

/-! ## The steps around `writei` -/

/-- `begin_op` with enough room in the log. -/
lemma exec_begin_op (h : s.lh.length + (s.outstanding + 1) * MAXOPBLOCKS ≤ LOGSIZE) :
    Prog.exec (begin_op p) s
      = .done () { s with outstanding := s.outstanding + 1, inOp := p :: s.inOp } := by
  unfold begin_op
  rw [exec_act, if_neg (by omega)]

/-- `ilock` of an entry that is valid and not locked. -/
lemma exec_ilock (href : 0 < (s.icache ip).ref) (hlock : (s.icache ip).lock = none)
    (hvalid : (s.icache ip).valid = true) :
    Prog.exec (ilock p ip) s = .done () (s.setInode ip { s.icache ip with lock := some p }) := by
  have hacq : Prog.exec (acquire p ip) s
      = .done () (s.setInode ip { s.icache ip with lock := some p }) := by
    unfold acquire
    rw [exec_act, if_neg (by omega), hlock, if_neg (by simp)]
  have hload : Prog.exec (iload ip) (s.setInode ip { s.icache ip with lock := some p })
      = .done () (s.setInode ip { s.icache ip with lock := some p }) := by
    have hip : ((s.setInode ip { s.icache ip with lock := some p }).icache ip).valid = true := by
      show (Function.update s.icache ip _ ip).valid = true
      rw [Function.update_self]
      exact hvalid
    unfold iload
    rw [exec_act]
    exact if_pos hip
  unfold ilock
  rw [exec_seq hacq, hload]

lemma exec_iunlock (href : 0 < (s.icache ip).ref) (hlock : (s.icache ip).lock = some p) :
    Prog.exec (iunlock ip) s = .done () (s.setInode ip { s.icache ip with lock := none }) := by
  unfold iunlock
  rw [exec_act, hlock, if_neg (by simp; omega)]

/-- The state in which `writei` is called. -/
def State.entered (s : State) (p ip : ℕ) : State :=
  { s with
    outstanding := s.outstanding + 1
    inOp := p :: s.inOp
    icache := Function.update s.icache ip { s.icache ip with lock := some p } }

/-- The state after `writei`, when the offset has been moved and the inode is unlocked. -/
def State.left (s : State) (f ip n : ℕ) : State :=
  { s with
    ftable := Function.update s.ftable f { s.ftable f with off := (s.ftable f).off + n }
    icache := Function.update s.icache ip { s.icache ip with lock := none } }

/-- The files are the same inside of a transaction. -/
lemma Holds.entered (h : Holds s ip X A) : Holds (s.entered p ip) ip X A := by
  have hip : (s.entered p ip).icache ip = { s.icache ip with lock := some p } :=
    Function.update_self _ _ _
  constructor
  · rw [hip]
    exact h.image
  · rw [hip]
    exact h.inum
  · rw [hip]
    exact h.type
  · exact h.nodup

/-- `ilock`, `writei` and `iunlock`, by what `writei` does. -/
lemma writeSection_ends (href : 0 < (s.icache ip).ref) (hlock : (s.icache ip).lock = none)
    (hvalid : (s.icache ip).valid = true) {E : Panic → Prop} {Q : Option ℕ → State → Prop}
    (hw : Ends E (writei ip src (s.ftable f).off)
      (fun r t => (t.icache ip).lock = some p ∧ 0 < (t.icache ip).ref ∧ Q r (t.left f ip (r.getD 0)))
      (s.setInode ip { s.icache ip with lock := some p })) :
    Ends E (writeSection p f ip src) Q s := by
  unfold writeSection
  refine Ends.after (exec_ilock href hlock hvalid) (Ends.after rfl (Ends.seq hw ?_))
  rintro r t ⟨hlock', href', hQ⟩
  refine Ends.after rfl (Ends.after (exec_iunlock href' hlock') ?_)
  exact hQ

lemma filewriteSection_ends (h : OpenFile s f X A) (hip : (s.ftable f).ip = ip)
    {E : Panic → Prop} {Q : Option ℕ → State → Prop}
    (hw : Ends E (writei ip src (s.ftable f).off)
      (fun r t => (t.icache ip).lock = some p ∧ 0 < (t.icache ip).ref ∧ Q r (t.left f ip (r.getD 0)))
      (s.entered p ip)) :
    Ends E (filewriteSection p f ip src) Q s := by
  have hlog : s.lh.length + (s.outstanding + 1) * MAXOPBLOCKS ≤ LOGSIZE := by
    rw [h.lh, h.outstanding]
    decide
  have hvalid := h.valid
  have href := h.ref
  have hunlocked := h.unlocked
  rw [hip] at hvalid href hunlocked
  unfold filewriteSection
  refine Ends.after (exec_begin_op hlog) ?_
  apply writeSection_ends
  · exact href
  · exact hunlocked
  · exact hvalid
  · exact hw

/-! ## One transaction -/

/-- A range of `k` blocks touches one more, at most. -/
lemma card_blocks_le {off n k : ℕ} (h : n ≤ BSIZE * k) : (blocks off n).card ≤ k + 1 := by
  have hB : BSIZE = 512 := rfl
  have hsub : blocks off n ⊆ Finset.Ico (off / BSIZE) (off / BSIZE + (k + 1)) := by
    intro b hb
    rw [mem_blocks, hB] at hb
    rw [hB] at h
    rw [Finset.mem_Ico, hB]
    omega
  refine Nat.le_trans (Finset.card_le_card hsub) ?_
  rw [Nat.card_Ico]
  omega

/-- The blocks of the file are the same. -/
lemma slot_entered (u : ℕ) : (s.entered p ip).slot ip u = s.slot ip u := by
  show ref s.disk (Function.update s.icache ip _ ip).din u = _
  rw [Function.update_self]
  rfl

/-- So are those that are missing. -/
lemma missing_entered (S : Finset ℕ) : missing (s.entered p ip) ip S = missing s ip S := by
  unfold missing
  simp only [slot_entered]

/-- What one transaction of `filewrite` does, up to its `end_op`. -/
theorem filewriteSection_spec (h : OpenFile s f X A) (hlen : src.length ≤ filewriteMax) :
    Ends (fun e => e = .ballocOutOfBlocks ∧
        ¬ Refused (s.icache (s.ftable f).ip).din (s.ftable f).off src.length ∧
        freeCount s.sb s.disk <
          (missing s (s.ftable f).ip (slots (blocks (s.ftable f).off src.length))).card)
      (filewriteSection p f (s.ftable f).ip src)
      (fun r t => if Refused (s.icache (s.ftable f).ip).din (s.ftable f).off src.length then
          r = none ∧ t = (s.entered p (s.ftable f).ip).left f (s.ftable f).ip 0
        else r = some src.length ∧ ∃ w,
          Holds w (s.ftable f).ip X
            (A.write (s.icache (s.ftable f).ip).inum (s.ftable f).off src) ∧
          Written (s.entered p (s.ftable f).ip) w (s.ftable f).ip (s.ftable f).off src ∧
          t = w.left f (s.ftable f).ip src.length) s := by
  generalize hip : (s.ftable f).ip = ip
  have hholds := h.holds
  have hregular := h.regular
  have href := h.ref
  rw [hip] at hholds hregular href
  have hentered : (s.entered p ip).icache ip = { s.icache ip with lock := some p } :=
    Function.update_self _ _ _
  have hmax : filewriteMax = BSIZE * 13 := rfl
  -- 6656 bytes touch 14 blocks at most, the log takes 29
  have hcard : (blocks (s.ftable f).off src.length).card ≤ 13 + 1 := card_blocks_le (by omega)
  have hlimit : (s.entered p ip).logLimit = 29 := by
    show min LOGSIZE (s.sb.nlog - 1) = 29
    rw [h.nlog]
    rfl
  have hdev : ((s.entered p ip).icache ip).din.type ≠ T_DEV := by
    rw [hentered, hregular]
    decide
  have hw := @writei_ends _ _ (s.ftable f).off _ _ src (hholds.entered (p := p))
    (Nat.le_add_left 1 s.outstanding) hdev
  rw [hentered] at hw
  refine filewriteSection_ends h hip (hw.mono ?_ ?_)
  · rintro e ⟨hnot, ⟨rfl, hfree⟩ | ⟨rfl, hfull⟩⟩
    · rw [missing_entered] at hfree
      exact ⟨rfl, hnot, hfree⟩
    · rw [hlimit] at hfull
      have hlh : (s.entered p ip).lh.length = 0 := by
        show s.lh.length = 0
        rw [h.lh]
        rfl
      omega
  · intro r t hq
    by_cases hr : Refused (s.icache ip).din (s.ftable f).off src.length
    · rw [if_pos hr] at hq
      obtain ⟨rfl, rfl⟩ := hq
      rw [if_pos hr, hentered]
      exact ⟨rfl, href, rfl, rfl⟩
    · rw [if_neg hr] at hq
      obtain ⟨rfl, ht, hwr⟩ := hq
      have htip : (t.icache ip).lock = some p ∧ 0 < (t.icache ip).ref := by
        rw [hwr.frame]
        simp only [Function.update_self, hentered]
        exact ⟨trivial, href⟩
      rw [if_neg hr]
      exact ⟨htip.1, htip.2, rfl, t, ht, hwr, rfl⟩

/-! ### The number of blocks -/

/-- The blocks that one transaction logs: those it writes, the bitmap block if one of them is new,
the indirect block if one of its entries is, and the inode's block if the file grows. -/
def sectionBlocks (s : State) (ip off n : ℕ) : ℕ :=
  (blocks off n).card + (if ∃ bn ∈ blocks off n, s.slot ip bn = 0 then 1 else 0)
    + (if ∃ bn ∈ blocks off n, NDIRECT ≤ bn ∧ s.slot ip bn = 0 then 1 else 0)
    + (if (s.icache ip).din.size < off + n then 1 else 0)

/-- A write that needs a new entry of the indirect block. -/
lemma sectionBlocks_of_new {off n : ℕ}
    (h : ∃ bn ∈ blocks off n, NDIRECT ≤ bn ∧ s.slot ip bn = 0) : sectionBlocks s ip off n
      = (blocks off n).card + 2 + if (s.icache ip).din.size < off + n then 1 else 0 := by
  have hnew : ∃ bn ∈ blocks off n, s.slot ip bn = 0 := by
    obtain ⟨bn, hbn, -, h0⟩ := h
    exact ⟨bn, hbn, h0⟩
  unfold sectionBlocks
  rw [if_pos hnew, if_pos h]

/-- One slot more than blocks, at most. -/
lemma card_slots_le (B : Finset ℕ) : (slots B).card ≤ B.card + 1 := by
  have hsub : slots B ⊆ insert MAXFILE B := by
    intro u hu
    obtain ⟨bn, hbn, hmem⟩ := Finset.mem_biUnion.mp hu
    unfold slotsOf at hmem
    split at hmem
    · rw [Finset.mem_singleton] at hmem
      rw [hmem]
      exact Finset.mem_insert_of_mem hbn
    · rw [Finset.mem_insert, Finset.mem_singleton] at hmem
      rcases hmem with rfl | rfl
      · exact Finset.mem_insert_self _ _
      · exact Finset.mem_insert_of_mem hbn
  exact Nat.le_trans (Finset.card_le_card hsub) (Finset.card_insert_le _ _)

/-- Not more is missing than there is. -/
lemma card_missing_le (s : State) (ip : ℕ) (S : Finset ℕ) :
    (missing s ip S).card ≤ S.card := Finset.card_filter_le _ _

lemma card_ite_singleton {P : Prop} [Decidable P] (b : ℕ) :
    (if P then {b} else ∅ : Finset ℕ).card = if P then 1 else 0 := by
  split <;> rfl

/-- The blocks in the log are all different. -/
lemma card_writeLog {B : Finset ℕ} (ht : Holds t ip X A) (hsb : t.sb = s.sb)
    (hB : ∀ bn ∈ B, bn < MAXFILE ∧ t.slot ip bn ≠ 0)
    (hind : ∀ bn ∈ B, NDIRECT ≤ bn → t.slot ip MAXFILE ≠ 0) :
    (writeLog s t ip B).card = B.card + (if ∃ bn ∈ B, s.slot ip bn = 0 then 1 else 0)
      + (if ∃ bn ∈ B, NDIRECT ≤ bn ∧ s.slot ip bn = 0 then 1 else 0) := by
  have hmap := ht.image.geometry.bmapstart
  rw [hsb] at hmap
  -- data blocks lie behind the bitmap, so the three parts do not meet
  have hrange : ∀ u, t.slot ip u ≠ 0 → nmeta s.sb ≤ t.slot ip u := by
    intro u hu
    rw [← hsb]
    exact (ht.slot_range hu).1
  unfold writeLog
  rw [Finset.card_union_of_disjoint, Finset.card_union_of_disjoint, Finset.card_image_of_injOn,
    card_ite_singleton, card_ite_singleton]
  · intro u hu v hv heq
    exact ht.slot_inj (hB u hu).2 heq
  · rw [Finset.disjoint_left]
    intro b hb hm
    obtain ⟨u, hu, rfl⟩ := Finset.mem_image.mp hb
    split at hm
    · rw [Finset.mem_singleton] at hm
      have := hrange u (hB u hu).2
      omega
    · exact Finset.notMem_empty _ hm
  · rw [Finset.disjoint_left]
    intro b hb hm
    split at hm
    · next hex =>
      obtain ⟨c, hc, hd, -⟩ := hex
      have hne := hind c hc hd
      rw [Finset.mem_singleton] at hm
      subst hm
      rw [Finset.mem_union] at hb
      rcases hb with hb | hb
      · obtain ⟨u, hu, heq⟩ := Finset.mem_image.mp hb
        have := ht.slot_inj (hB u hu).2 heq
        have := (hB u hu).1
        omega
      · split at hb
        · rw [Finset.mem_singleton] at hb
          have := hrange MAXFILE hne
          omega
        · exact Finset.notMem_empty _ hb
    · exact Finset.notMem_empty _ hm

/-- How many blocks a section has logged. -/
lemma Written.length_lh {off : ℕ} (h : Written s t ip off src) (ht : Holds t ip X A)
    (hend : off + src.length ≤ MAXFILE * BSIZE) (hlh : s.lh = []) :
    t.lh.length = sectionBlocks s ip off src.length := by
  have hBS : BSIZE = 512 := rfl
  have hM : MAXFILE = 140 := rfl
  have hgeo := ht.image.geometry
  have hB : ∀ bn ∈ blocks off src.length, bn < MAXFILE ∧ t.slot ip bn ≠ 0 := by
    intro bn hbn
    refine ⟨?_, (h.slots bn).mpr (.inr (mem_slots_of_mem hbn))⟩
    rw [mem_blocks, hBS] at hbn
    rw [hM, hBS] at hend
    rw [hM]
    omega
  have hind : ∀ bn ∈ blocks off src.length, NDIRECT ≤ bn → t.slot ip MAXFILE ≠ 0 :=
    fun bn hbn hd => (h.slots MAXFILE).mpr (.inr (maxfile_mem_slots hbn hd))
  have hset : t.lh.toFinset = writeLog s t ip (blocks off src.length) ∪
      (if (s.icache ip).din.size < off + src.length then {IBLOCK s.sb (s.icache ip).inum} else ∅)
      := by
    ext b
    rw [List.mem_toFinset, h.log, hlh, Finset.mem_union]
    split
    · next hlt => simp [hlt]
    · next hlt => simp [hlt]
  have hdisj : Disjoint (writeLog s t ip (blocks off src.length))
      (if (s.icache ip).din.size < off + src.length then {IBLOCK s.sb (s.icache ip).inum} else ∅)
      := by
    rw [Finset.disjoint_left]
    intro b hb hm
    split at hm
    · have hI := hgeo.inodes _ ht.inum
      have hmap := hgeo.bmapstart
      rw [h.sb, h.inum] at hI
      rw [h.sb] at hmap
      rw [Finset.mem_singleton] at hm
      subst hm
      rw [mem_writeLog] at hb
      rcases hb with ⟨bn, hbn, heq⟩ | ⟨-, heq⟩ | ⟨⟨bn, hbn, hd, -⟩, heq⟩
      · have := (ht.slot_range (hB bn hbn).2).1
        rw [h.sb] at this
        omega
      · omega
      · have := (ht.slot_range (hind bn hbn hd)).1
        rw [h.sb] at this
        omega
    · exact Finset.notMem_empty _ hm
  rw [← List.toFinset_card_of_nodup ht.nodup, hset, Finset.card_union_of_disjoint hdisj,
    card_writeLog ht h.sb hB hind, card_ite_singleton]
  rfl

/-- A section logs as many blocks as were counted, or it panics for want of one. -/
lemma filewriteSection_log (h : OpenFile s f X A) (hlen : src.length ≤ filewriteMax) :
    Ends (fun e => e = .ballocOutOfBlocks ∧
        ¬ Refused (s.icache (s.ftable f).ip).din (s.ftable f).off src.length ∧
        freeCount s.sb s.disk <
          (missing s (s.ftable f).ip (slots (blocks (s.ftable f).off src.length))).card)
      (filewriteSection p f (s.ftable f).ip src)
      (fun _ t => t.lh.length =
        if Refused (s.icache (s.ftable f).ip).din (s.ftable f).off src.length then 0
        else sectionBlocks s (s.ftable f).ip (s.ftable f).off src.length) s := by
  refine (filewriteSection_spec h hlen).mono (fun _ he => he) fun r t hq => ?_
  by_cases hr : Refused (s.icache (s.ftable f).ip).din (s.ftable f).off src.length
  · rw [if_pos hr] at hq ⊢
    rw [hq.2]
    show s.lh.length = 0
    rw [h.lh]
    rfl
  · rw [if_neg hr] at hq ⊢
    obtain ⟨-, w, hw, hwr, rfl⟩ := hq
    have hend : (s.ftable f).off + src.length ≤ MAXFILE * BSIZE :=
      Nat.not_lt.mp fun hlt => hr (.inr hlt)
    have hcount := hwr.length_lh hw hend h.lh
    have hsame : sectionBlocks (s.entered p (s.ftable f).ip) (s.ftable f).ip (s.ftable f).off
        src.length = sectionBlocks s (s.ftable f).ip (s.ftable f).off src.length := by
      have hip : (s.entered p (s.ftable f).ip).icache (s.ftable f).ip
          = { s.icache (s.ftable f).ip with lock := some p } := Function.update_self _ _ _
      unfold sectionBlocks
      simp only [slot_entered, hip]
    rw [← hsame]
    exact hcount

/-- A transaction of `filewrite` that gets to its `end_op` has logged no more than it reserved. -/
def LogsWithin (s : State) (p f : ℕ) (src : List UInt8) : Prop :=
  ∀ r t, Prog.exec (filewriteSection p f (s.ftable f).ip src) s = .done r t →
    t.lh.length ≤ MAXOPBLOCKS

/-- A transaction of `filewrite` stays within its reservation exactly when `writei` refuses it, the
disk has too few free blocks for it, or what it writes and allocates adds up to `MAXOPBLOCKS` at
most. The size of a transaction is bounded with `LOGSIZE` in mind, so the last does not follow. -/
theorem logsWithin_iff (h : OpenFile s f X A) (hlen : src.length ≤ filewriteMax) :
    LogsWithin s p f src ↔
      Refused (s.icache (s.ftable f).ip).din (s.ftable f).off src.length ∨
      freeCount s.sb s.disk <
        (missing s (s.ftable f).ip (slots (blocks (s.ftable f).off src.length))).card ∨
      sectionBlocks s (s.ftable f).ip (s.ftable f).off src.length ≤ MAXOPBLOCKS := by
  have hlog := filewriteSection_log (p := p) h hlen
  constructor
  · intro hwithin
    by_contra hnot
    rw [not_or, not_or] at hnot
    obtain ⟨hr, hfree, hbig⟩ := hnot
    obtain ⟨r, t, hexec, hcount⟩ := hlog.returns fun e he => hfree he.2.2
    rw [if_neg hr] at hcount
    have := hwithin r t hexec
    omega
  · intro hcond r t hexec
    have hcount := hlog.of_done hexec
    by_cases hr : Refused (s.icache (s.ftable f).ip).din (s.ftable f).off src.length
    · rw [if_pos hr] at hcount
      rw [hcount]
      exact Nat.zero_le _
    · rw [if_neg hr] at hcount
      rcases hcond with hr' | hfree | hle
      · exact absurd hr' hr
      · -- a transaction that is done found the blocks that it needed
        have hspec := (filewriteSection_spec h hlen).of_done hexec
        rw [if_neg hr] at hspec
        obtain ⟨-, w, -, hwr, -⟩ := hspec
        have hused := hwr.free
        rw [missing_entered] at hused
        have hbase : freeCount (s.entered p (s.ftable f).ip).sb (s.entered p (s.ftable f).ip).disk
            = freeCount s.sb s.disk := rfl
        omega
      · rw [hcount]
        exact hle

/-- Two bytes, written to the empty file. -/
theorem logsWithin_iff_oneFile : OpenFile oneFile 0 oneFileInodes oneFileNodes ∧
    LogsWithin oneFile 1 0 [104, 105] := by
  refine ⟨openFile_oneFile, (logsWithin_iff openFile_oneFile (by decide)).mpr (.inr (.inr ?_))⟩
  have hblocks : (blocks 0 2).card ≤ 1 + 1 := card_blocks_le (by decide)
  show (blocks 0 2).card + _ + _ + _ ≤ 10
  split <;> split <;> split <;> omega

/-- `filewriteMax` bytes, written to the empty file, are 13 data blocks, the last of them in the
indirect block. With the indirect block, the bitmap block and the inode's block that makes 16. -/
theorem not_logsWithin_oneFile :
    ¬ LogsWithin oneFile 1 0 (List.replicate filewriteMax 0) := by
  have hB : BSIZE = 512 := rfl
  have hblocks : blocks 0 6656 = Finset.range 13 := by
    ext bn
    rw [mem_blocks, Finset.mem_range, hB]
    omega
  have hmax : filewriteMax = 6656 := rfl
  have hlen : (List.replicate filewriteMax (0 : UInt8)).length = filewriteMax := List.length_replicate
  generalize List.replicate filewriteMax (0 : UInt8) = src at hlen ⊢
  have hlog := filewriteSection_log (p := 1) openFile_oneFile (Nat.le_of_eq hlen)
  have hip : (oneFile.ftable 0).ip = 0 := rfl
  have hoff : (oneFile.ftable 0).off = 0 := rfl
  have hdin : (oneFile.icache 0).din = emptyInode := rfl
  rw [hip, hoff, hdin, hlen, hmax] at hlog
  have hmissing : (missing oneFile 0 (slots (blocks 0 6656))).card ≤ 14 := by
    have h1 := card_missing_le oneFile 0 (slots (blocks 0 6656))
    have h2 := card_slots_le (blocks 0 6656)
    have h3 : (blocks 0 6656).card = 13 := by rw [hblocks, Finset.card_range]
    omega
  have hfree : 1940 ≤ freeCount oneFile.sb oneFile.disk := le_freeCount_oneFile
  obtain ⟨r, t, hexec, hcount⟩ := hlog.returns fun e he => by
    have := he.2.2
    omega
  have hexact : sectionBlocks oneFile 0 0 6656 = 16 := by
    have hind : ∃ bn ∈ blocks 0 6656, NDIRECT ≤ bn ∧ oneFile.slot 0 bn = 0 := by
      refine ⟨12, ?_, by decide, slot_oneFile 12⟩
      rw [hblocks]
      decide
    rw [sectionBlocks_of_new hind, hblocks, Finset.card_range, hdin]
    rfl
  rw [if_neg (show ¬ Refused emptyInode 0 6656 by decide), hexact] at hcount
  intro hwithin
  have hle := hwithin r t (by rw [hip]; exact hexec)
  have hM : MAXOPBLOCKS = 10 := rfl
  omega

end

end Kernel
end OhMyXv6
