import Mathlib.Data.Finset.Card
import Mathlib.Data.Finset.Union
import OhMyXv6.Kernel.Image
import OhMyXv6.Kernel.Read

/-!
# Blocks for a file

What `balloc` and `bmap` do when they have to allocate. `Holds s ip X A` says that the disk and the
inodes hold the files `A`, where the inode in cache entry `ip` may be ahead of the disk.
`Grown s t ip S L` says all that a sequence of allocations for that file does: the slots `S` have blocks now, the
number of free blocks has gone down by the number of those that had none, and the blocks `L` are in
the log. `Fails` gives the two reasons for which an allocation can not be done: the disk is full, or
the log is.
-/

namespace OhMyXv6
namespace Kernel

open Bytes Prog

/-! ## The log -/

/-- The blocks of the log header after `log_write` of block `b`. -/
def addLog (l : List ℕ) (b : ℕ) : List ℕ := if b ∈ l then l else l ++ [b]

/-- Absorption keeps the set of logged blocks: one block more at most. -/
lemma mem_addLog {l : List ℕ} {b c : ℕ} : c ∈ addLog l b ↔ c ∈ l ∨ c = b := by
  unfold addLog
  by_cases h : b ∈ l
  · rw [if_pos h]
    constructor
    · intro hc
      exact .inl hc
    · rintro (hc | rfl)
      · exact hc
      · exact h
  · rw [if_neg h, List.mem_append, List.mem_singleton]

lemma nodup_addLog {l : List ℕ} {b : ℕ} (h : l.Nodup) : (addLog l b).Nodup := by
  unfold addLog
  by_cases hb : b ∈ l
  · rwa [if_pos hb]
  · rw [if_neg hb, List.nodup_append]
    refine ⟨h, List.nodup_singleton b, fun x hx y hy => ?_⟩
    rw [List.mem_singleton] at hy
    intro hxy
    exact hb (by rwa [← hy, ← hxy])

lemma length_addLog_le (l : List ℕ) (b : ℕ) : (addLog l b).length ≤ l.length + 1 := by
  unfold addLog
  split
  · omega
  · rw [List.length_append, List.length_singleton]

/-- The number of blocks from which on `log_write` panics. -/
def State.logLimit (s : State) : ℕ := min LOGSIZE (s.sb.nlog - 1)

section
variable {s : State} {ip : ℕ}

/-- `log_write` inside a transaction: the block is in the log, or the log is too full. -/
lemma log_write_ends {b : ℕ} {E : Panic → Prop} {Q : Unit → State → Prop}
    (hout : 1 ≤ s.outstanding) (hfull : s.logLimit ≤ s.lh.length → E .tooBigATransaction)
    (hQ : Q () { s with lh := addLog s.lh b }) : (log_write b s).Ends E Q := by
  unfold log_write
  split
  · next hbig =>
    apply hfull
    unfold State.logLimit
    omega
  · rw [if_neg (by omega)]
    exact hQ

/-- A block is written and logged. -/
def State.logged (s : State) (b : ℕ) (w : Block) : State :=
  { s with disk := Function.update s.disk b w, lh := addLog s.lh b }

/-- A block is changed and logged. -/
lemma logBlock_ends {b : ℕ} {g : State → Block} {E : Panic → Prop} (hout : 1 ≤ s.outstanding)
    (hfull : s.logLimit ≤ s.lh.length → E .tooBigATransaction) :
    Ends E (logBlock (fun _ => b) g) (fun _ t => t = s.logged b (g s)) s := by
  unfold logBlock
  rw [ends_act]
  exact log_write_ends (s := s.setBlock b (g s)) hout hfull rfl

/-! ## Allocation -/

/-- The number of free blocks. -/
def freeCount (sb : Superblock) (d : Disk) : ℕ :=
  ((Finset.range sb.size).filter fun b => bit sb d b = false).card

/-- The state after `balloc` has returned block `b`. -/
def State.balloced (s : State) (b : ℕ) : State :=
  { s with
    disk := Function.update (markUsed s.sb s.disk b) b zeroBlock
    lh := addLog (addLog s.lh s.sb.bmapstart) b }

/-- All bits of the free map are in one block. -/
lemma bblock_of_lt {sb : Superblock} (h : Geometry sb) {b : ℕ} (hb : b < sb.size) :
    BBLOCK sb b = sb.bmapstart := by
  have hsize := h.size
  have hF : FSSIZE = 2000 := rfl
  have hP : BPB = 4096 := rfl
  unfold BBLOCK
  rw [Nat.div_eq_of_lt (by omega), Nat.zero_add]

/-- The bit of a block is in the one block of the free map. -/
lemma bit_of_lt {sb : Superblock} (h : Geometry sb) (d : Disk) {b : ℕ} (hb : b < sb.size) :
    bit sb d b = testBit (d (BBLOCK sb 0)) b := by
  have hsize := h.size
  have hF : FSSIZE = 2000 := rfl
  have hP : BPB = 4096 := rfl
  unfold bit
  rw [bblock_of_lt h hb, Nat.mod_eq_of_lt (by omega), bblock_of_lt h (by omega)]

/-- The only round of the loop of `balloc`: `FSSIZE` blocks have one bitmap block. -/
theorem ballocScan_ends (hgeo : Geometry s.sb) (hout : 1 ≤ s.outstanding) :
    Ends (fun e => e = .tooBigATransaction ∧ s.logLimit ≤ s.lh.length) (ballocScan 0)
      (fun r t => r = none ∧ t = s ∧ freeCount s.sb s.disk = 0 ∨
        ∃ b < s.sb.size, r = some b ∧ bit s.sb s.disk b = false ∧
          t = { s with disk := markUsed s.sb s.disk b, lh := addLog s.lh s.sb.bmapstart }) s := by
  have hsize := hgeo.size
  have hdata := hgeo.data
  have hmap := hgeo.bmapstart
  have hF : FSSIZE = 2000 := rfl
  have hP : BPB = 4096 := rfl
  -- the image has fewer blocks than a bitmap block has bits
  have hmin : min BPB (s.sb.size - 0) = s.sb.size := by omega
  have h0 : 0 < s.sb.size := by omega
  unfold ballocScan
  rw [ends_act, hmin]
  dsimp only
  cases hfind : (List.range s.sb.size).find? fun bi => !testBit (s.disk (BBLOCK s.sb 0)) bi with
  | none =>
    rw [List.find?_eq_none] at hfind
    refine .inl ⟨rfl, rfl, ?_⟩
    unfold freeCount
    rw [Finset.card_eq_zero, Finset.filter_eq_empty_iff]
    intro b hb
    rw [Finset.mem_range] at hb
    have hbit := hfind b (List.mem_range.mpr hb)
    rw [← bit_of_lt hgeo s.disk hb] at hbit
    simpa using hbit
  | some b =>
    have hb : b < s.sb.size := List.mem_range.mp (List.mem_of_find?_eq_some hfind)
    have hfree := List.find?_some hfind
    rw [← bit_of_lt hgeo s.disk hb] at hfree
    have hmark : setBit (s.disk (BBLOCK s.sb 0)) b = setBit (s.disk (BBLOCK s.sb b)) (b % BPB) := by
      rw [bblock_of_lt hgeo h0, bblock_of_lt hgeo hb, Nat.mod_eq_of_lt (by omega)]
    -- the bit is set and its block logged
    have hlog : (log_write (BBLOCK s.sb 0)
        (s.setBlock (BBLOCK s.sb 0) (setBit (s.disk (BBLOCK s.sb 0)) b))).Ends
        (fun e => e = .tooBigATransaction ∧ s.logLimit ≤ s.lh.length)
        (fun _ t => t = { s with disk := markUsed s.sb s.disk b, lh := addLog s.lh s.sb.bmapstart })
        := by
      apply log_write_ends (s := s.setBlock _ _) hout
      · intro hfull
        exact ⟨rfl, hfull⟩
      · unfold State.setBlock markUsed
        rw [hmark, bblock_of_lt hgeo h0, bblock_of_lt hgeo hb]
    show (Out.andThen _ _).Ends _ _
    cases hw : log_write (BBLOCK s.sb 0)
        (s.setBlock (BBLOCK s.sb 0) (setBit (s.disk (BBLOCK s.sb 0)) b)) with
    | done u t =>
      rw [hw] at hlog
      exact .inr ⟨b, hb, rfl, by simpa using hfree, hlog⟩
    | wait =>
      rw [hw] at hlog
      exact hlog
    | stop e =>
      rw [hw] at hlog
      exact hlog

/-- `balloc` takes a block that is free, zeroes it and logs two blocks. -/
lemma balloc_ends (hgeo : Geometry s.sb) (hout : 1 ≤ s.outstanding) :
    Ends (fun e => e = .ballocOutOfBlocks ∧ freeCount s.sb s.disk = 0 ∨
        e = .tooBigATransaction ∧ s.logLimit ≤ s.lh.length + 1)
      balloc (fun b t => b < s.sb.size ∧ bit s.sb s.disk b = false ∧ t = s.balloced b) s := by
  have hsize := hgeo.size
  have hdata := hgeo.data
  have hmap := hgeo.bmapstart
  have hF : FSSIZE = 2000 := rfl
  have hP : BPB = 4096 := rfl
  have hone : (s.sb.size + BPB - 1) / BPB = 1 := by
    rw [hP]
    omega
  unfold balloc get
  rw [ends_bind, ends_act]
  show Ends _ (ballocLoop ((s.sb.size + BPB - 1) / BPB) 0) _ s
  rw [hone]
  unfold ballocLoop
  refine Ends.seq ((ballocScan_ends hgeo hout).mono ?_ fun _ _ hq => hq) ?_
  · rintro e ⟨rfl, hfull⟩
    exact .inr ⟨rfl, by omega⟩
  rintro r t (⟨rfl, rfl, hnone⟩ | ⟨b, hb, rfl, hfree, rfl⟩)
  · exact .inl ⟨rfl, hnone⟩
  · have hz := logBlock_ends (s := { s with
      disk := markUsed s.sb s.disk b, lh := addLog s.lh s.sb.bmapstart }) (b := 0 + b)
      (g := fun _ => zeroBlock)
      (E := fun e => e = .ballocOutOfBlocks ∧ freeCount s.sb s.disk = 0 ∨
        e = .tooBigATransaction ∧ s.logLimit ≤ s.lh.length + 1) hout (by
        intro hfull
        refine .inr ⟨rfl, Nat.le_trans hfull (length_addLog_le _ _)⟩)
    refine Ends.seq hz ?_
    rintro _ t rfl
    rw [ends_pure, Nat.zero_add]
    exact ⟨hb, hfree, rfl⟩

end

/-! ## A file that grows -/

/-- The block that slot `u` of the file in cache entry `ip` refers to. -/
def State.slot (s : State) (ip u : ℕ) : ℕ := ref s.disk (s.icache ip).din u

/-- The slots of `S` that have no block. -/
def missing (s : State) (ip : ℕ) (S : Finset ℕ) : Finset ℕ := S.filter fun u => s.slot ip u = 0

/-- Cache entry `ip` has an allocated inode. With it in the place of its number, the inodes `X` and
the disk hold the files `A`. -/
structure Holds (s : State) (ip : ℕ) (X : ℕ → Dinode) (A : Nodes) : Prop where
  image : Image s.sb s.disk (Function.update X (s.icache ip).inum (s.icache ip).din) A
  inum : (s.icache ip).inum < s.sb.ninodes
  type : (s.icache ip).din.type ≠ 0
  nodup : s.lh.Nodup

/-- From `s` to `t`, the file in cache entry `ip` has got blocks for the slots `S`. -/
structure Filled (s t : State) (ip : ℕ) (S : Finset ℕ) : Prop where
  sb : t.sb = s.sb
  inum : (t.icache ip).inum = (s.icache ip).inum
  keep : ∀ u, s.slot ip u ≠ 0 → t.slot ip u = s.slot ip u
  slots : ∀ u, t.slot ip u ≠ 0 ↔ s.slot ip u ≠ 0 ∨ u ∈ S
  free : freeCount t.sb t.disk + (missing s ip S).card = freeCount s.sb s.disk

/-- The same, where nothing else has changed, and the blocks `L` have been logged. -/
structure Grown (s t : State) (ip : ℕ) (S L : Finset ℕ) : Prop extends Filled s t ip S where
  frame : t = { s with
    disk := t.disk
    lh := t.lh
    icache := Function.update s.icache ip { s.icache ip with din := { (s.icache ip).din with
      addrs := (t.icache ip).din.addrs, size := (t.icache ip).din.size } } }
  low : ∀ b < s.sb.bmapstart, t.disk b = s.disk b
  log : ∀ b, b ∈ t.lh ↔ b ∈ s.lh ∨ b ∈ L

section
variable {s t u : State} {ip : ℕ} {S S' L L' : Finset ℕ} {X : ℕ → Dinode} {A : Nodes}

/-- The blocks of a file that are still to be allocated. -/
lemma mem_missing {v : ℕ} : v ∈ missing s ip S ↔ v ∈ S ∧ s.slot ip v = 0 := Finset.mem_filter

/-- A larger part of a file misses more blocks. -/
lemma missing_mono (h : S ⊆ S') : (missing s ip S).card ≤ (missing s ip S').card :=
  Finset.card_le_card (Finset.filter_subset_filter _ h)

/-- What is missing of two sets of slots is missing of the first one, or of the second one when the
first one has been filled. -/
theorem Filled.missing_union (h : Filled s t ip S) : (missing s ip (S ∪ S')).card
    = (missing s ip S).card + (missing t ip S').card := by
  rw [← Finset.card_union_of_disjoint]
  · congr 1
    ext v
    have hv := h.slots v
    simp only [Finset.mem_union, mem_missing]
    constructor
    · rintro ⟨hS | hS', h0⟩
      · exact .inl ⟨hS, h0⟩
      · by_cases hS : v ∈ S
        · exact .inl ⟨hS, h0⟩
        · refine .inr ⟨hS', ?_⟩
          by_contra hne
          exact (hv.mp hne).elim (fun hs => hs h0) hS
    · rintro (⟨hS, h0⟩ | ⟨hS', h0⟩)
      · exact ⟨.inl hS, h0⟩
      · refine ⟨.inr hS', ?_⟩
        by_contra hne
        exact hv.mpr (.inl hne) h0
  · rw [Finset.disjoint_left]
    intro v hs ht
    rw [mem_missing] at hs ht
    exact (h.slots v).mpr (.inr hs.1) ht.2

/-- Two parts of a file are filled one after the other. -/
lemma Filled.trans (h : Filled s t ip S) (h' : Filled t u ip S') : Filled s u ip (S ∪ S') := by
  refine ⟨h'.sb.trans h.sb, h'.inum.trans h.inum, fun v hv => ?_, fun v => ?_, ?_⟩
  · have hs := h.keep v hv
    rw [h'.keep v (by rwa [hs]), hs]
  · rw [h'.slots, h.slots, Finset.mem_union, or_assoc]
  · have h1 := h.free
    have h2 := h'.free
    rw [h.missing_union]
    omega

/-- Where all blocks are there already, nothing is filled. -/
lemma Filled.refl (h : ∀ v ∈ S, s.slot ip v ≠ 0) : Filled s s ip S := by
  refine ⟨rfl, rfl, fun _ _ => rfl, fun v => ⟨.inl, ?_⟩, ?_⟩
  · rintro (hv | hv)
    · exact hv
    · exact h v hv
  · have hnone : missing s ip S = ∅ := by
      rw [Finset.eq_empty_iff_forall_notMem]
      intro v hv
      rw [mem_missing] at hv
      exact h v hv.1 hv.2
    rw [hnone, Finset.card_empty, Nat.add_zero]

/-- What two calls of `bmap` log is what the one or the other logs. -/
lemma Grown.trans (h : Grown s t ip S L) (h' : Grown t u ip S' L') :
    Grown s u ip (S ∪ S') (L ∪ L') := by
  refine ⟨h.toFilled.trans h'.toFilled, ?_, fun b hb => ?_, fun b => ?_⟩
  · rw [h'.frame, h.frame]
    simp only [Function.update_self, Function.update_idem]
  · rw [h'.low b (by rw [h.sb]; exact hb), h.low b hb]
  · rw [h'.log, h.log, Finset.mem_union, or_assoc]

/-- A `bmap` of a block that is there logs nothing. -/
lemma Grown.refl (h : ∀ v ∈ S, s.slot ip v ≠ 0) : Grown s s ip S ∅ := by
  refine ⟨Filled.refl h, ?_, fun _ _ => rfl, fun b => ?_⟩
  · simp only [Function.update_eq_self]
  · simp

/-- The log is longer by the blocks that were logged, at most. -/
lemma Grown.length_le (h : Grown s t ip S L) (hs : s.lh.Nodup) (ht : t.lh.Nodup) :
    t.lh.length ≤ s.lh.length + L.card := by
  rw [← List.toFinset_card_of_nodup hs, ← List.toFinset_card_of_nodup ht]
  have heq : t.lh.toFinset = s.lh.toFinset ∪ L := by
    ext b
    rw [List.mem_toFinset, h.log, Finset.mem_union, List.mem_toFinset]
  rw [heq]
  exact Finset.card_union_le _ _

end

/-! ### One more block -/

section
variable {s t : State} {ip u b : ℕ} {X : ℕ → Dinode} {A : Nodes}

/-- The entry of the cache that is held is one of a live inode. -/
lemma Holds.live (h : Holds s ip X A) :
    Live s.sb (Function.update X (s.icache ip).inum (s.icache ip).din) (s.icache ip).inum := by
  refine ⟨h.inum, ?_⟩
  rw [Function.update_self]
  exact h.type

/-- A block that a file has is a data block. -/
lemma Holds.slot_range (h : Holds s ip X A) (hne : s.slot ip u ≠ 0) :
    nmeta s.sb ≤ s.slot ip u ∧ s.slot ip u < s.sb.size := by
  have hr := h.image.ref_range h.live (t := u)
  rw [Function.update_self] at hr
  exact hr hne

/-- Different slots refer to different blocks. -/
lemma Holds.slot_inj (h : Holds s ip X A) {v : ℕ} (hne : s.slot ip u ≠ 0)
    (heq : s.slot ip u = s.slot ip v) : u = v := by
  have hi := h.image.owned.inj _ _ u v h.live h.live
  simp only [Function.update_self] at hi
  exact (hi hne heq).2

/-- Slot `MAXFILE` is the indirect block. -/
lemma slot_maxfile : s.slot ip MAXFILE = (s.icache ip).din.addr NDIRECT := ref_maxfile _ _

/-- An allocation takes one block from the free ones. -/
lemma freeCount_alloc {sb : Superblock} {d d' : Disk} (hb : b < sb.size)
    (hfree : bit sb d b = false)
    (hbit : ∀ c < sb.size, bit sb d' c = (bit sb d c || decide (c = b))) :
    freeCount sb d' + 1 = freeCount sb d := by
  have hmem : b ∈ (Finset.range sb.size).filter fun c => bit sb d c = false :=
    Finset.mem_filter.mpr ⟨Finset.mem_range.mpr hb, hfree⟩
  have herase : ((Finset.range sb.size).filter fun c => bit sb d' c = false)
      = ((Finset.range sb.size).filter fun c => bit sb d c = false).erase b := by
    ext c
    rw [Finset.mem_erase, Finset.mem_filter, Finset.mem_filter, Finset.mem_range]
    constructor
    · rintro ⟨hc, h0⟩
      rw [hbit c hc, Bool.or_eq_false_iff, decide_eq_false_iff_not] at h0
      exact ⟨h0.2, hc, h0.1⟩
    · rintro ⟨hcb, hc, h0⟩
      refine ⟨hc, ?_⟩
      rw [hbit c hc, h0, decide_eq_false hcb]
      rfl
  unfold freeCount
  rw [herase, Finset.card_erase_add_one hmem]

/-- Slot `u` gets the free block `b`. -/
lemma Holds.alloc (h : Holds s ip X A) (hb : b < s.sb.size) (hfree : bit s.sb s.disk b = false)
    (h0 : s.slot ip u = 0) {x : Dinode} (hx : x = { (s.icache ip).din with addrs := x.addrs })
    (hfits : x.Fits) {L : Finset ℕ}
    (hframe : t = { s with
      disk := t.disk
      lh := t.lh
      icache := Function.update s.icache ip { s.icache ip with din := x } })
    (href : ∀ v, t.slot ip v = if v = u then b else s.slot ip v)
    (hdisk : ∀ c, c ≠ b → (s.slot ip MAXFILE = 0 ∨ c ≠ s.slot ip MAXFILE) → c ≠ s.sb.bmapstart →
      t.disk c = s.disk c)
    (hz : ∀ k, t.disk b k = 0)
    (hbit : ∀ c < s.sb.size, bit s.sb t.disk c = (bit s.sb s.disk c || decide (c = b)))
    (hlog : ∀ c, c ∈ t.lh ↔ c ∈ s.lh ∨ c ∈ L) (hnodup : t.lh.Nodup) :
    Holds t ip X A ∧ Grown s t ip {u} L := by
  have hgeo := h.image.geometry
  have hmap := hgeo.bmapstart
  have hpos := h.image.nmeta_pos
  have hlo := (h.image.free_block hb hfree).1
  have hsb : t.sb = s.sb := by rw [hframe]
  have hip : t.icache ip = { s.icache ip with din := x } := by
    rw [hframe]
    exact Function.update_self _ _ _
  have hinum : (t.icache ip).inum = (s.icache ip).inum := by rw [hip]
  have hdin : (t.icache ip).din = x := by rw [hip]
  have hsuper : 1 < s.sb.bmapstart := by
    have h1 := hgeo.super
    have h2 := hgeo.inodes ROOTINO hgeo.root
    have h3 : s.sb.inodestart ≤ IBLOCK s.sb ROOTINO := Nat.le_add_left _ _
    omega
  -- the super block and the inodes lie in front of the bitmap
  have hlow : ∀ c < s.sb.bmapstart, t.disk c = s.disk c := by
    intro c hc
    refine hdisk c (by omega) ?_ (by omega)
    by_cases hm : s.slot ip MAXFILE = 0
    · exact .inl hm
    · have := (h.slot_range hm).1
      exact .inr (by omega)
  have himage : Image s.sb t.disk (Function.update
      (Function.update X (s.icache ip).inum (s.icache ip).din) (s.icache ip).inum x) A := by
    refine h.image.alloc h.live (t := u) hb hfree ?_ ?_ hfits ?_ ?_ hz (hlow 1 hsuper) hbit
    · rw [Function.update_self]
      exact h0
    · rw [Function.update_self]
      exact hx
    · intro v
      rw [Function.update_self, ← hdin]
      exact href v
    · intro c hc hcb hm
      rw [Function.update_self, ← slot_maxfile] at hm
      exact hdisk c hcb hm (by omega)
  rw [Function.update_idem] at himage
  constructor
  · refine ⟨?_, by rw [hinum, hsb]; exact h.inum, ?_, hnodup⟩
    · rw [hsb, hinum, hdin]
      exact himage
    · rw [hdin, hx]
      exact h.type
  · refine ⟨⟨hsb, hinum, fun v hv => ?_, fun v => ?_, ?_⟩, ?_, hlow, hlog⟩
    · rw [href, if_neg]
      rintro rfl
      exact hv h0
    · rw [href, Finset.mem_singleton]
      by_cases hv : v = u
      · rw [if_pos hv]
        exact ⟨fun _ => .inr hv, fun _ => by omega⟩
      · rw [if_neg hv]
        exact ⟨.inl, fun hor => hor.resolve_right hv⟩
    -- one block was missing
    · have hcard : missing s ip {u} = {u} := by
        ext v
        rw [mem_missing, Finset.mem_singleton]
        constructor
        · exact fun hv => hv.1
        · rintro rfl
          exact ⟨rfl, h0⟩
      rw [hcard, Finset.card_singleton, hsb]
      exact freeCount_alloc hb hfree hbit
    · rw [hdin]
      conv_lhs => rw [hframe]
      have hsize : x.size = (s.icache ip).din.size := by rw [hx]
      rw [hsize, ← hx]

end

/-! ### `bmap` -/

section
variable {s t : State} {ip u b : ℕ} {X : ℕ → Dinode} {A : Nodes}

/-- `balloc` changes two blocks, its own and that of the free map. -/
lemma disk_balloced (h : Geometry s.sb) (hb : b < s.sb.size) {c : ℕ} (hcb : c ≠ b)
    (hc : c ≠ s.sb.bmapstart) : (s.balloced b).disk c = s.disk c := by
  show Function.update (markUsed s.sb s.disk b) b zeroBlock c = s.disk c
  rw [Function.update_of_ne hcb, markUsed, bblock_of_lt h hb, Function.update_of_ne hc]

/-- The block that `balloc` returns is zeroed. -/
lemma disk_balloced_self : (s.balloced b).disk b = zeroBlock := Function.update_self _ _ _

/-- In the free map, one bit is set. -/
lemma bit_balloced (h : Geometry s.sb) (hlo : nmeta s.sb ≤ b) {c : ℕ} (hc : c < s.sb.size) :
    bit s.sb (s.balloced b).disk c = (bit s.sb s.disk c || decide (c = b)) := by
  have hmap := h.bitmap c hc
  rw [← bit_markUsed]
  apply bit_congr
  exact Function.update_of_ne (by omega) _ _

/-- `balloc` logs its block and that of the free map. -/
lemma mem_lh_balloced {c : ℕ} :
    c ∈ (s.balloced b).lh ↔ c ∈ s.lh ∨ c ∈ ({s.sb.bmapstart, b} : Finset ℕ) := by
  show c ∈ addLog (addLog s.lh s.sb.bmapstart) b ↔ _
  rw [mem_addLog, mem_addLog, Finset.mem_insert, Finset.mem_singleton, or_assoc]

/-- The indirect block of a file is neither free nor the free map. -/
lemma Holds.indirect_ne (h : Holds s ip X A) (hb : b < s.sb.size)
    (hfree : bit s.sb s.disk b = false) (h0 : s.slot ip MAXFILE ≠ 0) :
    s.slot ip MAXFILE ≠ b ∧ s.slot ip MAXFILE ≠ s.sb.bmapstart := by
  have hfresh := (h.image.free_block hb hfree).2 _ MAXFILE h.live
  rw [Function.update_self] at hfresh
  have hrange := (h.slot_range h0).1
  have hmap := h.image.geometry.bmapstart
  exact ⟨hfresh, by omega⟩

/-- An allocation alone changes no reference. -/
lemma Holds.ref_balloced (h : Holds s ip X A) (hb : b < s.sb.size)
    (hfree : bit s.sb s.disk b = false) (v : ℕ) :
    ref (s.balloced b).disk (s.icache ip).din v = s.slot ip v := by
  apply ref_congr
  rw [← slot_maxfile]
  intro h0
  obtain ⟨hne, hmap⟩ := h.indirect_ne hb hfree h0
  exact disk_balloced h.image.geometry hb hne hmap

/-- The reasons for which giving blocks to the slots `S` can fail, when `n` blocks have been logged
before the last one. -/
def Fails (s : State) (ip : ℕ) (S : Finset ℕ) (n : ℕ) (e : Panic) : Prop :=
  e = .ballocOutOfBlocks ∧ freeCount s.sb s.disk < (missing s ip S).card ∨
    e = .tooBigATransaction ∧ s.logLimit ≤ s.lh.length + n

lemma missing_singleton (h0 : s.slot ip u = 0) : (missing s ip {u}).card = 1 := by
  have hcard : missing s ip {u} = {u} := by
    ext v
    rw [mem_missing, Finset.mem_singleton]
    constructor
    · exact fun hv => hv.1
    · rintro rfl
      exact ⟨rfl, h0⟩
  rw [hcard, Finset.card_singleton]

/-- `balloc` for an empty slot. -/
lemma Holds.balloc_ends (h : Holds s ip X A) (hout : 1 ≤ s.outstanding) (h0 : s.slot ip u = 0) :
    Ends (Fails s ip {u} 2) balloc
      (fun b t => b < s.sb.size ∧ bit s.sb s.disk b = false ∧ t = s.balloced b) s := by
  refine (Kernel.balloc_ends h.image.geometry hout).mono ?_ fun _ _ hq => hq
  rintro e (⟨rfl, hnone⟩ | ⟨rfl, hfull⟩)
  · refine .inl ⟨rfl, ?_⟩
    rw [missing_singleton h0]
    omega
  · exact .inr ⟨rfl, by omega⟩

/-- The slot that address `k` of an inode is. -/
def addrSlot (k : ℕ) : ℕ := if k = NDIRECT then MAXFILE else k

/-- The slots with an address of their own in the inode: the direct ones and the indirect block. -/
lemma slot_addrSlot {k : ℕ} (hk : k ≤ NDIRECT) :
    s.slot ip (addrSlot k) = (s.icache ip).din.addr k := by
  have hM : MAXFILE = 140 := rfl
  have hN : NDIRECT = 12 := rfl
  unfold addrSlot State.slot
  by_cases hind : k = NDIRECT
  · rw [if_pos hind, hind, ref_maxfile]
  · rw [if_neg hind, ref_of_lt (by omega), dataAddr, if_pos (by omega)]

/-- An address of an inode is set to a block that is zero, so one slot is different. -/
lemma ref_setAddr {d : Disk} {x : Dinode} {k v : ℕ} (hk : k ≤ NDIRECT)
    (h0 : x.addr k = 0) (hz : ∀ j, entry (d v) j = 0) (w : ℕ) :
    ref d (x.setAddr k v) w = if w = addrSlot k then v else ref d x w := by
  unfold addrSlot
  by_cases hind : k = NDIRECT
  · rw [if_pos hind, hind]
    exact ref_setAddr_indirect (by rw [← hind]; exact h0) hz
  · rw [if_neg hind]
    exact ref_setAddr_direct (by omega)

/-- The part of `bmap` for an address in the inode. -/
lemma bmapAddr_ends (h : Holds s ip X A) (hout : 1 ≤ s.outstanding) {k : ℕ} (hk : k ≤ NDIRECT) :
    Ends (Fails s ip {addrSlot k} 2) (bmapAddr ip k) (fun b t => b = t.slot ip (addrSlot k) ∧
      Holds t ip X A ∧ Grown s t ip {addrSlot k}
        (if s.slot ip (addrSlot k) = 0 then {s.sb.bmapstart, b} else ∅)) s := by
  have hgeo := h.image.geometry
  by_cases h0 : (s.icache ip).din.addr k = 0
  · have hslot : s.slot ip (addrSlot k) = 0 := by rw [slot_addrSlot hk, h0]
    unfold bmapAddr
    rw [ends_bind, ends_act]
    show Ends _ (if (s.icache ip).din.addr k = 0 then _ else _) _ s
    rw [if_pos h0]
    refine Ends.seq (h.balloc_ends hout hslot) ?_
    rintro b t ⟨hb, hfree, rfl⟩
    have hlo := (h.image.free_block hb hfree).1
    have hsize := hgeo.size
    have hF : FSSIZE = 2000 := rfl
    have hdin : (s.icache ip).din = Function.update X (s.icache ip).inum (s.icache ip).din
        (s.icache ip).inum := by rw [Function.update_self]
    have hfits : (s.icache ip).din.Fits := by
      rw [hdin]
      exact h.image.fits _ h.inum
    set t := (s.balloced b).setInode ip { s.icache ip with din := (s.icache ip).din.setAddr k b }
      with ht
    have hip : t.icache ip = { s.icache ip with din := (s.icache ip).din.setAddr k b } :=
      Function.update_self _ _ _
    have href : ∀ v, t.slot ip v = if v = addrSlot k then b else s.slot ip v := by
      intro v
      show ref (s.balloced b).disk (t.icache ip).din v = _
      rw [hip, ref_setAddr hk h0, h.ref_balloced hb hfree]
      intro j
      rw [disk_balloced_self, entry_zeroBlock]
    -- what `balloc` gave becomes the block of this slot
    have hnew := h.alloc (t := t) (u := addrSlot k) (x := (s.icache ip).din.setAddr k b)
      (L := {s.sb.bmapstart, b}) hb hfree hslot rfl (hfits.setAddr (by omega) k) rfl href
      (fun c hcb _ hc => disk_balloced hgeo hb hcb hc)
      (fun j => by show (s.balloced b).disk b j = 0; rw [disk_balloced_self]; rfl)
      (fun c hc => bit_balloced hgeo hlo hc)
      (fun c => mem_lh_balloced) (nodup_addLog (nodup_addLog h.nodup))
    show b = t.slot ip (addrSlot k) ∧ _
    rw [href, if_pos rfl, if_pos hslot]
    exact ⟨rfl, hnew⟩
  -- the slot has its block already
  · have hne : s.slot ip (addrSlot k) ≠ 0 := by rwa [slot_addrSlot hk]
    unfold Ends
    rw [exec_bmapAddr h0]
    show _ = _ ∧ _
    rw [slot_addrSlot hk, if_neg h0]
    refine ⟨rfl, h, Grown.refl fun v hv => ?_⟩
    rw [Finset.mem_singleton] at hv
    rwa [hv]

/-- The slots behind the indirect block are its entries. -/
lemma slot_entry {k : ℕ} (hk : k < NINDIRECT) (h0 : s.slot ip MAXFILE ≠ 0) :
    s.slot ip (NDIRECT + k) = entry (s.disk (s.slot ip MAXFILE)) k := by
  have hM : MAXFILE = 140 := rfl
  have hN : NDIRECT = 12 := rfl
  have hI : NINDIRECT = 128 := rfl
  rw [slot_maxfile] at h0 ⊢
  unfold State.slot
  rw [ref_of_lt (by omega), dataAddr, if_neg (by omega), if_pos ⟨by omega, h0⟩,
    Nat.add_sub_cancel_left]

/-- The part of `bmap` for an entry of the indirect block. -/
lemma bmapEntry_ends (h : Holds s ip X A) (hout : 1 ≤ s.outstanding) {k : ℕ}
    (hk : k < NINDIRECT) (hind : s.slot ip MAXFILE ≠ 0) :
    Ends (Fails s ip {NDIRECT + k} 2) (bmapEntry (s.slot ip MAXFILE) k)
      (fun b t => b = t.slot ip (NDIRECT + k) ∧ Holds t ip X A ∧ Grown s t ip {NDIRECT + k}
        (if s.slot ip (NDIRECT + k) = 0 then {s.sb.bmapstart, b, s.slot ip MAXFILE} else ∅)) s := by
  have hgeo := h.image.geometry
  have hM : MAXFILE = 140 := rfl
  have hN : NDIRECT = 12 := rfl
  have hI : NINDIRECT = 128 := rfl
  -- the entry is there, or `balloc` gives it a block
  by_cases h0 : entry (s.disk (s.slot ip MAXFILE)) k = 0
  · have hslot : s.slot ip (NDIRECT + k) = 0 := by rw [slot_entry hk hind, h0]
    unfold bmapEntry
    rw [ends_bind, ends_act]
    show Ends _ (if entry (s.disk (s.slot ip MAXFILE)) k = 0 then _ else _) _ s
    rw [if_pos h0]
    refine Ends.seq (h.balloc_ends hout hslot) ?_
    rintro b t ⟨hb, hfree, rfl⟩
    have hlo := (h.image.free_block hb hfree).1
    have hsize := hgeo.size
    have hmap := hgeo.bmapstart
    have hF : FSSIZE = 2000 := rfl
    -- the new block is neither the indirect block nor in the bitmap
    obtain ⟨hib, him⟩ := h.indirect_ne hb hfree hind
    have hrange := h.slot_range hind
    have hlen : (s.balloced b).lh.length ≤ s.lh.length + 2 := by
      have h1 := length_addLog_le (addLog s.lh s.sb.bmapstart) b
      have h2 := length_addLog_le s.lh s.sb.bmapstart
      show (addLog (addLog s.lh s.sb.bmapstart) b).length ≤ _
      omega
    refine Ends.seq (logBlock_ends (s := s.balloced b) hout fun hfull =>
      .inr ⟨rfl, Nat.le_trans hfull hlen⟩) ?_
    rintro _ t rfl
    set t := (s.balloced b).logged (s.slot ip MAXFILE)
      (setEntry ((s.balloced b).disk (s.slot ip MAXFILE)) k b) with ht
    have hx : (s.icache ip).din.addr NDIRECT ≠ 0 := by rwa [← slot_maxfile]
    have href : ∀ v, t.slot ip v = if v = NDIRECT + k then b else s.slot ip v := by
      intro v
      rw [← h.ref_balloced hb hfree v]
      show ref (Function.update (s.balloced b).disk (s.slot ip MAXFILE) _) (s.icache ip).din v = _
      rw [slot_maxfile]
      exact ref_setEntry hk (by omega) hx
    have hdisk : ∀ c, c ≠ s.slot ip MAXFILE → t.disk c = (s.balloced b).disk c :=
      fun c hc => Function.update_of_ne hc _ _
    have hdin : (s.icache ip).din = Function.update X (s.icache ip).inum (s.icache ip).din
        (s.icache ip).inum := by rw [Function.update_self]
    have hfits : (s.icache ip).din.Fits := by
      rw [hdin]
      exact h.image.fits _ h.inum
    -- one block more, and the indirect block logged with it
    have hnew := h.alloc (t := t) (u := NDIRECT + k) (x := (s.icache ip).din)
      (L := {s.sb.bmapstart, b, s.slot ip MAXFILE}) hb hfree hslot rfl hfits
      (by simp only [Function.update_eq_self]; rfl) href
      (fun c hcb hci hc => by
        rw [hdisk c (hci.resolve_left hind), disk_balloced hgeo hb hcb hc])
      (fun j => by rw [hdisk b hib.symm, disk_balloced_self]; rfl)
      (fun c hc => by
        rw [← bit_balloced hgeo hlo hc]
        have := hgeo.bitmap c hc
        exact bit_congr (hdisk _ (by omega)))
      (fun c => by
        show c ∈ addLog (s.balloced b).lh (s.slot ip MAXFILE) ↔ _
        rw [mem_addLog, mem_lh_balloced]
        simp only [Finset.mem_insert, Finset.mem_singleton, or_assoc])
      (nodup_addLog (nodup_addLog (nodup_addLog h.nodup)))
    show b = t.slot ip (NDIRECT + k) ∧ _
    rw [href, if_pos rfl, if_pos hslot]
    exact ⟨rfl, hnew⟩
  · have hne : s.slot ip (NDIRECT + k) ≠ 0 := by rwa [slot_entry hk hind]
    unfold Ends
    rw [exec_bmapEntry h0]
    show _ = _ ∧ _
    rw [slot_entry hk hind, if_neg h0]
    refine ⟨rfl, h, Grown.refl fun v hv => ?_⟩
    rw [Finset.mem_singleton] at hv
    rwa [hv]

end

section
variable {s t : State} {ip bn : ℕ} {X : ℕ → Dinode} {A : Nodes}

/-- The slots that `bmap` of block `bn` looks at. -/
def slotsOf (bn : ℕ) : Finset ℕ := if bn < NDIRECT then {bn} else {MAXFILE, bn}

/-- The blocks that `bmap` of block `bn` logs on the way from `s` to `t`. -/
def bmapLog (s t : State) (ip bn : ℕ) : Finset ℕ :=
  if s.slot ip bn = 0 then
    if bn < NDIRECT then {s.sb.bmapstart, t.slot ip bn}
    else {s.sb.bmapstart, t.slot ip bn, t.slot ip MAXFILE}
  else ∅

/-- A block that is reached through the indirect block has one. -/
lemma slot_indirect_of_ne (hbn : NDIRECT ≤ bn) (hlt : bn < MAXFILE) (hne : s.slot ip bn ≠ 0) :
    s.slot ip MAXFILE ≠ 0 := by
  intro h0
  rw [slot_maxfile] at h0
  apply hne
  unfold State.slot
  rw [ref_of_lt hlt, dataAddr, if_neg (by omega), if_neg (fun h => h.2 h0)]

/-- A larger part of a file has more reasons to fail. -/
lemma Fails.mono {S S' : Finset ℕ} {n n' : ℕ} {e : Panic} (h : Fails s ip S n e) (hS : S ⊆ S')
    (hn : n ≤ n') : Fails s ip S' n' e := by
  rcases h with ⟨he, hfree⟩ | ⟨he, hfull⟩
  · exact .inl ⟨he, Nat.lt_of_lt_of_le hfree (missing_mono hS)⟩
  · exact .inr ⟨he, by omega⟩

lemma Grown.logLimit {S L : Finset ℕ} (h : Grown s t ip S L) : t.logLimit = s.logLimit := by
  unfold State.logLimit
  rw [h.sb]

/-- A failure after some slots have been filled. -/
lemma Fails.after {S S' L : Finset ℕ} {n m : ℕ} {e : Panic} (h : Fails t ip S' n e)
    (hg : Grown s t ip S L) (hlen : t.lh.length + n ≤ s.lh.length + m) :
    Fails s ip (S ∪ S') m e := by
  rcases h with ⟨he, hfree⟩ | ⟨he, hfull⟩
  · refine .inl ⟨he, ?_⟩
    have := hg.free
    rw [hg.missing_union]
    omega
  · rw [hg.logLimit] at hfull
    exact .inr ⟨he, by omega⟩

lemma Grown.outstanding {S L : Finset ℕ} (h : Grown s t ip S L) :
    t.outstanding = s.outstanding := by rw [h.frame]

/-- **`bmap`** returns the block of a file, and allocates it, and the indirect block, if it is not
there. -/
lemma bmap_ends (h : Holds s ip X A) (hout : 1 ≤ s.outstanding) (hbn : bn < MAXFILE) :
    Ends (Fails s ip (slotsOf bn) 4) (bmap ip bn) (fun b t => b = t.slot ip bn ∧
      Holds t ip X A ∧ Grown s t ip (slotsOf bn) (bmapLog s t ip bn)) s := by
  have hM : MAXFILE = NDIRECT + NINDIRECT := rfl
  have hN : NDIRECT = 12 := rfl
  have hI : NINDIRECT = 128 := rfl
  unfold bmap slotsOf bmapLog
  -- one of the direct blocks, or one of the indirect block's entries
  by_cases hd : bn < NDIRECT
  · have hslot : addrSlot bn = bn := if_neg (by omega)
    have hb := bmapAddr_ends h hout (k := bn) (by omega)
    simp only [hslot] at hb
    simp only [if_pos hd]
    refine hb.mono (fun e he => he.mono (Finset.Subset.refl _) (by omega)) ?_
    rintro b t ⟨rfl, ht, hg⟩
    exact ⟨rfl, ht, hg⟩
  · have hslot : addrSlot NDIRECT = MAXFILE := if_pos rfl
    have hk : NDIRECT + (bn - NDIRECT) = bn := by omega
    have hb := bmapAddr_ends h hout (k := NDIRECT) (by omega)
    simp only [hslot] at hb
    simp only [if_neg hd, if_pos (show bn - NDIRECT < NINDIRECT by omega)]
    refine Ends.seq (hb.mono (fun e he => he.mono (by simp) (by omega)) fun _ _ hq => hq) ?_
    rintro b t ⟨rfl, ht, hg⟩
    have hne : t.slot ip MAXFILE ≠ 0 := (hg.slots MAXFILE).mpr (.inr (Finset.mem_singleton_self _))
    have hout' : 1 ≤ t.outstanding := by rwa [hg.outstanding]
    have hlen : t.lh.length ≤ s.lh.length + 2 := by
      refine Nat.le_trans (hg.length_le h.nodup ht.nodup) (Nat.add_le_add_left ?_ _)
      split
      · exact Finset.card_le_two
      · simp
    have he := bmapEntry_ends ht hout' (k := bn - NDIRECT) (by omega) hne
    rw [hk] at he
    refine he.mono (fun e hfail => ?_) ?_
    · have := hfail.after hg (m := 4) (by omega)
      exact this
    · rintro c w ⟨rfl, hw, hg'⟩
      have hsum := hg.trans hg'
      refine ⟨rfl, hw, ?_⟩
      have hkeep := hg'.keep MAXFILE hne
      have hbnMAX : bn ≠ MAXFILE := by omega
      -- the first half does not allocate the block itself
      have hsame : t.slot ip bn = 0 ↔ s.slot ip bn = 0 := by
        have hiff := hg.slots bn
        rw [Finset.mem_singleton, or_iff_left hbnMAX] at hiff
        exact not_iff_not.mp hiff
      -- the second half logs what the first half did
      have hlog : (if s.slot ip MAXFILE = 0 then ({s.sb.bmapstart, t.slot ip MAXFILE} : Finset ℕ)
          else ∅) ∪ (if t.slot ip bn = 0 then {t.sb.bmapstart, w.slot ip bn, t.slot ip MAXFILE}
          else ∅) = if s.slot ip bn = 0 then {s.sb.bmapstart, w.slot ip bn, w.slot ip MAXFILE}
          else ∅ := by
        rw [hkeep, hg.sb]
        by_cases h0 : s.slot ip bn = 0
        · rw [if_pos h0, if_pos (hsame.mpr h0)]
          apply Finset.union_eq_right.mpr
          intro c hc
          split at hc
          · rw [Finset.mem_insert, Finset.mem_singleton] at hc
            rw [Finset.mem_insert, Finset.mem_insert, Finset.mem_singleton]
            exact hc.imp_right .inr
          · exact absurd hc (Finset.notMem_empty c)
        · have hind : s.slot ip MAXFILE ≠ 0 := slot_indirect_of_ne (by omega) hbn h0
          rw [if_neg h0, if_neg hind, if_neg (fun h => h0 (hsame.mp h)), Finset.union_empty]
      rw [hlog] at hsum
      exact hsum

end

end Kernel
end OhMyXv6
