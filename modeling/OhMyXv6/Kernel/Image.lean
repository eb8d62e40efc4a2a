import OhMyXv6.Fs.Bitmap
import OhMyXv6.Kernel.Node

/-!
# Disks and the files on them

`Image sb d X A` says that the disk `d`, together with the inodes `X`, holds the files `A`: no
block is referred to twice, the bitmap has exactly the blocks in use, and no file has a hole.
The inodes are a parameter because the in-memory copies of some may be ahead of the disk.

For each kind of write there is one lemma that says what becomes of the files.
-/

namespace OhMyXv6
namespace Kernel

open Bytes

/-- Number of blocks before the data blocks. -/
def nmeta (sb : Superblock) : ℕ := sb.size - sb.nblocks

/-- The regions of the disk follow each other as `fs.h` says, and their sizes are within the
limits of `param.h`. -/
structure Geometry (sb : Superblock) : Prop where
  super : 1 < sb.inodestart
  inodes : ∀ i < sb.ninodes, IBLOCK sb i < sb.bmapstart
  bmapstart : sb.bmapstart < nmeta sb
  bitmap : ∀ b < sb.size, BBLOCK sb b < nmeta sb
  data : nmeta sb ≤ sb.size
  size : sb.size ≤ FSSIZE
  ninodes : sb.ninodes ≤ 2 ^ 16
  root : ROOTINO < sb.ninodes

/-- An allocated inode. -/
def Live (sb : Superblock) (X : ℕ → Dinode) (i : ℕ) : Prop := i < sb.ninodes ∧ (X i).type ≠ 0

/-- The disk holds the files `A` with the inodes `X`, and each block belongs to one of them at most.
-/
structure Image (sb : Superblock) (d : Disk) (X : ℕ → Dinode) (A : Nodes) : Prop where
  geometry : Geometry sb
  super : Superblock.read (d 1) = sb
  node : ∀ i, A i = if i < sb.ninodes then nodeOf d (X i) else .free
  owned : Owned (fun i t => ref d (X i) t) (Live sb X) (nmeta sb) sb.size
  bitmap : ∀ b < sb.size, bit sb d b = true ↔
    b < nmeta sb ∨ ∃ i t, Live sb X i ∧ ref d (X i) t = b
  /-- No file has an unallocated block below its size. -/
  dense : ∀ i bn, Live sb X i → bn * BSIZE < (X i).size → dataAddr d (X i) bn ≠ 0
  short : ∀ i, Live sb X i → (X i).size ≤ MAXFILE * BSIZE
  fits : ∀ i < sb.ninodes, (X i).Fits

section
variable {d : Disk} {x : Dinode}

/-- The file of an inode that is in use. -/
lemma nodeOf_live (h : x.type ≠ 0) :
    nodeOf d x = ⟨x.type, x.major, x.minor, x.nlink, x.size, fileByte d x⟩ := if_neg h

/-- The file of an inode that is not. -/
lemma nodeOf_free (h : x.type = 0) : nodeOf d x = .free := if_pos h

/-- A file has the type of its inode. -/
lemma nodeOf_type : (nodeOf d x).type = x.type := by
  by_cases h : x.type = 0
  · rw [nodeOf_free h, h]
    rfl
  · rw [nodeOf_live h]

end

namespace Image

variable {sb : Superblock} {d d' : Disk} {X : ℕ → Dinode} {A : Nodes} {i : ℕ}

/-- The superblock is one of the blocks before the data. -/
lemma nmeta_pos (h : Image sb d X A) : 1 < nmeta sb := by
  have := h.geometry.super
  have := h.geometry.inodes ROOTINO h.geometry.root
  have := h.geometry.bmapstart
  have hI : sb.inodestart ≤ IBLOCK sb ROOTINO := Nat.le_add_left _ _
  omega

/-- The file of an inode that there is. -/
lemma node_of_lt (h : Image sb d X A) (hi : i < sb.ninodes) : A i = nodeOf d (X i) := by
  rw [h.node i, if_pos hi]

/-- The file of an inode that is in use. -/
lemma node_live (h : Image sb d X A) (hi : Live sb X i) : A i =
    ⟨(X i).type, (X i).major, (X i).minor, (X i).nlink, (X i).size, fileByte d (X i)⟩ := by
  rw [h.node_of_lt hi.1, nodeOf_live hi.2]

/-- A file has the type of its inode. -/
lemma type (h : Image sb d X A) (hi : i < sb.ninodes) : (A i).type = (X i).type := by
  rw [h.node_of_lt hi, nodeOf_type]

/-- An inode is in use if its file has a type. -/
lemma live_iff (h : Image sb d X A) : Live sb X i ↔ (A i).type ≠ 0 := by
  constructor
  · intro hi
    rw [h.type hi.1]
    exact hi.2
  · intro hne
    by_cases hi : i < sb.ninodes
    · exact ⟨hi, by rwa [h.type hi] at hne⟩
    · rw [h.node i, if_neg hi] at hne
      exact absurd rfl hne

/-- The blocks of the files, as the general facts about blocks want it. -/
lemma stores (h : Image sb d X A) :
    Stores d (Live sb X) X (fun i => (A i).data) (nmeta sb) sb.size := by
  refine ⟨h.owned, fun i off hi => ?_⟩
  rw [h.node_live hi]

/-- Blocks that a file refers to are data blocks. -/
lemma ref_range (h : Image sb d X A) (hi : Live sb X i) {t : ℕ} (h0 : ref d (X i) t ≠ 0) :
    nmeta sb ≤ ref d (X i) t ∧ ref d (X i) t < sb.size := h.owned.range i t hi h0

/-- A free block is a data block that no file refers to. -/
lemma free_block (h : Image sb d X A) {b : ℕ} (hb : b < sb.size) (hbit : bit sb d b = false) :
    nmeta sb ≤ b ∧ ∀ j t, Live sb X j → ref d (X j) t ≠ b := by
  have hnot : ¬ (b < nmeta sb ∨ ∃ i t, Live sb X i ∧ ref d (X i) t = b) := by
    rw [← h.bitmap b hb, hbit]
    exact Bool.false_ne_true
  constructor
  · by_contra hlt
    exact hnot (.inl (by omega))
  · intro j t hj heq
    exact hnot (.inr ⟨j, t, hj, heq⟩)

/-- Numbers from `ninodes` on are not those of inodes. -/
lemma congr {Y : ℕ → Dinode} (h : Image sb d X A) (hXY : ∀ i < sb.ninodes, Y i = X i) :
    Image sb d Y A := by
  have hlive : ∀ i, Live sb Y i → Y i = X i ∧ Live sb X i := by
    intro i hi
    have heq := hXY i hi.1
    exact ⟨heq, hi.1, heq ▸ hi.2⟩
  refine ⟨h.geometry, h.super, fun i => ?_, ⟨fun i t hi hne => ?_, fun i j t u hi hj hne heq => ?_⟩,
    fun b hb => ?_, fun i bn hi hlt => ?_, fun i hi => ?_, fun i hi => ?_⟩
  · rw [h.node i]
    by_cases hi : i < sb.ninodes
    · rw [if_pos hi, if_pos hi, hXY i hi]
    · rw [if_neg hi, if_neg hi]
  · obtain ⟨heq, hi⟩ := hlive i hi
    simp only [heq] at hne ⊢
    exact h.owned.range i t hi hne
  · obtain ⟨heqi, hi⟩ := hlive i hi
    obtain ⟨heqj, hj⟩ := hlive j hj
    simp only [heqi, heqj] at hne heq
    exact h.owned.inj i j t u hi hj hne heq
  · rw [h.bitmap b hb]
    apply or_congr_right
    constructor
    · rintro ⟨i, t, hi, heq⟩
      have hiY := hXY i hi.1
      exact ⟨i, t, ⟨hi.1, by rw [hiY]; exact hi.2⟩, by rw [hiY, heq]⟩
    · rintro ⟨i, t, hi, heq⟩
      obtain ⟨hiY, hi⟩ := hlive i hi
      exact ⟨i, t, hi, by rw [← hiY, heq]⟩
  · obtain ⟨heq, hi⟩ := hlive i hi
    rw [heq] at hlt ⊢
    exact h.dense i bn hi hlt
  · obtain ⟨heq, hi⟩ := hlive i hi
    rw [heq]
    exact h.short i hi
  · rw [hXY i hi]
    exact h.fits i hi

/-! ### Writes outside of the data blocks -/

/-- The data blocks, the superblock and the bitmap decide. -/
lemma frame (h : Image sb d X A) (hdata : ∀ b, nmeta sb ≤ b → d' b = d b) (hsuper : d' 1 = d 1)
    (hbit : ∀ b < sb.size, bit sb d' b = bit sb d b) : Image sb d' X A := by
  have hst := h.stores.frame (fun b hb _ => hdata b hb)
  have href : ∀ i t, Live sb X i → ref d' (X i) t = ref d (X i) t := by
    intro i t hi
    apply ref_congr
    intro h0
    have hr := h.ref_range hi (t := MAXFILE) (by rw [ref_maxfile]; exact h0)
    rw [ref_maxfile] at hr
    exact hdata _ hr.1
  have hbyte : ∀ i, Live sb X i → fileByte d' (X i) = fileByte d (X i) := by
    intro i hi
    funext off
    rw [hst.byte i off hi, ← h.stores.byte i off hi]
  refine ⟨h.geometry, by rw [hsuper, h.super], fun i => ?_, hst.owned, fun b hb => ?_,
    fun i bn hi hlt => ?_, h.short, h.fits⟩
  · rw [h.node i]
    by_cases hi : i < sb.ninodes
    · rw [if_pos hi, if_pos hi]
      by_cases h0 : (X i).type = 0
      · rw [nodeOf_free h0, nodeOf_free h0]
      · rw [nodeOf_live h0, nodeOf_live h0, hbyte i ⟨hi, h0⟩]
    · rw [if_neg hi, if_neg hi]
  · rw [hbit b hb, h.bitmap b hb]
    apply or_congr_right
    apply exists_congr; intro j
    apply exists_congr; intro t
    apply and_congr_right
    intro hj
    rw [href j t hj]
  · have hne := h.dense i bn hi hlt
    have hbn := lt_of_dataAddr_ne_zero hne
    rw [← ref_of_lt hbn, href i bn hi, ref_of_lt hbn]
    exact hne

/-- Writing an inode to its place on the disk. -/
lemma setDinode (h : Image sb d X A) (hi : i < sb.ninodes) (y : Dinode) :
    Image sb (setDinode sb d i y) X A := by
  have hI := h.geometry.inodes i hi
  have hm := h.geometry.bmapstart
  have hs := h.geometry.super
  have hle : sb.inodestart ≤ IBLOCK sb i := Nat.le_add_left _ _
  refine h.frame (fun b hb => setDinode_of_ne (by omega) _ _) (setDinode_of_ne (by omega) _ _)
    fun b _ => bit_congr (setDinode_of_ne ?_ _ _)
  have hB : sb.bmapstart ≤ BBLOCK sb b := Nat.le_add_left _ _
  omega

/-! ### A new block -/

/-- A change that leaves the type alone leaves the inode in use. -/
lemma live_update {y : Dinode} (hi : i < sb.ninodes) (htype : y.type = 0 ↔ (X i).type = 0)
    (j : ℕ) : Live sb (Function.update X i y) j ↔ Live sb X j := by
  unfold Live
  by_cases hji : j = i
  · subst hji
    rw [Function.update_self]
    exact and_congr_right fun _ => not_congr htype
  · rw [Function.update_of_ne hji]

/-- Inode `i` gets a zeroed block `b` in slot `t`. -/
lemma alloc (h : Image sb d X A) (hi : Live sb X i) {t b : ℕ} {y : Dinode} (hb : b < sb.size)
    (hfree : bit sb d b = false) (h0 : ref d (X i) t = 0)
    (hsame : y = { X i with addrs := y.addrs }) (hfits : y.Fits)
    (href : ∀ u, ref d' y u = if u = t then b else ref d (X i) u)
    (hframe : ∀ c, nmeta sb ≤ c → c ≠ b → ((X i).addr NDIRECT = 0 ∨ c ≠ (X i).addr NDIRECT) →
      d' c = d c)
    (hz : ∀ k, d' b k = 0) (hsuper : d' 1 = d 1)
    (hbit : ∀ c < sb.size, bit sb d' c = (bit sb d c || decide (c = b))) :
    Image sb d' (Function.update X i y) A := by
  obtain ⟨hlo, hfresh⟩ := h.free_block hb hfree
  have hpos := h.nmeta_pos
  have hlive := live_update hi.1 (y := y) (X := X) (by rw [hsame])
  have hst := h.stores.alloc hi hlo (by omega) hb (Nat.le_refl _) hfresh h0 href hframe hz
  have hrefs := fun j (hj : Live sb X j) u => h.stores.ref_alloc hi hfresh href hframe hj u
  -- an address that was there is still there
  have hkeep : ∀ j, Live sb X j → ∀ u, ref d (X j) u ≠ 0 →
      ref d' (Function.update X i y j) u = ref d (X j) u := by
    intro j hj u hne
    rw [hrefs j hj u, if_neg]
    intro hju
    exact hne (by rw [hju.1, hju.2, h0])
  have hsize : ∀ j, (Function.update X i y j).size = (X j).size := by
    intro j
    by_cases hji : j = i
    · subst hji
      rw [Function.update_self, hsame]
    · rw [Function.update_of_ne hji]
  refine ⟨h.geometry, by rw [hsuper, h.super], fun j => ?_,
    hst.owned.extend fun j _ hj _ => (hlive j).mp hj, fun c hc => ?_, fun j bn hj hlt => ?_,
    fun j hj => ?_, fun j hj => ?_⟩
  · rw [h.node j]
    by_cases hj : j < sb.ninodes
    · rw [if_pos hj, if_pos hj]
      by_cases hjl : Live sb X j
      · have hbyte : fileByte d' (Function.update X i y j) = fileByte d (X j) := by
          funext off
          rw [hst.byte j off hjl, ← h.stores.byte j off hjl]
        have hjl' := (hlive j).mpr hjl
        rw [nodeOf_live hjl.2, nodeOf_live hjl'.2, hbyte]
        by_cases hji : j = i
        · subst hji
          rw [Function.update_self, hsame]
        · rw [Function.update_of_ne hji]
      · have h1 : (X j).type = 0 := by
          by_contra hne
          exact hjl ⟨hj, hne⟩
        have h2 : (Function.update X i y j).type = 0 := by
          by_contra hne
          exact hjl ((hlive j).mp ⟨hj, hne⟩)
        rw [nodeOf_free h1, nodeOf_free h2]
    · rw [if_neg hj, if_neg hj]
  · rw [hbit c hc, Bool.or_eq_true, decide_eq_true_iff, h.bitmap c hc]
    constructor
    · rintro ((hm | ⟨j, u, hj, hju⟩) | rfl)
      · exact .inl hm
      · by_cases hm : c < nmeta sb
        · exact .inl hm
        · exact .inr ⟨j, u, (hlive j).mpr hj, by rw [hkeep j hj u (by omega), hju]⟩
      · exact .inr ⟨i, t, (hlive i).mpr hi, by rw [hrefs i hi, if_pos ⟨rfl, rfl⟩]⟩
    · rintro (hm | ⟨j, u, hj, hju⟩)
      · exact .inl (.inl hm)
      · have hj' := (hlive j).mp hj
        rw [hrefs j hj'] at hju
        by_cases hit : j = i ∧ u = t
        · rw [if_pos hit] at hju
          exact .inr hju.symm
        · rw [if_neg hit] at hju
          exact .inl (.inr ⟨j, u, hj', hju⟩)
  · have hj' := (hlive j).mp hj
    rw [hsize j] at hlt
    have hne := h.dense j bn hj' hlt
    have hbn := lt_of_dataAddr_ne_zero hne
    rw [← ref_of_lt hbn] at hne ⊢
    rw [hkeep j hj' bn hne]
    exact hne
  · rw [hsize j]
    exact h.short j ((hlive j).mp hj)
  · by_cases hji : j = i
    · subst hji
      rw [Function.update_self]
      exact hfits
    · rw [Function.update_of_ne hji]
      exact h.fits j hj

/-! ### Contents -/

/-- Bytes `[off, off + n)` of file `i`, all in one block, are overwritten. -/
theorem write (h : Image sb d X A) (hi : Live sb X i) {off n : ℕ} (src : ℕ → UInt8)
    (hne : dataAddr d (X i) (off / BSIZE) ≠ 0) (hn : off % BSIZE + n ≤ BSIZE) :
    Image sb (Function.update d (dataAddr d (X i) (off / BSIZE))
        (blit (d (dataAddr d (X i) (off / BSIZE))) (off % BSIZE) n src)) X
      (Function.update A i { A i with data := blit (A i).data off n src }) := by
  have hB : BSIZE = 512 := rfl
  have hoff : off - off / BSIZE * BSIZE = off % BSIZE := by
    simp only [hB]
    omega
  have hend : off + n ≤ (off / BSIZE + 1) * BSIZE := by
    simp only [hB] at hn ⊢
    omega
  have hst := h.stores.write src hi hne hend
  rw [hoff] at hst
  have hbn := lt_of_dataAddr_ne_zero hne
  have hrange := h.ref_range hi (t := off / BSIZE) (by rw [ref_of_lt hbn]; exact hne)
  rw [ref_of_lt hbn] at hrange
  have hpos := h.nmeta_pos
  -- a block of data is nobody's indirect block
  have hrefs : ∀ j, Live sb X j → ∀ u, ref (Function.update d (dataAddr d (X i) (off / BSIZE))
      (blit (d (dataAddr d (X i) (off / BSIZE))) (off % BSIZE) n src)) (X j) u
        = ref d (X j) u :=
    fun j hj u => ref_congr (h.stores.addr_update hi hj hne _) u
  have hbyte : ∀ j, Live sb X j → fileByte (Function.update d (dataAddr d (X i) (off / BSIZE))
      (blit (d (dataAddr d (X i) (off / BSIZE))) (off % BSIZE) n src)) (X j)
        = Function.update (fun j => (A j).data) i (blit (A i).data off n src) j :=
    fun j hj => funext fun p => hst.byte j p hj
  refine ⟨h.geometry, ?_, fun j => ?_, hst.owned, fun c hc => ?_, fun j bn hj hlt => ?_, h.short,
    h.fits⟩
  · rw [Function.update_of_ne (by omega), h.super]
  · by_cases hj : j < sb.ninodes
    · rw [if_pos hj]
      by_cases hjl : (X j).type = 0
      · have hji : j ≠ i := fun hji => hi.2 (hji ▸ hjl)
        rw [Function.update_of_ne hji, h.node_of_lt hj, nodeOf_free hjl, nodeOf_free hjl]
      · rw [nodeOf_live hjl, hbyte j ⟨hj, hjl⟩]
        by_cases hji : j = i
        · subst hji
          rw [Function.update_self, Function.update_self, h.node_live hi]
        · rw [Function.update_of_ne hji, Function.update_of_ne hji, h.node_live ⟨hj, hjl⟩]
    · have hji : j ≠ i := fun hji => hj (hji ▸ hi.1)
      rw [if_neg hj, Function.update_of_ne hji, h.node j, if_neg hj]
  -- and no block of the bitmap
  · have hblk := h.geometry.bitmap c hc
    rw [bit_congr (Function.update_of_ne (by omega) _ _), h.bitmap c hc]
    apply or_congr_right
    apply exists_congr; intro j
    apply exists_congr; intro u
    apply and_congr_right
    intro hj
    rw [hrefs j hj u]
  · have hd := h.dense j bn hj hlt
    have hbn' := lt_of_dataAddr_ne_zero hd
    rw [← ref_of_lt hbn', hrefs j hj, ref_of_lt hbn']
    exact hd

/-! ### Inodes -/

/-- The fields of an inode change, but not its addresses. -/
lemma setMeta (h : Image sb d X A) (hi : Live sb X i) {y : Dinode}
    (haddrs : y.addrs = (X i).addrs) (htype : y.type ≠ 0) (hfits : y.Fits)
    (hshort : y.size ≤ MAXFILE * BSIZE)
    (hdense : ∀ bn, bn * BSIZE < y.size → dataAddr d (X i) bn ≠ 0) :
    Image sb d (Function.update X i y) (Function.update A i
      ⟨y.type, y.major, y.minor, y.nlink, y.size, (A i).data⟩) := by
  have hlive := live_update hi.1 (y := y) (X := X) (by simp [htype, hi.2])
  -- the block numbers of every inode are those before
  have hrefs : ∀ j u, ref d (Function.update X i y j) u = ref d (X j) u := by
    intro j u
    by_cases hji : j = i
    · subst hji
      rw [Function.update_self, ref_of_addrs haddrs]
    · rw [Function.update_of_ne hji]
  refine ⟨h.geometry, h.super, fun j => ?_, ?_, fun c hc => ?_, fun j bn hj hlt => ?_,
    fun j hj => ?_, fun j hj => ?_⟩
  · by_cases hji : j = i
    · subst hji
      rw [Function.update_self, Function.update_self, if_pos hi.1, nodeOf_live htype,
        fileByte_of_addrs haddrs, h.node_live hi]
    · rw [Function.update_of_ne hji, Function.update_of_ne hji, h.node j]
  · refine (h.owned.extend fun j u hj _ => (hlive j).mp hj).congr fun j u _ => hrefs j u
  · rw [h.bitmap c hc]
    simp only [hlive, hrefs]
  · by_cases hji : j = i
    · subst hji
      rw [Function.update_self] at hlt ⊢
      rw [dataAddr_of_addrs haddrs]
      exact hdense bn hlt
    · rw [Function.update_of_ne hji] at hlt ⊢
      exact h.dense j bn ((hlive j).mp hj) hlt
  · by_cases hji : j = i
    · subst hji
      rw [Function.update_self]
      exact hshort
    · rw [Function.update_of_ne hji]
      exact h.short j ((hlive j).mp hj)
  · by_cases hji : j = i
    · subst hji
      rw [Function.update_self]
      exact hfits
    · rw [Function.update_of_ne hji]
      exact h.fits j hj

lemma dataAddr_new (d : Disk) (type bn : ℕ) :
    dataAddr d { Dinode.zero with type := type } bn = 0 := by
  have h0 : ∀ k, ({ Dinode.zero with type := type } : Dinode).addr k = 0 := by
    intro k
    unfold Dinode.addr
    split <;> rfl
  unfold dataAddr
  rw [h0, h0]
  simp

/-- A new inode refers to no block. -/
lemma ref_new (d : Disk) (type t : ℕ) : ref d { Dinode.zero with type := type } t = 0 := by
  unfold ref
  rw [dataAddr_new]
  unfold Dinode.addr
  split
  · split <;> rfl
  · rfl

/-- A free inode is given a type. -/
lemma make (h : Image sb d X A) (hi : i < sb.ninodes) (h0 : (X i).type = 0) {type : ℕ}
    (htype : type ≠ 0) (hlt : type < 2 ^ 16) :
    Image sb d (Function.update X i { Dinode.zero with type := type }) (A.make i type) := by
  have hlive : ∀ j, j ≠ i → (Live sb (Function.update X i { Dinode.zero with type := type }) j ↔
      Live sb X j) := by
    intro j hji
    unfold Live
    rw [Function.update_of_ne hji]
  have hdead : ¬ Live sb X i := fun hl => hl.2 h0
  have hbyte : fileByte d { Dinode.zero with type := type } = fun _ => 0 := by
    funext off
    unfold fileByte
    rw [dataAddr_new, if_pos rfl]
  -- the node, its references, the bitmap, the blocks, the size and the widths
  refine ⟨h.geometry, h.super, fun j => ?_, ⟨fun j t hj hne => ?_, fun j k t u hj hk hne heq => ?_⟩,
    fun c hc => ?_, fun j bn hj hlt => ?_, fun j hj => ?_, fun j hj => ?_⟩
  · by_cases hji : j = i
    · subst hji
      unfold Nodes.make
      rw [Function.update_self, Function.update_self, if_pos hi, nodeOf_live htype, hbyte]
      rfl
    · rw [Nodes.make_of_ne hji, Function.update_of_ne hji, h.node j]
  · by_cases hji : j = i
    · subst hji
      simp only [Function.update_self, ref_new, ne_eq, not_true_eq_false] at hne
    · simp only [Function.update_of_ne hji] at hne ⊢
      exact h.ref_range ((hlive j hji).mp hj) hne
  · by_cases hji : j = i
    · subst hji
      simp only [Function.update_self, ref_new, ne_eq, not_true_eq_false] at hne
    · by_cases hki : k = i
      · subst hki
        simp only [Function.update_self, ref_new, Function.update_of_ne hji] at heq hne
        exact absurd heq hne
      · simp only [Function.update_of_ne hji, Function.update_of_ne hki] at heq hne
        exact h.owned.inj j k t u ((hlive j hji).mp hj) ((hlive k hki).mp hk) hne heq
  · rw [h.bitmap c hc]
    have hpos := h.nmeta_pos
    constructor
    · rintro (hm | ⟨j, t, hj, hjt⟩)
      · exact .inl hm
      · have hji : j ≠ i := fun hji => hdead (hji ▸ hj)
        exact .inr ⟨j, t, (hlive j hji).mpr hj, by rw [Function.update_of_ne hji, hjt]⟩
    · rintro (hm | ⟨j, t, hj, hjt⟩)
      · exact .inl hm
      · by_cases hji : j = i
        · subst hji
          rw [Function.update_self, ref_new] at hjt
          exact .inl (by omega)
        · rw [Function.update_of_ne hji] at hjt
          exact .inr ⟨j, t, (hlive j hji).mp hj, hjt⟩
  · by_cases hji : j = i
    · subst hji
      rw [Function.update_self] at hlt
      exact absurd hlt (Nat.not_lt_zero _)
    · rw [Function.update_of_ne hji] at hlt ⊢
      exact h.dense j bn ((hlive j hji).mp hj) hlt
  · by_cases hji : j = i
    · subst hji
      rw [Function.update_self]
      exact Nat.zero_le _
    · rw [Function.update_of_ne hji]
      exact h.short j ((hlive j hji).mp hj)
  · by_cases hji : j = i
    · subst hji
      rw [Function.update_self]
      have hz := Dinode.fits_zero
      exact ⟨hlt, hz.major, hz.minor, hz.nlink, hz.size, hz.addrs⟩
    · rw [Function.update_of_ne hji]
      exact h.fits j hj

end Image

end Kernel
end OhMyXv6
