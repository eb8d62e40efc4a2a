import OhMyXv6.Kernel.Walk

/-!
# Disks with two files

On these disks only inodes 1 and 2 are allocated, and each has at most one block. They are what the
results about the kernel are tried on: such a disk holds its two files as it should (`TwoFiles.image`),
and so does a kernel that has just these two inodes in its cache (`TwoFiles.settled`).
-/

namespace OhMyXv6
namespace Kernel

open Bytes

/-- The block addresses of a file of one block. -/
def oneAddr (a : ℕ) : Fin 13 → ℕ := fun k => if k = 0 then a else 0

/-- A disk with two inodes. -/
def twoInodes (x y : Dinode) : ℕ → Dinode := fun i => if i = 1 then x else if i = 2 then y else .zero

/-- The disk `base` with the two inodes in their places. -/
def twoDisk (sb : Superblock) (base : Disk) (x y : Dinode) : Disk :=
  setDinode sb (setDinode sb base 1 x) 2 y

/-- The two files of this disk. -/
def twoNodes (sb : Superblock) (base : Disk) (x y : Dinode) : Nodes := fun i =>
  if i < sb.ninodes then nodeOf (twoDisk sb base x y) (twoInodes x y i) else .free

/-- The inode cache with both inodes. -/
def twoCache (x y : Dinode) : ℕ → Inode := fun k =>
  if k = 0 then ⟨2, 1, none, true, y⟩
  else if k = 1 then ⟨1, 1, none, true, x⟩
  else ⟨0, 0, none, false, .zero⟩

/-- Inode 1 has the first data block, and inode 2 has block `b`, or none. -/
structure TwoFiles (sb : Superblock) (base : Disk) (x y : Dinode) (b : ℕ) : Prop where
  geometry : Geometry sb
  ninodes : 2 < sb.ninodes
  super : Superblock.read (base 1) = sb
  blank : ∀ i < sb.ninodes, base (IBLOCK sb i) = zeroBlock
  bitmap : ∀ c < sb.size, bit sb base c = decide (c ≤ nmeta sb ∨ c = b)
  room : nmeta sb < sb.size
  range : b = 0 ∨ nmeta sb < b ∧ b < sb.size
  addrs : x.addrs = oneAddr (nmeta sb) ∧ y.addrs = oneAddr b
  type : x.type ≠ 0 ∧ y.type ≠ 0
  nlink : x.nlink ≠ 0 ∧ y.nlink ≠ 0
  size : x.size ≤ BSIZE ∧ y.size ≤ BSIZE ∧ (b = 0 → y.size = 0)
  fits : x.Fits ∧ y.Fits

section
variable {x y : Dinode} {a b i t : ℕ} {d base : Disk} {sb : Superblock}

lemma addr_oneAddr (h : x.addrs = oneAddr a) (k : ℕ) : x.addr k = if k = 0 then a else 0 := by
  unfold Dinode.addr
  rw [h]
  unfold oneAddr
  split
  · simp only [Fin.ext_iff, Fin.val_zero]
  · next hk => rw [if_neg (by omega)]

lemma dataAddr_oneAddr (h : x.addrs = oneAddr a) (d : Disk) (t : ℕ) :
    dataAddr d x t = if t = 0 then a else 0 := by
  have hN : NDIRECT = 12 := rfl
  have hind : x.addr NDIRECT = 0 := addr_oneAddr h 12
  unfold dataAddr
  rw [hind, addr_oneAddr h]
  by_cases ht : t < NDIRECT
  · rw [if_pos ht]
  · rw [if_neg ht, if_neg (fun hc => hc.2 rfl), if_neg (by omega)]

/-- The one block that is referred to. -/
lemma ref_oneAddr (h : x.addrs = oneAddr a) (d : Disk) (t : ℕ) :
    ref d x t = if t = 0 then a else 0 := by
  unfold ref
  by_cases ht : t = MAXFILE
  · rw [if_pos ht, addr_oneAddr h, ht]
    rfl
  · rw [if_neg ht, dataAddr_oneAddr h]

lemma fileByte_oneAddr (h : x.addrs = oneAddr a) (ha : a ≠ 0) (d : Disk) (off : ℕ) :
    fileByte d x off = if off < BSIZE then d a off else 0 := by
  have hB : BSIZE = 512 := rfl
  unfold fileByte
  rw [dataAddr_oneAddr h]
  by_cases hoff : off < BSIZE
  · rw [if_pos hoff, if_pos (Nat.div_eq_of_lt hoff), if_neg ha, Nat.mod_eq_of_lt hoff]
  · have hne : ¬ off / BSIZE = 0 := by
      rw [hB] at hoff ⊢
      omega
    rw [if_neg hoff, if_neg hne, if_pos rfl]

lemma dinode_blank {sb : Superblock} {d : Disk} (h : d (IBLOCK sb i) = zeroBlock) :
    dinode sb d i = .zero := by
  unfold dinode
  rw [h]
  ext k
  · exact le_zero fun _ _ => rfl
  · exact le_zero fun _ _ => rfl
  · exact le_zero fun _ _ => rfl
  · exact le_zero fun _ _ => rfl
  · exact le_zero fun _ _ => rfl
  · exact le_zero fun _ _ => rfl

namespace TwoFiles

lemma dinode (h : TwoFiles sb base x y b) (hi : i < sb.ninodes) :
    OhMyXv6.dinode sb (twoDisk sb base x y) i = twoInodes x y i := by
  unfold twoDisk twoInodes
  by_cases h2 : i = 2
  · rw [h2, dinode_setDinode h.fits.2]
    rfl
  rw [dinode_setDinode_of_ne h2]
  by_cases h1 : i = 1
  · rw [h1, dinode_setDinode h.fits.1]
    rfl
  · rw [dinode_setDinode_of_ne h1, if_neg h1, if_neg h2]
    exact dinode_blank (h.blank i hi)

/-- The blocks outside of the inode blocks are those of `base`. -/
lemma disk_of_ne (h : TwoFiles sb base x y b) {c : ℕ} (hc : c < sb.inodestart ∨ sb.bmapstart ≤ c) :
    twoDisk sb base x y c = base c := by
  have hlo : ∀ j, sb.inodestart ≤ IBLOCK sb j := fun j => Nat.le_add_left _ _
  have hhi := h.geometry.inodes
  have hn := h.ninodes
  have h1 := hlo 1
  have h2 := hlo 2
  have h1' := hhi 1 (by omega)
  have h2' := hhi 2 hn
  unfold twoDisk
  rw [setDinode_of_ne (by omega), setDinode_of_ne (by omega)]

lemma bit_eq (h : TwoFiles sb base x y b) {c : ℕ} (hc : c < sb.size) :
    bit sb (twoDisk sb base x y) c = decide (c ≤ nmeta sb ∨ c = b) := by
  rw [← h.bitmap c hc]
  have hle : sb.bmapstart ≤ BBLOCK sb c := Nat.le_add_left _ _
  unfold bit
  rw [h.disk_of_ne (.inr hle)]

/-- The block of each file. -/
lemma slot (h : TwoFiles sb base x y b) (hne : ref d (twoInodes x y i) t ≠ 0) :
    t = 0 ∧ ((i = 1 ∧ ref d (twoInodes x y i) t = nmeta sb) ∨
      (i = 2 ∧ b ≠ 0 ∧ ref d (twoInodes x y i) t = b)) := by
  have hz : Dinode.zero.addrs = oneAddr 0 := by
    funext k
    exact (ite_self 0).symm
  unfold twoInodes at hne ⊢
  by_cases h1 : i = 1
  · rw [if_pos h1, ref_oneAddr h.addrs.1] at hne ⊢
    have ht : t = 0 := by
      by_contra ht
      exact hne (if_neg ht)
    exact ⟨ht, .inl ⟨h1, if_pos ht⟩⟩
  · rw [if_neg h1] at hne ⊢
    by_cases h2 : i = 2
    · rw [if_pos h2, ref_oneAddr h.addrs.2] at hne ⊢
      have ht : t = 0 := by
        by_contra ht
        exact hne (if_neg ht)
      rw [if_pos ht] at hne ⊢
      exact ⟨ht, .inr ⟨h2, hne, rfl⟩⟩
    · rw [if_neg h2, ref_oneAddr hz] at hne
      exact absurd (ite_self 0) hne

lemma live (h : TwoFiles sb base x y b) : Live sb (twoInodes x y) 1 ∧ Live sb (twoInodes x y) 2 := by
  have hn := h.ninodes
  exact ⟨⟨by omega, h.type.1⟩, ⟨hn, h.type.2⟩⟩

lemma eq_of_live (hi : (twoInodes x y i).type ≠ 0) : i = 1 ∨ i = 2 := by
  by_contra hne
  unfold twoInodes at hi
  rw [if_neg fun h1 => hne (.inl h1), if_neg fun h2 => hne (.inr h2)] at hi
  exact hi rfl

lemma image (h : TwoFiles sb base x y b) :
    Image sb (twoDisk sb base x y) (twoInodes x y) (twoNodes sb base x y) := by
  have hsuper := h.geometry.super
  have hpos : 0 < nmeta sb := Nat.lt_of_le_of_lt (Nat.zero_le _) h.geometry.bmapstart
  have hrange := h.range
  have hroom := h.room
  have href1 : ref (twoDisk sb base x y) (twoInodes x y 1) 0 = nmeta sb := ref_oneAddr h.addrs.1 _ 0
  have href2 : ref (twoDisk sb base x y) (twoInodes x y 2) 0 = b := ref_oneAddr h.addrs.2 _ 0
  -- the super block, the references, the bitmap, the blocks, the sizes and the widths
  refine ⟨h.geometry, ?_, fun i => rfl, ⟨fun i t _ hne => ?_, fun i j t u _ _ hne heq => ?_⟩,
    fun c hc => ?_, fun i bn hi hlt => ?_, fun i hi => ?_, fun i hi => ?_⟩
  · rw [h.disk_of_ne (.inl hsuper), h.super]
  · obtain ⟨-, ⟨-, heq⟩ | ⟨-, hb, heq⟩⟩ := h.slot hne
    · rw [heq]
      omega
    · rw [heq]
      omega
  · have hne' : ref (twoDisk sb base x y) (twoInodes x y j) u ≠ 0 := heq ▸ hne
    obtain ⟨ht, hi⟩ := h.slot hne
    obtain ⟨hu, hj⟩ := h.slot hne'
    omega
  · rw [h.bit_eq hc, decide_eq_true_iff]
    constructor
    · rintro (hle | rfl)
      · by_cases heq : c = nmeta sb
        · exact .inr ⟨1, 0, h.live.1, href1.trans heq.symm⟩
        · exact .inl (by omega)
      · exact .inr ⟨2, 0, h.live.2, href2⟩
    · rintro (hlt | ⟨i, t, -, rfl⟩)
      · omega
      · by_cases h0 : ref (twoDisk sb base x y) (twoInodes x y i) t = 0
        · omega
        · obtain ⟨-, ⟨-, heq⟩ | ⟨-, -, heq⟩⟩ := h.slot h0
          · omega
          · omega
  · have hB : BSIZE = 512 := rfl
    obtain ⟨hx, hy, hyb⟩ := h.size
    rcases eq_of_live hi.2 with rfl | rfl
    · have hlt' : bn * BSIZE < x.size := hlt
      have h0 : bn = 0 := by
        rw [hB] at hx hlt'
        omega
      show dataAddr _ x bn ≠ 0
      rw [dataAddr_oneAddr h.addrs.1, if_pos h0]
      omega
    · have hlt' : bn * BSIZE < y.size := hlt
      have h0 : bn = 0 := by
        rw [hB] at hy hlt'
        omega
      show dataAddr _ y bn ≠ 0
      rw [dataAddr_oneAddr h.addrs.2, if_pos h0]
      intro hb
      have := hyb hb
      omega
  · have hM : BSIZE ≤ MAXFILE * BSIZE := by decide
    rcases eq_of_live hi.2 with rfl | rfl
    · exact h.size.1.trans hM
    · exact h.size.2.1.trans hM
  · unfold twoInodes
    split
    · exact h.fits.1
    · split
      · exact h.fits.2
      · exact Dinode.fits_zero

/-- The files of a state with this disk. -/
lemma nodes (h : TwoFiles sb base x y b) {s : State} (hsb : s.sb = sb)
    (hdisk : s.disk = twoDisk sb base x y) : s.nodes = twoNodes sb base x y := by
  funext i
  unfold State.nodes twoNodes
  rw [hsb, hdisk]
  by_cases hi : i < sb.ninodes
  · rw [if_pos hi, if_pos hi, h.dinode hi]
  · rw [if_neg hi, if_neg hi]

/-- A kernel that has the two inodes in its cache, and nothing else, is between two calls. -/
theorem settled (h : TwoFiles sb base x y b) {s : State} (hsb : s.sb = sb)
    (hdisk : s.disk = twoDisk sb base x y) (hcache : s.icache = twoCache x y) : Settled s := by
  have hn := h.ninodes
  have hused : ∀ e, 0 < (s.icache e).ref → e = 0 ∨ e = 1 := by
    intro e hpos
    by_contra hne
    rw [hcache] at hpos
    unfold twoCache at hpos
    rw [if_neg fun h0 => hne (.inl h0), if_neg fun h1 => hne (.inr h1)] at hpos
    exact Nat.lt_irrefl 0 hpos
  have hentry : s.icache 0 = ⟨2, 1, none, true, y⟩ ∧ s.icache 1 = ⟨1, 1, none, true, x⟩ := by
    rw [hcache]
    exact ⟨rfl, rfl⟩
  have hinodes : ∀ i < sb.ninodes, s.inodes i = twoInodes x y i := by
    intro i hi
    unfold State.inodes
    rw [hsb, hdisk, h.dinode hi]
  have hone : s.inodes 1 = x := hinodes 1 (by omega)
  have htwo : s.inodes 2 = y := hinodes 2 hn
  refine ⟨rfl, ⟨?_, ?_, ?_, ?_, nofun, ?_, ?_, rfl, rfl⟩, nofun, nofun, ?_⟩
  · intro e _ hpos
    rw [hsb]
    rcases hused e hpos with rfl | rfl
    · rw [hentry.1]
      exact hn
    · rw [hentry.2]
      exact Nat.lt_of_succ_lt hn
  · intro e _ hpos _
    rcases hused e hpos with rfl | rfl
    · rw [hentry.1]
      exact ⟨htwo.symm, htwo ▸ h.type.2⟩
    · rw [hentry.2]
      exact ⟨hone.symm, hone ▸ h.type.1⟩
  · intro e _ c _ hpe hpc hsame
    rcases hused e hpe with rfl | rfl
    · rcases hused c hpc with rfl | rfl
      · rfl
      · rw [hentry.1, hentry.2] at hsame
        exact absurd hsame (show 2 ≠ 1 by decide)
    · rcases hused c hpc with rfl | rfl
      · rw [hentry.1, hentry.2] at hsame
        exact absurd hsame (show 1 ≠ 2 by decide)
      · rfl
  · intro e he
    show _ = (if e < NINODE then (s.icache e).ref else 0) + 0
    rw [if_pos he, Nat.add_zero]
  · intro e hpos
    have hlt : e < NINODE := by
      by_contra hge
      have h0 : s.view.tab e = 0 := if_neg hge
      omega
    have htab : s.view.tab e = (s.icache e).ref := if_pos hlt
    refine ⟨hlt, rfl, ?_⟩
    show (s.inodes (s.icache e).inum).type ≠ 0
    rcases hused e (by omega) with rfl | rfl
    · rw [hentry.1]
      exact htwo ▸ h.type.2
    · rw [hentry.2]
      exact hone ▸ h.type.1
  · -- both inodes have links
    intro i hi h0
    obtain ⟨hlt, htype⟩ := hi
    rw [hsb] at hlt
    rw [hinodes i hlt] at htype h0
    rcases eq_of_live htype with rfl | rfl
    · exact absurd h0 h.nlink.1
    · exact absurd h0 h.nlink.2
  · intro e _ _
    rw [hcache]
    unfold twoCache
    split
    · rfl
    · split
      · rfl
      · rfl

end TwoFiles

/-! ## The directory of the first file -/

/-- Entries at the beginning of a block, and behind them only free ones. -/
theorem fileByte_dirBytes {x : Dinode} (h : x.addrs = oneAddr a) (ha : a ≠ 0)
    {entries : List (List UInt8 × ℕ)} (hd : d a = ofList (dirBytes entries))
    (hlen : DIRENTSIZE * entries.length ≤ BSIZE) : fileByte d x = ofList (dirBytes entries) := by
  funext off
  rw [fileByte_oneAddr h ha, hd]
  by_cases hoff : off < BSIZE
  · rw [if_pos hoff]
  · rw [if_neg hoff]
    symm
    apply List.getD_eq_default
    rw [length_dirBytes]
    omega

end

end Kernel
end OhMyXv6
