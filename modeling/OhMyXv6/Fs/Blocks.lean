import OhMyXv6.Fs.Layout

/-!
# The blocks of a file

An inode refers to blocks in three ways: by its direct addresses, by the pointer to its
indirect block, and by the entries of that block. The references are numbered here: slot
`s < MAXFILE` is the reference to data block `s`, slot `MAXFILE` the pointer to the indirect
block. `Owned` says that all references of all files are different.

For each of the writes by which `mkfs` and the kernel change a file, a lemma says what happens
to the references and to the contents of every file: an address put into the inode or into its
indirect block, and bytes put into a data block.
-/

namespace OhMyXv6

open Bytes

namespace Dinode

/-- `addrs[k]`. -/
def addr (x : Dinode) (k : ℕ) : ℕ := if h : k < 13 then x.addrs ⟨k, h⟩ else 0

/-- `addrs[k] = v`. -/
def setAddr (x : Dinode) (k v : ℕ) : Dinode :=
  { x with addrs := fun j => if (j : ℕ) = k then v else x.addrs j }

lemma addr_setAddr {x : Dinode} {k v : ℕ} (h : k < 13) : (x.setAddr k v).addr k = v := by
  simp [addr, setAddr, h]

lemma addr_setAddr_of_ne {x : Dinode} {j k v : ℕ} (h : j ≠ k) :
    (x.setAddr k v).addr j = x.addr j := by
  simp [addr, setAddr, h]

lemma Fits.setAddr {x : Dinode} (hx : x.Fits) {v : ℕ} (hv : v < 2 ^ 32) (k : ℕ) :
    (x.setAddr k v).Fits := by
  refine ⟨hx.type, hx.major, hx.minor, hx.nlink, hx.size, fun j => ?_⟩
  show (if (j : ℕ) = k then v else x.addrs j) < 2 ^ 32
  split
  · exact hv
  · exact hx.addrs j

end Dinode

/-! ## References -/

/-- The address of data block `bn` of a file, 0 when there is none. -/
def dataAddr (d : Disk) (x : Dinode) (bn : ℕ) : ℕ :=
  if bn < NDIRECT then x.addr bn
  else if bn < MAXFILE ∧ x.addr NDIRECT ≠ 0 then entry (d (x.addr NDIRECT)) (bn - NDIRECT)
  else 0

/-- The block that slot `s` of a file refers to, 0 when it refers to none. -/
def ref (d : Disk) (x : Dinode) (s : ℕ) : ℕ :=
  if s = MAXFILE then x.addr NDIRECT else dataAddr d x s

/-- The byte at an offset of a file; a block that is not there reads as zeros. -/
def fileByte (d : Disk) (x : Dinode) (off : ℕ) : UInt8 :=
  if dataAddr d x (off / BSIZE) = 0 then 0 else d (dataAddr d x (off / BSIZE)) (off % BSIZE)

/-- The first references are those of the data. -/
lemma ref_of_lt {d : Disk} {x : Dinode} {s : ℕ} (h : s < MAXFILE) :
    ref d x s = dataAddr d x s := if_neg (by omega)

/-- The last is the indirect block. -/
lemma ref_maxfile (d : Disk) (x : Dinode) : ref d x MAXFILE = x.addr NDIRECT := if_pos rfl

/-- No file is longer than `MAXFILE` blocks. -/
lemma dataAddr_of_le {d : Disk} {x : Dinode} {bn : ℕ} (h : MAXFILE ≤ bn) :
    dataAddr d x bn = 0 := by
  unfold dataAddr
  rw [if_neg (by simp only [MAXFILE] at h; omega), if_neg (by omega)]

/-- A block of data has its place in the file. -/
lemma lt_of_dataAddr_ne_zero {d : Disk} {x : Dinode} {bn : ℕ} (h : dataAddr d x bn ≠ 0) :
    bn < MAXFILE := by
  by_contra hle
  exact h (dataAddr_of_le (by omega))

/-- The references are in the inode and in its indirect block, nowhere else. -/
theorem dataAddr_congr {d d' : Disk} {x : Dinode} (h : x.addr NDIRECT ≠ 0 →
    d' (x.addr NDIRECT) = d (x.addr NDIRECT)) (bn : ℕ) : dataAddr d' x bn = dataAddr d x bn := by
  unfold dataAddr
  split
  · rfl
  · split
    · next hin => rw [h hin.2]
    · rfl

/-- Only the indirect block counts. -/
lemma ref_congr {d d' : Disk} {x : Dinode} (h : x.addr NDIRECT ≠ 0 →
    d' (x.addr NDIRECT) = d (x.addr NDIRECT)) (s : ℕ) : ref d' x s = ref d x s := by
  unfold ref
  rw [dataAddr_congr h]

/-- The contents are in the blocks referred to, nowhere else. -/
lemma fileByte_congr {d d' : Disk} {x x' : Dinode} {off : ℕ}
    (haddr : dataAddr d' x' (off / BSIZE) = dataAddr d x (off / BSIZE))
    (h : dataAddr d x (off / BSIZE) ≠ 0 →
      d' (dataAddr d x (off / BSIZE)) = d (dataAddr d x (off / BSIZE))) :
    fileByte d' x' off = fileByte d x off := by
  unfold fileByte
  rw [haddr]
  split
  · rfl
  · next hne => rw [h hne]

/-- Only the addresses of the inode matter. -/
lemma dataAddr_of_addrs {x y : Dinode} (h : y.addrs = x.addrs) (d : Disk) (bn : ℕ) :
    dataAddr d y bn = dataAddr d x bn := by
  unfold dataAddr Dinode.addr
  rw [h]

/-- Only the addresses of the inode count. -/
lemma ref_of_addrs {x y : Dinode} (h : y.addrs = x.addrs) (d : Disk) (s : ℕ) :
    ref d y s = ref d x s := by
  unfold ref
  rw [dataAddr_of_addrs h]
  unfold Dinode.addr
  rw [h]

lemma fileByte_of_addrs {x y : Dinode} (h : y.addrs = x.addrs) (d : Disk) :
    fileByte d y = fileByte d x := by
  funext off
  unfold fileByte
  rw [dataAddr_of_addrs h]

/-! ### One more reference -/

lemma ref_setAddr_direct {d : Disk} {x : Dinode} {k v s : ℕ} (hk : k < NDIRECT) :
    ref d (x.setAddr k v) s = if s = k then v else ref d x s := by
  have hind : (x.setAddr k v).addr NDIRECT = x.addr NDIRECT :=
    Dinode.addr_setAddr_of_ne (by omega)
  have hMAX : MAXFILE = 140 := rfl
  have hND : NDIRECT = 12 := rfl
  by_cases hs : s = k
  · rw [if_pos hs, hs, ref_of_lt (by omega), dataAddr, if_pos hk,
      Dinode.addr_setAddr (by omega)]
  · rw [if_neg hs]
    unfold ref dataAddr
    rw [hind, Dinode.addr_setAddr_of_ne hs]

/-- A fresh indirect block that is all zeros adds one reference. -/
lemma ref_setAddr_indirect {d : Disk} {x : Dinode} {v s : ℕ} (h0 : x.addr NDIRECT = 0)
    (hz : ∀ k, entry (d v) k = 0) :
    ref d (x.setAddr NDIRECT v) s = if s = MAXFILE then v else ref d x s := by
  have hind : (x.setAddr NDIRECT v).addr NDIRECT = v := Dinode.addr_setAddr (by decide)
  unfold ref
  split
  · exact hind
  · unfold dataAddr
    rw [hind, h0]
    by_cases hs : s < NDIRECT
    · rw [if_pos hs, if_pos hs, Dinode.addr_setAddr_of_ne (by omega)]
    · rw [if_neg hs, if_neg hs, hz, ite_self, if_neg (fun h => h.2 rfl)]

/-- A new entry in the indirect block. -/
lemma ref_setEntry {d : Disk} {x : Dinode} {k v s : ℕ} (hk : k < NINDIRECT) (hv : v < 2 ^ 32)
    (h0 : x.addr NDIRECT ≠ 0) :
    ref (Function.update d (x.addr NDIRECT) (setEntry (d (x.addr NDIRECT)) k v)) x s
      = if s = NDIRECT + k then v else ref d x s := by
  have hMAX : MAXFILE = 140 := rfl
  have hND : NDIRECT = 12 := rfl
  have hNI : NINDIRECT = 128 := rfl
  unfold ref dataAddr
  rw [Function.update_self]
  by_cases hs : s = NDIRECT + k
  · rw [if_pos hs, if_neg (by omega), if_neg (by omega), if_pos ⟨by omega, h0⟩, hs,
      Nat.add_sub_cancel_left, entry_setEntry hv]
  · rw [if_neg hs]
    by_cases hlow : s < NDIRECT
    · rw [if_pos hlow, if_pos hlow]
    · rw [if_neg hlow, if_neg hlow, entry_setEntry_of_ne (by omega)]

/-! ## Different references -/

/-- No two slots of the files in `live` refer to one block, and all blocks referred to lie
between `lo` and `hi`. `R i s` is the block that slot `s` of file `i` refers to. -/
structure Owned (R : ℕ → ℕ → ℕ) (live : ℕ → Prop) (lo hi : ℕ) : Prop where
  range : ∀ i s, live i → R i s ≠ 0 → lo ≤ R i s ∧ R i s < hi
  inj : ∀ i j s t, live i → live j → R i s ≠ 0 → R i s = R j t → i = j ∧ s = t

namespace Owned

variable {R R' : ℕ → ℕ → ℕ} {live live' : ℕ → Prop} {lo hi hi' : ℕ}

/-- Only the references of live inodes count. -/
lemma congr (h : Owned R live lo hi) (heq : ∀ i s, live i → R' i s = R i s) :
    Owned R' live lo hi := by
  constructor
  · intro i s hi hne
    rw [heq i s hi] at hne ⊢
    exact h.range i s hi hne
  · intro i j s t hi hj hne h'
    rw [heq i s hi] at hne h'
    rw [heq j t hj] at h'
    exact h.inj i j s t hi hj hne h'

/-- Files without references may be added. -/
lemma extend (h : Owned R live lo hi) (hlive : ∀ i s, live' i → R i s ≠ 0 → live i) :
    Owned R live' lo hi := by
  constructor
  · intro i s hi hne
    exact h.range i s (hlive i s hi hne) hne
  · intro i j s t hi hj hne heq
    exact h.inj i j s t (hlive i s hi hne) (hlive j t hj (heq ▸ hne)) hne heq

/-- One more reference, to a block that nothing refers to. -/
lemma alloc (h : Owned R live lo hi) {i s v : ℕ} (hlo : lo ≤ v)
    (hhi : v < hi') (hle : hi ≤ hi') (hfresh : ∀ j t, live j → R j t ≠ v) (hv : R' i s = v)
    (heq : ∀ j t, live j → ¬ (j = i ∧ t = s) → R' j t = R j t) : Owned R' live lo hi' := by
  constructor
  · intro j t hj hne
    by_cases hjt : j = i ∧ t = s
    · obtain ⟨rfl, rfl⟩ := hjt
      rw [hv]
      exact ⟨hlo, hhi⟩
    · rw [heq j t hj hjt] at hne ⊢
      have := h.range j t hj hne
      omega
  · intro j k t u hj hk hne heq'
    by_cases hjt : j = i ∧ t = s <;> by_cases hku : k = i ∧ u = s
    · exact ⟨hjt.1.trans hku.1.symm, hjt.2.trans hku.2.symm⟩
    · obtain ⟨rfl, rfl⟩ := hjt
      rw [hv, heq k u hk hku] at heq'
      exact absurd heq'.symm (hfresh k u hk)
    · obtain ⟨rfl, rfl⟩ := hku
      rw [hv, heq j t hj hjt] at heq'
      exact absurd heq' (hfresh j t hj)
    · rw [heq j t hj hjt] at hne heq'
      rw [heq k u hk hku] at heq'
      exact h.inj j k t u hj hk hne heq'

/-- Blocks outside the range are referred to by nobody. -/
lemma ne_of_le (h : Owned R live lo hi) {v : ℕ} (h0 : 0 < v) (hv : hi ≤ v) :
    ∀ j t, live j → R j t ≠ v := by
  intro j t hj heq
  have := h.range j t hj (by omega)
  omega

end Owned

/-! ## Files and their contents -/

/-- The files in `live` have inodes `x i` and contents `c i`, and share no block. -/
structure Stores (d : Disk) (live : ℕ → Prop) (x : ℕ → Dinode) (c : ℕ → ℕ → UInt8)
    (lo hi : ℕ) : Prop where
  owned : Owned (fun i s => ref d (x i) s) live lo hi
  byte : ∀ i off, live i → fileByte d (x i) off = c i off

namespace Stores

variable {d d' : Disk} {live : ℕ → Prop} {x : ℕ → Dinode} {c : ℕ → ℕ → UInt8} {lo hi hi' : ℕ}

/-- The indirect block of a file is no data block, and no other file's indirect block. -/
theorem indirect_ne (h : Stores d live x c lo hi) {i j s : ℕ} (hli : live i) (hlj : live j)
    (hs : s < MAXFILE) (h0 : (x j).addr NDIRECT ≠ 0) :
    dataAddr d (x i) s ≠ (x j).addr NDIRECT := by
  intro heq
  have href : ref d (x j) MAXFILE = ref d (x i) s := by rw [ref_maxfile, ref_of_lt hs, heq]
  have := (h.owned.inj j i MAXFILE s hlj hli (by rw [ref_maxfile]; exact h0) href).2
  omega

/-- Two inodes have two indirect blocks. -/
lemma indirect_inj (h : Stores d live x c lo hi) {i j : ℕ} (hli : live i) (hlj : live j)
    (hij : i ≠ j) (h0 : (x j).addr NDIRECT ≠ 0) : (x j).addr NDIRECT ≠ (x i).addr NDIRECT := by
  intro heq
  have href : ref d (x j) MAXFILE = ref d (x i) MAXFILE := by rw [ref_maxfile, ref_maxfile, heq]
  exact hij (h.owned.inj j i MAXFILE MAXFILE hlj hli (by rw [ref_maxfile]; exact h0) href).1.symm

/-- What is outside the range of the files does not matter to them. -/
theorem frame (h : Stores d live x c lo hi) (heq : ∀ b, lo ≤ b → b < hi → d' b = d b) :
    Stores d' live x c lo hi := by
  have hind : ∀ i, live i → (x i).addr NDIRECT ≠ 0 →
      d' ((x i).addr NDIRECT) = d ((x i).addr NDIRECT) := by
    intro i hi h0
    have hr := h.owned.range i MAXFILE hi (by rw [ref_maxfile]; exact h0)
    rw [ref_maxfile] at hr
    exact heq _ hr.1 hr.2
  constructor
  · exact h.owned.congr fun i s hi => ref_congr (hind i hi) s
  · intro i off hi
    rw [← h.byte i off hi]
    apply fileByte_congr (dataAddr_congr (hind i hi) _)
    intro hne
    have hs := lt_of_dataAddr_ne_zero hne
    have hr := h.owned.range i _ hi (by rw [ref_of_lt hs]; exact hne)
    rw [ref_of_lt hs] at hr
    exact heq _ hr.1 hr.2

/-- The references after one more, of file `i` in slot `s`, to a block `v` that nothing refers to.
Of the blocks from `lo` on, only that block and the indirect block of the file may have been
written. -/
theorem ref_alloc (h : Stores d live x c lo hi) {i s v : ℕ} {xi : Dinode} (hli : live i)
    (hfresh : ∀ j t, live j → ref d (x j) t ≠ v)
    (href : ∀ t, ref d' xi t = if t = s then v else ref d (x i) t)
    (hframe : ∀ b, lo ≤ b → b ≠ v → ((x i).addr NDIRECT = 0 ∨ b ≠ (x i).addr NDIRECT) →
      d' b = d b)
    {j : ℕ} (hj : live j) (t : ℕ) : ref d' (Function.update x i xi j) t
      = if j = i ∧ t = s then v else ref d (x j) t := by
  by_cases hji : j = i
  · subst hji
    rw [Function.update_self, href]
    by_cases hts : t = s
    · rw [if_pos hts, if_pos ⟨rfl, hts⟩]
    · rw [if_neg hts, if_neg fun h => hts h.2]
  · rw [Function.update_of_ne hji, if_neg fun h => hji h.1]
    apply ref_congr
    intro h0
    have hr := h.owned.range j MAXFILE hj (by rw [ref_maxfile]; exact h0)
    rw [ref_maxfile] at hr
    apply hframe _ hr.1
    · rw [← ref_maxfile d]
      exact hfresh j _ hj
    · exact .inr (h.indirect_inj hli hj (Ne.symm hji) h0)

/-- One more reference of file `i`, in slot `s`, to a zeroed block `v` that nothing refers to.
Of the blocks from `lo` on, only that block and the indirect block of the file may have been
written. -/
theorem alloc (h : Stores d live x c lo hi) {i s v : ℕ} {xi : Dinode} (hli : live i)
    (hlo : lo ≤ v) (hv0 : 0 < v) (hhi : v < hi') (hle : hi ≤ hi')
    (hfresh : ∀ j t, live j → ref d (x j) t ≠ v) (h0 : ref d (x i) s = 0)
    (href : ∀ t, ref d' xi t = if t = s then v else ref d (x i) t)
    (hframe : ∀ b, lo ≤ b → b ≠ v → ((x i).addr NDIRECT = 0 ∨ b ≠ (x i).addr NDIRECT) →
      d' b = d b)
    (hz : ∀ k, d' v k = 0) : Stores d' live (Function.update x i xi) c lo hi' := by
  have hrefs := fun j (hj : live j) t => h.ref_alloc hli hfresh href hframe hj t
  have hdata : ∀ j bn, live j → dataAddr d (x j) bn ≠ 0 →
      d' (dataAddr d (x j) bn) = d (dataAddr d (x j) bn) := by
    intro j bn hj hne
    have hbn := lt_of_dataAddr_ne_zero hne
    have hr := h.owned.range j bn hj (by rw [ref_of_lt hbn]; exact hne)
    rw [ref_of_lt hbn] at hr
    apply hframe _ hr.1
    · rw [← ref_of_lt hbn]
      exact hfresh j _ hj
    · by_cases hz' : (x i).addr NDIRECT = 0
      · exact .inl hz'
      · exact .inr (h.indirect_ne hj hli hbn hz')
  constructor
  · refine h.owned.alloc (i := i) (s := s) hlo hhi hle hfresh ?_ ?_
    · show ref d' (Function.update x i xi i) s = v
      rw [hrefs i hli, if_pos ⟨rfl, rfl⟩]
    · intro j t hj hjt
      show ref d' (Function.update x i xi j) t = ref d (x j) t
      rw [hrefs j hj, if_neg hjt]
  · intro j off hj
    rw [← h.byte j off hj]
    by_cases hlt : off / BSIZE < MAXFILE
    · have hr := hrefs j hj (off / BSIZE)
      rw [ref_of_lt hlt, ref_of_lt hlt] at hr
      by_cases hjs : j = i ∧ off / BSIZE = s
      · -- the new block is zero, and so was the hole it fills
        rw [if_pos hjs] at hr
        rw [← hjs.1, ← hjs.2, ref_of_lt hlt] at h0
        rw [fileByte, fileByte, hr, h0, if_neg (by omega), if_pos rfl, hz]
      · rw [if_neg hjs] at hr
        exact fileByte_congr hr (hdata j _ hj)
    · have hle' : MAXFILE ≤ off / BSIZE := by omega
      rw [fileByte, fileByte, dataAddr_of_le hle', dataAddr_of_le hle', if_pos rfl, if_pos rfl]

/-- A write to a data block changes no reference. -/
lemma addr_update (h : Stores d live x c lo hi) {i j s : ℕ} (hli : live i) (hlj : live j)
    (hne : dataAddr d (x i) s ≠ 0) (w : Block) (h0 : (x j).addr NDIRECT ≠ 0) :
    Function.update d (dataAddr d (x i) s) w ((x j).addr NDIRECT) = d ((x j).addr NDIRECT) :=
  Function.update_of_ne (h.indirect_ne hli hlj (lt_of_dataAddr_ne_zero hne) h0).symm _ _

/-- Bytes `[off, off + n)` of file `i`, all in one data block, are overwritten. -/
theorem write (h : Stores d live x c lo hi) {i off n : ℕ} (src : ℕ → UInt8) (hli : live i)
    (hne : dataAddr d (x i) (off / BSIZE) ≠ 0) (hn : off + n ≤ (off / BSIZE + 1) * BSIZE) :
    Stores (Function.update d (dataAddr d (x i) (off / BSIZE))
        (blit (d (dataAddr d (x i) (off / BSIZE))) (off - off / BSIZE * BSIZE) n src))
      live x (Function.update c i (blit (c i) off n src)) lo hi := by
  have hs := lt_of_dataAddr_ne_zero hne
  have hind := fun j (hj : live j) => h.addr_update hli hj hne
    (blit (d (dataAddr d (x i) (off / BSIZE))) (off - off / BSIZE * BSIZE) n src)
  constructor
  · exact h.owned.congr fun j s hj => ref_congr (hind j hj) s
  · intro j p hj
    have hB : BSIZE = 512 := rfl
    by_cases hsame : j = i ∧ p / BSIZE = off / BSIZE
    · obtain ⟨rfl, hp⟩ := hsame
      have hbyte := h.byte j p hj
      rw [fileByte, hp, if_neg hne] at hbyte
      rw [Function.update_self, fileByte, dataAddr_congr (hind j hj), hp, if_neg hne,
        Function.update_self]
      have hoff : off - off / BSIZE * BSIZE = off % BSIZE := by simp only [hB]; omega
      have hpos : p + off % BSIZE = off + p % BSIZE := by simp only [hB] at hp ⊢; omega
      rw [hoff]
      by_cases hin : off ≤ p ∧ p < off + n
      · rw [blit_in (by omega) (by omega), blit_in hin.1 hin.2]
        congr 1
        omega
      · rw [blit_out (by omega), blit_out (by omega), hbyte]
    · -- another block: nothing changes
      have hc : Function.update c i (blit (c i) off n src) j p = c j p := by
        by_cases hji : j = i
        · subst hji
          rw [Function.update_self, blit_out]
          have hp : p / BSIZE ≠ off / BSIZE := fun hp => hsame ⟨rfl, hp⟩
          simp only [hB] at hp hn
          omega
        · rw [Function.update_of_ne hji]
      rw [hc, ← h.byte j p hj]
      apply fileByte_congr (dataAddr_congr (hind j hj) _)
      intro hne'
      have hs' := lt_of_dataAddr_ne_zero hne'
      apply Function.update_of_ne
      rw [← ref_of_lt hs', ← ref_of_lt hs]
      intro heq
      exact hsame (h.owned.inj j i _ _ hj hli (by rw [ref_of_lt hs']; exact hne') heq)

end Stores

end OhMyXv6
