import OhMyXv6.Mkfs.Append

/-!
# The image between calls

`Rep s n ty c sz` says that the image of `s` holds `n` files with types `ty`, contents `c` and
sizes `sz`, each with one link. Each function that changes an inode has one lemma: `ialloc`,
`iappend` and the rounding of a directory's size.

The inode area has room for `NINODES` inodes and a little more, and it is followed by the
bitmap block. `Rep` is about images in which no inode lies beyond that block.
-/

namespace OhMyXv6
namespace Mkfs

open Bytes

/-- The first inode number whose inode would lie over a data block. -/
def inodeLimit : ℕ := (nmeta - sb.inodestart) * IPB

/-- The block of an inode is a block of metadata. -/
lemma IBLOCK_lt {i : ℕ} (hi : i < inodeLimit) : IBLOCK sb i < nmeta := by
  have hL : inodeLimit = 216 := rfl
  have hm : nmeta = 59 := rfl
  have hst : sb.inodestart = 32 := rfl
  have hI : IPB = 8 := rfl
  unfold IBLOCK
  rw [hst, hI]
  omega

/-- `rinode` reads the inode of the disk. -/
lemma rinode_eq {s : St} {i : ℕ} (hlen : s.img.len = FSSIZE) (hi : i < inodeLimit) :
    rinode s i = .ok (dinode sb s.img.disk i) := by
  have hlt := IBLOCK_lt hi
  have hm : nmeta = 59 := rfl
  have hF : FSSIZE = 2000 := rfl
  rw [rinode, rsect_of_lt hlen (by omega), ok_bind]
  rfl

/-- The state after an inode has been written. -/
def putInode (s : St) (i : ℕ) (y : Dinode) : St :=
  { s with
    img := ⟨s.img.len, setDinode sb s.img.disk i y⟩
    trace := s.trace ++ [.winode (IBLOCK sb i)] }

lemma winode_eq {s : St} {i : ℕ} (hlen : s.img.len = FSSIZE) (hi : i < inodeLimit) (y : Dinode) :
    winode s i y = .ok (putInode s i y) := by
  have hlt := IBLOCK_lt hi
  have hm : nmeta = 59 := rfl
  have hF : FSSIZE = 2000 := rfl
  have hsec : sector (IBLOCK sb i) = IBLOCK sb i := sector_of_le (by omega)
  have hmax : max s.img.len (IBLOCK sb i + 1) = s.img.len := by omega
  rw [winode, rsect_of_lt hlen (by omega), ok_bind]
  unfold wsect putInode
  rw [hsec, hmax]
  rfl

/-! ## The invariant -/

/-- The first `n` inodes have these types, contents and sizes, and the blocks fit together. -/
structure Rep (s : St) (n : ℕ) (ty : ℕ → ℕ) (c : ℕ → List UInt8) (sz : ℕ → ℕ) : Prop where
  hold : Holding s n (dinode sb s.img.disk) c fun i => slots (blocks (c i).length)
  hi : s.freeblock ≤ FSSIZE
  small : n < inodeLimit
  next : s.freeinode = n + 1
  type : ∀ i, Live n i → (dinode sb s.img.disk i).type = ty i
  nlink : ∀ i, Live n i → (dinode sb s.img.disk i).nlink = 1
  size : ∀ i, Live n i → (dinode sb s.img.disk i).size = sz i
  short : ∀ i, Live n i → (c i).length ≤ MAXFILE * BSIZE
  /-- The inodes that were not handed out are free. -/
  free : ∀ i, ¬ Live n i → i < inodeLimit → (dinode sb s.img.disk i).type = 0

/-- Only the addresses of an inode and its content count. -/
lemma Holding.congr_inode {s : St} {n : ℕ} {x x' : ℕ → Dinode} {c c' : ℕ → List UInt8}
    {U : ℕ → ℕ → Prop} (h : Holding s n x c U)
    (hx : ∀ i, Live n i → (x' i).addrs = (x i).addrs) (hc : ∀ i, Live n i → c' i = c i) :
    Holding s n x' c' U := by
  have href : ∀ i, Live n i → ∀ d t, ref d (x' i) t = ref d (x i) t :=
    fun i hi d t => ref_of_addrs (hx i hi) d t
  refine ⟨h.len, h.lo, ⟨h.stores.owned.congr fun i t hi => href i hi _ t, fun i off hi => ?_⟩,
    fun i t hi => by rw [href i hi]; exact h.used i t hi, h.fresh, h.events⟩
  rw [hc i hi, ← h.stores.byte i off hi, fileByte_of_addrs (hx i hi)]

/-- Writing an inode does not touch the data blocks. -/
lemma Holding.putInode {s : St} {n i : ℕ} {x : ℕ → Dinode} {c : ℕ → List UInt8}
    {U : ℕ → ℕ → Prop} (h : Holding s n x c U) (hi : i < inodeLimit) (hnext : i < s.freeinode)
    (y : Dinode) : Holding (putInode s i y) n x c U := by
  have hlt := IBLOCK_lt hi
  have hdisk : ∀ b, nmeta ≤ b → setDinode sb s.img.disk i y b = s.img.disk b := fun b hb =>
    setDinode_of_ne (by omega) _ _
  refine ⟨h.len, h.lo, h.stores.frame fun b hb _ => hdisk b hb, fun j t hj => ?_, fun b hb => ?_,
    fun e he => ?_⟩
  · rw [← h.used j t hj, ref_congr]
    intro h0
    have hr := h.addr_lt hj (t := MAXFILE) (by rw [ref_maxfile]; exact h0)
    rw [ref_maxfile] at hr
    exact hdisk _ hr.1
  · exact (hdisk b (Nat.le_trans h.lo hb)).trans (h.fresh b hb)
  · rcases List.mem_append.mp he with he | he
    · exact h.events e he
    · rw [List.mem_singleton.mp he]
      exact ⟨i, hnext, rfl⟩

section
variable {s : St} {n i : ℕ} {ty : ℕ → ℕ} {c : ℕ → List UInt8} {sz : ℕ → ℕ}

/-- Every inode is below the limit. -/
lemma Rep.lt_limit (h : Rep s n ty c sz) (hi : Live n i) : i < inodeLimit :=
  Nat.lt_of_le_of_lt hi.2 h.small

lemma Rep.lt_next (h : Rep s n ty c sz) (hi : Live n i) : i < s.freeinode := by
  rw [h.next]
  exact Nat.lt_succ_of_le hi.2

/-- An inode is written back with a new size, and possibly with new addresses and contents that
are already in place. -/
theorem Rep.putBack (h : Rep s n ty c sz) (hi : Live n i) {s' : St} {y : Dinode}
    {l : List UInt8} {k m : ℕ} (hold : Holding s' n (Function.update (dinode sb s.img.disk) i y)
      (Function.update c i l) (Function.update (fun j => slots (blocks (c j).length)) i
        (slots (blocks l.length))))
    (htook : Took k s s' (dinode sb s.img.disk i) y) (hkept : Kept s s')
    (hfb : s'.freeblock ≤ FSSIZE) (hl : l.length ≤ MAXFILE * BSIZE) (hm : m < 2 ^ 32) :
    Rep (putInode s' i { y with size := m }) n ty (Function.update c i l)
      (Function.update sz i m) := by
  have hF : FSSIZE = 2000 := rfl
  -- the inode area of `s'` is the one of `s`
  have hsame : ∀ j, j < inodeLimit → dinode sb s'.img.disk j = dinode sb s.img.disk j :=
    fun j hj => dinode_congr (htook.below _ (IBLOCK_lt hj))
  have hfits : (dinode sb s.img.disk i).Fits := fits_dinode _ _
  have haddr : ∀ j, y.addrs j < 2 ^ 32 := by
    intro j
    have hval : y.addrs j = y.addr j := by simp [Dinode.addr]
    by_cases h0 : y.addr j = 0
    · rw [hval, h0]
      decide
    · have href : ref s'.img.disk y (if (j : ℕ) < NDIRECT then j else MAXFILE) = y.addr j := by
        have hND : NDIRECT = 12 := rfl
        have hMAX : MAXFILE = 140 := rfl
        split
        · next hlt => rw [ref_of_lt (by omega), dataAddr, if_pos hlt]
        · next hge => rw [ref_maxfile, show (j : ℕ) = NDIRECT by omega]
      have hr := hold.addr_lt hi (t := if (j : ℕ) < NDIRECT then j else MAXFILE)
        (by rw [Function.update_self, href]; exact h0)
      rw [Function.update_self, href] at hr
      rw [hval]
      omega
  have hy : ({ y with size := m } : Dinode).Fits := by
    have hs := htook.same
    refine ⟨?_, ?_, ?_, ?_, hm, haddr⟩
    · show y.type < _
      rw [hs]; exact hfits.type
    · show y.major < _
      rw [hs]; exact hfits.major
    · show y.minor < _
      rw [hs]; exact hfits.minor
    · show y.nlink < _
      rw [hs]; exact hfits.nlink
  have hself : dinode sb (setDinode sb s'.img.disk i { y with size := m }) i
      = { y with size := m } := dinode_setDinode hy _ _
  have hother : ∀ j, j ≠ i → j < inodeLimit →
      dinode sb (setDinode sb s'.img.disk i { y with size := m }) j = dinode sb s.img.disk j :=
    fun j hji hj => (dinode_setDinode_of_ne hji _ _).trans (hsame j hj)
  have hnext : i < s'.freeinode := by
    rw [hkept.freeinode]
    exact h.lt_next hi
  have hput := hold.putInode (h.lt_limit hi) hnext { y with size := m }
  refine ⟨(hput.congr_inode (fun j hj => ?_) fun _ _ => rfl).congr fun j t hj => ?_, hfb, h.small,
    hkept.freeinode.trans h.next, fun j hj => ?_, fun j hj => ?_, fun j hj => ?_, fun j hj => ?_,
    fun j hj hlt => ?_⟩
  · show (dinode sb (setDinode sb s'.img.disk i { y with size := m }) j).addrs = _
    by_cases hji : j = i
    · subst hji
      rw [hself, Function.update_self]
    · rw [hother j hji (h.lt_limit hj), Function.update_of_ne hji]
  · by_cases hji : j = i
    · subst hji
      rw [Function.update_self, Function.update_self]
    · rw [Function.update_of_ne hji, Function.update_of_ne hji]
  · show (dinode sb (setDinode sb s'.img.disk i { y with size := m }) j).type = _
    by_cases hji : j = i
    · subst hji
      rw [hself, ← h.type j hj]
      show y.type = _
      rw [htook.same]
    · rw [hother j hji (h.lt_limit hj), h.type j hj]
  · show (dinode sb (setDinode sb s'.img.disk i { y with size := m }) j).nlink = _
    by_cases hji : j = i
    · subst hji
      rw [hself, ← h.nlink j hj]
      show y.nlink = _
      rw [htook.same]
    · rw [hother j hji (h.lt_limit hj), h.nlink j hj]
  · show (dinode sb (setDinode sb s'.img.disk i { y with size := m }) j).size = _
    by_cases hji : j = i
    · subst hji
      rw [hself, Function.update_self]
    · rw [hother j hji (h.lt_limit hj), h.size j hj, Function.update_of_ne hji]
  · by_cases hji : j = i
    · subst hji
      rw [Function.update_self]
      exact hl
    · rw [Function.update_of_ne hji]
      exact h.short j hj
  · show (dinode sb (setDinode sb s'.img.disk i { y with size := m }) j).type = _
    have hji : j ≠ i := fun hji => hj (hji ▸ hi)
    rw [hother j hji hlt, h.free j hj hlt]

/-! ## The operations -/

/-- Between appends the size of a file is the length of its contents. -/
abbrev Rep.Exact (s : St) (n : ℕ) (ty : ℕ → ℕ) (c : ℕ → List UInt8) : Prop :=
  Rep s n ty c fun i => (c i).length

/-- `iappend` appends the bytes, or the image or the file is full. -/
lemma iappend_spec (h : Rep.Exact s n ty c) (hi : Live n i) (p : List UInt8) :
    (∃ s', iappend s i p = .ok s' ∧ Rep.Exact s' n ty (Function.update c i (c i ++ p)) ∧
      s'.freeblock ≤ s.freeblock + 2 * p.length) ∨
    ((∃ e, iappend s i p = .error e) ∧
      (MAXFILE * BSIZE < (c i ++ p).length ∨ FSSIZE ≤ s.freeblock + 2 * p.length)) := by
  have hB : BSIZE = 512 := rfl
  have hMAX : MAXFILE = 140 := rfl
  rw [iappend, rinode_eq h.hold.len (h.lt_limit hi), ok_bind, h.size i hi]
  rcases appendLoop_spec h.hold hi (fun _ => Iff.rfl) h.hi p with
    ⟨s', y, hloop, hold, htook, hfb, hmax⟩ | ⟨⟨e, hloop⟩, hwhy⟩
  · left
    have hl : (c i ++ p).length ≤ MAXFILE * BSIZE := by
      by_cases hp : p = []
      · rw [hp, List.append_nil]
        exact h.short i hi
      · exact hmax hp
    rw [hloop, ok_bind]
    dsimp only
    rw [winode_eq hold.len (h.lt_limit hi)]
    refine ⟨_, rfl, ?_, htook.le'⟩
    have hback := h.putBack (m := (c i ++ p).length) hi hold htook (Kept.appendLoop hloop) hfb hl
      (by simp only [hB, hMAX] at hl; omega)
    have hsz : Function.update (fun j => (c j).length) i (c i ++ p).length
        = fun j => (Function.update c i (c i ++ p) j).length := by
      funext j
      by_cases hji : j = i
      · subst hji
        rw [Function.update_self, Function.update_self]
      · rw [Function.update_of_ne hji, Function.update_of_ne hji]
    rwa [hsz] at hback
  · right
    rw [hloop, error_bind]
    exact ⟨⟨e, rfl⟩, hwhy⟩

/-- The last loop of `main` rounds the size of a directory up, past its last byte. -/
theorem roundSize_spec (h : Rep s n ty c sz) (hi : Live n i) (hsz : sz i ≤ MAXFILE * BSIZE) :
    ∃ s', roundSize s i = .ok s' ∧
      Rep s' n ty c (Function.update sz i ((sz i / BSIZE + 1) * BSIZE)) ∧
      s'.freeblock = s.freeblock ∧ Kept s s' := by
  have hB : BSIZE = 512 := rfl
  have hMAX : MAXFILE = 140 := rfl
  rw [roundSize, rinode_eq h.hold.len (h.lt_limit hi), ok_bind, h.size i hi,
    winode_eq h.hold.len (h.lt_limit hi)]
  refine ⟨_, rfl, ?_, rfl, ⟨rfl, rfl, fun _ he => List.mem_append_left _ he⟩⟩
  have hold : Holding s n
      (Function.update (dinode sb s.img.disk) i (dinode sb s.img.disk i)) (Function.update c i (c i))
      (Function.update (fun j => slots (blocks (c j).length)) i (slots (blocks (c i).length))) := by
    rw [Function.update_eq_self, Function.update_eq_self,
      Function.update_eq_self i (fun j => slots (blocks (c j).length))]
    exact h.hold
  have hback := h.putBack (m := (sz i / BSIZE + 1) * BSIZE) hi hold (Took.refl 0 s _)
    (Kept.refl s) h.hi (h.short i hi) (by simp only [hB, hMAX] at hsz ⊢; omega)
  rwa [Function.update_eq_self] at hback

/-- The inode that `ialloc` writes. -/
def newInode (type : ℕ) : Dinode := { Dinode.zero with type := type, nlink := 1 }

lemma dataAddr_newInode (d : Disk) (type bn : ℕ) : dataAddr d (newInode type) bn = 0 := by
  have haddr : ∀ k, (newInode type).addr k = 0 := by
    intro k
    unfold Dinode.addr newInode Dinode.zero
    split <;> rfl
  unfold dataAddr
  rw [haddr, haddr, if_neg (fun h : bn < MAXFILE ∧ (0 : ℕ) ≠ 0 => h.2 rfl), ite_self]

lemma ref_newInode (d : Disk) (type t : ℕ) : ref d (newInode type) t = 0 := by
  unfold ref
  rw [dataAddr_newInode, ite_eq_right_iff]
  intro
  unfold Dinode.addr newInode Dinode.zero
  split <;> rfl

/-- The state after `freeinode++`. -/
def counted (s : St) : St := log { s with freeinode := s.freeinode + 1 } (.inode s.freeinode)

/-- `ialloc` writes the next inode. -/
lemma ialloc_eq (h : Rep s n ty c sz) (hn : n + 1 < inodeLimit) (type : ℕ) :
    ialloc s type = .ok (n + 1, putInode (counted s) (n + 1) (newInode type)) := by
  show (winode (counted s) s.freeinode (newInode type) >>= fun s' => pure (s.freeinode, s')) = _
  rw [h.next, winode_eq (s := counted s) h.hold.len hn]
  rfl

/-- The image then holds one inode more, with no content. -/
lemma Rep.ialloc (h : Rep s n ty c sz) (hn : n + 1 < inodeLimit) {type : ℕ}
    (htype : type < 2 ^ 16) :
    Rep (putInode (counted s) (n + 1) (newInode type)) (n + 1) (Function.update ty (n + 1) type)
      (Function.update c (n + 1) []) (Function.update sz (n + 1) 0) := by
  have hnew : (newInode type).Fits :=
    ⟨htype, by show 0 < _; decide, by show 0 < _; decide, by show 1 < _; decide,
      by show 0 < _; decide, fun _ => by show 0 < _; decide⟩
  have hself : dinode sb (setDinode sb s.img.disk (n + 1) (newInode type)) (n + 1)
      = newInode type := dinode_setDinode hnew _ _
  have hother : ∀ j, j ≠ n + 1 →
      dinode sb (setDinode sb s.img.disk (n + 1) (newInode type)) j = dinode sb s.img.disk j :=
    fun j hj => dinode_setDinode_of_ne hj _ _
  have hold : ∀ j, Live (n + 1) j → j ≠ n + 1 → Live n j := fun j hj hne =>
    ⟨hj.1, by have := hj.2; omega⟩
  have hne : ∀ j, Live n j → j ≠ n + 1 := fun j hj => by have := hj.2; omega
  -- counting the inode changes nothing on the image
  have hcount : Holding (counted s) n (dinode sb s.img.disk) c
      fun i => slots (blocks (c i).length) := by
    refine ⟨h.hold.len, h.hold.lo, h.hold.stores, h.hold.used, h.hold.fresh, fun e he => ?_⟩
    rcases List.mem_append.mp he with he | he
    · exact (h.hold.events e he).mono (Nat.le_succ _) (Nat.le_refl _)
    · rw [List.mem_singleton.mp he]
      exact Nat.lt_succ_self _
  have hput : Holding (putInode (counted s) (n + 1) (newInode type)) n
      (dinode sb (setDinode sb s.img.disk (n + 1) (newInode type)))
      (Function.update c (n + 1) []) fun i => slots (blocks (c i).length) := by
    have hnext : n + 1 < (counted s).freeinode := by
      show n + 1 < s.freeinode + 1
      rw [h.next]
      exact Nat.lt_succ_self _
    refine (hcount.putInode hn hnext _).congr_inode (fun j hj => ?_) fun j hj => ?_
    · rw [hother j (hne j hj)]
    · exact Function.update_of_ne (hne j hj) _ _
  refine ⟨⟨hput.len, hput.lo, ⟨hput.stores.owned.extend fun j t hj h0 => ?_, fun j off hj => ?_⟩,
    fun j t hj => ?_, hput.fresh, hput.events⟩, h.hi, hn, ?_, fun j hj => ?_, fun j hj => ?_,
    fun j hj => ?_, fun j hj => ?_, fun j hj hlt => ?_⟩
  · by_contra hl
    have hj' : j = n + 1 := by
      by_contra hj'
      exact hl (hold j hj hj')
    rw [hj', hself, ref_newInode] at h0
    exact h0 rfl
  · show fileByte (setDinode sb s.img.disk (n + 1) (newInode type)) (dinode sb (setDinode sb
      s.img.disk (n + 1) (newInode type)) j) off = _
    by_cases hj' : j = n + 1
    · rw [hj', hself, Function.update_self, fileByte, dataAddr_newInode, if_pos rfl]
      rfl
    · exact hput.stores.byte j off (hold j hj hj')
  · show ref (setDinode sb s.img.disk (n + 1) (newInode type)) (dinode sb (setDinode sb
      s.img.disk (n + 1) (newInode type)) j) t ≠ 0 ↔ _
    by_cases hj' : j = n + 1
    · rw [hj', hself, ref_newInode, Function.update_self]
      have h0 : blocks 0 = 0 := by decide
      have hMAX : MAXFILE = 140 := rfl
      simp only [List.length_nil, h0, slots]
      omega
    · rw [Function.update_of_ne hj']
      exact hput.used j t (hold j hj hj')
  · show s.freeinode + 1 = _
    rw [h.next]
  · show (dinode sb (setDinode sb s.img.disk (n + 1) (newInode type)) j).type = _
    by_cases hj' : j = n + 1
    · rw [hj', hself, Function.update_self]
      rfl
    · rw [hother j hj', Function.update_of_ne hj', h.type j (hold j hj hj')]
  · show (dinode sb (setDinode sb s.img.disk (n + 1) (newInode type)) j).nlink = _
    by_cases hj' : j = n + 1
    · rw [hj', hself]
      rfl
    · rw [hother j hj', h.nlink j (hold j hj hj')]
  · show (dinode sb (setDinode sb s.img.disk (n + 1) (newInode type)) j).size = _
    by_cases hj' : j = n + 1
    · rw [hj', hself, Function.update_self]
      rfl
    · rw [hother j hj', Function.update_of_ne hj', h.size j (hold j hj hj')]
  · by_cases hj' : j = n + 1
    · rw [hj', Function.update_self]
      exact Nat.zero_le _
    · rw [Function.update_of_ne hj']
      exact h.short j (hold j hj hj')
  · show (dinode sb (setDinode sb s.img.disk (n + 1) (newInode type)) j).type = _
    have hj' : j ≠ n + 1 := fun hj' => hj ⟨by omega, by omega⟩
    rw [hother j hj', h.free j (fun hl => hj ⟨hl.1, Nat.le_succ_of_le hl.2⟩) hlt]

end

end Mkfs
end OhMyXv6
