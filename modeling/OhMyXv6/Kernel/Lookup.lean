import OhMyXv6.Kernel.Read
import OhMyXv6.Kernel.System

/-!
# Path lookup while nothing else happens

The disk `d` stays as it is, nobody else has a lock, and the references to the entries of the inode
cache are those of the tables, `R`, and those that the lookup itself takes. Then `namex` goes from
directory to directory: `At` says where it stands, and `exec_namexLoop_step` is one round of its loop.
-/

namespace OhMyXv6
namespace Kernel

open Bytes

/-- One more reference to an entry. -/
def plus (R : ℕ → ℕ) (ip : ℕ) : ℕ → ℕ := fun e => R e + if e = ip then 1 else 0

/-- The entry has one reference more. -/
lemma plus_self (R : ℕ → ℕ) (ip : ℕ) : plus R ip ip = R ip + 1 := by
  unfold plus
  rw [if_pos rfl]

lemma plus_pos (R : ℕ → ℕ) (ip : ℕ) : 0 < plus R ip ip := by
  rw [plus_self]
  omega

/-- The others have as many as before. -/
lemma plus_of_ne {R : ℕ → ℕ} {ip e : ℕ} (h : e ≠ ip) : plus R ip e = R e := by
  unfold plus
  rw [if_neg h, Nat.add_zero]

/-- Two references are taken in any order. -/
lemma plus_comm (R : ℕ → ℕ) (a b : ℕ) : plus (plus R a) b = plus (plus R b) a := by
  funext e
  unfold plus
  omega

/-- The cache agrees with the disk, and `R` counts the references. -/
structure Tracks (d : Disk) (k : State) (R : ℕ → ℕ) : Prop where
  disk : k.disk = d
  super : k.sb = .read (d 1)
  refs : ∀ e < NINODE, (k.icache e).ref = R e
  single : ∀ e < NINODE, ∀ c < NINODE, 0 < R e → 0 < R c →
    (k.icache e).inum = (k.icache c).inum → e = c
  din : ∀ e < NINODE, 0 < R e → (k.icache e).valid = true →
    (k.icache e).din = dinode (.read (d 1)) d (k.icache e).inum

/-- The call has a reference to entry `ip`, which is that of inode `i`, and there are no locks. -/
structure At (d : Disk) (k : State) (R : ℕ → ℕ) (ip i : ℕ) : Prop where
  tracks : Tracks d k (plus R ip)
  lt : ip < NINODE
  inum : (k.icache ip).inum = i
  unlocked : ∀ e < NINODE, (k.icache e).lock = none

/-- The call has locked the entry. -/
structure Locked (d : Disk) (k : State) (R : ℕ → ℕ) (ip i : ℕ) : Prop where
  tracks : Tracks d k (plus R ip)
  lt : ip < NINODE
  inum : (k.icache ip).inum = i
  lock : (k.icache ip).lock.isSome
  unlocked : ∀ e < NINODE, e ≠ ip → (k.icache e).lock = none
  valid : (k.icache ip).valid = true
  din : (k.icache ip).din = dinode (.read (d 1)) d i

section
variable {d : Disk} {k : State} {R : ℕ → ℕ} {ip i : ℕ}

/-- An entry changes nothing that `Tracks` is about but its own fields. -/
theorem Tracks.setInode (h : Tracks d k R) {R' : ℕ → ℕ} {x : Inode}
    (hother : ∀ e, e ≠ ip → R' e = R e) (href : x.ref = R' ip)
    (hsingle : 0 < R' ip → ∀ e < NINODE, e ≠ ip → 0 < R e → (k.icache e).inum ≠ x.inum)
    (hdin : 0 < R' ip → x.valid = true → x.din = dinode (.read (d 1)) d x.inum) :
    Tracks d (k.setInode ip x) R' := by
  have hself : (k.setInode ip x).icache ip = x := Function.update_self _ _ _
  -- the other entries stay, and only `ip` may take the new number
  have hne : ∀ e, e ≠ ip → (k.setInode ip x).icache e = k.icache e := fun e he =>
    Function.update_of_ne he _ _
  refine ⟨h.disk, h.super, ?_, ?_, ?_⟩
  · intro e he
    by_cases heq : e = ip
    · rw [heq, hself, href]
    · rw [hne e heq, hother e heq, h.refs e he]
  · intro e he c hc hpe hpc hsame
    by_cases heq : e = ip
    · by_cases hcq : c = ip
      · rw [heq, hcq]
      · rw [heq, hself, hne c hcq] at hsame
        rw [heq] at hpe
        rw [hother c hcq] at hpc
        exact absurd hsame.symm (hsingle hpe c hc hcq hpc)
    · by_cases hcq : c = ip
      · rw [hcq, hself, hne e heq] at hsame
        rw [hcq] at hpc
        rw [hother e heq] at hpe
        exact absurd hsame (hsingle hpc e he heq hpe)
      · rw [hne e heq, hne c hcq] at hsame
        rw [hother e heq] at hpe
        rw [hother c hcq] at hpc
        exact h.single e he c hc hpe hpc hsame
  · intro e he hpos hvalid
    by_cases heq : e = ip
    · rw [heq, hself] at hvalid ⊢
      rw [heq] at hpos
      exact hdin hpos hvalid
    · rw [hne e heq] at hvalid ⊢
      rw [hother e heq] at hpos
      exact h.din e he hpos hvalid

/-- `iget` of an inode that is in the cache. -/
lemma exec_iget_hit {j e : ℕ} (h : ((List.range NINODE).find? fun e =>
      0 < (k.icache e).ref && (k.icache e).inum == j) = some e) :
    Prog.exec (Kernel.iget j) k
      = .done e (k.setInode e { k.icache e with ref := (k.icache e).ref + 1 }) := by
  unfold Kernel.iget
  rw [Prog.exec_act, h]

/-- `iget` of an inode that is not in the cache takes an empty entry. -/
lemma exec_iget_miss {j e : ℕ} (h : ((List.range NINODE).find? fun e =>
      0 < (k.icache e).ref && (k.icache e).inum == j) = none)
    (hempty : ((List.range NINODE).find? fun e => (k.icache e).ref == 0) = some e) :
    Prog.exec (Kernel.iget j) k
      = .done e (k.setInode e { k.icache e with inum := j, ref := 1, valid := false }) := by
  unfold Kernel.iget
  rw [Prog.exec_act, h]
  dsimp only
  rw [hempty]

/-- `iget` finds the entry of the inode, or takes one that is free. -/
theorem Tracks.iget (h : Tracks d k R) (hfree : ∃ e < NINODE, R e = 0) (j : ℕ) :
    ∃ e k', Prog.exec (Kernel.iget j) k = .done e k' ∧ Tracks d k' (plus R e) ∧ e < NINODE ∧
      (k'.icache e).inum = j ∧ (∀ c, (k'.icache c).lock = (k.icache c).lock) ∧
      ∀ c < NINODE, 0 < R c → (k'.icache c).inum = (k.icache c).inum ∧
        (k'.icache c).valid = (k.icache c).valid ∧ (k'.icache c).din = (k.icache c).din := by
  have hframe : ∀ (e : ℕ) (x : Inode), x.lock = (k.icache e).lock →
      ∀ c, ((k.setInode e x).icache c).lock = (k.icache c).lock := by
    intro e x hx c
    show (Function.update k.icache e x c).lock = _
    by_cases hc : c = e
    · rw [hc, Function.update_self, hx]
    · rw [Function.update_of_ne hc]
  rcases hhit : (List.range NINODE).find? fun e =>
      0 < (k.icache e).ref && (k.icache e).inum == j with _ | e
  -- no entry in use has the number, so the scan takes a free one
  · have hmiss : ∀ c < NINODE, 0 < R c → (k.icache c).inum ≠ j := by
      intro c hc hpos heq
      have hnot := List.find?_eq_none.mp hhit c (List.mem_range.mpr hc)
      rw [h.refs c hc] at hnot
      simp [hpos, heq] at hnot
    rcases hempty : (List.range NINODE).find? fun e => (k.icache e).ref == 0 with _ | e
    · obtain ⟨e, he, h0⟩ := hfree
      have hnot := List.find?_eq_none.mp hempty e (List.mem_range.mpr he)
      rw [h.refs e he, h0] at hnot
      exact absurd rfl hnot
    · have he : e < NINODE := List.mem_range.mp (List.mem_of_find?_eq_some hempty)
      have h0 : R e = 0 := by
        have hz := List.find?_some hempty
        rw [← h.refs e he]
        exact beq_iff_eq.mp hz
      have hself : ((k.setInode e { k.icache e with inum := j, ref := 1, valid := false }).icache e)
          = { k.icache e with inum := j, ref := 1, valid := false } := Function.update_self _ _ _
      refine ⟨e, k.setInode e { k.icache e with inum := j, ref := 1, valid := false },
        exec_iget_miss hhit hempty, ?_, he, ?_, hframe e _ rfl, ?_⟩
      · apply h.setInode
        · exact fun c hc => plus_of_ne hc
        · rw [plus_self, h0]
        · exact fun _ c hc _ hpos => hmiss c hc hpos
        · exact fun _ hvalid => nomatch hvalid
      · rw [hself]
      · intro c _ hpos
        have hc : c ≠ e := by
          rintro rfl
          omega
        have hsame : ((k.setInode e { k.icache e with inum := j, ref := 1, valid := false }).icache c)
            = k.icache c := Function.update_of_ne hc _ _
        rw [hsame]
        exact ⟨rfl, rfl, rfl⟩
  · have he : e < NINODE := List.mem_range.mp (List.mem_of_find?_eq_some hhit)
    -- the entry is there already and gets one reference more
    have hfound := List.find?_some hhit
    rw [Bool.and_eq_true, decide_eq_true_eq, beq_iff_eq, h.refs e he] at hfound
    have hself : ((k.setInode e { k.icache e with ref := (k.icache e).ref + 1 }).icache e)
        = { k.icache e with ref := (k.icache e).ref + 1 } := Function.update_self _ _ _
    refine ⟨e, k.setInode e { k.icache e with ref := (k.icache e).ref + 1 },
      exec_iget_hit hhit, ?_, he, ?_, hframe e _ rfl, ?_⟩
    · apply h.setInode
      · exact fun c hc => plus_of_ne hc
      · rw [plus_self, ← h.refs e he]
      · exact fun _ c hc hce hpos hsame => hce (h.single c hc e he hpos hfound.1 hsame)
      · exact fun _ hvalid => h.din e he hfound.1 hvalid
    · rw [hself]
      exact hfound.2
    · intro c _ _
      by_cases hc : c = e
      · rw [hc, hself]
        exact ⟨rfl, rfl, rfl⟩
      · have hsame : ((k.setInode e { k.icache e with ref := (k.icache e).ref + 1 }).icache c)
            = k.icache c := Function.update_of_ne hc _ _
        rw [hsame]
        exact ⟨rfl, rfl, rfl⟩

/-! ## Locking -/

/-- `ilock` of an inode that is allocated. -/
lemma At.ilock (h : At d k R ip i) (p : ℕ) (htype : (dinode (.read (d 1)) d i).type ≠ 0) :
    ∃ k', Prog.exec (Kernel.ilock p ip) k = .done () k' ∧ Locked d k' R ip i := by
  have href := h.tracks.refs ip h.lt
  have hpos := plus_pos R ip
  -- the sleep-lock is taken
  have hacquire : Prog.exec (acquire p ip) k
      = .done () (k.setInode ip { k.icache ip with lock := some p }) := by
    unfold acquire
    rw [Prog.exec_act, if_neg (by omega), if_neg (by rw [h.unlocked ip h.lt]; exact nofun)]
  set k₁ := k.setInode ip { k.icache ip with lock := some p } with hk₁
  have hself : k₁.icache ip = { k.icache ip with lock := some p } := Function.update_self _ _ _
  have hne : ∀ e, e ≠ ip → k₁.icache e = k.icache e := fun e he => Function.update_of_ne he _ _
  have htracks : Tracks d k₁ (plus R ip) := by
    apply h.tracks.setInode
    · exact fun _ _ => rfl
    · exact href
    · exact fun _ e he hne hpe hsame => hne (h.tracks.single e he ip h.lt hpe hpos hsame)
    · exact fun _ hvalid => h.tracks.din ip h.lt hpos hvalid
  have hinum : (k₁.icache ip).inum = i := by
    rw [hself]
    exact h.inum
  have hunlocked : ∀ e < NINODE, e ≠ ip → (k₁.icache e).lock = none := by
    intro e he hei
    rw [hne e hei]
    exact h.unlocked e he
  unfold Kernel.ilock
  rw [exec_seq hacquire]
  by_cases hvalid : (k₁.icache ip).valid = true
  · refine ⟨k₁, ?_, htracks, h.lt, hinum, ?_, hunlocked, hvalid, ?_⟩
    · unfold iload
      rw [Prog.exec_act, if_pos hvalid]
    · rw [hself]
      rfl
    · rw [htracks.din ip h.lt hpos hvalid, hinum]
  · -- the inode is read from the disk
    set x : Inode := { k₁.icache ip with din := dinode (.read (d 1)) d i, valid := true } with hx
    have hself₂ : (k₁.setInode ip x).icache ip = x := Function.update_self _ _ _
    refine ⟨k₁.setInode ip x, ?_, ?_, h.lt, ?_, ?_, ?_, ?_, ?_⟩
    · unfold iload
      rw [Prog.exec_act, if_neg hvalid, htracks.super, htracks.disk, hinum, if_neg htype]
    · apply htracks.setInode
      · exact fun _ _ => rfl
      · exact htracks.refs ip h.lt
      · exact fun _ e he hne hpe hsame => hne (htracks.single e he ip h.lt hpe hpos hsame)
      · intro _ _
        show dinode (.read (d 1)) d i = dinode (.read (d 1)) d (k₁.icache ip).inum
        rw [hinum]
    · rw [hself₂]
      exact hinum
    · rw [hself₂]
      show (k₁.icache ip).lock.isSome
      rw [hself]
      rfl
    · intro e he hei
      have hsame : (k₁.setInode ip x).icache e = k₁.icache e := Function.update_of_ne hei _ _
      rw [hsame]
      exact hunlocked e he hei
    · rw [hself₂]
    · rw [hself₂]

/-- `iunlockput` of an entry whose inode has links. -/
lemma Tracks.iunlockput (h : Tracks d k (plus R ip)) (hlt : ip < NINODE)
    (hlock : (k.icache ip).lock.isSome) (hunlocked : ∀ e < NINODE, e ≠ ip → (k.icache e).lock = none)
    (hnlink : (k.icache ip).din.nlink ≠ 0) :
    ∃ k', Prog.exec (Kernel.iunlockput ip) k = .done () k' ∧ Tracks d k' R ∧
      (∀ e < NINODE, (k'.icache e).lock = none) ∧ ∀ e, (k'.icache e).inum = (k.icache e).inum := by
  have href := h.refs ip hlt
  rw [plus_self] at href
  have hpos := plus_pos R ip
  have hunlock : Prog.exec (iunlock ip) k
      = .done () (k.setInode ip { k.icache ip with lock := none }) := by
    unfold iunlock
    rw [Prog.exec_act, if_neg]
    rintro (hnone | hless)
    · rw [Option.isNone_iff_eq_none] at hnone
      rw [hnone] at hlock
      exact nomatch hlock
    · omega
  set k₁ := k.setInode ip { k.icache ip with lock := none } with hk₁
  have hself : k₁.icache ip = { k.icache ip with lock := none } := Function.update_self _ _ _
  have hne : ∀ e, e ≠ ip → k₁.icache e = k.icache e := fun e he => Function.update_of_ne he _ _
  have htracks : Tracks d k₁ (plus R ip) := by
    apply h.setInode
    · exact fun _ _ => rfl
    · exact h.refs ip hlt
    · exact fun _ e he hne hpe hsame => hne (h.single e he ip hlt hpe hpos hsame)
    · exact fun _ hvalid => h.din ip hlt hpos hvalid
  -- the last reference is not given back as long as there are links
  set x : Inode := { k₁.icache ip with ref := (k₁.icache ip).ref - 1 } with hx
  have htest : Prog.exec (iputTest ip) k₁ = .done false (k₁.setInode ip x) := by
    have hpos₁ : ¬ (k₁.icache ip).ref < 1 := by
      rw [hself]
      show ¬ (k.icache ip).ref < 1
      omega
    unfold iputTest
    rw [Prog.exec_act]
    dsimp only
    rw [if_neg hpos₁, if_neg]
    rintro ⟨-, -, h0⟩
    rw [hself] at h0
    exact hnlink h0
  refine ⟨k₁.setInode ip x, ?_, ?_, ?_, ?_⟩
  · unfold Kernel.iunlockput iput
    rw [exec_seq hunlock, exec_seq htest]
    rfl
  · apply htracks.setInode
    · exact fun e he => (plus_of_ne he).symm
    · show (k₁.icache ip).ref - 1 = R ip
      rw [hself]
      show (k.icache ip).ref - 1 = R ip
      omega
    · exact fun _ e he hne hpe hsame => hne (htracks.single e he ip hlt hpe hpos hsame)
    · exact fun _ hvalid => htracks.din ip hlt hpos hvalid
  · intro e he
    show (Function.update k₁.icache ip x e).lock = none
    by_cases hei : e = ip
    · rw [hei, Function.update_self]
      show (k₁.icache ip).lock = none
      rw [hself]
    · rw [Function.update_of_ne hei, hne e hei]
      exact hunlocked e he hei
  · intro e
    show (Function.update k₁.icache ip x e).inum = _
    by_cases hei : e = ip
    · rw [hei, Function.update_self]
      show (k₁.icache ip).inum = _
      rw [hself]
    · rw [Function.update_of_ne hei, hne e hei]

/-! ## One round of `namex` -/

/-- The file of an inode on the disk. -/
def onDisk (d : Disk) (i : ℕ) : Node :=
  let x := dinode (.read (d 1)) d i
  ⟨x.type, x.major, x.minor, x.nlink, x.size, fileByte d x⟩

/-- A locked entry holds the inode on the disk. -/
lemma Locked.cached (h : Locked d k R ip i) : k.cached ip = onDisk d i := by
  unfold State.cached onDisk
  rw [h.din, h.tracks.disk]

/-- Entry `j` is the first with the name in directory `i`, and all entries up to it are there. -/
structure Finds (d : Disk) (i : ℕ) (name : List UInt8) (j : ℕ) : Prop where
  type : (onDisk d i).type = T_DIR
  nlink : (onDisk d i).nlink ≠ 0
  size : (onDisk d i).size < 2 ^ 32
  find : (onDisk d i).find name = some j
  fits : DIRENTSIZE * (j + 1) ≤ (onDisk d i).size
  there : ∀ m, m ≤ j → dataAddr d (dinode (.read (d 1)) d i) (DIRENTSIZE * m / BSIZE) ≠ 0

/-- One round of `namex`, in a directory that has the name. -/
lemma exec_namexLoop_step (h : At d k R ip i) (hfree : ∃ e < NINODE, plus R ip e = 0) (p fuel : ℕ)
    {path name rest : List UInt8} (hskip : skipelem path = some (name, rest)) {j : ℕ}
    (hfind : Finds d i name j) :
    ∃ next k', At d k' R next ((onDisk d i).inum j) ∧
      Prog.exec (namexLoop p false (fuel + 1) ip path) k
        = Prog.exec (namexLoop p false fuel next rest) k' := by
  have htype : (dinode (.read (d 1)) d i).type = T_DIR := hfind.type
  obtain ⟨k₁, hilock, hk₁⟩ := h.ilock p (by rw [htype]; decide)
  have hcached := hk₁.cached
  -- the lookup takes a reference to the next inode
  obtain ⟨next, k₂, higet, htracks, hlt, hinum, hlocks, hsame⟩ :=
    hk₁.tracks.iget hfree ((onDisk d i).inum j)
  have hpos := plus_pos R ip
  obtain ⟨hsi, hsv, hsd⟩ := hsame ip h.lt hpos
  have hlookup : Prog.exec (dirlookup ip name) k₁ = .done (some (next, DIRENTSIZE * j)) k₂ := by
    rw [exec_dirlookup (j := j), hcached, higet]
    · rfl
    · rw [hk₁.din]
      exact htype
    · rw [hk₁.din]
      exact hfind.size
    · rw [hcached]
      exact hfind.find
    · rw [hk₁.din]
      exact hfind.fits
    · intro m hm
      unfold State.HasBlock
      rw [hk₁.din, hk₁.tracks.disk]
      exact hfind.there m hm
  -- and the one to this directory is given back
  have hput := Tracks.iunlockput (R := plus R next) (by rw [plus_comm]; exact htracks) h.lt
    (by rw [hlocks]; exact hk₁.lock)
    (by intro e he hei; rw [hlocks]; exact hk₁.unlocked e he hei)
    (by rw [hsd, hk₁.din]; exact hfind.nlink)
  obtain ⟨k₃, hexec, htracks₃, hunlocked, hinums⟩ := hput
  refine ⟨next, k₃, ⟨htracks₃, hlt, by rw [hinums, hinum], hunlocked⟩, ?_⟩
  rw [namexLoop, hskip]
  dsimp only
  rw [exec_seq hilock, exec_get, if_neg (by rw [hk₁.din, htype]; exact fun hne => hne rfl),
    if_neg (by rintro ⟨hfalse, -⟩; exact nomatch hfalse), exec_seq hlookup]
  dsimp only
  rw [exec_seq hexec]

/-! ## A name that is not there

The scan goes to the end of the directory. The last block of a directory may be missing, and `readi`
then allocates it; a fresh block is zeroed, so it has no entries. -/

/-- `bzero` clears the block and leaves the inodes alone. -/
lemma wp_bzero (b : ℕ) : Prog.wp (fun _ => True) (bzero b) (fun _ t =>
    t.disk b = zeroBlock ∧ t.icache = k.icache) k := by
  unfold bzero logBlock
  rw [Prog.wp_act]
  unfold log_write
  split
  · trivial
  split
  · trivial
  · exact ⟨Function.update_self _ _ _, rfl⟩

/-- By induction on the blocks of the free map. -/
lemma wp_ballocLoop (n b : ℕ) : Prog.wp (fun _ => True) (ballocLoop n b) (fun a t =>
    t.disk a = zeroBlock ∧ t.icache = k.icache) k := by
  induction n generalizing k b with
  | zero => trivial
  | succ n ih =>
    unfold ballocLoop
    have hscan : Prog.wp (fun _ => True) (ballocScan b) (fun _ t => t.icache = k.icache) k := by
      unfold ballocScan
      rw [Prog.wp_act]
      dsimp only
      split
      · rfl
      · unfold log_write
        split
        · trivial
        split
        · trivial
        · rfl
    refine Prog.wp_seq hscan ?_
    intro r t ht
    cases r with
    | none =>
      refine Prog.wp_mono (ih (b + BPB)) ?_
      intro a u hu
      exact ⟨hu.1, hu.2.trans ht⟩
    | some bi =>
      refine Prog.wp_seq (wp_bzero (b + bi)) ?_
      intro _ u hu
      exact ⟨hu.1, hu.2.trans ht⟩

/-- The block that `balloc` returns is zero. -/
lemma wp_balloc : Prog.wp (fun _ => True) balloc (fun a t =>
    t.disk a = zeroBlock ∧ t.icache = k.icache) k := by
  unfold balloc
  rw [Prog.wp_bind]
  exact wp_ballocLoop _ 0

/-- From offset `len` on, the last block of the directory, block `h`, has only zeros. -/
structure Blank (ip h len : ℕ) (k : State) : Prop where
  type : (k.icache ip).din.type = T_DIR
  size : (k.icache ip).din.size = BSIZE * (h + 1)
  zero : (k.icache ip).din.addr h ≠ 0 → ∀ j < BSIZE, len ≤ BSIZE * h + j →
    k.disk ((k.icache ip).din.addr h) j = 0

variable {h len : ℕ}

/-- A block behind the end of the directory is there and zero, or becomes so. -/
lemma Blank.bmap (hb : Blank ip h len k) (hh : h < NDIRECT) :
    Prog.wp (fun _ => True) (Kernel.bmap ip h) (fun a t => Blank ip h len t ∧
      ∀ j < BSIZE, len ≤ BSIZE * h + j → t.disk a j = 0) k := by
  unfold Kernel.bmap bmapAddr
  rw [if_pos hh, Prog.wp_bind, Prog.wp_act]
  show Prog.wp _ _ _ k
  by_cases h0 : (k.icache ip).din.addr h = 0
  · rw [if_pos h0]
    refine Prog.wp_seq wp_balloc ?_
    intro a t ht
    unfold modifyDin modify
    rw [Prog.wp_bind, Prog.wp_act]
    set x : Inode := { t.icache ip with din := (t.icache ip).din.setAddr h a } with hx
    have hself : (t.setInode ip x).icache ip = x := Function.update_self _ _ _
    have haddr : x.din.addr h = a := Dinode.addr_setAddr (by
      have hN : NDIRECT = 12 := rfl
      omega)
    have hzero : ∀ j < BSIZE, len ≤ BSIZE * h + j → t.disk a j = 0 := by
      intro j _ _
      rw [ht.1]
      rfl
    refine ⟨⟨?_, ?_, ?_⟩, hzero⟩
    · rw [hself]
      show (t.icache ip).din.type = T_DIR
      rw [ht.2]
      exact hb.type
    · rw [hself]
      show (t.icache ip).din.size = _
      rw [ht.2]
      exact hb.size
    · rw [hself, haddr]
      exact fun _ => hzero
  · rw [if_neg h0]
    exact ⟨hb, hb.zero h0⟩

/-- An entry of the blank part is a free one. -/
lemma Blank.readDirent (hb : Blank ip h len k) (hh : h < NDIRECT) {m : ℕ} {e : Panic}
    (hlen : BSIZE * h ≤ len) (hle : len ≤ DIRENTSIZE * m) (hlt : DIRENTSIZE * (m + 1) ≤ BSIZE * (h + 1)) :
    Prog.wp (fun _ => True) (Kernel.readDirent ip (DIRENTSIZE * m) e) (fun de t =>
      Blank ip h len t ∧ deInum de = 0) k := by
  have hB : BSIZE = 512 := rfl
  have hS : DIRENTSIZE = 16 := rfl
  simp only [hB, hS] at hlen hle hlt
  have hblock : DIRENTSIZE * m / BSIZE = h := by
    rw [hB, hS]
    omega
  have hchunk : chunk (DIRENTSIZE * m) DIRENTSIZE = DIRENTSIZE := by
    unfold chunk
    rw [hB, hS]
    omega
  -- behind the content the block is zero
  have hbytes : ∀ a (t : State), (∀ j < BSIZE, len ≤ BSIZE * h + j → t.disk a j = 0) →
      ∀ j < DIRENTSIZE, t.disk a (DIRENTSIZE * m % BSIZE + j) = 0 := by
    intro a t ht j hj
    apply ht
    · rw [hS] at hj
      rw [hB, hS]
      omega
    · rw [hB, hS]
      omega
  -- one block is enough for the record
  have hread : Prog.wp (fun _ => True) (readi ip (DIRENTSIZE * m) DIRENTSIZE) (fun r t =>
      Blank ip h len t ∧ ∀ de, r = some de → ∀ j < 2, ofList de j = 0) k := by
    unfold readi
    rw [wp_get_bind, if_neg (by rw [hb.type]; decide)]
    split
    · exact ⟨hb, nofun⟩
    rw [hb.size, show readiLen (BSIZE * (h + 1)) (DIRENTSIZE * m) DIRENTSIZE = DIRENTSIZE from by
      unfold readiLen
      rw [hB, hS, if_neg (by omega)], Prog.wp_bind]
    rw [show DIRENTSIZE = 15 + 1 from rfl, readiLoop, ← show DIRENTSIZE = 15 + 1 from rfl,
      if_neg (by rw [hS]; omega), hblock, hchunk]
    refine Prog.wp_seq (hb.bmap hh) ?_
    intro a t ht
    rw [wp_get_bind, Nat.sub_self, readiLoop, if_pos rfl]
    refine ⟨ht.1, ?_⟩
    intro de hde j hj
    obtain rfl := Option.some.inj hde
    rw [List.append_nil]
    unfold ofList
    rw [List.getD_eq_getElem _ _ (by rw [List.length_map, List.length_range, hS]; omega),
      List.getElem_map, List.getElem_range]
    exact hbytes a t ht.2 j (by omega)
  unfold Kernel.readDirent
  refine Prog.wp_seq hread ?_
  intro r t ht
  cases r with
  | none => trivial
  | some de =>
    dsimp only
    split
    · refine ⟨ht.1, ?_⟩
      unfold deInum direntInum
      apply Bytes.le_zero
      intro j hj
      rw [Nat.mul_zero, Nat.zero_add]
      exact ht.2 de rfl j hj
    · trivial

/-- The entries in such a block are free. -/
lemma Blank.dirlookupLoop (hb : Blank ip h len k) (hh : h < NDIRECT) (hlen : BSIZE * h ≤ len)
    {name : List UInt8} {n m : ℕ} (hle : len ≤ DIRENTSIZE * m)
    (hend : DIRENTSIZE * (m + n) ≤ BSIZE * (h + 1)) :
    Prog.wp (fun _ => True) (Kernel.dirlookupLoop ip name n (DIRENTSIZE * m)) (fun r _ => r = none)
      k := by
  have hS : DIRENTSIZE = 16 := rfl
  induction n generalizing k m with
  | zero => rfl
  | succ n ih =>
    unfold Kernel.dirlookupLoop
    refine Prog.wp_seq (hb.readDirent hh hlen hle ?_) ?_
    · rw [hS] at hend ⊢
      omega
    · intro de t ht
      rw [if_pos ht.2, ← Nat.mul_succ]
      apply ih ht.1
      · rw [hS] at hle ⊢
        omega
      · rw [hS] at hend ⊢
        omega

/-- Directory `i` has `n` entries, none with the name, and behind them only zeros. Its last block,
block `h`, may be missing. -/
structure Misses (d : Disk) (i : ℕ) (name : List UInt8) (n h : ℕ) : Prop where
  type : (onDisk d i).type = T_DIR
  size : (onDisk d i).size = BSIZE * (h + 1)
  direct : h < NDIRECT
  last : BSIZE * h ≤ DIRENTSIZE * n
  fits : DIRENTSIZE * n ≤ BSIZE * (h + 1)
  there : ∀ m < n, dataAddr d (dinode (.read (d 1)) d i) (DIRENTSIZE * m / BSIZE) ≠ 0
  other : ∀ m < n, ¬ (onDisk d i).Matches name m
  zero : ∀ off, DIRENTSIZE * n ≤ off → (onDisk d i).data off = 0

variable {name : List UInt8} {n : ℕ}

/-- A directory that has not the name, with room at its end. -/
lemma Misses.blank (hmiss : Misses d i name n h) (hk : Locked d k R ip i) :
    Blank ip h (DIRENTSIZE * n) k := by
  have hB : BSIZE = 512 := rfl
  refine ⟨?_, ?_, ?_⟩
  · rw [hk.din]
    exact hmiss.type
  · rw [hk.din]
    exact hmiss.size
  · intro h0 j hj hle
    have hbyte := hmiss.zero (BSIZE * h + j) hle
    have hdiv : (BSIZE * h + j) / BSIZE = h := by
      rw [hB] at hj ⊢
      omega
    have hmod : (BSIZE * h + j) % BSIZE = j := by
      rw [hB] at hj ⊢
      omega
    have haddr : dataAddr d (dinode (.read (d 1)) d i) h = (k.icache ip).din.addr h := by
      unfold dataAddr
      rw [if_pos hmiss.direct, hk.din]
    have hdata : (onDisk d i).data (BSIZE * h + j) = d ((k.icache ip).din.addr h) j := by
      show fileByte d (dinode (.read (d 1)) d i) (BSIZE * h + j) = _
      unfold fileByte
      rw [hdiv, hmod, haddr, if_neg h0]
    rw [hk.tracks.disk, ← hdata]
    exact hbyte

/-- The scan of a directory that does not have the name. -/
lemma Misses.dirlookupLoop (hmiss : Misses d i name n h) (hk : Locked d k R ip i) {m r : ℕ}
    (hm : m ≤ n) (hend : DIRENTSIZE * (m + r) = BSIZE * (h + 1)) :
    Prog.wp (fun _ => True) (Kernel.dirlookupLoop ip name r (DIRENTSIZE * m)) (fun x _ => x = none)
      k := by
  have hB : BSIZE = 512 := rfl
  have hS : DIRENTSIZE = 16 := rfl
  have hN : NDIRECT = 12 := rfl
  have hdirect := hmiss.direct
  induction r generalizing m with
  | zero => rfl
  | succ r ih =>
    by_cases hmn : m = n
    · subst hmn
      exact (hmiss.blank hk).dirlookupLoop hmiss.direct hmiss.last (Nat.le_refl _)
        (Nat.le_of_eq hend)
    -- one of the entries that are there
    have hdev : (k.icache ip).din.type ≠ T_DEV := by
      rw [hk.din]
      exact fun heq => absurd (hmiss.type.symm.trans heq) (by decide)
    have hread := exec_readDirent (k := m) (e := .dirlookupRead) hdev
      (by
        have hsize : (k.icache ip).din.size = BSIZE * (h + 1) := by
          rw [hk.din]
          exact hmiss.size
        rw [hsize, ← hend, hS]
        omega)
      (by rw [hB, hS] at hend; rw [hS]; omega)
      (by
        unfold State.HasBlock
        rw [hk.din, hk.tracks.disk]
        exact hmiss.there m (by omega))
    rw [hk.cached] at hread
    have hother := hmiss.other m (by omega)
    have hrec := ih (m := m + 1) (by omega) (by rw [hS] at hend ⊢; omega)
    rw [Nat.mul_succ] at hrec
    unfold Kernel.dirlookupLoop Prog.wp
    rw [exec_seq hread, deInum_entryBytes, deName_entryBytes]
    by_cases h0 : direntInum (onDisk d i).data m = 0
    · rw [if_pos h0]
      exact hrec
    · have hname : ¬ namecmp name (direntName (onDisk d i).data m) = true :=
        fun hname => hother ⟨h0, hname⟩
      rw [if_neg h0, if_neg hname]
      exact hrec

variable {path rest : List UInt8} {p fuel : ℕ}

/-- `namex` does not get past a directory without the name. -/
lemma namexLoop_missing (hat : At d k R ip i) (hskip : skipelem path = some (name, rest))
    (hmiss : Misses d i name n h) :
    Prog.wp (fun _ => True) (namexLoop p false (fuel + 1) ip path) (fun r _ => r = none) k := by
  have hB : BSIZE = 512 := rfl
  have hS : DIRENTSIZE = 16 := rfl
  have htype : (dinode (.read (d 1)) d i).type = T_DIR := hmiss.type
  obtain ⟨k₁, hilock, hk₁⟩ := hat.ilock p (by rw [htype]; decide)
  have hentries : nentries (k₁.icache ip).din.size = BSIZE * (h + 1) / DIRENTSIZE := by
    have hsize : (k₁.icache ip).din.size = BSIZE * (h + 1) := by
      rw [hk₁.din]
      exact hmiss.size
    unfold nentries
    rw [hsize, hB, hS]
    omega
  have hlookup : Prog.wp (fun _ => True) (dirlookup ip name) (fun r _ => r = none) k₁ := by
    unfold dirlookup
    rw [wp_get_bind, if_neg (by rw [hk₁.din, htype]; exact fun hne => hne rfl), hentries]
    apply hmiss.dirlookupLoop hk₁ (m := 0) (Nat.zero_le _)
    rw [hB, hS]
    omega
  unfold Prog.wp
  rw [namexLoop, hskip]
  dsimp only
  rw [exec_seq hilock, exec_get, if_neg (by rw [hk₁.din, htype]; exact fun hne => hne rfl),
    if_neg (by rintro ⟨hfalse, -⟩; exact nomatch hfalse)]
  refine Prog.wp_seq hlookup ?_
  rintro r t rfl
  exact Prog.wp_seq (Prog.wp_true _) fun _ _ _ => rfl

/-- Nor past an inode that is no directory. -/
lemma namexLoop_notDir (hat : At d k R ip i) (hskip : skipelem path = some (name, rest))
    (htype : (onDisk d i).type ≠ 0) (hdir : (onDisk d i).type ≠ T_DIR) :
    Prog.wp (fun _ => True) (namexLoop p false (fuel + 1) ip path) (fun r _ => r = none) k := by
  obtain ⟨k₁, hilock, hk₁⟩ := hat.ilock p htype
  unfold Prog.wp
  rw [namexLoop, hskip]
  dsimp only
  rw [exec_seq hilock, exec_get, if_pos (by rw [hk₁.din]; exact hdir)]
  exact Prog.wp_seq (Prog.wp_true _) fun _ _ _ => rfl

end

end Kernel
end OhMyXv6
