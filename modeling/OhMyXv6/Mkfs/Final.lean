import OhMyXv6.Mkfs.Refine

/-!
# From an empty image to `exit(0)`

The two ends of `main`: formatting the image and making the root, and the last loop with the
bitmap. `main_shows` puts everything together: when `mkfs` exits with status 0 and no inode lies
over a data block, the image shows the tree that the command line describes.
-/

namespace OhMyXv6
namespace Mkfs

open Bytes

/-! ## The empty image -/

/-- Zeroing the next sector makes the image longer by one. -/
lemma wsect_zero (s : St) (hs : s.img.disk = fun _ => zeroBlock) {n : ℕ} (hn : n < 2 ^ 23)
    (hlen : s.img.len = n) : wsect s n zeroBlock = { s with img := ⟨n + 1, s.img.disk⟩ } := by
  have hsec : sector n = n := Nat.mod_eq_of_lt hn
  unfold wsect
  rw [hsec, hlen, Nat.max_eq_right (Nat.le_succ n), hs]
  congr 2
  exact Function.update_eq_self n fun _ => zeroBlock

/-- The loop that zeroes the sectors. -/
lemma zeroLoop (s : St) (hs : s.img = ⟨0, fun _ => zeroBlock⟩) {n : ℕ} (hn : n ≤ FSSIZE) :
    (List.range n).foldl (fun s i => wsect s i zeroBlock) s
      = { s with img := ⟨n, fun _ => zeroBlock⟩ } := by
  have hF : FSSIZE = 2000 := rfl
  induction n with
  | zero => rw [List.range_zero, List.foldl_nil, ← hs]
  | succ n ih =>
    have hlt : n < 2 ^ 23 := by omega
    rw [List.range_succ, List.foldl_append, ih (by omega), List.foldl_cons, List.foldl_nil,
      wsect_zero _ rfl hlt rfl]

/-- The image behind the loops of zeros, with the superblock in block 1. -/
lemma format_eq : format = ⟨⟨FSSIZE, Function.update (fun _ => zeroBlock) 1
    (blit zeroBlock 0 28 sb.byte)⟩, 1, nmeta, [], []⟩ := by
  unfold format
  dsimp only
  rw [zeroLoop _ rfl (Nat.le_refl _)]
  rfl

/-- No nodes. -/
def Tree.empty : Tree := ⟨0, fun _ => .file [], []⟩

/-- A formatted image shows the empty tree. -/
lemma sim_format : Sim .empty format := by
  rw [format_eq]
  have hlive : ∀ i, ¬ Live 0 i := fun i hi => by have := hi.1; have := hi.2; omega
  refine ⟨rfl, rfl, fun i hi => absurd hi (hlive i), fun i hi => absurd hi (hlive i), fun _ => ?_⟩
  refine ⟨⟨rfl, Nat.le_refl _, ⟨⟨fun i s hi => absurd hi (hlive i),
      fun i j s t hi => absurd hi (hlive i)⟩, fun i off hi => absurd hi (hlive i)⟩,
      fun i t hi => absurd hi (hlive i), fun b hb => ?_, fun e he => absurd he List.not_mem_nil⟩,
    by decide, by decide, rfl, fun i hi => absurd hi (hlive i), fun i hi => absurd hi (hlive i),
    fun i hi => absurd hi (hlive i), fun i hi => absurd hi (hlive i), fun i _ _ => ?_⟩
  · have hm : nmeta = 59 := rfl
    have hne : b ≠ 1 := by
      have hb' : nmeta ≤ b := hb
      omega
    show Function.update (fun _ => zeroBlock) 1 _ b = zeroBlock
    rw [Function.update_of_ne hne]
  · have hst : sb.inodestart = 32 := rfl
    have hne : IBLOCK sb i ≠ 1 := by
      have := Nat.le_add_left 32 (i / IPB)
      unfold IBLOCK
      omega
    show (dinode sb (Function.update (fun _ => zeroBlock) 1 _) i).type = 0
    unfold dinode
    rw [Function.update_of_ne hne]
    exact le_zero fun _ _ => rfl

/-! ## Steps that cannot fail -/

namespace Sim

variable {t : Tree} {s : St} {i : ℕ}

/-- An append for which there is room. -/
lemma iappend_ok (h : Sim t s) (hcount : t.count < inodeLimit) (hi : Live t.count i)
    {p : List UInt8} (hroom : (t.contents i ++ p).length ≤ MAXFILE * BSIZE)
    (hfree : s.freeblock + 2 * p.length < FSSIZE) :
    ∃ s', Mkfs.iappend s i p = .ok s' ∧ s'.freeblock ≤ s.freeblock + 2 * p.length := by
  rcases iappend_spec (h.rep hcount) hi p with ⟨s', hok, -, hle⟩ | ⟨-, hwhy⟩
  · exact ⟨s', hok, hle⟩
  · omega

/-- There is an inode for every node below the limit. -/
lemma ialloc_ok (h : Sim t s) (hcount : t.count + 1 < inodeLimit) (type : ℕ) :
    ∃ s', Mkfs.ialloc s type = .ok (t.count + 1, s') ∧ s'.freeblock = s.freeblock :=
  ⟨_, ialloc_eq (h.rep (by omega)) hcount type, rfl⟩

/-- A directory entry for which there is room. -/
lemma link_ok (h : Sim t s) (hcount : t.count < inodeLimit) (hi : t.IsDir i)
    (hroom : (t.contents i).length + 16 ≤ MAXFILE * BSIZE) (hfree : s.freeblock + 32 < FSSIZE)
    (name : Path) (hname : NameOk name) (child : ℕ) (hchild : Live t.count child) :
    ∃ s', Mkfs.iappend s i (direntBytes child name) = .ok s' ∧
      Sim (t.dirlink i name child) s' ∧ s'.freeblock ≤ s.freeblock + 32 := by
  obtain ⟨s', hok, hle⟩ := h.iappend_ok hcount hi.1 (p := direntBytes child name)
    (by rwa [List.length_append, length_direntBytes]) (by rw [length_direntBytes]; exact hfree)
  rw [length_direntBytes] at hle
  exact ⟨s', hok, h.link hi hname hchild hok, hle⟩

/-- The table of known directories is no part of the image. -/
lemma setDirs (h : Sim t s) (d : Path × ℕ) :
    Sim { t with dirs := t.dirs ++ [d] } { s with dirs := s.dirs ++ [d] } := by
  refine ⟨by rw [h.dirs], h.next, h.handed, h.names, fun hlim => ?_⟩
  have hrep := h.rep hlim
  exact ⟨⟨hrep.hold.len, hrep.hold.lo, hrep.hold.stores, hrep.hold.used, hrep.hold.fresh,
    hrep.hold.events⟩, hrep.hi, hrep.small, hrep.next, hrep.type, hrep.nlink, hrep.size,
    hrep.short, hrep.free⟩

end Sim

/-- The trees that `makeRoot` goes through. -/
def Tree.rootSteps : List (Tree → Tree) :=
  [fun t => t.ialloc (.dir []), fun t => { t with dirs := t.dirs ++ [([], 1)] },
    fun t => t.dirlink 1 dotName 1, fun t => t.dirlink 1 dotdotName 1,
    fun t => t.ialloc (.dir []), fun t => t.dirlink 1 binName 2, fun t => t.dirlink 2 dotName 2,
    fun t => t.dirlink 2 dotdotName 1, fun t => { t with dirs := t.dirs ++ [(binName, 2)] }]

/-- The steps of `main` build the root with `bin`. -/
lemma Tree.rootSteps_eq : rootSteps.foldl (fun t f => f t) .empty = .root := by
  simp only [rootSteps, List.foldl_cons, List.foldl_nil, Tree.empty, Tree.ialloc, Tree.dirlink,
    Tree.root, Tree.mk.injEq]
  refine ⟨trivial, funext fun i => ?_, rfl⟩
  by_cases h1 : i = 1
  · subst h1
    rfl
  · by_cases h2 : i = 2
    · subst h2
      rfl
    · simp [Function.update_of_ne, h1, h2]

/-- `main` makes the root and `/bin`. -/
lemma makeRoot_spec : ∃ s, makeRoot = .ok s ∧ Sim .root s ∧ s.freeblock ≤ nmeta + 160 := by
  have hm : nmeta = 59 := rfl
  have hF : FSSIZE = 2000 := rfl
  have hfb : format.freeblock = nmeta := by rw [format_eq]
  have h0 := sim_format
  -- the root
  obtain ⟨s1, hs1, hfb1⟩ := h0.ialloc_ok (by decide) T_DIR
  have h1 := (h0.ialloc (.dir []) rfl rfl rfl (by decide) hs1).2.setDirs ([], 1)
  obtain ⟨s2, hs2, h2, hfb2⟩ := h1.link_ok (i := 1) (by decide) ⟨⟨by decide, by decide⟩, rfl⟩
    (by decide) (show s1.freeblock + 32 < FSSIZE by omega)
    dotName ⟨by decide, by decide⟩ 1 ⟨by decide, by decide⟩
  replace hfb2 : s2.freeblock ≤ s1.freeblock + 32 := hfb2
  obtain ⟨s3, hs3, h3, hfb3⟩ := h2.link_ok (i := 1) (by decide) ⟨⟨by decide, by decide⟩, rfl⟩
    (by decide) (by omega)
    dotdotName ⟨by decide, by decide⟩ 1 ⟨by decide, by decide⟩
  -- `/bin`
  obtain ⟨s4, hs4, hfb4⟩ := h3.ialloc_ok (by decide) T_DIR
  have h4 := (h3.ialloc (.dir []) rfl rfl rfl (by decide) hs4).2
  obtain ⟨s5, hs5, h5, hfb5⟩ := h4.link_ok (i := 1) (by decide) ⟨⟨by decide, by decide⟩, rfl⟩
    (by decide) (by omega)
    binName ⟨by decide, by decide⟩ 2 ⟨by decide, by decide⟩
  obtain ⟨s6, hs6, h6, hfb6⟩ := h5.link_ok (i := 2) (by decide) ⟨⟨by decide, by decide⟩, rfl⟩
    (by decide) (by omega)
    dotName ⟨by decide, by decide⟩ 2 ⟨by decide, by decide⟩
  obtain ⟨s7, hs7, h7, hfb7⟩ := h6.link_ok (i := 2) (by decide) ⟨⟨by decide, by decide⟩, rfl⟩
    (by decide) (by omega)
    dotdotName ⟨by decide, by decide⟩ 1 ⟨by decide, by decide⟩
  have h8 := h7.setDirs (binName, 2)
  refine ⟨_, ?_, by rw [← Tree.rootSteps_eq]; exact h8, ?_⟩
  · replace hs1 : ialloc format T_DIR = .ok (1, s1) := hs1
    replace hs4 : ialloc s3 T_DIR = .ok (2, s4) := hs4
    rw [makeRoot, hs1, ok_bind]
    dsimp only
    rw [if_neg (by decide), hs2, ok_bind, hs3, ok_bind, hs4, ok_bind]
    dsimp only
    rw [hs5, ok_bind, hs6, ok_bind, hs7, ok_bind]
    rfl
  · show s7.freeblock ≤ nmeta + 160
    omega

/-! ## The last loop and the bitmap -/

/-- The size of a directory after the last loop. -/
def roundUp (size : ℕ) : ℕ := (size / BSIZE + 1) * BSIZE

/-- Rounding the sizes keeps the counters. -/
lemma Kept.roundDirs {ds : List (Path × ℕ)} {s s' : St}
    (h : ds.foldlM (fun s dir => roundSize s dir.2) s = .ok s') : Kept s s' := by
  induction ds generalizing s with
  | nil =>
    cases h
    exact .refl _
  | cons d ds ih =>
    rw [List.foldlM_cons] at h
    obtain ⟨s1, hround, h⟩ := bind_eq_ok.mp h
    obtain ⟨din, -, hround⟩ := bind_eq_ok.mp hround
    exact (Kept.winode hround).trans (ih h)

/-- By induction on the directories: exactly their sizes are rounded. -/
lemma roundDirs_spec {s : St} {n : ℕ} {ty : ℕ → ℕ} {c : ℕ → List UInt8} {sz : ℕ → ℕ}
    (h : Rep s n ty c sz) {ds : List (Path × ℕ)} (hlive : ∀ d ∈ ds, Live n d.2)
    (hnodup : (ds.map Prod.snd).Nodup) (hsz : ∀ d ∈ ds, sz d.2 ≤ MAXFILE * BSIZE) :
    ∃ s', ds.foldlM (fun s dir => roundSize s dir.2) s = .ok s' ∧
      Rep s' n ty c (fun i => if i ∈ ds.map Prod.snd then roundUp (sz i) else sz i) ∧
      s'.freeblock = s.freeblock := by
  induction ds generalizing s sz with
  | nil => exact ⟨s, rfl, by simpa using h, rfl⟩
  | cons d ds ih =>
    rw [List.map_cons, List.nodup_cons] at hnodup
    obtain ⟨s1, hs1, h1, hfb1, -⟩ :=
      roundSize_spec h (hlive d List.mem_cons_self) (hsz d List.mem_cons_self)
    -- the sizes of the directories that follow are still the old ones
    have hsz1 : ∀ e ∈ ds, Function.update sz d.2 (roundUp (sz d.2)) e.2 ≤ MAXFILE * BSIZE := by
      intro e he
      have hne : e.2 ≠ d.2 := fun heq => hnodup.1 (heq ▸ List.mem_map_of_mem he)
      rw [Function.update_of_ne hne]
      exact hsz e (List.mem_cons_of_mem _ he)
    obtain ⟨s2, hs2, h2, hfb2⟩ :=
      ih h1 (fun e he => hlive e (List.mem_cons_of_mem _ he)) hnodup.2 hsz1
    refine ⟨s2, by rw [List.foldlM_cons, hs1, ok_bind, hs2], ?_, hfb2.trans hfb1⟩
    have hfun : (fun i => if i ∈ ds.map Prod.snd
        then roundUp (Function.update sz d.2 (roundUp (sz d.2)) i)
        else Function.update sz d.2 (roundUp (sz d.2)) i)
        = fun i => if i ∈ (d :: ds).map Prod.snd then roundUp (sz i) else sz i := by
      funext i
      by_cases hi : i = d.2
      · have hmem : d.2 ∈ (d :: ds).map Prod.snd := List.mem_cons_self
        rw [hi, if_neg hnodup.1, Function.update_self, if_pos hmem]
      · rw [Function.update_of_ne hi]
        simp only [List.map_cons, List.mem_cons, hi, false_or]
    exact hfun ▸ h2

/-! ## The finished image -/

/-- The image shows the tree: for the inodes that the superblock counts, type, link count, size
(rounded up for a directory), contents and allocated blocks; the other inodes are free. -/
structure Shows (s : St) (t : Tree) : Prop where
  next : s.freeinode = t.count + 1
  top : s.freeblock ≤ FSSIZE
  type : ∀ i, Live t.count i → i < NINODES → (dinode sb s.img.disk i).type = t.types i
  nlink : ∀ i, Live t.count i → i < NINODES → (dinode sb s.img.disk i).nlink = 1
  size : ∀ i, Live t.count i → i < NINODES → (dinode sb s.img.disk i).size
    = if t.types i = T_DIR then roundUp (t.contents i).length else (t.contents i).length
  byte : ∀ i, Live t.count i → i < NINODES →
    fileByte s.img.disk (dinode sb s.img.disk i) = ofList (t.contents i)
  addr : ∀ i, Live t.count i → i < NINODES → ∀ bn,
    dataAddr s.img.disk (dinode sb s.img.disk i) bn ≠ 0 ↔ bn < blocks (t.contents i).length
  short : ∀ i, Live t.count i → i < NINODES → (t.contents i).length ≤ MAXFILE * BSIZE
  free : ∀ i, ¬ Live t.count i → i < NINODES → (dinode sb s.img.disk i).type = 0
  events : ∀ e ∈ s.trace, e.Within s.freeinode s.freeblock

/-- `balloc` writes the bitmap and nothing else. -/
lemma Rep.shows_bitmap {s : St} {t : Tree} {sz : ℕ → ℕ}
    (h : Rep s t.count t.types t.contents sz)
    (hsz : ∀ i, Live t.count i → sz i
      = if t.types i = T_DIR then roundUp (t.contents i).length else (t.contents i).length)
    (buf : Block) : Shows (wsect s sb.bmapstart buf) t := by
  have hm : nmeta = 59 := rfl
  have hbm : sector sb.bmapstart = 58 := rfl
  have hN : NINODES = 200 := rfl
  have hL : inodeLimit = 216 := rfl
  have hdisk : (wsect s sb.bmapstart buf).img.disk = Function.update s.img.disk 58 buf := by
    unfold wsect
    rw [hbm]
  -- the bitmap block holds none of the inodes that the superblock counts
  have hinode : ∀ i, i < NINODES →
      dinode sb (wsect s sb.bmapstart buf).img.disk i = dinode sb s.img.disk i := by
    intro i hi
    apply dinode_congr
    have hI : IPB = 8 := rfl
    have hst : sb.inodestart = 32 := rfl
    rw [hdisk, Function.update_of_ne]
    unfold IBLOCK
    rw [hI, hst]
    omega
  have hstores : Stores (Function.update s.img.disk 58 buf) (Live t.count) (dinode sb s.img.disk)
      (fun i => ofList (t.contents i)) nmeta s.freeblock :=
    h.hold.stores.frame fun b hb _ => Function.update_of_ne (by omega) _ _
  have haddr : ∀ i, Live t.count i → ∀ bn,
      dataAddr (Function.update s.img.disk 58 buf) (dinode sb s.img.disk i) bn
        = dataAddr s.img.disk (dinode sb s.img.disk i) bn := by
    intro i hi bn
    apply dataAddr_congr
    intro h0
    have hr := h.hold.addr_lt hi (t := MAXFILE) (by rw [ref_maxfile]; exact h0)
    rw [ref_maxfile] at hr
    exact Function.update_of_ne (by omega) _ _
  refine ⟨h.next, h.hi, fun i hi hlt => ?_, fun i hi hlt => ?_, fun i hi hlt => ?_,
    fun i hi hlt => ?_, fun i hi hlt bn => ?_, fun i hi _ => h.short i hi, fun i hi hlt => ?_,
    h.hold.events⟩
  · rw [hinode i hlt, h.type i hi]
  · rw [hinode i hlt, h.nlink i hi]
  · rw [hinode i hlt, h.size i hi, hsz i hi]
  · rw [hinode i hlt, hdisk]
    exact funext fun off => hstores.byte i off hi
  · rw [hinode i hlt, hdisk, haddr i hi]
    have hused := h.hold.used i bn hi
    have hshort := h.short i hi
    have hB : BSIZE = 512 := rfl
    have hMAX : MAXFILE = 140 := rfl
    have hb : blocks (t.contents i).length ≤ MAXFILE := by
      simp only [blocks, hB, hMAX] at hshort ⊢
      omega
    by_cases hbn : bn < MAXFILE
    · rw [← ref_of_lt hbn, hused]
      unfold slots
      omega
    · rw [dataAddr_of_le (by omega)]
      omega
  · rw [hinode i hlt, h.free i hi (by omega)]

/-- The two ways to look at the end of `main`. -/
lemma main_eq_ok {files : List Arg} {s : St} (h : main files = .ok s) :
    ∃ s1 s2, Sim (.ofFiles files) s1 ∧
      s1.dirs.foldlM (fun s dir => roundSize s dir.2) s1 = .ok s2 ∧
      s = wsect s2 sb.bmapstart ((List.range s2.freeblock).foldl setBit zeroBlock) := by
  obtain ⟨s0, hroot, h⟩ := bind_eq_ok.mp h
  obtain ⟨s1, hfiles, h⟩ := bind_eq_ok.mp h
  obtain ⟨s2, hround, h⟩ := bind_eq_ok.mp h
  obtain ⟨s0', hroot', hsim, -⟩ := makeRoot_spec
  rw [hroot] at hroot'
  cases hroot'
  refine ⟨s1, s2, hsim.addFiles Tree.wf_root hfiles, hround, ?_⟩
  unfold balloc at h
  split at h
  · exact (Except.ok.inj h).symm
  · cases h

/-- Every inode number up to the size of the tree was handed out, whatever the image holds. -/
theorem main_handed {files : List Arg} {s : St} (h : main files = .ok s) {i : ℕ}
    (hi : Live (Tree.ofFiles files).count i) : .inode i ∈ s.trace := by
  obtain ⟨s1, s2, hsim, hround, rfl⟩ := main_eq_ok h
  exact (Kept.roundDirs hround).trace _ (hsim.handed i hi)

/-- The last loop, when the image represents the tree. -/
lemma Sim.roundDirs {t : Tree} {s : St} (h : Sim t s) (hwf : t.Wf)
    (hcount : t.count < inodeLimit) :
    ∃ s', s.dirs.foldlM (fun s dir => roundSize s dir.2) s = .ok s' ∧
      s'.freeblock = s.freeblock ∧ ∀ buf, Shows (wsect s' sb.bmapstart buf) t := by
  have hrep := h.rep hcount
  rw [h.dirs]
  obtain ⟨s', hs', hrep', hfb⟩ := roundDirs_spec hrep (fun d hd => (hwf.isDir d hd).1) hwf.nodup
    fun d hd => hrep.short _ (hwf.isDir d hd).1
  refine ⟨s', hs', hfb, hrep'.shows_bitmap fun i hi => ?_⟩
  -- the table names exactly the directories
  by_cases hdir : t.types i = T_DIR
  · rw [if_pos hdir, if_pos (hwf.all i ⟨hi, hdir⟩)]
  · rw [if_neg hdir, if_neg]
    intro hmem
    obtain ⟨d, hd, rfl⟩ := List.mem_map.mp hmem
    exact hdir (hwf.isDir d hd).2

/-- When `mkfs` exits with status 0, its image shows the tree that the command line describes,
unless so many inodes were handed out that some lie over data blocks. -/
theorem main_shows {files : List Arg} {s : St} (h : main files = .ok s)
    (hcount : (Tree.ofFiles files).count < inodeLimit) : Shows s (.ofFiles files) := by
  obtain ⟨s1, s2, hsim, hround, rfl⟩ := main_eq_ok h
  obtain ⟨s', hs', -, hshows⟩ := hsim.roundDirs (Tree.wf_ofFiles files) hcount
  rw [hround] at hs'
  cases hs'
  exact hshows _

end Mkfs
end OhMyXv6
