import OhMyXv6.Mkfs.Tree

/-!
# `mkfs` builds the tree

`Sim t s` says that the program, in state `s`, has built the tree `t`. Its first part, the inode
counter and the directory table, holds in every run; the image represents the tree as long as
no inode lies over a data block.
-/

namespace OhMyXv6
namespace Mkfs

open Bytes

namespace Tree

/-- The types of the nodes. -/
def types (t : Tree) (i : ℕ) : ℕ := (t.node i).type

/-- The bytes of the nodes. -/
def contents (t : Tree) (i : ℕ) : List UInt8 := (t.node i).bytes

lemma types_dirlink (t : Tree) (parent : ℕ) (name : Path) (child : ℕ) :
    (t.dirlink parent name child).types = t.types := by
  funext i
  unfold types dirlink
  by_cases hi : i = parent
  · rw [hi]
    simp only [Function.update_self, type_link]
  · simp only [Function.update_of_ne hi]

/-- A link appends an entry of 16 bytes. -/
lemma contents_dirlink {t : Tree} {parent : ℕ} (h : t.IsDir parent) (name : Path) (child : ℕ) :
    (t.dirlink parent name child).contents
      = Function.update t.contents parent (t.contents parent ++ direntBytes child name) := by
  funext i
  unfold contents dirlink
  by_cases hi : i = parent
  · rw [hi]
    simp only [Function.update_self, bytes_link h.2]
  · simp only [Function.update_of_ne hi]

lemma types_append (t : Tree) (i : ℕ) (p : List UInt8) : (t.append i p).types = t.types := by
  funext j
  unfold types append
  by_cases hj : j = i
  · rw [hj]
    simp only [Function.update_self, type_append]
  · simp only [Function.update_of_ne hj]

/-- The bytes go to the end of the file. -/
lemma contents_append {t : Tree} {i : ℕ} (h : t.types i = T_FILE) (p : List UInt8) :
    (t.append i p).contents = Function.update t.contents i (t.contents i ++ p) := by
  funext j
  unfold contents append
  by_cases hj : j = i
  · rw [hj]
    simp only [Function.update_self]
    exact bytes_append h
  · simp only [Function.update_of_ne hj]

/-- Appending in two pieces. -/
lemma append_append (t : Tree) (i : ℕ) (p q : List UInt8) :
    (t.append i p).append i q = t.append i (p ++ q) := by
  unfold append
  simp only [Function.update_self, Function.update_idem]
  congr 2
  cases t.node i with
  | dir entries => rfl
  | file data => simp only [Node.append, List.append_assoc]

/-- Nothing appended, nothing changed. -/
lemma append_nil (t : Tree) (i : ℕ) : t.append i [] = t := by
  have hnode : (t.node i).append [] = t.node i := by
    cases t.node i with
    | dir entries => rfl
    | file data => simp only [Node.append, List.append_nil]
  unfold append
  rw [hnode, Function.update_eq_self]

lemma types_ialloc (t : Tree) (nd : Node) :
    (t.ialloc nd).types = Function.update t.types (t.count + 1) nd.type := by
  funext i
  unfold types ialloc
  by_cases hi : i = t.count + 1
  · rw [hi]
    simp only [Function.update_self]
  · simp only [Function.update_of_ne hi]

lemma contents_ialloc (t : Tree) (nd : Node) :
    (t.ialloc nd).contents = Function.update t.contents (t.count + 1) nd.bytes := by
  funext i
  unfold contents ialloc
  by_cases hi : i = t.count + 1
  · rw [hi]
    simp only [Function.update_self]
  · simp only [Function.update_of_ne hi]

end Tree

/-! ## Where files go -/

/-- The parts of a path without NUL have none. -/
lemma index_noNul {p a b : Path} (hp : 0 ∉ p) (h : index p = some (a, b)) :
    0 ∉ a ∧ 0 ∉ b := by
  unfold index at h
  cases hdrop : p.dropWhile (· ≠ slash) with
  | nil => rw [hdrop] at h; cases h
  | cons c after =>
    rw [hdrop] at h
    cases h
    have hafter : b ⊆ p := by
      intro u hu
      apply (List.dropWhile_suffix (l := p) (· ≠ slash)).subset
      rw [hdrop]
      exact List.mem_cons_of_mem _ hu
    exact ⟨fun h0 => hp ((List.takeWhile_prefix _).subset h0), fun h0 => hp (hafter h0)⟩

lemma rindex_noNul {p a b : Path} (hp : 0 ∉ p) (h : rindex p = some (a, b)) :
    0 ∉ a ∧ 0 ∉ b := by
  unfold rindex at h
  obtain ⟨⟨after, before⟩, hindex, heq⟩ := Option.map_eq_some_iff.mp h
  cases heq
  have := index_noNul (fun h0 => hp (List.mem_reverse.mp h0)) hindex
  exact ⟨fun h0 => this.2 (List.mem_reverse.mp h0), fun h0 => this.1 (List.mem_reverse.mp h0)⟩

/-- `place` makes paths from pieces of the file name. -/
lemma place_noNul {name dir file : Path} (hname : 0 ∉ name) (h : place name = .ok (dir, file)) :
    0 ∉ dir ∧ 0 ∉ file := by
  have hbin : (0 : UInt8) ∉ binName := by decide
  have hetc : (0 : UInt8) ∉ etcSlash := by decide
  have hslash : (0 : UInt8) ≠ slash := by decide
  unfold place at h
  split at h
  · cases h
    exact ⟨hbin, fun h0 => hname (List.mem_of_mem_tail h0)⟩
  · split at h
    · cases h
      exact ⟨hbin, hname⟩
    · next package after hindex =>
      obtain ⟨hpackage, hafter⟩ := index_noNul hname hindex
      have hrest : 0 ∉ after.drop 4 := fun h0 => hafter (List.mem_of_mem_drop h0)
      split at h
      · split at h
        · cases h
        · split at h
          · cases h
            exact ⟨by simp [hetc, hpackage], hrest⟩
          · next d f hrindex =>
            obtain ⟨hd, hf⟩ := rindex_noNul hrest hrindex
            cases h
            exact ⟨by simp [hetc, hpackage, hslash, hd], hf⟩
      · split at h
        · cases h
          exact ⟨hbin, hname⟩
        · next d f hrindex =>
          cases h
          exact rindex_noNul hname hrindex

/-- The disk that `mkfs` has written so far holds the tree. -/
structure Sim (t : Tree) (s : St) : Prop where
  dirs : s.dirs = t.dirs
  next : s.freeinode = t.count + 1
  handed : ∀ i, Live t.count i → .inode i ∈ s.trace
  names : t.EntriesOk
  rep : t.count < inodeLimit → Rep.Exact s t.count t.types t.contents

namespace Sim

variable {t : Tree} {s s' : St} {i : ℕ}

/-- An append that succeeds. The tree after it may be described in any way. -/
theorem iappend {t' : Tree} (h : Sim t s) (hi : Live t.count i) {p : List UInt8}
    (hrun : iappend s i p = .ok s') (hcount : t'.count = t.count) (hdirs : t'.dirs = t.dirs)
    (htypes : t'.types = t.types)
    (hcontents : t'.contents = Function.update t.contents i (t.contents i ++ p))
    (hnames : t'.EntriesOk) : Sim t' s' := by
  have hkept := Kept.iappend hrun
  refine ⟨by rw [hkept.dirs, h.dirs, hdirs], by rw [hkept.freeinode, h.next, hcount],
    fun j hj => hkept.trace _ (h.handed j (hcount ▸ hj)), hnames, fun hlim => ?_⟩
  rw [hcount] at hlim ⊢
  rw [htypes, hcontents]
  rcases iappend_spec (h.rep hlim) hi p with ⟨s'', hok, hrep, -⟩ | ⟨⟨e, herr⟩, -⟩
  · rw [hrun] at hok
    cases hok
    exact hrep
  · rw [hrun] at herr
    cases herr

/-- A directory entry is appended. -/
lemma link (h : Sim t s) (hi : t.IsDir i) {name : Path} {child : ℕ} (hname : NameOk name)
    (hchild : Live t.count child) (hrun : Mkfs.iappend s i (direntBytes child name) = .ok s') :
    Sim (t.dirlink i name child) s' :=
  h.iappend hi.1 hrun rfl rfl (t.types_dirlink i name child) (Tree.contents_dirlink hi name child)
    (h.names.dirlink hname hchild)

/-- `dirlink` on the image is the link in the tree. -/
lemma dirlink (h : Sim t s) (hi : t.IsDir i) {name : Path} {child : ℕ} (hname : 0 ∉ name)
    (hchild : Live t.count child) (hrun : Mkfs.dirlink s i name child = .ok s') :
    Sim (t.dirlink i name child) s' := by
  unfold Mkfs.dirlink at hrun
  split at hrun
  · cases hrun
  · next hlen => exact h.link hi ⟨by omega, hname⟩ hchild hrun

/-- `ialloc` on the image is a new node. -/
lemma ialloc (h : Sim t s) (nd : Node) (hnd : nd.bytes = []) (hents : nd.entries = [])
    {type : ℕ} (htype : nd.type = type) (hsmall : type < 2 ^ 16) (hrun : Mkfs.ialloc s type = .ok (i, s')) :
    i = t.count + 1 ∧ Sim (t.ialloc nd) s' := by
  obtain ⟨s'', hw, hret⟩ := bind_eq_ok.mp hrun
  have hkept := Kept.winode hw
  cases hret
  refine ⟨h.next, by rw [hkept.dirs]; exact h.dirs, ?_, fun j hj => ?_, h.names.ialloc hents,
    fun hlim => ?_⟩
  · rw [hkept.freeinode]
    show s.freeinode + 1 = _
    rw [h.next]
    rfl
  · apply hkept.trace
    by_cases hj' : j = t.count + 1
    · rw [hj', ← h.next]
      exact List.mem_append_right _ (List.mem_singleton_self _)
    · have hlt : j ≤ t.count + 1 := hj.2
      exact List.mem_append_left _ (h.handed j ⟨hj.1, by omega⟩)
  · have hlim' : t.count + 1 < inodeLimit := hlim
    have hrep := h.rep (by omega)
    have hok := ialloc_eq hrep hlim' type
    rw [hrun] at hok
    rw [(Prod.mk.inj (Except.ok.inj hok)).2]
    have halloc := hrep.ialloc hlim' hsmall
    rw [Tree.types_ialloc, Tree.contents_ialloc, hnd, htype]
    have hsz : Function.update (fun j => (t.contents j).length) (t.count + 1) 0
        = fun j => (Function.update t.contents (t.count + 1) [] j).length := by
      funext j
      by_cases hj : j = t.count + 1
      · rw [hj, Function.update_self, Function.update_self]
        rfl
      · rw [Function.update_of_ne hj, Function.update_of_ne hj]
    rwa [hsz] at halloc

/-- `mkdir`: a new node, its two entries and the one in the parent. -/
lemma mkdir (h : Sim t s) {parent : ℕ} (hp : t.IsDir parent) {component path : Path}
    (hname : 0 ∉ component) (hrun : Mkfs.mkdir s parent component path = .ok (i, s')) :
    i = (t.mkdir parent component path).1 ∧ Sim (t.mkdir parent component path).2 s' := by
  obtain ⟨⟨child, s1⟩, halloc, hrun⟩ := bind_eq_ok.mp hrun
  obtain ⟨rfl, h1⟩ := h.ialloc (.dir []) rfl rfl rfl (by decide) halloc
  dsimp only at hrun
  split at hrun
  · cases hrun
  · obtain ⟨s2, hlink, hrun⟩ := bind_eq_ok.mp hrun
    obtain ⟨s3, hdot, hrun⟩ := bind_eq_ok.mp hrun
    obtain ⟨s4, hdotdot, hrun⟩ := bind_eq_ok.mp hrun
    cases hrun
    have hnew := t.isDir_new []
    have hparent := hp.ialloc (.dir [])
    have h2 := h1.dirlink hparent hname hnew.1 hlink
    have h3 := h2.dirlink (Tree.isDir_dirlink.mpr hnew) (by decide) hnew.1 hdot
    have h4 := h3.dirlink (Tree.isDir_dirlink.mpr (Tree.isDir_dirlink.mpr hnew)) (by decide)
      hparent.1 hdotdot
    have hdirs : s4.dirs ++ [(path, t.count + 1)] = t.dirs ++ [(path, t.count + 1)] := by
      rw [h4.dirs]
      rfl
    refine ⟨rfl, hdirs, h4.next, h4.handed, h4.names, fun hlim => ?_⟩
    have hrep := h4.rep hlim
    exact ⟨⟨hrep.hold.len, hrep.hold.lo, hrep.hold.stores, hrep.hold.used, hrep.hold.fresh,
      hrep.hold.events⟩, hrep.hi, hrep.small, hrep.next, hrep.type, hrep.nlink, hrep.size,
      hrep.short, hrep.free⟩

/-- Into a directory that is there or is made. -/
lemma descend (h : Sim t s) (hwf : t.Wf) {parent : ℕ} (hp : t.IsDir parent)
    {component path : Path} (hname : 0 ∉ component)
    (hrun : Mkfs.descend s parent component path = .ok (i, s')) :
    i = (t.descend parent component path).1 ∧ Sim (t.descend parent component path).2 s' := by
  unfold Mkfs.descend dirlookup at hrun
  rw [h.dirs] at hrun
  unfold Tree.descend
  cases hfind : t.dirs.find? (·.1 = path) with
  | some d =>
    -- a directory of the table does not have number 0
    have hpos := (hwf.isDir d (List.mem_of_find?_eq_some hfind)).1.1
    rw [hfind] at hrun
    dsimp only at hrun
    rw [if_pos (by omega)] at hrun
    cases hrun
    exact ⟨rfl, h⟩
  | none =>
    rw [hfind] at hrun
    exact h.mkdir hp hname hrun

/-- By induction on the components. -/
lemma mkdirpLoop (h : Sim t s) (hwf : t.Wf) {path : Path} {parent : ℕ} (hp : t.IsDir parent)
    {p : Path} (hname : 0 ∉ p) (hrun : Mkfs.mkdirpLoop s path parent p = .ok (i, s')) :
    i = (t.mkdirpLoop path parent p).1 ∧ Sim (t.mkdirpLoop path parent p).2 s' := by
  induction t, path, parent, p using Tree.mkdirpLoop.induct generalizing s with
  | case1 t path parent =>
    rw [Mkfs.mkdirpLoop, if_pos rfl] at hrun
    rw [Tree.mkdirpLoop, if_pos rfl]
    cases hrun
    exact ⟨rfl, h⟩
  | case2 t path parent p hne component r =>
    rename_i ih
    rw [Mkfs.mkdirpLoop, if_neg hne] at hrun
    rw [Tree.mkdirpLoop, if_neg hne]
    dsimp only at hrun
    split at hrun
    · cases hrun
    · split at hrun
      · cases hrun
      · obtain ⟨⟨parent', s1⟩, hdesc, hrun⟩ := bind_eq_ok.mp hrun
        have hcomp : 0 ∉ p.takeWhile (· ≠ slash) := fun h0 =>
          hname ((List.takeWhile_prefix _).subset h0)
        have hrest : 0 ∉ (p.dropWhile (· ≠ slash)).tail := fun h0 =>
          hname ((List.dropWhile_suffix _).subset (List.mem_of_mem_tail h0))
        obtain ⟨rfl, h1⟩ := h.descend hwf hp hcomp hdesc
        have hwf' := hwf.descend parent component (joinPath path component)
        exact ih h1 hwf'.1 hwf'.2 hrest hrun

lemma mkdirp (h : Sim t s) (hwf : t.Wf) {path : Path} (hname : 0 ∉ path)
    (hrun : Mkfs.mkdirp s path = .ok (i, s')) :
    i = (t.mkdirp path).1 ∧ Sim (t.mkdirp path).2 s' := by
  unfold Mkfs.mkdirp at hrun
  unfold Tree.mkdirp
  split at hrun
  · next hnil =>
    rw [if_pos hnil]
    cases hrun
    exact ⟨rfl, h⟩
  · next hne =>
    rw [if_neg hne]
    exact h.mkdirpLoop hwf hwf.root hname hrun

/-- A file is read in pieces, and all of it is appended. -/
lemma readLoop (h : Sim t s) (hi : Live t.count i) (hfile : t.types i = T_FILE)
    {data : List UInt8} (hrun : Mkfs.readLoop s i data = .ok s') : Sim (t.append i data) s' := by
  induction s, data using Mkfs.readLoop.induct generalizing t with
  | case1 s =>
    rw [Mkfs.readLoop, if_pos rfl] at hrun
    cases hrun
    rwa [Tree.append_nil]
  | case2 s data hne ih =>
    rw [Mkfs.readLoop, if_neg hne] at hrun
    obtain ⟨s1, happ, hrun⟩ := bind_eq_ok.mp hrun
    have h1 : Sim (t.append i (data.take BSIZE)) s1 :=
      h.iappend hi happ rfl rfl (t.types_append i _) (Tree.contents_append hfile _)
        (h.names.append i _)
    have hfile' : (t.append i (data.take BSIZE)).types i = T_FILE := by
      rw [Tree.types_append]
      exact hfile
    have h2 := ih s1 h1 hi hfile' hrun
    rwa [Tree.append_append, List.take_append_drop] at h2

/-- One file: its directories, its inode, its entry and its data. -/
lemma addFile (h : Sim t s) (hwf : t.Wf) {arg : Arg} (hrun : Mkfs.addFile s arg = .ok s') :
    Sim (t.addFile arg) s' := by
  unfold Mkfs.addFile at hrun
  unfold Tree.addFile
  cases hdata : arg.data with
  | none => rw [hdata] at hrun; cases hrun
  | some data =>
    rw [hdata] at hrun
    dsimp only at hrun
    split at hrun
    · cases hrun
    · obtain ⟨⟨dirpath, fsname⟩, hplace, hrun⟩ := bind_eq_ok.mp hrun
      rw [hplace]
      dsimp only at hrun ⊢
      split at hrun
      · cases hrun
      · next hlen =>
        obtain ⟨hdir0, hname0⟩ := place_noNul arg.noNul hplace
        obtain ⟨⟨parent, s1⟩, hmk, hrun⟩ := bind_eq_ok.mp hrun
        obtain ⟨⟨inum, s2⟩, halloc, hrun⟩ := bind_eq_ok.mp hrun
        obtain ⟨s3, hlink, hread⟩ := bind_eq_ok.mp hrun
        obtain ⟨rfl, h1⟩ := h.mkdirp hwf hdir0 hmk
        obtain ⟨rfl, h2⟩ := h1.ialloc (.file []) rfl rfl rfl (by decide) halloc
        have hdir := (hwf.mkdirp dirpath).2.ialloc (.file [])
        have hnew : Live ((t.mkdirp dirpath).2.count + 1) ((t.mkdirp dirpath).2.count + 1) :=
          ⟨Nat.succ_le_succ (Nat.zero_le _), Nat.le_refl _⟩
        have h3 := h2.link hdir ⟨by omega, hname0⟩ hnew hlink
        refine h3.readLoop hnew ?_ hread
        rw [Tree.types_dirlink, Tree.types_ialloc, Function.update_self]
        rfl

/-- The file loop. -/
lemma addFiles (h : Sim t s) (hwf : t.Wf) {files : List Arg}
    (hrun : files.foldlM Mkfs.addFile s = .ok s') :
    Sim (files.foldl Tree.addFile t) s' := by
  induction files generalizing t s with
  | nil =>
    cases hrun
    exact h
  | cons arg files ih =>
    rw [List.foldlM_cons] at hrun
    obtain ⟨s1, hadd, hrun⟩ := bind_eq_ok.mp hrun
    exact ih (h.addFile hwf hadd) (hwf.addFile arg) hrun

end Sim

end Mkfs
end OhMyXv6
