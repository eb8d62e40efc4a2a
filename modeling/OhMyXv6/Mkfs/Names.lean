import Mathlib.Data.List.Infix
import Mathlib.Data.List.Nodup
import Mathlib.Data.List.TakeWhile
import OhMyXv6.Mkfs.Tree

/-!
# The names in the tree

A path is the join of its components with slashes. `resolve` follows a path through the tree, taking
in each directory the first entry with the name, as the kernel does.

`Sound` says what the entries of a directory are: the two dots, then directories of the table and files
of the command line. It holds however the files are named. `Found` says that the tables tell the truth
about `resolve`: every directory and every file is what its path resolves to. For that no file may have
the name of a directory.
-/

namespace OhMyXv6
namespace Mkfs

/-- A name that can stand between two slashes. -/
def Proper (c : Path) : Prop := c ≠ [] ∧ slash ∉ c ∧ c ≠ dotName ∧ c ≠ dotdotName

/-- The path with the given components. -/
def joined (cs : List Path) : Path := [slash].intercalate cs

section
variable {c : Path} {cs ds : List Path}

@[simp] lemma joined_nil : joined [] = [] := rfl

/-- One component is its own path. -/
@[simp] lemma joined_singleton (c : Path) : joined [c] = c := by
  simp [joined, List.intercalate]

/-- A slash between two components. -/
lemma joined_cons_cons (c d : Path) (cs : List Path) :
    joined (c :: d :: cs) = c ++ slash :: joined (d :: cs) := by
  simp [joined, List.intercalate]

/-- A slash behind the first of several. -/
lemma joined_cons (c : Path) (h : cs ≠ []) : joined (c :: cs) = c ++ slash :: joined cs := by
  cases cs with
  | nil => exact absurd rfl h
  | cons d cs => exact joined_cons_cons c d cs

lemma joined_append (hcs : cs ≠ []) (hds : ds ≠ []) :
    joined (cs ++ ds) = joined cs ++ slash :: joined ds := by
  induction cs with
  | nil => exact absurd rfl hcs
  | cons b cs ih =>
    by_cases hnil : cs = []
    · rw [hnil, List.singleton_append, joined_cons _ hds, joined_singleton]
    · rw [List.cons_append, joined_cons _ (by simp [hnil]), ih hnil, joined_cons _ hnil,
        List.append_assoc]
      rfl

/-- No empty path from nonempty components. -/
lemma joined_ne_nil (h : ∀ c ∈ cs, c ≠ []) (hcs : cs ≠ []) : joined cs ≠ [] := by
  cases cs with
  | nil => exact absurd rfl hcs
  | cons c cs =>
    have hc := h c List.mem_cons_self
    cases cs with
    | nil => rwa [joined_singleton]
    | cons d cs =>
      rw [joined_cons_cons]
      simp

/-- `joinPath` adds one component. -/
lemma joinPath_joined (h : ∀ c ∈ cs, c ≠ []) (c : Path) :
    joinPath (joined cs) c = joined (cs ++ [c]) := by
  unfold joinPath
  by_cases hcs : cs = []
  · rw [hcs, joined_nil, if_pos rfl, List.nil_append, joined_singleton]
  · rw [if_neg (joined_ne_nil h hcs), joined_append hcs (by simp), joined_singleton]

/-- Cutting at the slashes gives the components back. -/
lemma splitOn_joined (h : ∀ c ∈ cs, slash ∉ c) (hcs : cs ≠ []) :
    (joined cs).splitOn slash = cs := List.splitOn_intercalate slash h hcs

/-- And joining them gives the path back. -/
lemma joined_splitOn (p : Path) : joined (p.splitOn slash) = p := List.intercalate_splitOn slash

/-- Proper components are known from their path. -/
lemma joined_inj (hc : ∀ c ∈ cs, Proper c) (hd : ∀ c ∈ ds, Proper c)
    (h : joined cs = joined ds) : cs = ds := by
  by_cases hcs : cs = []
  · by_cases hds : ds = []
    · rw [hcs, hds]
    · rw [hcs] at h
      exact absurd h.symm (joined_ne_nil (fun c hcm => (hd c hcm).1) hds)
  · by_cases hds : ds = []
    · rw [hds] at h
      exact absurd h (joined_ne_nil (fun c hcm => (hc c hcm).1) hcs)
    · rw [← splitOn_joined (fun c hcm => (hc c hcm).2.1) hcs, h,
        splitOn_joined (fun c hcm => (hd c hcm).2.1) hds]

/-- Components have no slashes. -/
lemma not_mem_of_mem_splitOn {p : Path} (h : c ∈ p.splitOn slash) : slash ∉ c := by
  induction p generalizing c with
  | nil =>
    rw [List.splitOn_nil, List.mem_singleton] at h
    rw [h]
    exact List.not_mem_nil
  | cons b p ih =>
    rw [List.splitOn_cons_eq_if_modifyHead] at h
    split at h
    · rcases List.mem_cons.mp h with rfl | h
      · exact List.not_mem_nil
      · exact ih h
    · next hb =>
      rcases hsplit : p.splitOn slash with _ | ⟨q, qs⟩
      · exact absurd hsplit (List.splitOn_ne_nil _ _)
      · rw [hsplit, List.modifyHead_cons] at h
        rw [hsplit] at ih
        rcases List.mem_cons.mp h with rfl | h
        · rw [List.mem_cons, not_or]
          refine ⟨?_, ih List.mem_cons_self⟩
          rintro rfl
          exact hb (beq_self_eq_true slash)
        · exact ih (List.mem_cons_of_mem _ h)

/-- The first component of a path, as `mkdirp` cuts it off. -/
lemma takeWhile_joined (hc : slash ∉ c) (cs : List Path) :
    (joined (c :: cs)).takeWhile (· ≠ slash) = c ∧
      ((joined (c :: cs)).dropWhile (· ≠ slash)).tail = joined cs := by
  have hall : ∀ b ∈ c, (decide (b ≠ slash)) = true := by
    intro b hb
    rw [decide_eq_true_eq]
    rintro rfl
    exact hc hb
  by_cases hcs : cs = []
  · rw [hcs, joined_singleton, List.takeWhile_eq_self_iff.mpr hall,
      List.dropWhile_eq_nil_iff.mpr hall]
    exact ⟨rfl, rfl⟩
  · rw [joined_cons _ hcs, List.takeWhile_append_of_pos hall, List.dropWhile_append_of_pos hall]
    constructor
    · simp
    · simp

end

/-! ## Following a path -/

namespace Tree

/-- The inode of the first entry with this name. -/
def lookup (t : Tree) (i : ℕ) (name : Path) : Option ℕ :=
  ((t.node i).entries.find? (·.1 = name)).map Prod.snd

/-- The node that a path leads to from node `i`. -/
def resolve (t : Tree) : ℕ → List Path → Option ℕ
  | i, [] => some i
  | i, c :: cs => (t.lookup i c).bind fun j => t.resolve j cs

variable {t t' : Tree} {i j : ℕ} {c : Path} {cs ds : List Path}

/-- Resolving a path in two parts. -/
lemma resolve_append (t : Tree) (i : ℕ) (cs ds : List Path) :
    t.resolve i (cs ++ ds) = (t.resolve i cs).bind fun j => t.resolve j ds := by
  induction cs generalizing i with
  | nil => rfl
  | cons c cs ih =>
    rw [List.cons_append, resolve, resolve, Option.bind_assoc]
    congr 1
    funext j
    exact ih j

lemma resolve_singleton (t : Tree) (i : ℕ) (c : Path) : t.resolve i [c] = t.lookup i c := by
  rw [resolve]
  cases t.lookup i c with
  | none => rfl
  | some j => rfl

/-- What is looked up is an entry. -/
lemma mem_of_lookup (h : t.lookup i c = some j) : (c, j) ∈ (t.node i).entries := by
  obtain ⟨e, he, rfl⟩ := Option.map_eq_some_iff.mp h
  have hname : e.1 = c := of_decide_eq_true (by simpa using List.find?_some he)
  rw [← hname]
  exact List.mem_of_find?_eq_some he

/-- The entries name nodes of the tree. -/
def Closed (t : Tree) : Prop :=
  ∀ i, Live t.count i → ∀ e ∈ (t.node i).entries, Live t.count e.2

/-- In a closed tree a path leads to a live node. -/
lemma Closed.live_resolve (h : t.Closed) (hi : Live t.count i)
    (hr : t.resolve i cs = some j) : Live t.count j := by
  induction cs generalizing i with
  | nil =>
    obtain rfl := Option.some.inj hr
    exact hi
  | cons c cs ih =>
    obtain ⟨m, hm, hr⟩ := Option.bind_eq_some_iff.mp hr
    exact ih (h i hi _ (mem_of_lookup hm)) hr

/-- Entries are only added behind those that are there, so what is found stays found. -/
theorem Grows.lookup (h : Grows t t') (hi : Live t.count i) (hl : t.lookup i c = some j) :
    t'.lookup i c = some j := by
  obtain ⟨e, he, rfl⟩ := Option.map_eq_some_iff.mp hl
  obtain ⟨more, hmore⟩ := h.entries i hi
  unfold Tree.lookup
  rw [← hmore, List.find?_append, he]
  rfl

/-- What was resolved before still is. -/
lemma Grows.resolve (h : Grows t t') (hok : t.Closed) (hi : Live t.count i)
    (hr : t.resolve i cs = some j) : t'.resolve i cs = some j := by
  induction cs generalizing i with
  | nil => exact hr
  | cons c cs ih =>
    obtain ⟨m, hm, hr⟩ := Option.bind_eq_some_iff.mp hr
    rw [Tree.resolve, h.lookup hi hm]
    exact ih (hok i hi _ (mem_of_lookup hm)) hr

end Tree

/-! ## What the entries are -/

/-- A file of the command line: its directory, its name there, and its contents. -/
abbrev Placed := Path × Path × List UInt8

/-- An entry of the directory with the given path names a directory of the table or a file. -/
def IsEntry (t : Tree) (F : List Placed) (path : Path) (e : Path × ℕ) : Prop :=
  (Proper e.1 ∧ (joinPath path e.1, e.2) ∈ t.dirs) ∨
    ∃ data, (path, e.1, data) ∈ F ∧ t.node e.2 = .file data

/-- Node `par` is the directory above that of the table's row `d`. -/
def IsParent (t : Tree) (d : Path × ℕ) (par : ℕ) : Prop :=
  (d = ([], ROOTINO) ∧ par = ROOTINO) ∨
    ∃ q c, Proper c ∧ d.1 = joinPath q c ∧ (q, par) ∈ t.dirs

/-- The two dots come first. -/
def Shape (t : Tree) (F : List Placed) (d : Path × ℕ) : Prop :=
  ∃ par rest, (t.node d.2).entries = (dotName, d.2) :: (dotdotName, par) :: rest ∧
    IsParent t d par ∧ ∀ e ∈ rest, IsEntry t F d.1 e

/-- `F` are the files in the tree, `G` the directories that were asked for. -/
structure Sound (t : Tree) (F : List Placed) (G : List Path) : Prop where
  wf : t.Wf
  closed : t.Closed
  root : ([], ROOTINO) ∈ t.dirs
  shape : ∀ d ∈ t.dirs, Shape t F d
  origin : ∀ d ∈ t.dirs, d.1 = [] ∨ d.1 = binName ∨ ∃ g ∈ G, d.1 = g ∨ d.1 ++ [slash] <+: g

namespace Sound

variable {t t' : Tree} {F F' : List Placed} {G G' : List Path} {parent new : ℕ} {pp c : Path}

/-- The table has one row for a directory. -/
lemma row_inj (h : Sound t F G) {d d' : Path × ℕ} (hd : d ∈ t.dirs) (hd' : d' ∈ t.dirs)
    (heq : d.2 = d'.2) : d = d' := List.inj_on_of_nodup_map h.wf.nodup hd hd' heq

/-- A known directory is a directory. -/
lemma node_parent (h : Sound t F G) (hp : (pp, parent) ∈ t.dirs) :
    ∃ es, t.node parent = .dir es := by
  have hdir := (h.wf.isDir _ hp).2
  rcases hnode : t.node parent with es | data
  · exact ⟨es, rfl⟩
  · rw [hnode] at hdir
    exact absurd hdir (show T_FILE ≠ T_DIR by decide)

/-- A new entry at the end of one directory. -/
lemma link (h : Sound t F G) (hp : (pp, parent) ∈ t.dirs)
    (hnode : ∀ i, Live t.count i → i ≠ parent → t'.node i = t.node i)
    (hparent : t'.node parent = (t.node parent).link c new) (hdirs : ∀ d ∈ t.dirs, d ∈ t'.dirs)
    (hF : ∀ f ∈ F, f ∈ F') (hnew : IsEntry t' F' pp (c, new)) :
    ∀ d ∈ t.dirs, Shape t' F' d := by
  intro d hd
  obtain ⟨par, rest, hentries, hpar, hrest⟩ := h.shape d hd
  obtain ⟨es, hes⟩ := h.node_parent hp
  have hlive := (h.wf.isDir d hd).1
  -- no row of the table goes away, so a parent stays a parent
  have hpar' : IsParent t' d par := by
    rcases hpar with hroot | ⟨q, c', hc', heq, hq⟩
    · exact .inl hroot
    · exact .inr ⟨q, c', hc', heq, hdirs _ hq⟩
  have hrest' : ∀ e ∈ rest, IsEntry t' F' d.1 e := by
    intro e he
    rcases hrest e he with ⟨hname, hrow⟩ | ⟨data, hf, hfile⟩
    · exact .inl ⟨hname, hdirs _ hrow⟩
    · refine .inr ⟨data, hF _ hf, ?_⟩
      rw [hnode, hfile]
      · apply h.closed d.2 hlive e
        rw [hentries]
        exact List.mem_cons_of_mem _ (List.mem_cons_of_mem _ he)
      · intro heq
        rw [heq, hes] at hfile
        exact nomatch hfile
  -- the directory that gets the entry, or another one that stays as it was
  by_cases hdp : d.2 = parent
  · have hrow : d = (pp, parent) := h.row_inj hd hp hdp
    refine ⟨par, rest ++ [(c, new)], ?_, hpar', ?_⟩
    · rw [hdp] at hentries ⊢
      rw [hparent, hes]
      rw [hes] at hentries
      show es ++ [(c, new)] = _
      have hes' : es = (dotName, parent) :: (dotdotName, par) :: rest := hentries
      rw [hes']
      rfl
    · intro e he
      rcases List.mem_append.mp he with he | he
      · exact hrest' e he
      · rw [List.mem_singleton.mp he, hrow]
        exact hnew
  · refine ⟨par, rest, ?_, hpar', hrest'⟩
    rw [hnode d.2 hlive hdp]
    exact hentries

end Sound

namespace Tree

variable {t : Tree} {parent i : ℕ} {c path : Path}

/-- The nodes after a directory is made. -/
lemma node_mkdir_child (hp : parent ≤ t.count) :
    (t.mkdir parent c path).2.node (t.count + 1)
      = .dir [(dotName, t.count + 1), (dotdotName, parent)] := by
  have hne : t.count + 1 ≠ parent := by omega
  simp [Tree.mkdir, Tree.dirlink, Tree.ialloc, Function.update_of_ne hne, Node.link]

/-- `mkdir` makes an entry in the parent. -/
lemma node_mkdir_parent (hp : parent ≤ t.count) :
    (t.mkdir parent c path).2.node parent = (t.node parent).link c (t.count + 1) := by
  have hne : parent ≠ t.count + 1 := by omega
  simp [Tree.mkdir, Tree.dirlink, Tree.ialloc, Function.update_of_ne hne]

lemma node_mkdir_of_ne (hi : i ≤ t.count) (hne : i ≠ parent) :
    (t.mkdir parent c path).2.node i = t.node i := by
  have hne' : i ≠ t.count + 1 := by omega
  simp [Tree.mkdir, Tree.dirlink, Tree.ialloc, Function.update_of_ne hne',
    Function.update_of_ne hne]

lemma entries_link {es : List (Path × ℕ)} {nd : Node} (h : nd = .dir es) (name : Path) (j : ℕ) :
    (nd.link name j).entries = nd.entries ++ [(name, j)] := by
  rw [h]
  rfl

end Tree

namespace Sound

variable {t t' : Tree} {F F' : List Placed} {G G' : List Path} {parent new : ℕ} {pp c : Path}

/-- The new directory comes from a path of `G`. -/
lemma mkdir (h : Sound t F G) (hp : (pp, parent) ∈ t.dirs) (hc : Proper c)
    (horigin : ∃ g ∈ G, joinPath pp c = g ∨ joinPath pp c ++ [slash] <+: g) :
    Sound (t.mkdir parent c (joinPath pp c)).2 F G := by
  have hlive := (h.wf.isDir _ hp).1
  have hrow : (joinPath pp c, t.count + 1) ∈ (t.mkdir parent c (joinPath pp c)).2.dirs :=
    List.mem_append_right _ (List.mem_singleton.mpr rfl)
  have hdirs : ∀ d ∈ t.dirs, d ∈ (t.mkdir parent c (joinPath pp c)).2.dirs := fun d hd =>
    List.mem_append_left _ hd
  have hchild : (t.mkdir parent c (joinPath pp c)).2.node (t.count + 1) = _ :=
    Tree.node_mkdir_child hlive.2
  have hparent : (t.mkdir parent c (joinPath pp c)).2.node parent = _ :=
    Tree.node_mkdir_parent hlive.2
  refine ⟨h.wf.mkdir parent c _, ?_, hdirs _ h.root, ?_, ?_⟩
  · -- the entries still name nodes
    intro i hi e he
    show 1 ≤ e.2 ∧ e.2 ≤ t.count + 1
    have hle : i ≤ t.count + 1 := hi.2
    by_cases hic : i = t.count + 1
    · rw [hic, hchild] at he
      have hle' := hlive.2
      have hpos := hlive.1
      dsimp only at hle' hpos
      rcases List.mem_cons.mp he with rfl | he
      · dsimp only
        omega
      · rw [List.mem_singleton.mp he]
        dsimp only
        omega
    · have hlt : Live t.count i := ⟨hi.1, by omega⟩
      have hold : ∀ e ∈ (t.node i).entries, 1 ≤ e.2 ∧ e.2 ≤ t.count + 1 := by
        intro e he
        have hl := h.closed i hlt e he
        exact ⟨hl.1, Nat.le_succ_of_le hl.2⟩
      by_cases hip : i = parent
      · obtain ⟨es, hes⟩ := h.node_parent hp
        rw [hip, hparent, Tree.entries_link hes] at he
        rcases List.mem_append.mp he with he | he
        · exact hold e (hip ▸ he)
        · rw [List.mem_singleton.mp he]
          dsimp only
          omega
      · rw [Tree.node_mkdir_of_ne (by omega) hip] at he
        exact hold e he
  · intro d hd
    rcases List.mem_append.mp hd with hd | hd
    · refine h.link hp (fun i hi hne => Tree.node_mkdir_of_ne hi.2 hne) hparent hdirs
        (fun _ hf => hf) ?_ d hd
      exact .inl ⟨hc, hrow⟩
    · rw [List.mem_singleton.mp hd]
      refine ⟨parent, [], ?_, .inr ⟨pp, c, hc, rfl, hdirs _ hp⟩, fun e he => nomatch he⟩
      show ((t.mkdir parent c (joinPath pp c)).2.node (t.count + 1)).entries = _
      rw [hchild]
      rfl
  · intro d hd
    rcases List.mem_append.mp hd with hd | hd
    · exact h.origin d hd
    · rw [List.mem_singleton.mp hd]
      exact .inr (.inr horigin)

/-- A row of the table that is there or is made. -/
lemma descend (h : Sound t F G) (hp : (pp, parent) ∈ t.dirs) (hc : Proper c)
    (horigin : ∃ g ∈ G, joinPath pp c = g ∨ joinPath pp c ++ [slash] <+: g) :
    Sound (t.descend parent c (joinPath pp c)).2 F G ∧
      (joinPath pp c, (t.descend parent c (joinPath pp c)).1)
        ∈ (t.descend parent c (joinPath pp c)).2.dirs := by
  unfold Tree.descend
  split
  · next d hd =>
    refine ⟨h, ?_⟩
    have hname : d.1 = joinPath pp c := of_decide_eq_true (by simpa using List.find?_some hd)
    rw [← hname]
    exact List.mem_of_find?_eq_some hd
  · exact ⟨h.mkdir hp hc horigin, List.mem_append_right _ (List.mem_singleton.mpr rfl)⟩

/-- The path so far is the whole path or ends at a slash of it. -/
lemma origin_joined {ds cs : List Path} (c : Path) :
    joined (ds ++ [c]) = joined (ds ++ c :: cs) ∨
      joined (ds ++ [c]) ++ [slash] <+: joined (ds ++ c :: cs) := by
  by_cases hcs : cs = []
  · rw [hcs]
    exact .inl rfl
  · refine .inr ⟨joined cs, ?_⟩
    rw [show ds ++ c :: cs = (ds ++ [c]) ++ cs by simp, joined_append (by simp) hcs,
      List.append_assoc]
    rfl

/-- By induction on the components. -/
lemma mkdirpLoop {ds cs : List Path} (h : Sound t F G) (hds : ∀ c ∈ ds, Proper c)
    (hcs : ∀ c ∈ cs, Proper c) (hp : (joined ds, parent) ∈ t.dirs) (hG : joined (ds ++ cs) ∈ G) :
    Sound (t.mkdirpLoop (joined ds) parent (joined cs)).2 F G ∧
      (joined (ds ++ cs), (t.mkdirpLoop (joined ds) parent (joined cs)).1)
        ∈ (t.mkdirpLoop (joined ds) parent (joined cs)).2.dirs := by
  induction cs generalizing t ds parent with
  | nil =>
    rw [Tree.mkdirpLoop, if_pos joined_nil, List.append_nil]
    exact ⟨h, hp⟩
  | cons c cs ih =>
    have hc := hcs c List.mem_cons_self
    obtain ⟨htake, hdrop⟩ := takeWhile_joined hc.2.1 cs
    have hne : joined (c :: cs) ≠ [] := joined_ne_nil (fun c hc => (hcs c hc).1) (by simp)
    have hjoin := joinPath_joined (fun c hc => (hds c hc).1) c
    have hstep := h.descend hp hc (by
      rw [hjoin]
      exact ⟨_, hG, origin_joined c⟩)
    rw [hjoin] at hstep
    rw [Tree.mkdirpLoop, if_neg hne]
    dsimp only
    rw [htake, hdrop, hjoin]
    have hproper : ∀ b ∈ ds ++ [c], Proper b := by
      intro b hb
      rcases List.mem_append.mp hb with hb | hb
      · exact hds b hb
      · rw [List.mem_singleton.mp hb]
        exact hc
    have hrec := ih hstep.1 hproper (fun b hb => hcs b (List.mem_cons_of_mem _ hb)) hstep.2
      (by simpa using hG)
    simpa using hrec

lemma mkdirp {ds : List Path} (h : Sound t F G) (hds : ∀ c ∈ ds, Proper c)
    (hG : joined ds ∈ G) :
    Sound (t.mkdirp (joined ds)).2 F G ∧
      (joined ds, (t.mkdirp (joined ds)).1) ∈ (t.mkdirp (joined ds)).2.dirs := by
  unfold Tree.mkdirp
  by_cases hnil : joined ds = []
  · rw [if_pos hnil, hnil]
    exact ⟨h, h.root⟩
  · rw [if_neg hnil]
    have hnone : ∀ c ∈ ([] : List Path), Proper c := nofun
    exact h.mkdirpLoop hnone hds h.root hG

end Sound

namespace Tree

variable {t : Tree} {parent i : ℕ} {name : Path} {data : List UInt8}

/-- The tree with a new file in a directory. -/
def putFile (t : Tree) (parent : ℕ) (name : Path) (data : List UInt8) : Tree :=
  ((t.ialloc (.file [])).dirlink parent name (t.count + 1)).append (t.count + 1) data

lemma node_putFile_new (hp : parent ≤ t.count) :
    (t.putFile parent name data).node (t.count + 1) = .file data := by
  have hne : t.count + 1 ≠ parent := by omega
  simp [putFile, Tree.append, Tree.dirlink, Tree.ialloc, Function.update_of_ne hne, Node.append]

lemma node_putFile_parent (hp : parent ≤ t.count) :
    (t.putFile parent name data).node parent = (t.node parent).link name (t.count + 1) := by
  have hne : parent ≠ t.count + 1 := by omega
  simp [putFile, Tree.append, Tree.dirlink, Tree.ialloc, Function.update_of_ne hne]

lemma node_putFile_of_ne (hi : i ≤ t.count) (hne : i ≠ parent) :
    (t.putFile parent name data).node i = t.node i := by
  have hne' : i ≠ t.count + 1 := by omega
  simp [putFile, Tree.append, Tree.dirlink, Tree.ialloc, Function.update_of_ne hne',
    Function.update_of_ne hne]

/-- Nothing is lost from the tree. -/
lemma grows_putFile : Grows t (t.putFile parent name data) :=
  (Grows.ialloc _ _).trans ((Grows.dirlink _ _ _ _).trans (Grows.append _ _ _))

end Tree

/-- Where a file of the command line goes, if `mkfs` takes it. -/
def Arg.placed (arg : Arg) : Option Placed :=
  match arg.data, place arg.name with
  | some data, .ok (dir, file) => some (dir, file, data)
  | _, _ => none

/-- `addFile` makes the directories and puts the file there. -/
lemma Tree.addFile_placed {t : Tree} {arg : Arg} {dir file : Path} {data : List UInt8}
    (h : arg.placed = some (dir, file, data)) :
    t.addFile arg = (t.mkdirp dir).2.putFile (t.mkdirp dir).1 file data := by
  unfold Arg.placed at h
  split at h
  · next data' dir' file' hdata hplace =>
    simp only [Option.some.injEq, Prod.mk.injEq] at h
    obtain ⟨rfl, rfl, rfl⟩ := h
    unfold Tree.addFile
    rw [hdata, hplace]
    rfl
  · exact nomatch h

/-- Without a place nothing is added. -/
lemma Tree.addFile_unplaced {t : Tree} {arg : Arg} (h : arg.placed = none) :
    t.addFile arg = t := by
  unfold Tree.addFile
  split
  · next data dir file hdata hplace =>
    unfold Arg.placed at h
    rw [hdata, hplace] at h
    exact nomatch h
  · rfl

namespace Sound

variable {t t' : Tree} {F F' : List Placed} {G G' : List Path} {parent new : ℕ} {pp name : Path}
  {data : List UInt8}

/-- The new file is in the list as well. -/
lemma putFile (h : Sound t F G) (hp : (pp, parent) ∈ t.dirs)
    (hwf : (t.putFile parent name data).Wf) :
    Sound (t.putFile parent name data) (F ++ [(pp, name, data)]) G := by
  have hlive := (h.wf.isDir _ hp).1
  have hnew : (t.putFile parent name data).node (t.count + 1) = _ := Tree.node_putFile_new hlive.2
  have hparent : (t.putFile parent name data).node parent = _ := Tree.node_putFile_parent hlive.2
  refine ⟨hwf, ?_, h.root, ?_, h.origin⟩
  · intro i hi e he
    show 1 ≤ e.2 ∧ e.2 ≤ t.count + 1
    have hle : i ≤ t.count + 1 := hi.2
    by_cases hic : i = t.count + 1
    · rw [hic, hnew] at he
      exact nomatch he
    · have hlt : Live t.count i := ⟨hi.1, by omega⟩
      have hold : ∀ e ∈ (t.node i).entries, 1 ≤ e.2 ∧ e.2 ≤ t.count + 1 := by
        intro e he
        have hl := h.closed i hlt e he
        exact ⟨hl.1, Nat.le_succ_of_le hl.2⟩
      by_cases hip : i = parent
      · obtain ⟨es, hes⟩ := h.node_parent hp
        rw [hip, hparent, Tree.entries_link hes] at he
        rcases List.mem_append.mp he with he | he
        · exact hold e (hip ▸ he)
        · rw [List.mem_singleton.mp he]
          dsimp only
          omega
      · rw [Tree.node_putFile_of_ne (by omega) hip] at he
        exact hold e he
  · refine h.link hp (fun i hi hne => Tree.node_putFile_of_ne hi.2 hne) hparent (fun _ hd => hd)
      (fun _ hf => List.mem_append_left _ hf) ?_
    exact .inr ⟨data, List.mem_append_right _ (List.mem_singleton.mpr rfl), hnew⟩

/-- One file: its directories and its own entry. -/
lemma addFile (h : Sound t F G) {arg : Arg} {ds : List Path} (hds : ∀ c ∈ ds, Proper c)
    (hplaced : arg.placed = some (joined ds, name, data)) (hG : joined ds ∈ G) :
    Sound (t.addFile arg) (F ++ [(joined ds, name, data)]) G := by
  have hwf := h.wf.addFile arg
  rw [Tree.addFile_placed hplaced] at hwf ⊢
  obtain ⟨hs, hrow⟩ := h.mkdirp hds hG
  exact hs.putFile hrow hwf

/-- All files of a list, each in a directory whose path has proper components. -/
theorem addFiles (h : Sound t F G) {files : List Arg}
    (hfiles : ∀ arg ∈ files, ∀ f, arg.placed = some f →
      f.1 ∈ G ∧ ∃ ds, f.1 = joined ds ∧ ∀ c ∈ ds, Proper c) :
    Sound (files.foldl Tree.addFile t) (F ++ files.filterMap Arg.placed) G := by
  induction files generalizing t F with
  | nil =>
    rw [List.filterMap_nil, List.append_nil]
    exact h
  | cons arg files ih =>
    have hrest := fun a ha => hfiles a (List.mem_cons_of_mem _ ha)
    rw [List.foldl_cons]
    rcases hplaced : arg.placed with _ | ⟨dir, file, data⟩
    · rw [List.filterMap_cons_none hplaced, Tree.addFile_unplaced hplaced]
      exact ih h hrest
    · obtain ⟨hG, ds, hjoined, hds⟩ := hfiles arg List.mem_cons_self _ hplaced
      dsimp only at hjoined hG
      rw [hjoined] at hplaced hG
      have hrec := ih (h.addFile hds hplaced hG) hrest
      rw [List.append_assoc] at hrec
      rw [List.filterMap_cons_some hplaced]
      exact hrec

end Sound

lemma proper_binName : Proper binName := by
  unfold Proper
  decide

/-- The root and `/bin`. -/
lemma sound_root (G : List Path) : Sound .root [] G := by
  refine ⟨Tree.wf_root, ?_, List.mem_cons_self, ?_, ?_⟩
  · intro i hi e he
    have h1 : 1 ≤ i := hi.1
    have h2 : i ≤ 2 := hi.2
    have h3 : i = 1 ∨ i = 2 := by omega
    rcases h3 with rfl | rfl
    · have hall : ∀ e ∈ (Tree.root.node 1).entries, 1 ≤ e.2 ∧ e.2 ≤ 2 := by decide
      exact hall e he
    · have hall : ∀ e ∈ (Tree.root.node 2).entries, 1 ≤ e.2 ∧ e.2 ≤ 2 := by decide
      exact hall e he
  · intro d hd
    rcases List.mem_cons.mp hd with rfl | hd
    · refine ⟨1, [(binName, 2)], rfl, .inl ⟨rfl, rfl⟩, ?_⟩
      intro e he
      rw [List.mem_singleton.mp he]
      exact .inl ⟨proper_binName, List.mem_cons_of_mem _ List.mem_cons_self⟩
    · rw [List.mem_singleton.mp hd]
      exact ⟨1, [], rfl, .inr ⟨[], binName, proper_binName, rfl, List.mem_cons_self⟩,
        fun e he => nomatch he⟩
  · intro d hd
    rcases List.mem_cons.mp hd with rfl | hd
    · exact .inl rfl
    · rw [List.mem_singleton.mp hd]
      exact .inr (.inl rfl)

/-! ## What a path can lead to -/

namespace Sound

variable {t : Tree} {F : List Placed} {G : List Path} {parent j : ℕ} {pp name : Path}

/-- A directory has a name only once if neither a directory nor a file has it. -/
theorem no_entry (h : Sound t F G) (hp : (pp, parent) ∈ t.dirs) (hdot : name ≠ dotName)
    (hdotdot : name ≠ dotdotName) (hdir : ∀ j, (joinPath pp name, j) ∉ t.dirs)
    (hfile : ∀ data, (pp, name, data) ∉ F) : ∀ e ∈ (t.node parent).entries, e.1 ≠ name := by
  obtain ⟨par, rest, hentries, -, hrest⟩ := h.shape _ hp
  intro e he
  rw [hentries] at he
  rintro rfl
  rcases List.mem_cons.mp he with rfl | he
  · exact hdot rfl
  rcases List.mem_cons.mp he with rfl | he
  · exact hdotdot rfl
  rcases hrest e he with ⟨-, hrow⟩ | ⟨data, hf, -⟩
  · exact hdir _ hrow
  · exact hfile data hf

/-- What the lookup of a proper name in a directory finds. -/
lemma lookup_cases (h : Sound t F G) (hp : (pp, parent) ∈ t.dirs) (hname : Proper name)
    (hl : t.lookup parent name = some j) :
    (joinPath pp name, j) ∈ t.dirs ∨ ∃ data, (pp, name, data) ∈ F ∧ t.node j = .file data := by
  obtain ⟨par, rest, hentries, -, hrest⟩ := h.shape _ hp
  have hmem := Tree.mem_of_lookup hl
  rw [hentries] at hmem
  rcases List.mem_cons.mp hmem with heq | hmem
  · exact absurd (congrArg Prod.fst heq) hname.2.2.1
  rcases List.mem_cons.mp hmem with heq | hmem
  · exact absurd (congrArg Prod.fst heq) hname.2.2.2
  rcases hrest _ hmem with ⟨-, hrow⟩ | hf
  · exact .inl hrow
  · exact .inr hf

/-- A path leads to a directory of the table or to a file that has this path. -/
theorem resolve_cases (h : Sound t F G) {ds : List Path} (hds : ∀ c ∈ ds, Proper c)
    (hr : t.resolve ROOTINO ds = some j) :
    (joined ds, j) ∈ t.dirs ∨
      ∃ as name data, ds = as ++ [name] ∧ (joined as, name, data) ∈ F ∧ t.node j = .file data := by
  induction ds using List.reverseRecOn generalizing j with
  | nil =>
    obtain rfl := Option.some.inj hr
    exact .inl h.root
  | append_singleton ds c ih =>
    have hds' : ∀ b ∈ ds, Proper b := fun b hb => hds b (List.mem_append_left _ hb)
    have hc : Proper c := hds c (List.mem_append_right _ (List.mem_singleton.mpr rfl))
    rw [Tree.resolve_append, Option.bind_eq_some_iff] at hr
    obtain ⟨m, hm, hr⟩ := hr
    rw [Tree.resolve_singleton] at hr
    rcases ih hds' hm with hrow | ⟨-, -, data, -, -, hfile⟩
    · rcases h.lookup_cases hrow hc hr with hrow' | ⟨data, hf, hfile⟩
      · rw [joinPath_joined fun b hb => (hds' b hb).1] at hrow'
        exact .inl hrow'
      · exact .inr ⟨ds, c, data, rfl, hf, hfile⟩
    · -- a file has no entries
      have hmem := Tree.mem_of_lookup hr
      rw [hfile] at hmem
      exact nomatch hmem

/-- The two dots of a directory. -/
lemma dots (h : Sound t F G) {d : Path × ℕ} (hd : d ∈ t.dirs) :
    t.lookup d.2 dotName = some d.2 ∧ ∃ par, IsParent t d par ∧
      t.lookup d.2 dotdotName = some par := by
  obtain ⟨par, rest, hentries, hpar, -⟩ := h.shape d hd
  refine ⟨?_, par, hpar, ?_⟩
  · unfold Tree.lookup
    rw [hentries]
    rfl
  · unfold Tree.lookup
    rw [hentries]
    rfl

end Sound

/-! ## The tables tell the truth -/

/-- The directories that are remembered and the files that were placed are where their paths lead.
-/
structure Found (t : Tree) (F : List Placed) : Prop where
  dirs : ∀ ds, (∀ c ∈ ds, Proper c) → ∀ i, (joined ds, i) ∈ t.dirs → t.resolve ROOTINO ds = some i
  files : ∀ ds, (∀ c ∈ ds, Proper c) → ∀ name data, (joined ds, name, data) ∈ F →
    ∃ j, t.resolve ROOTINO (ds ++ [name]) = some j ∧ t.node j = .file data

namespace Found

variable {t t' : Tree} {F : List Placed} {G : List Path} {parent new : ℕ} {c name : Path}
  {ds cs : List Path} {data : List UInt8}

/-- The last entry of a directory is found if no other has its name. -/
theorem lookup_link (hs : Sound t F G) (hp : (joined ds, parent) ∈ t.dirs)
    (hparent : t'.node parent = (t.node parent).link c new)
    (hno : ∀ e ∈ (t.node parent).entries, e.1 ≠ c) : t'.lookup parent c = some new := by
  obtain ⟨es, hes⟩ := hs.node_parent hp
  have hnone : (t.node parent).entries.find? (·.1 = c) = none := by
    rw [List.find?_eq_none]
    intro e he
    simpa using hno e he
  unfold Tree.lookup
  rw [hparent, Tree.entries_link hes, List.find?_append, hnone]
  simp

/-- What was found is still there in a larger tree. -/
lemma grow (h : Found t F) (hs : Sound t F G) (hg : Tree.Grows t t')
    (hfile : ∀ i data, Live t.count i → t.node i = .file data → t'.node i = .file data)
    (hdirs : ∀ ds, (∀ c ∈ ds, Proper c) → ∀ i, (joined ds, i) ∈ t'.dirs → (joined ds, i) ∉ t.dirs →
      t'.resolve ROOTINO ds = some i) : Found t' F := by
  have hroot := hs.wf.root.1
  refine ⟨?_, ?_⟩
  · intro ds hds i hi
    by_cases hold : (joined ds, i) ∈ t.dirs
    · exact hg.resolve hs.closed hroot (h.dirs ds hds i hold)
    · exact hdirs ds hds i hi hold
  · intro ds hds name data hf
    obtain ⟨j, hr, hnode⟩ := h.files ds hds name data hf
    exact ⟨j, hg.resolve hs.closed hroot hr, hfile j data (hs.closed.live_resolve hroot hr) hnode⟩

/-- A new directory hides no file. -/
lemma mkdir (h : Found t F) (hs : Sound t F G) (hds : ∀ c ∈ ds, Proper c)
    (hp : (joined ds, parent) ∈ t.dirs) (hc : Proper c)
    (hno : ∀ e ∈ (t.node parent).entries, e.1 ≠ c) :
    Found (t.mkdir parent c (joined (ds ++ [c]))).2 F := by
  have hlive := (hs.wf.isDir _ hp).1
  have hg := Tree.Grows.mkdir t parent c (joined (ds ++ [c]))
  have hproper : ∀ b ∈ ds ++ [c], Proper b := by
    intro b hb
    rcases List.mem_append.mp hb with hb | hb
    · exact hds b hb
    · rw [List.mem_singleton.mp hb]
      exact hc
  apply h.grow hs hg
  · intro i data hi hfile
    obtain ⟨es, hes⟩ := hs.node_parent hp
    rw [Tree.node_mkdir_of_ne hi.2, hfile]
    rintro rfl
    rw [hes] at hfile
    exact nomatch hfile
  · -- the only new row is that of the directory that was made
    intro ds' hds' i hi hold
    rcases List.mem_append.mp hi with hi | hi
    · exact absurd hi hold
    · rw [List.mem_singleton, Prod.mk.injEq] at hi
      rw [joined_inj hds' hproper hi.1, hi.2, Tree.resolve_append,
        hg.resolve hs.closed hs.wf.root.1 (h.dirs ds hds parent hp)]
      show Tree.resolve _ parent [c] = _
      rw [Tree.resolve_singleton]
      exact lookup_link hs hp (Tree.node_mkdir_parent hlive.2) hno

/-- Into a directory that is there or is made. -/
lemma descend (h : Found t F) (hs : Sound t F G) (hds : ∀ c ∈ ds, Proper c)
    (hp : (joined ds, parent) ∈ t.dirs) (hc : Proper c)
    (hfree : ∀ data, (joined ds, c, data) ∉ F) :
    Found (t.descend parent c (joined (ds ++ [c]))).2 F := by
  unfold Tree.descend
  split
  · exact h
  · next hnone =>
    apply h.mkdir hs hds hp hc
    apply hs.no_entry hp hc.2.2.1 hc.2.2.2 _ hfree
    intro j hj
    rw [joinPath_joined fun b hb => (hds b hb).1] at hj
    have hnot := List.find?_eq_none.mp hnone _ hj
    simp at hnot

/-- By induction on the components. -/
lemma mkdirpLoop (h : Found t F) (hs : Sound t F G) (hds : ∀ c ∈ ds, Proper c)
    (hcs : ∀ c ∈ cs, Proper c) (hp : (joined ds, parent) ∈ t.dirs) (hG : joined (ds ++ cs) ∈ G)
    (hfree : ∀ as c bs, cs = as ++ c :: bs → ∀ data, (joined (ds ++ as), c, data) ∉ F) :
    Found (t.mkdirpLoop (joined ds) parent (joined cs)).2 F := by
  induction cs generalizing t ds parent with
  | nil =>
    rw [Tree.mkdirpLoop, if_pos joined_nil]
    exact h
  | cons c cs ih =>
    have hc := hcs c List.mem_cons_self
    obtain ⟨htake, hdrop⟩ := takeWhile_joined hc.2.1 cs
    have hne : joined (c :: cs) ≠ [] := joined_ne_nil (fun c hc => (hcs c hc).1) (by simp)
    have hjoin := joinPath_joined (fun c hc => (hds c hc).1) c
    have hstep := hs.descend hp hc (by
      rw [hjoin]
      exact ⟨_, hG, Sound.origin_joined c⟩)
    rw [hjoin] at hstep
    have hfound := h.descend hs hds hp hc (by simpa using hfree [] c cs rfl)
    rw [Tree.mkdirpLoop, if_neg hne]
    dsimp only
    rw [htake, hdrop, hjoin]
    apply ih hfound hstep.1 _ (fun b hb => hcs b (List.mem_cons_of_mem _ hb)) hstep.2
    · simpa using hG
    · intro as b bs heq data
      have hf := hfree (c :: as) b bs (by rw [heq]; rfl) data
      simpa using hf
    · intro b hb
      rcases List.mem_append.mp hb with hb | hb
      · exact hds b hb
      · rw [List.mem_singleton.mp hb]
        exact hc

lemma mkdirp (h : Found t F) (hs : Sound t F G) (hds : ∀ c ∈ ds, Proper c) (hG : joined ds ∈ G)
    (hfree : ∀ as c bs, ds = as ++ c :: bs → ∀ data, (joined as, c, data) ∉ F) :
    Found (t.mkdirp (joined ds)).2 F := by
  unfold Tree.mkdirp
  by_cases hnil : joined ds = []
  · rw [if_pos hnil]
    exact h
  · rw [if_neg hnil]
    have hnone : ∀ c ∈ ([] : List Path), Proper c := nofun
    exact h.mkdirpLoop hs hnone hds hs.root hG hfree

/-- The new file is found and hides none. -/
lemma putFile (h : Found t F) (hs : Sound t F G) (hds : ∀ c ∈ ds, Proper c)
    (hp : (joined ds, parent) ∈ t.dirs) (hno : ∀ e ∈ (t.node parent).entries, e.1 ≠ name) :
    Found (t.putFile parent name data) (F ++ [(joined ds, name, data)]) := by
  have hlive := (hs.wf.isDir _ hp).1
  have hg : Tree.Grows t (t.putFile parent name data) := Tree.grows_putFile
  have hold : Found (t.putFile parent name data) F := by
    apply h.grow hs hg
    · intro i data' hi hfile
      obtain ⟨es, hes⟩ := hs.node_parent hp
      rw [Tree.node_putFile_of_ne hi.2, hfile]
      rintro rfl
      rw [hes] at hfile
      exact nomatch hfile
    · intro ds' _ i hi hnot
      exact absurd hi hnot
  refine ⟨hold.dirs, ?_⟩
  intro ds' hds' name' data' hf
  rcases List.mem_append.mp hf with hf | hf
  · exact hold.files ds' hds' name' data' hf
  · rw [List.mem_singleton, Prod.mk.injEq, Prod.mk.injEq] at hf
    refine ⟨t.count + 1, ?_, ?_⟩
    · rw [joined_inj hds' hds hf.1, hf.2.1, Tree.resolve_append, hold.dirs ds hds parent hp]
      show Tree.resolve _ parent [name] = _
      rw [Tree.resolve_singleton]
      exact lookup_link hs hp (Tree.node_putFile_parent hlive.2) hno
    · rw [hf.2.2]
      exact Tree.node_putFile_new hlive.2

end Found

lemma found_root : Found .root [] := by
  refine ⟨?_, fun _ _ _ _ hf => nomatch hf⟩
  intro ds hds i hi
  rcases List.mem_cons.mp hi with heq | hi
  · rw [Prod.mk.injEq] at heq
    have hnone : ∀ c ∈ ([] : List Path), Proper c := nofun
    rw [joined_inj hds hnone heq.1, heq.2]
    rfl
  · rw [List.mem_singleton, Prod.mk.injEq] at hi
    have hbin : ∀ c ∈ [binName], Proper c := by
      intro c hc
      rw [List.mem_singleton.mp hc]
      exact proper_binName
    rw [joined_inj hds hbin (hi.1.trans (joined_singleton _).symm), hi.2]
    decide

end Mkfs
end OhMyXv6
