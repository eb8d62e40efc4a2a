import OhMyXv6.Fs.Dir
import OhMyXv6.Mkfs.Rep

/-!
# The tree that the file names describe

`Tree` is what `mkfs` is for, without blocks, sectors and inodes on an image: a numbered list of
directories and files, built from the command line alone. `Tree.ofFiles` says which tree a
command line describes; what holds of an image is stated as conditions on this tree.

`Sim` relates it to the state of the program, and each function of the program that succeeds
does to the image what the function of the same name does to the tree.
-/

namespace OhMyXv6
namespace Mkfs

open Bytes

/-- A file or a directory. -/
inductive Node
  | dir (entries : List (Path × ℕ))
  | file (data : List UInt8)

namespace Node

/-- The type of an inode for this node. -/
def type : Node → ℕ
  | dir _ => T_DIR
  | file _ => T_FILE

/-- The contents as they are on the disk. -/
def bytes : Node → List UInt8
  | dir entries => dirBytes entries
  | file data => data

/-- A directory with one more entry. -/
def link (name : Path) (child : ℕ) : Node → Node
  | dir entries => dir (entries ++ [(name, child)])
  | file data => file data

/-- A file with more bytes. -/
def append (p : List UInt8) : Node → Node
  | dir entries => dir entries
  | file data => file (data ++ p)

/-- The entries of a directory. -/
def entries : Node → List (Path × ℕ)
  | dir entries => entries
  | file _ => []

end Node

/-- Nodes are numbered from 1 on. `dirs` names the directories by their paths. -/
structure Tree where
  count : ℕ
  node : ℕ → Node
  dirs : List (Path × ℕ)

namespace Tree

/-- The tree with one node more. -/
def ialloc (t : Tree) (nd : Node) : Tree :=
  { t with count := t.count + 1, node := Function.update t.node (t.count + 1) nd }

/-- The tree with one entry more. -/
def dirlink (t : Tree) (parent : ℕ) (name : Path) (child : ℕ) : Tree :=
  { t with node := Function.update t.node parent ((t.node parent).link name child) }

/-- The tree with more bytes in a file. -/
def append (t : Tree) (i : ℕ) (p : List UInt8) : Tree :=
  { t with node := Function.update t.node i ((t.node i).append p) }

/-- A directory is made and linked. -/
def mkdir (t : Tree) (parent : ℕ) (component path : Path) : ℕ × Tree :=
  let child := t.count + 1
  let t := (t.ialloc (.dir [])).dirlink parent component child
  let t := (t.dirlink child dotName child).dirlink child dotdotName parent
  (child, { t with dirs := t.dirs ++ [(path, child)] })

/-- The directory for one more component of a path, made if there is none. -/
def descend (t : Tree) (parent : ℕ) (component path : Path) : ℕ × Tree :=
  match t.dirs.find? (·.1 = path) with
  | some d => (d.2, t)
  | none => t.mkdir parent component path

/-- The loop of `mkdirp` over the components of a path. -/
def mkdirpLoop (t : Tree) (path : Path) (parent : ℕ) (p : Path) : ℕ × Tree :=
  if p = [] then (parent, t)
  else
    let component := p.takeWhile (· ≠ slash)
    let r := t.descend parent component (joinPath path component)
    mkdirpLoop r.2 (joinPath path component) r.1 (p.dropWhile (· ≠ slash)).tail
termination_by p.length
decreasing_by
  have hpos : 0 < p.length := List.length_pos_iff.mpr (by assumption)
  have hle := (List.dropWhile_sublist (· ≠ slash) (l := p)).length_le
  rw [List.length_tail]
  omega

/-- The directory at a path, which is made if it is not there. -/
def mkdirp (t : Tree) (path : Path) : ℕ × Tree :=
  if path = [] then (ROOTINO, t) else t.mkdirpLoop [] ROOTINO path

/-- One file of the command line; a file that `mkfs` refuses is left out. -/
def addFile (t : Tree) (arg : Arg) : Tree :=
  match arg.data, place arg.name with
  | some data, .ok (dirpath, fsname) =>
    let r := t.mkdirp dirpath
    let inum := r.2.count + 1
    ((r.2.ialloc (.file [])).dirlink r.1 fsname inum).append inum data
  | _, _ => t

/-- The root and `/bin`. -/
def root : Tree where
  count := 2
  node := fun i =>
    if i = 1 then .dir [(dotName, 1), (dotdotName, 1), (binName, 2)]
    else if i = 2 then .dir [(dotName, 2), (dotdotName, 1)]
    else .file []
  dirs := [([], 1), (binName, 2)]

/-- The tree that a command line describes. -/
def ofFiles (files : List Arg) : Tree := files.foldl addFile root

/-! ## Well-formed trees -/

/-- This is a directory of the tree. -/
def IsDir (t : Tree) (i : ℕ) : Prop := Live t.count i ∧ (t.node i).type = T_DIR

/-- The table names all directories, each once, and one of them is the root. -/
structure Wf (t : Tree) : Prop where
  isDir : ∀ d ∈ t.dirs, t.IsDir d.2
  all : ∀ i, t.IsDir i → i ∈ t.dirs.map Prod.snd
  root : t.IsDir ROOTINO
  nodup : (t.dirs.map Prod.snd).Nodup

/-- The entries have names that fit, and name nodes of the tree. -/
def EntriesOk (t : Tree) : Prop :=
  ∀ i, Live t.count i → ∀ e ∈ (t.node i).entries, NameOk e.1 ∧ Live t.count e.2

lemma EntriesOk.ialloc {t : Tree} (h : t.EntriesOk) {nd : Node} (hnd : nd.entries = []) :
    (t.ialloc nd).EntriesOk := by
  intro i hi e he
  have he' : e ∈ (Function.update t.node (t.count + 1) nd i).entries := he
  by_cases hi' : i = t.count + 1
  · rw [hi', Function.update_self, hnd] at he'
    cases he'
  · rw [Function.update_of_ne hi'] at he'
    have hle : i ≤ t.count + 1 := hi.2
    have := h i ⟨hi.1, by omega⟩ e he'
    exact ⟨this.1, this.2.1, Nat.le_succ_of_le this.2.2⟩

/-- A new entry with a proper name. -/
lemma EntriesOk.dirlink {t : Tree} (h : t.EntriesOk) {parent child : ℕ} {name : Path}
    (hname : NameOk name) (hchild : Live t.count child) :
    (t.dirlink parent name child).EntriesOk := by
  intro i hi e he
  have he' : e ∈ (Function.update t.node parent ((t.node parent).link name child) i).entries := he
  by_cases hi' : i = parent
  · rw [hi', Function.update_self] at he'
    cases hnode : t.node parent with
    | file data =>
      rw [hnode] at he'
      cases he'
    | dir entries =>
      rw [hnode] at he'
      rcases List.mem_append.mp he' with hold | hnew
      · exact h i hi e (by rw [hi', hnode]; exact hold)
      · rw [List.mem_singleton.mp hnew]
        exact ⟨hname, hchild⟩
  · rw [Function.update_of_ne hi'] at he'
    exact h i hi e he'

lemma node_dirlink_self (t : Tree) (parent : ℕ) (name : Path) (child : ℕ) :
    (t.dirlink parent name child).node parent = (t.node parent).link name child := by
  unfold dirlink
  simp only [Function.update_self]

lemma node_ialloc_of_le {t : Tree} {i : ℕ} (hi : i ≤ t.count) (nd : Node) :
    (t.ialloc nd).node i = t.node i := by
  have hne : i ≠ t.count + 1 := by omega
  unfold ialloc
  simp only [Function.update_of_ne hne]

lemma entries_append (p : List UInt8) (nd : Node) : (nd.append p).entries = nd.entries := by
  cases nd <;> rfl

lemma EntriesOk.append {t : Tree} (h : t.EntriesOk) (i : ℕ) (p : List UInt8) :
    (t.append i p).EntriesOk := by
  intro j hj e he
  have he' : e ∈ (Function.update t.node i ((t.node i).append p) j).entries := he
  by_cases hji : j = i
  · rw [hji, Function.update_self, entries_append] at he'
    exact h j hj e (hji ▸ he')
  · rw [Function.update_of_ne hji] at he'
    exact h j hj e he'

lemma type_link (name : Path) (child : ℕ) (nd : Node) : (nd.link name child).type = nd.type := by
  cases nd <;> rfl

/-- The bytes of an entry go to the end. -/
lemma bytes_link {name : Path} {child : ℕ} {nd : Node} (h : nd.type = T_DIR) :
    (nd.link name child).bytes = nd.bytes ++ direntBytes child name := by
  cases nd with
  | dir entries => simp [Node.link, Node.bytes, dirBytes]
  | file data => cases h

lemma type_append (p : List UInt8) (nd : Node) : (nd.append p).type = nd.type := by
  cases nd <;> rfl

/-- The bytes go to the end of a file. -/
lemma bytes_append {p : List UInt8} {nd : Node} (h : nd.type = T_FILE) :
    (nd.append p).bytes = nd.bytes ++ p := by
  cases nd with
  | dir entries => cases h
  | file data => rfl

lemma IsDir.ialloc {t : Tree} {i : ℕ} (h : t.IsDir i) (nd : Node) : (t.ialloc nd).IsDir i := by
  have := h.1.2
  refine ⟨⟨h.1.1, Nat.le_succ_of_le h.1.2⟩, ?_⟩
  show (Function.update t.node (t.count + 1) nd i).type = T_DIR
  rw [Function.update_of_ne (by omega)]
  exact h.2

/-- A link makes no directory and unmakes none. -/
lemma isDir_dirlink {t : Tree} {parent child i : ℕ} {name : Path} :
    (t.dirlink parent name child).IsDir i ↔ t.IsDir i := by
  unfold IsDir dirlink
  by_cases hi : i = parent
  · rw [hi]
    simp only [Function.update_self, type_link]
  · simp only [Function.update_of_ne hi]

lemma isDir_append {t : Tree} {i j : ℕ} {p : List UInt8} :
    (t.append j p).IsDir i ↔ t.IsDir i := by
  unfold IsDir append
  by_cases hi : i = j
  · rw [hi]
    simp only [Function.update_self, type_append]
  · simp only [Function.update_of_ne hi]

lemma isDir_new (t : Tree) (entries : List (Path × ℕ)) :
    (t.ialloc (.dir entries)).IsDir (t.count + 1) := by
  refine ⟨⟨Nat.succ_le_succ (Nat.zero_le _), Nat.le_refl _⟩, ?_⟩
  show (Function.update t.node (t.count + 1) _ (t.count + 1)).type = T_DIR
  rw [Function.update_self]
  rfl

/-- A directory of the tree after an allocation is an old one or the new node. -/
theorem IsDir.of_ialloc {t : Tree} {i : ℕ} {nd : Node} (h : (t.ialloc nd).IsDir i) :
    t.IsDir i ∨ i = t.count + 1 ∧ nd.type = T_DIR := by
  have hle : i ≤ t.count + 1 := h.1.2
  have htype : (Function.update t.node (t.count + 1) nd i).type = T_DIR := h.2
  by_cases hi : i = t.count + 1
  · rw [hi, Function.update_self] at htype
    exact .inr ⟨hi, htype⟩
  · rw [Function.update_of_ne hi] at htype
    exact .inl ⟨⟨h.1.1, by omega⟩, htype⟩

lemma IsDir.mkdir {t : Tree} {i parent : ℕ} {component path : Path} (h : t.IsDir i) :
    (t.mkdir parent component path).2.IsDir i :=
  isDir_dirlink.mpr (isDir_dirlink.mpr (isDir_dirlink.mpr (h.ialloc _)))

lemma isDir_mkdir (t : Tree) (parent : ℕ) (component path : Path) :
    (t.mkdir parent component path).2.IsDir (t.mkdir parent component path).1 :=
  isDir_dirlink.mpr (isDir_dirlink.mpr (isDir_dirlink.mpr (t.isDir_new _)))

/-- The new directory is in the table. -/
lemma Wf.mkdir {t : Tree} (h : t.Wf) (parent : ℕ) (component path : Path) :
    (t.mkdir parent component path).2.Wf := by
  have hdirs : (t.mkdir parent component path).2.dirs = t.dirs ++ [(path, t.count + 1)] := rfl
  refine ⟨fun d hd => ?_, fun i hi => ?_, h.root.mkdir, ?_⟩
  · rw [hdirs] at hd
    rcases List.mem_append.mp hd with hd | hd
    · exact (h.isDir d hd).mkdir
    · rw [List.mem_singleton.mp hd]
      exact t.isDir_mkdir parent component path
  · have hi' : (t.ialloc (.dir [])).IsDir i :=
      isDir_dirlink.mp (isDir_dirlink.mp (isDir_dirlink.mp hi))
    rw [hdirs, List.map_append, List.mem_append]
    rcases hi'.of_ialloc with hold | ⟨rfl, -⟩
    · exact .inl (h.all i hold)
    · exact .inr (List.mem_singleton_self _)
  · rw [hdirs, List.map_append, List.nodup_append]
    refine ⟨h.nodup, by simp, ?_⟩
    -- the new number is above all others
    rintro a ha b hb rfl
    obtain ⟨d, hd, rfl⟩ := List.mem_map.mp ha
    have hle := (h.isDir d hd).1.2
    rw [List.map_cons, List.map_nil, List.mem_singleton] at hb
    omega

/-- One component of a path leads to a directory. -/
lemma Wf.descend {t : Tree} (h : t.Wf) (parent : ℕ) (component path : Path) :
    (t.descend parent component path).2.Wf ∧
      (t.descend parent component path).2.IsDir (t.descend parent component path).1 := by
  unfold Tree.descend
  split
  · next d hd => exact ⟨h, h.isDir d (List.mem_of_find?_eq_some hd)⟩
  · exact ⟨h.mkdir parent component path, t.isDir_mkdir parent component path⟩

/-- By induction on the components. -/
lemma Wf.mkdirpLoop {t : Tree} (h : t.Wf) {path : Path} {parent : ℕ} (hp : t.IsDir parent)
    (p : Path) : (t.mkdirpLoop path parent p).2.Wf ∧
      (t.mkdirpLoop path parent p).2.IsDir (t.mkdirpLoop path parent p).1 := by
  induction t, path, parent, p using Tree.mkdirpLoop.induct with
  | case1 t path parent =>
    rw [Tree.mkdirpLoop, if_pos rfl]
    exact ⟨h, hp⟩
  | case2 t path parent p hne component r ih =>
    rw [Tree.mkdirpLoop, if_neg hne]
    have hd := h.descend parent component (joinPath path component)
    exact ih hd.1 hd.2

lemma Wf.mkdirp {t : Tree} (h : t.Wf) (path : Path) :
    (t.mkdirp path).2.Wf ∧ (t.mkdirp path).2.IsDir (t.mkdirp path).1 := by
  unfold Tree.mkdirp
  split
  · exact ⟨h, h.root⟩
  · exact h.mkdirpLoop h.root path

lemma Wf.addFile {t : Tree} (h : t.Wf) (arg : Arg) : (t.addFile arg).Wf := by
  unfold Tree.addFile
  split
  · next data dirpath fsname _ _ =>
    have hr := (h.mkdirp dirpath).1
    refine ⟨fun d hd => isDir_append.mpr (isDir_dirlink.mpr ((hr.isDir d hd).ialloc _)),
      fun i hi => ?_, isDir_append.mpr (isDir_dirlink.mpr (hr.root.ialloc _)), hr.nodup⟩
    rcases (isDir_dirlink.mp (isDir_append.mp hi)).of_ialloc with hold | ⟨-, hfile⟩
    · exact hr.all i hold
    · cases hfile
  · exact h

lemma wf_root : root.Wf := by
  refine ⟨fun d hd => ?_, fun i hi => ?_, ⟨⟨by decide, by decide⟩, by decide⟩, by decide⟩
  · rcases List.mem_cons.mp hd with rfl | hd
    · exact ⟨⟨by decide, by decide⟩, by decide⟩
    · rw [List.mem_singleton.mp hd]
      exact ⟨⟨by decide, by decide⟩, by decide⟩
  · have h1 : 1 ≤ i := hi.1.1
    have h2 : i ≤ 2 := hi.1.2
    have h3 : i = 1 ∨ i = 2 := by omega
    rcases h3 with rfl | rfl <;> decide

lemma wf_ofFiles (files : List Arg) : (ofFiles files).Wf := by
  have hfold : ∀ (l : List Arg) (t : Tree), t.Wf → (l.foldl addFile t).Wf := by
    intro l
    induction l with
    | nil => exact fun t ht => ht
    | cons arg l ih => exact fun t ht => ih _ (ht.addFile arg)
  exact hfold files root wf_root

/-! ## Trees only grow -/

/-- Nodes keep their types and their entries, in order. -/
structure Grows (t t' : Tree) : Prop where
  count : t.count ≤ t'.count
  type : ∀ i, Live t.count i → (t'.node i).type = (t.node i).type
  entries : ∀ i, Live t.count i → (t.node i).entries <+: (t'.node i).entries

namespace Grows

lemma refl (t : Tree) : Grows t t :=
  ⟨Nat.le_refl _, fun _ _ => rfl, fun _ _ => List.prefix_rfl⟩

lemma trans {t u v : Tree} (h : Grows t u) (h' : Grows u v) : Grows t v := by
  have hlive : ∀ i, Live t.count i → Live u.count i := fun i hi =>
    ⟨hi.1, Nat.le_trans hi.2 h.count⟩
  exact ⟨Nat.le_trans h.count h'.count, fun i hi => (h'.type i (hlive i hi)).trans (h.type i hi),
    fun i hi => (h.entries i hi).trans (h'.entries i (hlive i hi))⟩

lemma ialloc (t : Tree) (nd : Node) : Grows t (t.ialloc nd) := by
  have hnode : ∀ i, Live t.count i → (t.ialloc nd).node i = t.node i := fun i hi =>
    node_ialloc_of_le hi.2 nd
  exact ⟨Nat.le_succ _, fun i hi => by rw [hnode i hi],
    fun i hi => by simp only [hnode i hi, List.prefix_rfl]⟩

lemma dirlink (t : Tree) (parent : ℕ) (name : Path) (child : ℕ) :
    Grows t (t.dirlink parent name child) := by
  refine ⟨Nat.le_refl _, fun i _ => ?_, fun i _ => ?_⟩
  · show (Function.update t.node parent _ i).type = _
    by_cases hi : i = parent
    · rw [hi, Function.update_self, type_link]
    · rw [Function.update_of_ne hi]
  · show _ <+: (Function.update t.node parent _ i).entries
    by_cases hi : i = parent
    · rw [hi, Function.update_self]
      cases t.node parent with
      | dir entries => exact List.prefix_append _ _
      | file data => exact List.prefix_rfl
    · simp only [Function.update_of_ne hi, List.prefix_rfl]

lemma append (t : Tree) (j : ℕ) (p : List UInt8) : Grows t (t.append j p) := by
  refine ⟨Nat.le_refl _, fun i _ => ?_, fun i _ => ?_⟩
  · show (Function.update t.node j _ i).type = _
    by_cases hi : i = j
    · rw [hi, Function.update_self, type_append]
    · rw [Function.update_of_ne hi]
  · show _ <+: (Function.update t.node j _ i).entries
    by_cases hi : i = j
    · simp only [hi, Function.update_self, entries_append, List.prefix_rfl]
    · simp only [Function.update_of_ne hi, List.prefix_rfl]

lemma mkdir (t : Tree) (parent : ℕ) (component path : Path) :
    Grows t (t.mkdir parent component path).2 := by
  have h := (ialloc t (.dir [])).trans ((dirlink _ parent component (t.count + 1)).trans
    ((dirlink _ (t.count + 1) dotName (t.count + 1)).trans
      (dirlink _ (t.count + 1) dotdotName parent)))
  exact ⟨h.count, h.type, h.entries⟩

/-- Into a directory that is there or is made. -/
lemma descend (t : Tree) (parent : ℕ) (component path : Path) :
    Grows t (t.descend parent component path).2 := by
  unfold Tree.descend
  split
  · exact refl t
  · exact mkdir t parent component path

/-- By induction on the components. -/
lemma mkdirpLoop (t : Tree) (path : Path) (parent : ℕ) (p : Path) :
    Grows t (t.mkdirpLoop path parent p).2 := by
  induction t, path, parent, p using Tree.mkdirpLoop.induct with
  | case1 t path parent =>
    rw [Tree.mkdirpLoop, if_pos rfl]
    exact refl t
  | case2 t path parent p hne component r ih =>
    rw [Tree.mkdirpLoop, if_neg hne]
    exact (descend t parent component (joinPath path component)).trans ih

lemma addFile (t : Tree) (arg : Arg) : Grows t (t.addFile arg) := by
  unfold Tree.addFile
  split
  · next data dirpath fsname _ _ =>
    have hmk : Grows t (t.mkdirp dirpath).2 := by
      unfold Tree.mkdirp
      split
      · exact refl t
      · exact mkdirpLoop t [] ROOTINO dirpath
    exact hmk.trans ((ialloc _ _).trans ((dirlink _ _ _ _).trans (append _ _ _)))
  · exact refl t

lemma addFiles (files : List Arg) (t : Tree) : Grows t (files.foldl Tree.addFile t) := by
  induction files generalizing t with
  | nil => exact refl t
  | cons arg files ih => exact (addFile t arg).trans (ih (t.addFile arg))

end Grows

end Tree

end Mkfs
end OhMyXv6
