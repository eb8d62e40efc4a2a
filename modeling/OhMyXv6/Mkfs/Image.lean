import Mathlib.Data.List.Nodup
import Mathlib.Data.List.TakeWhile
import OhMyXv6.Mkfs.Final

/-!
# What the finished image is like

Three properties of the image that `mkfs` leaves at `exit(0)`, and exactly when each of them
holds, in terms of the tree that the command line describes:

* the link counts are those that the kernel would have given (`LinksAgree`): never, since the
  root has a subdirectory and `mkfs` gives every inode the link count 1;
* no block below a file's size is missing (`NoHoles`): unless the number of entries of some
  directory is a multiple of the 32 that fill a block, because the last loop of `main` rounds a
  full block up as well;
* everything stayed in its place and no directory has a name twice (`LayoutOk`): when fewer than
  `NINODES` inodes were needed and the tree has no name twice, neither of which is checked.
-/

namespace OhMyXv6
namespace Mkfs

open Bytes

/-! ## Runs on a few small files

The bounds here are generous: they serve the examples. -/

/-- An empty file with a plain name that fits a directory entry. It goes to `/bin`. -/
structure Plain (arg : Arg) : Prop where
  data : arg.data = some []
  len : arg.name.length ≤ DIRSIZ
  slash : slash ∉ arg.name
  head : arg.name.head? ≠ some underscore

lemma Plain.place {arg : Arg} (h : Plain arg) : place arg.name = .ok (binName, arg.name) := by
  have hindex : index arg.name = none := by
    have hdrop : arg.name.dropWhile (· ≠ Mkfs.slash) = [] := by
      rw [List.dropWhile_eq_nil_iff]
      intro b hb
      have hne : b ≠ Mkfs.slash := fun heq => h.slash (heq ▸ hb)
      simpa using hne
    rw [index, hdrop]
  rw [Mkfs.place, if_neg h.head, hindex]

/-- `/bin` is in the table. -/
def HasBin (dirs : List (Path × ℕ)) : Prop := dirs.find? (·.1 = binName) = some (binName, 2)

lemma mkdirp_bin {s : St} (h : HasBin s.dirs) : mkdirp s binName = .ok (2, s) := by
  have hlookup : dirlookup s binName = 2 := by rw [dirlookup, h]
  have hcomp : binName.takeWhile (· ≠ slash) = binName := by decide
  have hrest : (binName.dropWhile (· ≠ slash)).tail = [] := by decide
  have hjoin : joinPath [] binName = binName := rfl
  rw [mkdirp, if_neg (by decide), mkdirpLoop, if_neg (by decide)]
  dsimp only
  rw [hcomp, hrest, hjoin, if_neg (by decide), if_neg (by decide), descend, hlookup,
    if_pos (by decide), ok_bind]
  dsimp only
  rw [mkdirpLoop, if_pos rfl]

lemma Tree.mkdirp_bin {t : Tree} (h : HasBin t.dirs) : t.mkdirp binName = (2, t) := by
  have hcomp : binName.takeWhile (· ≠ slash) = binName := by decide
  have hrest : (binName.dropWhile (· ≠ slash)).tail = [] := by decide
  have hjoin : joinPath [] binName = binName := rfl
  rw [Tree.mkdirp, if_neg (by decide), Tree.mkdirpLoop, if_neg (by decide)]
  dsimp only
  rw [hcomp, hrest, hjoin, Tree.descend, h]
  dsimp only
  rw [Tree.mkdirpLoop, if_pos rfl]

/-- A plain file is a new node with an entry in `bin`. -/
lemma Tree.addFile_plain {t : Tree} (h : HasBin t.dirs) {arg : Arg} (harg : Plain arg) :
    t.addFile arg = (t.ialloc (.file [])).dirlink 2 arg.name (t.count + 1) := by
  rw [Tree.addFile, harg.data, harg.place]
  dsimp only
  rw [Tree.mkdirp_bin h]
  dsimp only
  rw [Tree.append_nil]

/-- A short file that goes to a directory with number `i`. -/
lemma addFile_dir {t : Tree} {s s₀ : St} {dir : Path} {i : ℕ} (hmk : mkdirp s₀ dir = .ok (i, s))
    (h : Sim t s) (hdir : t.IsDir i) {arg : Arg} {file : Path} {data : List UInt8}
    (hdata : arg.data = some data) (hlen : arg.name.length < 256)
    (hplace : place arg.name = .ok (dir, file)) (hfile : NameOk file) (hshort : data.length ≤ BSIZE)
    (hcount : t.count + 1 < inodeLimit) (hroom : (t.contents i).length + 16 ≤ MAXFILE * BSIZE)
    (hfree : s.freeblock + 32 + 2 * data.length < FSSIZE) :
    ∃ s', addFile s₀ arg = .ok s' ∧ s'.freeblock ≤ s.freeblock + 32 + 2 * data.length := by
  have hB : BSIZE = 512 := rfl
  have hM : MAXFILE = 140 := rfl
  have hname := hfile.1
  obtain ⟨s1, hs1, hfb1⟩ := h.ialloc_ok hcount T_FILE
  have h1 := (h.ialloc (.file []) rfl rfl rfl (by decide) hs1).2
  have hle := hdir.1.2
  have hold : (t.ialloc (.file [])).contents i = t.contents i := by
    rw [Tree.contents_ialloc, Function.update_of_ne (by omega)]
  have hlive : Live (t.ialloc (.file [])).count (t.count + 1) :=
    ⟨Nat.succ_le_succ (Nat.zero_le _), Nat.le_refl _⟩
  obtain ⟨s2, hs2, h2, hfb2⟩ := h1.link_ok hcount (hdir.ialloc _) (by rw [hold]; exact hroom)
    (by omega) file hfile (t.count + 1) hlive
  have hstart : addFile s₀ arg = readLoop s2 (t.count + 1) data := by
    rw [addFile, hdata]
    dsimp only
    rw [if_neg (by omega), hplace, ok_bind]
    dsimp only
    rw [if_neg (by omega), hmk, ok_bind]
    dsimp only
    rw [hs1, ok_bind]
    dsimp only
    rw [hs2, ok_bind]
  rw [hstart, readLoop]
  by_cases hnil : data = []
  · rw [if_pos hnil]
    exact ⟨s2, rfl, by omega⟩
  -- the file is read in one piece
  have hempty : ((t.ialloc (.file [])).dirlink i file (t.count + 1)).contents (t.count + 1) = [] := by
    rw [Tree.contents_dirlink (hdir.ialloc _), Function.update_of_ne (by omega), Tree.contents_ialloc,
      Function.update_self]
    rfl
  obtain ⟨s3, hs3, hfb3⟩ := h2.iappend_ok hcount hlive
    (p := data) (by rw [hempty, List.nil_append, hB, hM]; omega) (by omega)
  refine ⟨s3, ?_, by omega⟩
  rw [if_neg hnil, List.take_of_length_le hshort, List.drop_of_length_le hshort, hs3, ok_bind, readLoop,
    if_pos rfl]

/-- A short file that goes to `/bin`. -/
lemma addFile_bin {t : Tree} {s : St} (h : Sim t s) (hbin : HasBin t.dirs) (hdir : t.IsDir 2)
    {arg : Arg} {file : Path} {data : List UInt8} (hdata : arg.data = some data)
    (hlen : arg.name.length < 256) (hplace : place arg.name = .ok (binName, file))
    (hfile : NameOk file) (hshort : data.length ≤ BSIZE) (hcount : t.count + 1 < inodeLimit)
    (hroom : (t.contents 2).length + 16 ≤ MAXFILE * BSIZE)
    (hfree : s.freeblock + 32 + 2 * data.length < FSSIZE) :
    ∃ s', addFile s arg = .ok s' ∧ s'.freeblock ≤ s.freeblock + 32 + 2 * data.length :=
  addFile_dir (mkdirp_bin (by rw [h.dirs]; exact hbin)) h hdir hdata hlen hplace hfile hshort hcount
    hroom hfree

/-- There is room for one more plain file. -/
lemma addFile_plain {t : Tree} {s : St} (h : Sim t s) (hbin : HasBin t.dirs)
    (hdir : t.IsDir 2) {arg : Arg} (harg : Plain arg) (hcount : t.count + 1 < inodeLimit)
    (hroom : (t.contents 2).length + 16 ≤ MAXFILE * BSIZE)
    (hfree : s.freeblock + 32 < FSSIZE) :
    ∃ s', addFile s arg = .ok s' ∧ s'.freeblock ≤ s.freeblock + 32 := by
  have hD : DIRSIZ = 14 := rfl
  have hlen := harg.len
  exact addFile_bin h hbin hdir harg.data (by omega) harg.place ⟨hlen, arg.noNul⟩ (Nat.zero_le _)
    hcount hroom hfree

lemma plain_nil : ∀ arg ∈ ([] : List Arg), Plain arg := fun _ h => absurd h List.not_mem_nil

/-- A list of such files is accepted, and `/bin` gets their names. -/
theorem addFiles_plain {files : List Arg} (hfiles : ∀ arg ∈ files, Plain arg) {t : Tree} {s : St}
    (h : Sim t s) (hwf : t.Wf) (hbin : HasBin t.dirs) (hdir : t.IsDir 2)
    (hcount : t.count + files.length < inodeLimit)
    (hroom : (t.contents 2).length + 16 * files.length ≤ MAXFILE * BSIZE)
    (hfree : s.freeblock + 32 * files.length < FSSIZE) :
    (∃ s', files.foldlM addFile s = .ok s' ∧ s'.freeblock ≤ s.freeblock + 32 * files.length) ∧
    (files.foldl Tree.addFile t).count = t.count + files.length ∧
    ((files.foldl Tree.addFile t).node 2).entries.map Prod.fst
      = (t.node 2).entries.map Prod.fst ++ files.map Arg.name := by
  induction files generalizing t s with
  | nil => exact ⟨⟨s, rfl, Nat.le_refl _⟩, rfl, by simp⟩
  | cons arg files ih =>
    have harg := hfiles arg List.mem_cons_self
    rw [List.length_cons] at hcount hroom hfree ⊢
    obtain ⟨s1, hs1, hfb1⟩ := addFile_plain h hbin hdir harg (by omega) (by omega) (by omega)
    have h1 := h.addFile hwf hs1
    have hle := hdir.1.2
    have htree := Tree.addFile_plain hbin harg
    have hcount1 : (t.addFile arg).count = t.count + 1 := by rw [htree]; rfl
    have hdir1 : (t.addFile arg).IsDir 2 := by
      rw [htree]
      exact Tree.isDir_dirlink.mpr (hdir.ialloc _)
    have hcontents : (t.addFile arg).contents 2
        = t.contents 2 ++ direntBytes (t.count + 1) arg.name := by
      rw [htree, Tree.contents_dirlink (hdir.ialloc _), Function.update_self, Tree.contents_ialloc,
        Function.update_of_ne (by omega)]
    have hnames : ((t.addFile arg).node 2).entries.map Prod.fst
        = (t.node 2).entries.map Prod.fst ++ [arg.name] := by
      rw [htree, Tree.node_dirlink_self, Tree.node_ialloc_of_le hle]
      cases hnode2 : t.node 2 with
      | dir entries => simp [Node.link, Node.entries]
      | file data =>
        have htype := hdir.2
        rw [hnode2] at htype
        cases htype
    obtain ⟨⟨s2, hs2, hfb2⟩, hcount2, hnames2⟩ := ih
      (fun a ha => hfiles a (List.mem_cons_of_mem _ ha)) h1 (hwf.addFile arg)
      (by rw [htree]; exact hbin) hdir1 (by omega)
      (by rw [hcontents, List.length_append, length_direntBytes, DIRENTSIZE]; omega) (by omega)
    refine ⟨⟨s2, by rw [List.foldlM_cons, hs1, ok_bind, hs2], by omega⟩, ?_, ?_⟩
    · rw [List.foldl_cons, hcount2]
      omega
    · rw [List.foldl_cons, hnames2, hnames, List.map_cons, List.append_assoc, List.singleton_append]

/-- `mkfs` accepts up to 50 such files. -/
lemma main_plain {files : List Arg} (hfiles : ∀ arg ∈ files, Plain arg)
    (hlen : files.length ≤ 50) :
    (∃ s, main files = .ok s) ∧ (Tree.ofFiles files).count = 2 + files.length ∧
    ((Tree.ofFiles files).node 2).entries.map Prod.fst
      = [dotName, dotdotName] ++ files.map Arg.name := by
  have hL : inodeLimit = 216 := rfl
  have hm : nmeta = 59 := rfl
  have hF : FSSIZE = 2000 := rfl
  have hB : BSIZE = 512 := rfl
  have hMAX : MAXFILE = 140 := rfl
  have hcount : Tree.root.count = 2 := rfl
  have hcontents : (Tree.root.contents 2).length = 32 := by decide
  obtain ⟨s0, hs0, h0, hfb0⟩ := makeRoot_spec
  obtain ⟨⟨s1, hs1, hfb1⟩, hcount1, hnames1⟩ := addFiles_plain hfiles h0 Tree.wf_root rfl
    ⟨⟨by decide, by decide⟩, rfl⟩ (by omega) (by simp only [hcontents, hB, hMAX]; omega) (by omega)
  have h1 := h0.addFiles Tree.wf_root hs1
  have hcount' : (Tree.ofFiles files).count = 2 + files.length := hcount1
  obtain ⟨s2, hs2, hfb2, -⟩ := h1.roundDirs (Tree.wf_ofFiles files)
    (show (Tree.ofFiles files).count < _ by omega)
  refine ⟨⟨wsect s2 sb.bmapstart ((List.range s2.freeblock).foldl setBit zeroBlock), ?_⟩,
    hcount', hnames1⟩
  rw [main, hs0, ok_bind, hs1, ok_bind, hs2, ok_bind, balloc, if_pos (by rw [hB]; omega)]

/-- A directory of one component that is not in the table yet. -/
lemma Tree.mkdirp_new {t : Tree} {name : Path} (hne : name ≠ []) (hslash : slash ∉ name)
    (hnew : t.dirs.find? (·.1 = name) = none) : t.mkdirp name = t.mkdir ROOTINO name name := by
  have htake : name.takeWhile (· ≠ slash) = name :=
    List.takeWhile_eq_self_iff.mpr fun b hb => decide_eq_true fun heq => hslash (heq ▸ hb)
  have hdrop : name.dropWhile (· ≠ slash) = [] :=
    List.dropWhile_eq_nil_iff.mpr fun b hb => decide_eq_true fun heq => hslash (heq ▸ hb)
  rw [Tree.mkdirp, if_neg hne, Tree.mkdirpLoop, if_neg hne]
  dsimp only
  rw [htake, hdrop, joinPath, if_pos rfl, Tree.descend, hnew]
  dsimp only
  rw [List.tail_nil, Tree.mkdirpLoop, if_pos rfl]

/-- `mkdirp` makes such a directory, in the root. -/
lemma mkdirp_new {t : Tree} {s : St} (h : Sim t s) (hwf : t.Wf) {name : Path} (hne : name ≠ [])
    (hslash : slash ∉ name) (hname : NameOk name) (hnew : t.dirs.find? (·.1 = name) = none)
    (hdirs : t.dirs.length < MAXDIRS) (hcount : t.count + 1 < inodeLimit)
    (hroom : (t.contents ROOTINO).length + 16 ≤ MAXFILE * BSIZE) (hfree : s.freeblock + 96 < FSSIZE) :
    ∃ s', mkdirp s name = .ok (t.count + 1, s') ∧ s'.freeblock ≤ s.freeblock + 96 := by
  have hD : DIRSIZ = 14 := rfl
  have hlen := hname.1
  have htake : name.takeWhile (· ≠ slash) = name :=
    List.takeWhile_eq_self_iff.mpr fun b hb => decide_eq_true fun heq => hslash (heq ▸ hb)
  have hdrop : name.dropWhile (· ≠ slash) = [] :=
    List.dropWhile_eq_nil_iff.mpr fun b hb => decide_eq_true fun heq => hslash (heq ▸ hb)
  have hlookup : dirlookup s name = 0 := by rw [dirlookup, h.dirs, hnew]
  -- the inode, and the entries in the root and in the directory itself
  obtain ⟨s1, hs1, hfb1⟩ := h.ialloc_ok hcount T_DIR
  have h1 := (h.ialloc (.dir []) rfl rfl rfl (by decide) hs1).2
  have hroot : (t.ialloc (.dir [])).IsDir ROOTINO := hwf.root.ialloc _
  have hself := t.isDir_new []
  have hle : ROOTINO ≤ t.count := hwf.root.1.2
  have hother : (t.ialloc (.dir [])).contents ROOTINO = t.contents ROOTINO := by
    rw [Tree.contents_ialloc, Function.update_of_ne (by omega)]
  have hempty : (t.ialloc (.dir [])).contents (t.count + 1) = [] := by
    rw [Tree.contents_ialloc, Function.update_self]
    rfl
  obtain ⟨s2, hs2, h2, hfb2⟩ := h1.link_ok hcount hroot (by rw [hother]; exact hroom) (by omega) name hname
    (t.count + 1) hself.1
  obtain ⟨s3, hs3, h3, hfb3⟩ := h2.link_ok hcount (Tree.isDir_dirlink.mpr hself) (by
    rw [Tree.contents_dirlink hroot, Function.update_of_ne (by omega), hempty]; decide) (by omega) dotName
    ⟨by decide, by decide⟩ (t.count + 1) hself.1
  obtain ⟨s4, hs4, -, hfb4⟩ := h3.link_ok hcount
    (Tree.isDir_dirlink.mpr (Tree.isDir_dirlink.mpr hself)) (by
      rw [Tree.contents_dirlink (Tree.isDir_dirlink.mpr hself), Function.update_self,
        Tree.contents_dirlink hroot, Function.update_of_ne (by omega), hempty, List.nil_append,
        length_direntBytes]
      decide) (by omega) dotdotName ⟨by decide, by decide⟩ ROOTINO hroot.1
  have hdirs1 : ¬ MAXDIRS ≤ s1.dirs.length := by
    rw [h1.dirs]
    exact Nat.not_le.mpr hdirs
  have hlink : ∀ {u v : St} {parent child : ℕ} {file : Path}, file.length ≤ DIRSIZ →
      iappend u parent (direntBytes child file) = .ok v → Mkfs.dirlink u parent file child = .ok v := by
    intro u v parent child file hfile hrun
    rw [Mkfs.dirlink, if_neg (by omega), hrun]
  refine ⟨{ s4 with dirs := s4.dirs ++ [(name, t.count + 1)] }, ?_, by show s4.freeblock ≤ _; omega⟩
  rw [mkdirp, if_neg hne, mkdirpLoop, if_neg hne]
  dsimp only
  rw [htake, hdrop, joinPath, if_pos rfl, if_neg (by omega), if_neg (by omega), descend, hlookup,
    if_neg (by decide), Mkfs.mkdir, hs1, ok_bind]
  dsimp only
  rw [if_neg hdirs1, hlink hlen hs2, ok_bind, hlink (by decide) hs3, ok_bind, hlink (by decide) hs4, ok_bind]
  show Except.bind (Except.ok _) _ = _
  rw [Except.bind]
  dsimp only
  rw [List.tail_nil, mkdirpLoop, if_pos rfl]

/-- `mkfs` accepts a short file that goes to `/bin`. -/
lemma main_bin {arg : Arg} {file : Path} {data : List UInt8} (hdata : arg.data = some data)
    (hlen : arg.name.length < 256) (hplace : place arg.name = .ok (binName, file))
    (hfile : NameOk file) (hshort : data.length ≤ BSIZE) :
    (∃ s, main [arg] = .ok s) ∧ (Tree.ofFiles [arg]).count = 3 := by
  have hm : nmeta = 59 := rfl
  have hF : FSSIZE = 2000 := rfl
  have hB : BSIZE = 512 := rfl
  obtain ⟨s0, hs0, h0, hfb0⟩ := makeRoot_spec
  obtain ⟨s1, hs1, hfb1⟩ := addFile_bin h0 rfl ⟨⟨by decide, by decide⟩, rfl⟩ hdata hlen hplace hfile
    hshort (by decide) (by decide) (by omega)
  have hfold : [arg].foldlM addFile s0 = .ok s1 := by
    rw [List.foldlM_cons, hs1, ok_bind, List.foldlM_nil]
    rfl
  have h1 := h0.addFiles Tree.wf_root hfold
  have hcount : (Tree.ofFiles [arg]).count = 3 := by
    have hbin : HasBin Tree.root.dirs := rfl
    show (Tree.root.addFile arg).count = 3
    rw [Tree.addFile, hdata, hplace]
    dsimp only
    rw [Tree.mkdirp_bin hbin]
    rfl
  obtain ⟨s2, hs2, hfb2, -⟩ := h1.roundDirs (Tree.wf_ofFiles [arg])
    (show (Tree.ofFiles [arg]).count < _ by rw [hcount]; decide)
  refine ⟨⟨wsect s2 sb.bmapstart ((List.range s2.freeblock).foldl setBit zeroBlock), ?_⟩, hcount⟩
  rw [main, hs0, ok_bind, hfold, ok_bind, hs2, ok_bind, balloc, if_pos (by rw [hB]; omega)]

/-- A file `_a` with the bytes `hi`, which goes to `/bin/a`. -/
def binFile : Arg where
  name := [95, 97]
  noNul := by decide
  data := some [104, 105]

/-- The directory `lib`. -/
def libName : Path := [108, 105, 98]

/-- A file `lib/b` with one byte. -/
def libFile : Arg where
  name := [108, 105, 98, 47, 98]
  noNul := by decide
  data := some [99]

/-- The tree with `/bin/a`. -/
def binTree : Tree := ((Tree.root.ialloc (.file [])).dirlink 2 [97] 3).append 3 [104, 105]

/-- The tree with `/bin/a` and `/lib/b`. -/
def libTree : Tree :=
  (((binTree.mkdir ROOTINO libName libName).2.ialloc (.file [])).dirlink 4 [98] 5).append 5 [99]

/-- The tree with one file in `bin`. -/
lemma addFile_binFile : Tree.root.addFile binFile = binTree := by
  rw [Tree.addFile, show place binFile.name = .ok (binName, [97]) from rfl]
  dsimp only [binFile]
  rw [Tree.mkdirp_bin (show HasBin Tree.root.dirs from rfl)]
  rfl

lemma mkdirp_libName : binTree.mkdirp libName = binTree.mkdir ROOTINO libName libName :=
  Tree.mkdirp_new (by decide) (by decide) (by decide)

lemma ofFiles_twoDirs : Tree.ofFiles [binFile, libFile] = libTree := by
  show (Tree.root.addFile binFile).addFile libFile = libTree
  rw [addFile_binFile, Tree.addFile, show place libFile.name = .ok (libName, [98]) from rfl]
  dsimp only [libFile]
  rw [mkdirp_libName]
  rfl

/-- Its directories are the root, `bin` and `lib`. -/
lemma entries_libTree : ∀ i es, Live libTree.count i → libTree.node i = .dir es →
    (es.length = 3 ∨ es.length = 4) ∧ (es.map Prod.fst).Nodup := by
  rintro i es ⟨hge, hle⟩ hnode
  have hle5 : i ≤ 5 := hle
  obtain rfl | rfl | rfl | rfl | rfl : i = 1 ∨ i = 2 ∨ i = 3 ∨ i = 4 ∨ i = 5 := by omega
  · cases hnode
    decide
  · cases hnode
    decide
  · cases hnode
  · cases hnode
    decide
  · cases hnode

/-- `mkfs` accepts two short files that go to two directories, one of which it has to make. -/
theorem main_twoDirs : ∃ s, main [binFile, libFile] = .ok s := by
  have hm : nmeta = 59 := rfl
  have hF : FSSIZE = 2000 := rfl
  have hB : BSIZE = 512 := rfl
  obtain ⟨s0, hs0, h0, hfb0⟩ := makeRoot_spec
  have htwo : ([104, 105] : List UInt8).length = 2 := rfl
  have hone : ([99] : List UInt8).length = 1 := rfl
  obtain ⟨s1, hs1, hfb1⟩ := addFile_bin h0 rfl ⟨⟨by decide, by decide⟩, rfl⟩
    (show binFile.data = some [104, 105] from rfl) (by decide) rfl ⟨by decide, by decide⟩ (by decide)
    (by decide) (by decide) (by rw [hF]; omega)
  have h1 := h0.addFile Tree.wf_root hs1
  have hwf1 := Tree.wf_root.addFile binFile
  rw [addFile_binFile] at h1 hwf1
  obtain ⟨s2, hs2, hfb2⟩ := mkdirp_new h1 hwf1 (show libName ≠ [] by decide) (by decide)
    ⟨by decide, by decide⟩ (by decide) (by decide) (by decide) (by decide) (by omega)
  have h2 := (h1.mkdirp hwf1 (by decide) hs2).2
  rw [mkdirp_libName] at h2
  obtain ⟨s3, hs3, hfb3⟩ := addFile_dir hs2 h2 ⟨⟨by decide, by decide⟩, by decide⟩
    (show libFile.data = some [99] from rfl) (by decide) rfl ⟨by decide, by decide⟩ (by decide)
    (by decide) (by decide) (by omega)
  have hfold : [binFile, libFile].foldlM addFile s0 = .ok s3 := by
    rw [List.foldlM_cons, hs1, ok_bind, List.foldlM_cons, hs3, ok_bind, List.foldlM_nil]
    rfl
  have h3 := h0.addFiles Tree.wf_root hfold
  obtain ⟨s4, hs4, hfb4, -⟩ := h3.roundDirs (Tree.wf_ofFiles [binFile, libFile])
    (show (Tree.ofFiles [binFile, libFile]).count < _ by rw [ofFiles_twoDirs]; decide)
  refine ⟨wsect s4 sb.bmapstart ((List.range s4.freeblock).foldl setBit zeroBlock), ?_⟩
  rw [main, hs0, ok_bind, hfold, ok_bind, hs4, ok_bind, balloc, if_pos (by rw [hB]; omega)]

/-! ## Reading the image -/

/-- Inode `i` of the image. -/
def inode (s : St) (i : ℕ) : Dinode := dinode sb s.img.disk i

/-- The contents of inode `i`. -/
def content (s : St) (i : ℕ) : ℕ → UInt8 := fileByte s.img.disk (inode s i)

/-- The entries of a directory, as far as its size reaches. -/
def nentries (s : St) (i : ℕ) : ℕ := (inode s i).size / DIRENTSIZE

namespace Shows

variable {s : St} {t : Tree} {i : ℕ}

/-- The content of a directory is its entries. -/
lemma content_eq (h : Shows s t) (hi : Live t.count i) (hlt : i < NINODES) {es : List (Path × ℕ)}
    (hnode : t.node i = .dir es) : content s i = ofList (dirBytes es) := by
  have hc : t.contents i = dirBytes es := by rw [Tree.contents, hnode]; rfl
  rw [← hc]
  exact h.byte i hi hlt

/-- The size of a directory reaches past its entries. -/
lemma length_lt_nentries (h : Shows s t) (hi : Live t.count i) (hlt : i < NINODES)
    {es : List (Path × ℕ)} (hnode : t.node i = .dir es) : es.length < nentries s i := by
  have hB : BSIZE = 512 := rfl
  have hS : DIRENTSIZE = 16 := rfl
  have hc : t.contents i = dirBytes es := by rw [Tree.contents, hnode]; rfl
  have htype : t.types i = T_DIR := by rw [Tree.types, hnode]; rfl
  have hsize := h.size i hi hlt
  rw [if_pos htype, hc, length_dirBytes, roundUp] at hsize
  unfold nentries inode
  rw [hsize]
  simp only [hB, hS]
  omega

/-- Entry `k` of the directory on the image is entry `k` of the tree. -/
theorem dirent (h : Shows s t) (hn : t.EntriesOk) (hsmall : t.count < inodeLimit)
    (hi : Live t.count i) (hlt : i < NINODES) {es : List (Path × ℕ)} (hnode : t.node i = .dir es)
    {k : ℕ} (hk : k < es.length) :
    direntInum (content s i) k = es[k].2 ∧ direntName (content s i) k = es[k].1 := by
  have hL : inodeLimit = 216 := rfl
  have he := hn i hi es[k] (by rw [hnode]; exact List.getElem_mem hk)
  have hle := he.2.2
  rw [h.content_eq hi hlt hnode]
  exact dirent_dirBytes hk (by omega) he.1

/-- Behind the last entry the records are free. -/
lemma dirent_free (h : Shows s t) (hi : Live t.count i) (hlt : i < NINODES)
    {es : List (Path × ℕ)} (hnode : t.node i = .dir es) {k : ℕ} (hk : es.length ≤ k) :
    direntInum (content s i) k = 0 := by
  rw [h.content_eq hi hlt hnode]
  exact direntInum_dirBytes_of_le hk

end Shows

/-- Every entry has a name without NUL and a live inode. -/
lemma main_entriesOk {files : List Arg} {s : St} (h : main files = .ok s) :
    (Tree.ofFiles files).EntriesOk := by
  obtain ⟨s1, s2, hsim, -⟩ := main_eq_ok h
  exact hsim.names

/-! ## Link counts -/

/-- Entry `k` of directory `i` names a subdirectory. -/
def IsSubdir (s : St) (i k : ℕ) : Prop :=
  direntInum (content s i) k ≠ 0 ∧ direntName (content s i) k ≠ dotName ∧
    direntName (content s i) k ≠ dotdotName ∧
    (inode s (direntInum (content s i) k)).type = T_DIR

instance (s : St) (i k : ℕ) : Decidable (IsSubdir s i k) := by
  unfold IsSubdir
  infer_instance

/-- The number of subdirectories of directory `i`. -/
def subdirs (s : St) (i : ℕ) : ℕ := (List.range (nentries s i)).countP fun k => IsSubdir s i k

/-- The number of directory entries that name inode `f`. -/
def naming (s : St) (f : ℕ) : ℕ :=
  ((List.range NINODES).map fun i => if (inode s i).type = T_DIR then
    (List.range (nentries s i)).countP fun k => direntInum (content s i) k = f else 0).sum

/-- Every inode has the link count that the kernel's operations would have given it. -/
def LinksAgree (s : St) : Prop :=
  ∀ i, 1 ≤ i → i < NINODES →
    ((inode s i).type = T_FILE → (inode s i).nlink = naming s i) ∧
    ((inode s i).type = T_DIR → (inode s i).nlink = 1 + subdirs s i)

/-- The root has a link count of 1 and a subdirectory. -/
lemma Shows.not_linksAgree {s : St} {t : Tree} (h : Shows s t) (hn : t.EntriesOk)
    (hsmall : t.count < inodeLimit) (hgrows : Tree.root.Grows t) : ¬ LinksAgree s := by
  intro hagree
  have hlive : ∀ i, Live 2 i → Live t.count i := fun i hi => ⟨hi.1, Nat.le_trans hi.2 hgrows.count⟩
  have h1 : Live t.count 1 := hlive 1 ⟨by decide, by decide⟩
  have h2 : Live t.count 2 := hlive 2 ⟨by decide, by decide⟩
  have htype1 : t.types 1 = T_DIR := hgrows.type 1 ⟨by decide, by decide⟩
  have htype2 : t.types 2 = T_DIR := hgrows.type 2 ⟨by decide, by decide⟩
  obtain ⟨es, hnode⟩ : ∃ es, t.node 1 = .dir es := by
    cases hnode : t.node 1 with
    | dir es => exact ⟨es, rfl⟩
    | file data =>
      rw [Tree.types, hnode] at htype1
      cases htype1
  -- the third entry of the root is `bin`
  have hpre := hgrows.entries 1 ⟨by decide, by decide⟩
  rw [hnode] at hpre
  obtain ⟨rest, hrest⟩ := hpre
  have hes : es = [(dotName, 1), (dotdotName, 1), (binName, 2)] ++ rest := hrest.symm
  have hlen : 2 < es.length := by rw [hes]; simp
  have hbin : es[2] = (binName, 2) := by simp [hes]
  obtain ⟨hinum, hname⟩ := h.dirent hn hsmall h1 (by decide) hnode hlen
  rw [hbin] at hinum hname
  have hsub : IsSubdir s 1 2 := by
    refine ⟨by rw [hinum]; decide, by rw [hname]; decide, by rw [hname]; decide, ?_⟩
    rw [hinum]
    exact (h.type 2 h2 (by decide)).trans htype2
  have hpos : 0 < subdirs s 1 := by
    rw [subdirs, List.countP_pos_iff]
    have := h.length_lt_nentries h1 (by decide) hnode
    exact ⟨2, List.mem_range.mpr (by omega), by simpa using hsub⟩
  have hroot := (hagree 1 (by decide) (by decide)).2 ((h.type 1 h1 (by decide)).trans htype1)
  have hnlink := h.nlink 1 h1 (by decide)
  rw [inode, hnlink] at hroot
  omega

/-- **Link counts.** The image that `mkfs` writes never has the link counts that the kernel's
own operations would have given, whatever the files; the only runs left out are those in which
inodes were written over data blocks. -/
theorem main_not_linksAgree {files : List Arg} {s : St} (h : main files = .ok s)
    (hcount : (Tree.ofFiles files).count < inodeLimit) : ¬ LinksAgree s :=
  (main_shows h hcount).not_linksAgree (main_entriesOk h) hcount (Tree.Grows.addFiles files .root)

/-- An empty file with the one-letter name `c`. -/
def letterFile (c : UInt8) (h : c ≠ 0) : Arg where
  name := [c]
  noNul := by simpa using h.symm
  data := some []

/-- A name of one letter is plain. -/
lemma plain_letterFile {c : UInt8} (h0 : c ≠ 0) (h1 : c ≠ slash) (h2 : c ≠ underscore) :
    Plain (letterFile c h0) := by
  refine ⟨rfl, by show 1 ≤ DIRSIZ; decide, ?_, ?_⟩
  · show slash ∉ [c]
    simpa using h1.symm
  · show some c ≠ some underscore
    simpa using h2

/-- With one file, `a`. -/
theorem main_not_linksAgree_letterFile :
    ∃ s, main [letterFile 97 (by decide)] = .ok s ∧ ¬ LinksAgree s := by
  have hplain : ∀ arg ∈ [letterFile 97 (by decide)], Plain arg := by
    intro arg harg
    rw [List.mem_singleton.mp harg]
    exact plain_letterFile (by decide) (by decide) (by decide)
  obtain ⟨⟨s, hs⟩, hcount, -⟩ := main_plain hplain (by decide)
  exact ⟨s, hs, main_not_linksAgree hs (by rw [hcount]; decide)⟩

/-- With no files at all: the root has link count 1, and the subdirectory `bin`. -/
theorem main_nil_links :
    ∃ s, main [] = .ok s ∧ (inode s 1).nlink = 1 ∧ ¬ LinksAgree s := by
  obtain ⟨⟨s, hs⟩, hcount, -⟩ := main_plain plain_nil (by decide)
  have hlim : (Tree.ofFiles []).count < inodeLimit := by rw [hcount]; decide
  have hshows := main_shows hs hlim
  exact ⟨s, hs, hshows.nlink 1 ⟨by decide, by rw [hcount]; decide⟩ (by decide),
    hshows.not_linksAgree (main_entriesOk hs) hlim (Tree.Grows.refl _)⟩

/-! ## Holes -/

/-- Every block below the size of every inode has an address. -/
def NoHoles (s : St) : Prop :=
  ∀ i, 1 ≤ i → i < NINODES → (inode s i).type ≠ 0 →
    ∀ bn, bn < ((inode s i).size + BSIZE - 1) / BSIZE → dataAddr s.img.disk (inode s i) bn ≠ 0

/-- No directory of the tree has a multiple of 32 entries. -/
def NoFullDir (t : Tree) : Prop :=
  ∀ i es, Live t.count i → i < NINODES → t.node i = .dir es →
    es.length % (BSIZE / DIRENTSIZE) ≠ 0

/-- Only a full last block makes a hole. -/
lemma Shows.noHoles_iff {s : St} {t : Tree} (h : Shows s t) : NoHoles s ↔ NoFullDir t := by
  have hB : BSIZE = 512 := rfl
  have hS : DIRENTSIZE = 16 := rfl
  constructor
  · -- a full directory lacks the block behind its last entry
    intro hno i es hi hlt hnode hfull
    have hc : t.contents i = dirBytes es := by rw [Tree.contents, hnode]; rfl
    have htype : t.types i = T_DIR := by rw [Tree.types, hnode]; rfl
    have hsize := h.size i hi hlt
    rw [if_pos htype, hc, length_dirBytes, roundUp] at hsize
    have hmissing := hno i hi.1 hlt (by rw [inode, h.type i hi hlt, htype]; decide)
      (DIRENTSIZE * es.length / BSIZE) (by
        rw [inode, hsize]
        simp only [hB, hS]
        omega)
    rw [inode, h.addr i hi hlt, hc, length_dirBytes] at hmissing
    simp only [blocks, hB, hS] at hmissing hfull
    omega
  · intro hfull i hi hlt htype bn hbn
    have hlive : Live t.count i := by
      by_contra hnot
      exact htype (h.free i hnot hlt)
    rw [inode, h.size i hlive hlt] at hbn
    rw [inode, h.addr i hlive hlt]
    cases hnode : t.node i with
    | file data =>
      have hfile : t.types i ≠ T_DIR := by
        rw [Tree.types, hnode]
        show T_FILE ≠ T_DIR
        decide
      rwa [if_neg hfile] at hbn
    | dir es =>
      have hdir : t.types i = T_DIR := by rw [Tree.types, hnode]; rfl
      have hc : t.contents i = dirBytes es := by rw [Tree.contents, hnode]; rfl
      have hpart := hfull i es hlive hlt hnode
      rw [if_pos hdir, hc, length_dirBytes, roundUp] at hbn
      rw [hc, length_dirBytes]
      simp only [blocks, hB, hS] at hbn hpart ⊢
      omega

/-- **Holes.** When `mkfs` exits with status 0, its image is without holes exactly when no
directory of the tree that the command line describes has a multiple of 32 entries. -/
theorem main_noHoles_iff {files : List Arg} {s : St} (h : main files = .ok s)
    (hcount : (Tree.ofFiles files).count < inodeLimit) :
    NoHoles s ↔ NoFullDir (.ofFiles files) :=
  (main_shows h hcount).noHoles_iff

/-- With `/bin/a` and `/lib/b`, the root has four entries and each of the others three. -/
theorem main_noHoles_twoDirs : ∃ s, main [binFile, libFile] = .ok s ∧ NoHoles s := by
  obtain ⟨s, hs⟩ := main_twoDirs
  have hcount : (Tree.ofFiles [binFile, libFile]).count < inodeLimit := by
    rw [ofFiles_twoDirs]
    decide
  refine ⟨s, hs, (main_noHoles_iff hs hcount).mpr ?_⟩
  rw [ofFiles_twoDirs]
  intro i es hi _ hnode
  have hper : BSIZE / DIRENTSIZE = 32 := rfl
  have hlen := (entries_libTree i es hi hnode).1
  rw [hper]
  omega

/-- Thirty copies of the empty file `a` make 32 entries in `/bin`, with `.` and `..`. -/
theorem main_fullDir_holes :
    ∃ s, main (List.replicate 30 (letterFile 97 (by decide))) = .ok s ∧ ¬ NoHoles s := by
  have hplain : ∀ arg ∈ List.replicate 30 (letterFile 97 (by decide)), Plain arg := by
    intro arg harg
    rw [List.eq_of_mem_replicate harg]
    exact plain_letterFile (by decide) (by decide) (by decide)
  obtain ⟨⟨s, hs⟩, hcount, hnames⟩ := main_plain hplain (by rw [List.length_replicate]; decide)
  rw [List.length_replicate] at hcount
  refine ⟨s, hs, fun hno => ?_⟩
  have hfull := (main_shows hs (by rw [hcount]; decide)).noHoles_iff.mp hno
  have hdir := (Tree.Grows.addFiles (List.replicate 30 (letterFile 97 (by decide))) .root).type 2
    ⟨by decide, by decide⟩
  cases hnode : (Tree.ofFiles (List.replicate 30 (letterFile 97 (by decide)))).node 2 with
  | file data =>
    rw [Tree.ofFiles] at hnode
    rw [hnode] at hdir
    cases hdir
  | dir es =>
    have hlen : es.length = 32 := by
      rw [hnode] at hnames
      have := congrArg List.length hnames
      simpa [Node.entries] using this
    exact hfull 2 es ⟨by decide, by omega⟩ (by decide) hnode (by rw [hlen]; decide)

/-! ## The layout -/

/-- An event stayed in the region it belongs to. -/
def Event.InPlace : Event → Prop
  | .inode i => i < sb.ninodes
  | .block b => b < sb.size
  | .winode sec => sb.inodestart ≤ sec ∧ sec < sb.bmapstart
  | .wdata sec => nmeta ≤ sec ∧ sec < sb.size

/-- No directory of the image has two live entries with one name. -/
def NoTwins (s : St) : Prop :=
  ∀ i, 1 ≤ i → i < NINODES → (inode s i).type = T_DIR →
    ∀ k l, k < nentries s i → l < nentries s i → direntInum (content s i) k ≠ 0 →
      direntInum (content s i) l ≠ 0 → direntName (content s i) k = direntName (content s i) l →
      k = l

/-- Everything `mkfs` handed out and wrote is where it belongs, and no name is there twice. -/
def LayoutOk (s : St) : Prop := (∀ e ∈ s.trace, e.InPlace) ∧ NoTwins s

/-- The tree fits the inode area, and no directory has a name twice. -/
def TreeFits (t : Tree) : Prop :=
  t.count < NINODES ∧ ∀ i es, Live t.count i → t.node i = .dir es → (es.map Prod.fst).Nodup

/-- No write misses its place below 216 inodes. -/
lemma Shows.inPlace {s : St} {t : Tree} (h : Shows s t) (hcount : t.count < NINODES) :
    ∀ e ∈ s.trace, e.InPlace := by
  intro e he
  have hw := h.events e he
  have htop := h.top
  rw [h.next] at hw
  cases e with
  | inode i =>
    have hlt : i < t.count + 1 := hw
    show i < NINODES
    omega
  | block b => exact Nat.lt_of_lt_of_le hw htop
  | winode sec =>
    obtain ⟨i, hi, rfl⟩ := hw
    have hI : IPB = 8 := rfl
    have hst : sb.inodestart = 32 := rfl
    have hbm : sb.bmapstart = 58 := rfl
    have hN : NINODES = 200 := rfl
    show sb.inodestart ≤ IBLOCK sb i ∧ IBLOCK sb i < sb.bmapstart
    unfold IBLOCK
    rw [hst, hbm, hI]
    omega
  | wdata sec => exact ⟨hw.1, Nat.lt_of_lt_of_le hw.2 htop⟩

/-- Names on disk are equal where the tree's are. -/
lemma Shows.noTwins_iff {s : St} {t : Tree} (h : Shows s t) (hn : t.EntriesOk)
    (hcount : t.count < NINODES) :
    NoTwins s ↔ ∀ i es, Live t.count i → t.node i = .dir es → (es.map Prod.fst).Nodup := by
  have hL : inodeLimit = 216 := rfl
  have hN : NINODES = 200 := rfl
  have hlim : t.count < inodeLimit := by omega
  constructor
  · intro hno i es hi hnode
    have hlt : i < NINODES := Nat.lt_of_le_of_lt hi.2 hcount
    rw [List.nodup_iff_injective_getElem]
    intro ⟨k, hk⟩ ⟨l, hl⟩ heq
    rw [List.length_map] at hk hl
    simp only [List.getElem_map] at heq
    obtain ⟨hk1, hk2⟩ := h.dirent hn hlim hi hlt hnode hk
    obtain ⟨hl1, hl2⟩ := h.dirent hn hlim hi hlt hnode hl
    have hlen := h.length_lt_nentries hi hlt hnode
    have hpos : ∀ {m} (hm : m < es.length), es[m].2 ≠ 0 := fun {m} hm => by
      have := (hn i hi es[m] (by rw [hnode]; exact List.getElem_mem hm)).2.1
      omega
    have htype : (inode s i).type = T_DIR := by
      rw [inode, h.type i hi hlt, Tree.types, hnode]
      rfl
    have := hno i hi.1 hlt htype k l (by omega) (by omega) (by rw [hk1]; exact hpos hk)
      (by rw [hl1]; exact hpos hl) (by rw [hk2, hl2, heq])
    exact Fin.ext this
  · intro hnodup i hi hlt htype k l _ _ hk hl heq
    have hlive : Live t.count i := by
      by_contra hnot
      have hfree := h.free i hnot hlt
      rw [inode, hfree] at htype
      cases htype
    rw [inode, h.type i hlive hlt] at htype
    cases hnode : t.node i with
    | file data =>
      rw [Tree.types, hnode] at htype
      cases htype
    | dir es =>
      -- a live entry is one of the tree's
      have hin : ∀ m, direntInum (content s i) m ≠ 0 → m < es.length := by
        intro m hm
        by_contra hge
        exact hm (h.dirent_free hlive hlt hnode (by omega))
      have hk' := hin k hk
      have hl' := hin l hl
      rw [(h.dirent hn hlim hlive hlt hnode hk').2, (h.dirent hn hlim hlive hlt hnode hl').2] at heq
      have hinj := List.nodup_iff_injective_getElem.mp (hnodup i es hlive hnode)
      have hfin := @hinj ⟨k, by rwa [List.length_map]⟩ ⟨l, by rwa [List.length_map]⟩
        (by simpa only [List.getElem_map] using heq)
      exact Fin.mk.inj hfin

/-- **Layout.** When `mkfs` exits with status 0, everything it handed out and wrote is where it
belongs and no directory has a name twice exactly when the tree that the command line describes
has fewer than `NINODES` nodes and no name twice in a directory. -/
theorem main_layoutOk_iff {files : List Arg} {s : St} (h : main files = .ok s) :
    LayoutOk s ↔ TreeFits (.ofFiles files) := by
  have hL : inodeLimit = 216 := rfl
  have hN : NINODES = 200 := rfl
  constructor
  · intro hok
    have hge := (Tree.Grows.addFiles files .root).count
    have hcount : (Tree.ofFiles files).count < NINODES :=
      hok.1 _ (main_handed h (i := (Tree.ofFiles files).count)
        ⟨Nat.le_trans (by decide) hge, Nat.le_refl _⟩)
    have hshows := main_shows h (by omega)
    exact ⟨hcount, (hshows.noTwins_iff (main_entriesOk h) hcount).mp hok.2⟩
  · intro hfits
    have hcount := hfits.1
    have hshows := main_shows h (by omega)
    exact ⟨hshows.inPlace hcount, (hshows.noTwins_iff (main_entriesOk h) hcount).mpr hfits.2⟩

theorem main_layoutOk_twoDirs : ∃ s, main [binFile, libFile] = .ok s ∧ LayoutOk s := by
  obtain ⟨s, hs⟩ := main_twoDirs
  refine ⟨s, hs, (main_layoutOk_iff hs).mpr ?_⟩
  rw [ofFiles_twoDirs]
  exact ⟨by decide, fun i es hi hnode => (entries_libTree i es hi hnode).2⟩

/-- A file given twice is there twice. -/
theorem main_twice_twins :
    ∃ s, main (List.replicate 2 (letterFile 97 (by decide))) = .ok s ∧ ¬ LayoutOk s := by
  have hplain : ∀ arg ∈ List.replicate 2 (letterFile 97 (by decide)), Plain arg := by
    intro arg harg
    rw [List.eq_of_mem_replicate harg]
    exact plain_letterFile (by decide) (by decide) (by decide)
  obtain ⟨⟨s, hs⟩, hcount, hnames⟩ := main_plain hplain (by rw [List.length_replicate]; decide)
  rw [List.length_replicate] at hcount
  refine ⟨s, hs, fun hok => ?_⟩
  have hnodup := ((main_shows hs (by rw [hcount]; decide)).noTwins_iff (main_entriesOk hs)
    (by rw [hcount]; decide)).mp hok.2
  have hdir := (Tree.Grows.addFiles (List.replicate 2 (letterFile 97 (by decide))) .root).type 2
    ⟨by decide, by decide⟩
  cases hnode : (Tree.ofFiles (List.replicate 2 (letterFile 97 (by decide)))).node 2 with
  | file data =>
    rw [Tree.ofFiles] at hnode
    rw [hnode] at hdir
    cases hdir
  | dir es =>
    have := hnodup 2 es ⟨by decide, by omega⟩ hnode
    rw [hnode] at hnames
    replace hnames : es.map Prod.fst = _ := hnames
    rw [hnames] at this
    exact absurd this (by decide)

end Mkfs
end OhMyXv6
