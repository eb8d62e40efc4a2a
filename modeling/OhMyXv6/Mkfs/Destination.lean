import OhMyXv6.Mkfs.Names

/-!
# Where the files go

`destination` is the rule for the path of a file, in terms of its name on the command line alone. `place`
follows it, except that it takes a name with a leading underscore for a single name, slashes and all.

`NoClash` says when every file and every directory of the tree is what its path leads to: no name
with an underscore has a slash, and no file is in the way of another's directory.
-/

namespace OhMyXv6
namespace Mkfs

/-- The path that a file on the command line is to have: `_x` is `/bin/x`, `p/etc/r` is `/etc/p/r`, `d/f` is
`/d/f` and `f` is `/bin/f`. -/
def destination (name : Path) : Path :=
  slash :: if name.head? = some underscore then binName ++ slash :: name.tail
    else
      match index name with
      | none => binName ++ slash :: name
      | some (package, after) =>
        if after.take 4 = etcSlash then etcSlash ++ package ++ slash :: after.drop 4 else name

/-- The names between the slashes. -/
def components (name : Path) : List Path := (destination name).tail.splitOn slash

/-! ## Cutting a name at a slash -/

section
variable {p before after : Path}

/-- `index` cuts at the first slash. -/
lemma index_some (h : index p = some (before, after)) :
    p = before ++ slash :: after ∧ slash ∉ before := by
  unfold index at h
  split at h
  · cases h
  · next b rest hdrop =>
    have hb : b = slash := by
      have hhead := List.head?_dropWhile_not (fun b => decide (b ≠ slash)) p
      rw [hdrop] at hhead
      simpa using hhead
    simp only [Option.some.injEq, Prod.mk.injEq] at h
    obtain ⟨rfl, rfl⟩ := h
    constructor
    · have hsplit := List.takeWhile_append_dropWhile (p := fun b => decide (b ≠ slash)) (l := p)
      rw [hdrop, hb] at hsplit
      exact hsplit.symm
    · intro hmem
      simpa using List.mem_takeWhile_imp hmem

/-- Without a slash there is nothing to cut. -/
lemma index_none (h : index p = none) : slash ∉ p := by
  unfold index at h
  split at h
  · next hdrop =>
    intro hmem
    simpa using List.dropWhile_eq_nil_iff.mp hdrop slash hmem
  · cases h

/-- `rindex` cuts at the last slash. -/
lemma rindex_some (h : rindex p = some (before, after)) :
    p = before ++ slash :: after ∧ slash ∉ after := by
  unfold rindex at h
  obtain ⟨⟨a, b⟩, hindex, heq⟩ := Option.map_eq_some_iff.mp h
  simp only [Prod.mk.injEq] at heq
  obtain ⟨rfl, rfl⟩ := heq
  obtain ⟨hp, hnot⟩ := index_some hindex
  constructor
  · rw [← List.reverse_reverse p, hp, List.reverse_append, List.reverse_cons, List.append_assoc]
    rfl
  · rwa [List.mem_reverse]

/-- Without a slash there is nothing to cut. -/
lemma rindex_none (h : rindex p = none) : slash ∉ p := by
  unfold rindex at h
  have hnot := index_none (Option.map_eq_none_iff.mp h)
  rwa [List.mem_reverse] at hnot

end

section
variable {name dir file : Path}

/-- `place` follows the rule. -/
lemma destination_place (h : place name = .ok (dir, file)) :
    destination name = slash :: (dir ++ slash :: file) := by
  unfold place at h
  unfold destination
  by_cases hhead : name.head? = some underscore
  · rw [if_pos hhead] at h ⊢
    cases h
    rfl
  rw [if_neg hhead] at h ⊢
  rcases hindex : index name with _ | ⟨package, after⟩
  · rw [hindex] at h
    cases h
    rfl
  rw [hindex] at h
  dsimp only at h ⊢
  split at h
  · next hetc =>
    rw [if_pos hetc]
    split at h
    · exact nomatch h
    split at h
    · cases h
      rfl
    · next hr =>
      cases h
      rw [(rindex_some hr).1]
      simp
  · next hetc =>
    rw [if_neg hetc]
    split at h
    · next hr =>
      -- there is a slash, so the last one is found
      have hslash := (index_some hindex).1
      exact absurd (by rw [hslash]; simp) (rindex_none hr)
    · next hr =>
      cases h
      exact congrArg _ (rindex_some hr).1

/-- The name in the directory has no slash, if the name on the command line has none behind an underscore. -/
theorem not_mem_place (h : place name = .ok (dir, file))
    (hname : name.head? = some underscore → slash ∉ name) : slash ∉ file := by
  unfold place at h
  split at h
  · next hhead =>
    cases h
    exact fun hmem => hname hhead (List.mem_of_mem_tail hmem)
  split at h
  · next hindex =>
    cases h
    exact index_none hindex
  split at h
  · split at h
    · exact nomatch h
    split at h
    · next hr =>
      cases h
      exact rindex_none hr
    · next hr =>
      cases h
      exact (rindex_some hr).2
  · split at h
    · next hr =>
      cases h
      exact rindex_none hr
    · next hr =>
      cases h
      exact (rindex_some hr).2

end

/-! ## Files that are in nobody's way -/

namespace Placed

/-- The path of a file, without the slash in front. -/
def full (f : Placed) : Path := f.1 ++ slash :: f.2.1

/-- The file is in a directory below the root, and its path has only proper names. -/
def Fine (f : Placed) : Prop := ∃ ds, ds ≠ [] ∧ f.1 = joined ds ∧ (∀ c ∈ ds, Proper c) ∧ Proper f.2.1

/-- The files of a list can all be there together. -/
structure Clear (L : List Placed) : Prop where
  fine : ∀ f ∈ L, f.Fine
  apart : ∀ f ∈ L, ∀ g ∈ L, ¬ f.full ++ [slash] <+: g.full
  nodup : (L.map full).Nodup

end Placed

namespace Found

open Placed

variable {t : Tree} {F L : List Placed} {f g : Placed}

/-- No directory has the path of a file. -/
lemma no_row (hs : Sound t F (L.map Prod.fst)) (hL : Clear L) (hf : f ∈ L) (j : ℕ) :
    (f.full, j) ∉ t.dirs := by
  intro hrow
  obtain ⟨ds, hne, hdir, hds, hname⟩ := hL.fine f hf
  rcases hs.origin _ hrow with hnil | hbin | ⟨dir, hdir', horigin⟩
  · simp [full] at hnil
  · -- the path has a slash
    have hslash : slash ∈ binName := by
      rw [← hbin]
      simp [full]
    exact absurd hslash (by decide)
  · obtain ⟨g, hg, rfl⟩ := List.mem_map.mp hdir'
    apply hL.apart f hf g hg
    rcases horigin with heq | hpre
    · dsimp only at heq
      rw [heq]
      exact ⟨g.2.1, by simp [full]⟩
    · exact hpre.trans (List.prefix_append _ _)

/-- No file has the path of a directory on the way to another. -/
lemma no_file (hL : Clear L) (hf : f ∈ L) (hg : g ∈ L) {as bs : List Path} {c : Path}
    (hdir : g.1 = joined (as ++ c :: bs)) (has : as ≠ []) (hfdir : f.1 = joined as)
    (hfname : f.2.1 = c) : False := by
  apply hL.apart f hf g hg
  have hfull : f.full = joined (as ++ [c]) := by
    unfold full
    rw [hfdir, hfname, joined_append has (by simp), joined_singleton]
  rw [hfull]
  have horigin : joined (as ++ [c]) = joined (as ++ c :: bs) ∨
      joined (as ++ [c]) ++ [slash] <+: joined (as ++ c :: bs) := Sound.origin_joined c
  rcases horigin with heq | hpre
  · rw [heq, ← hdir]
    exact ⟨g.2.1, by simp [full]⟩
  · rw [← hdir] at hpre
    exact hpre.trans (List.prefix_append _ _)

/-- One more file is found, if it clashes with none before it. -/
lemma addFile (h : Found t F) (hs : Sound t F (L.map Prod.fst)) (hL : Clear L) {arg : Arg}
    (hplaced : arg.placed = some f) (hf : f ∈ L) (hF : ∀ g ∈ F, g ∈ L)
    (hnew : ∀ g ∈ F, g.full ≠ f.full) : Found (t.addFile arg) (F ++ [f]) := by
  obtain ⟨dir, name, data⟩ := f
  obtain ⟨ds, hne, rfl, hds, hname⟩ : ∃ ds, ds ≠ [] ∧ dir = joined ds ∧ (∀ c ∈ ds, Proper c) ∧ Proper name :=
    hL.fine _ hf
  have hG : joined ds ∈ L.map Prod.fst := List.mem_map.mpr ⟨_, hf, rfl⟩
  have hmade := h.mkdirp hs hds hG (by
    intro as c bs heq data' hmem
    by_cases has : as = []
    · -- no file is in the root
      obtain ⟨ds', hne', hdir', hds', -⟩ := hL.fine _ (hF _ hmem)
      rw [has] at hdir'
      exact absurd hdir'.symm (joined_ne_nil (fun c hc => (hds' c hc).1) hne')
    · exact no_file hL (hF _ hmem) hf (by rw [heq]) has rfl rfl)
  obtain ⟨hsmade, hrow⟩ := hs.mkdirp hds hG
  rw [Tree.addFile_placed hplaced]
  apply hmade.putFile hsmade hds hrow
  apply hsmade.no_entry hrow hname.2.2.1 hname.2.2.2
  · intro j hj
    rw [joinPath_joined fun b hb => (hds b hb).1, joined_append hne (by simp), joined_singleton] at hj
    exact no_row hsmade hL hf j hj
  · exact fun data' hmem => hnew _ hmem rfl

/-- By induction on the arguments. -/
lemma addFiles (h : Found t F) (hs : Sound t F (L.map Prod.fst)) (hL : Clear L) {files : List Arg}
    (hfiles : F ++ files.filterMap Arg.placed = L) : Found (files.foldl Tree.addFile t) L := by
  induction files generalizing t F with
  | nil =>
    rw [List.filterMap_nil, List.append_nil] at hfiles
    rw [← hfiles]
    exact h
  | cons arg files ih =>
    rw [List.foldl_cons]
    rcases hplaced : arg.placed with _ | f
    · rw [List.filterMap_cons_none hplaced] at hfiles
      rw [Tree.addFile_unplaced hplaced]
      exact ih h hs hfiles
    · rw [List.filterMap_cons_some hplaced] at hfiles
      have hf : f ∈ L := by
        rw [← hfiles]
        simp
      have hF : ∀ g ∈ F, g ∈ L := by
        intro g hg
        rw [← hfiles]
        exact List.mem_append_left _ hg
      have hnew : ∀ g ∈ F, g.full ≠ f.full := by
        have hnodup := hL.nodup
        rw [← hfiles, List.map_append, List.nodup_append] at hnodup
        intro g hg
        exact hnodup.2.2 _ (List.mem_map_of_mem hg) _ (List.mem_map_of_mem List.mem_cons_self)
      obtain ⟨ds, -, hdir, hds, -⟩ := hL.fine f hf
      apply ih (h.addFile hs hL hplaced hf hF hnew)
      · obtain ⟨dir, name, data⟩ := f
        dsimp only at hdir
        subst hdir
        exact hs.addFile hds hplaced (List.mem_map.mpr ⟨_, hf, rfl⟩)
      · rw [List.append_assoc]
        exact hfiles

end Found

/-! ## The files of a command line -/

/-- No name with an underscore has a slash, and no file has the path of a directory on the way to another. -/
def NoClash (files : List Arg) : Prop :=
  (∀ a ∈ files, a.name.head? = some underscore → slash ∉ a.name) ∧
    ∀ a ∈ files, ∀ b ∈ files, ¬ destination a.name ++ [slash] <+: destination b.name

/-- The components of two paths, one after the other. -/
lemma splitOn_append_slash (p q : Path) :
    (p ++ slash :: q).splitOn slash = p.splitOn slash ++ q.splitOn slash := by
  have hp := List.splitOn_ne_nil slash p
  have hq := List.splitOn_ne_nil slash q
  have hjoin : p ++ slash :: q = joined (p.splitOn slash ++ q.splitOn slash) := by
    rw [joined_append hp hq, joined_splitOn, joined_splitOn]
  rw [hjoin, splitOn_joined _ (by simp [hp])]
  intro c hc
  rcases List.mem_append.mp hc with hc | hc
  · exact not_mem_of_mem_splitOn hc
  · exact not_mem_of_mem_splitOn hc

section
variable {files : List Arg} {arg : Arg} {f : Placed}

/-- The destination is the place behind a slash. -/
lemma Arg.destination_placed (h : arg.placed = some f) :
    destination arg.name = slash :: f.full := by
  unfold Arg.placed at h
  split at h
  · next data dir file hdata hplace =>
    cases h
    exact destination_place hplace
  · exact nomatch h

/-- The components of the directory and then the name. -/
lemma Arg.components_placed (h : arg.placed = some f) :
    components arg.name = f.1.splitOn slash ++ f.2.1.splitOn slash := by
  unfold components
  rw [Arg.destination_placed h]
  exact splitOn_append_slash _ _

/-- No component of a destination is empty, `.` or `..`. -/
def ProperNames (files : List Arg) : Prop := ∀ arg ∈ files, ∀ c ∈ components arg.name, Proper c

/-- The directory of a file has a path of proper names. -/
lemma Arg.placed_dir (hnames : ∀ c ∈ components arg.name, Proper c) (h : arg.placed = some f) :
    ∀ c ∈ f.1.splitOn slash, Proper c := by
  intro c hc
  apply hnames
  rw [Arg.components_placed h]
  exact List.mem_append_left _ hc

/-- What is in the tree comes from an argument. -/
lemma sound_ofFiles (hnames : ProperNames files) : Sound (.ofFiles files)
    (files.filterMap Arg.placed) ((files.filterMap Arg.placed).map Prod.fst) := by
  apply (sound_root _).addFiles
  intro arg harg f hf
  refine ⟨List.mem_map.mpr ⟨f, List.mem_filterMap.mpr ⟨arg, harg, hf⟩, rfl⟩, f.1.splitOn slash,
    (joined_splitOn _).symm, ?_⟩
  exact Arg.placed_dir (hnames arg harg) hf

/-- Without clashes, the files can all be there. -/
lemma NoClash.clear (h : NoClash files) (hnames : ProperNames files)
    (hnodup : (files.map fun a => destination a.name).Nodup) :
    Placed.Clear (files.filterMap Arg.placed) := by
  refine ⟨?_, ?_, ?_⟩
  · intro f hf
    obtain ⟨arg, harg, hplaced⟩ := List.mem_filterMap.mp hf
    have hslash : slash ∉ f.2.1 := by
      unfold Arg.placed at hplaced
      split at hplaced
      · next data dir file hdata hplace =>
        cases hplaced
        exact not_mem_place hplace (h.1 arg harg)
      · exact nomatch hplaced
    have hsingle : f.2.1.splitOn slash = [f.2.1] := by
      conv_lhs => rw [← joined_singleton f.2.1]
      exact splitOn_joined (by simpa using hslash) (by simp)
    refine ⟨f.1.splitOn slash, List.splitOn_ne_nil _ _, (joined_splitOn _).symm,
      Arg.placed_dir (hnames arg harg) hplaced, ?_⟩
    apply hnames arg harg
    rw [Arg.components_placed hplaced, hsingle]
    simp
  · intro f hf g hg hpre
    obtain ⟨a, ha, hfa⟩ := List.mem_filterMap.mp hf
    obtain ⟨b, hb, hgb⟩ := List.mem_filterMap.mp hg
    apply h.2 a ha b hb
    rw [Arg.destination_placed hfa, Arg.destination_placed hgb, List.cons_append]
    exact (List.cons_prefix_cons).mpr ⟨rfl, hpre⟩
  · -- the paths are those of a part of the files
    clear h hnames
    induction files with
    | nil => exact List.nodup_nil
    | cons arg files ih =>
      rw [List.map_cons, List.nodup_cons] at hnodup
      rcases hplaced : arg.placed with _ | f
      · rw [List.filterMap_cons_none hplaced]
        exact ih hnodup.2
      · rw [List.filterMap_cons_some hplaced, List.map_cons, List.nodup_cons]
        refine ⟨?_, ih hnodup.2⟩
        intro hmem
        obtain ⟨g, hg, hfull⟩ := List.mem_map.mp hmem
        obtain ⟨b, hb, hgb⟩ := List.mem_filterMap.mp hg
        apply hnodup.1
        refine List.mem_map.mpr ⟨b, hb, ?_⟩
        rw [Arg.destination_placed hplaced, Arg.destination_placed hgb, hfull]

/-- What comes from an argument is in the tree. -/
lemma found_ofFiles (h : NoClash files) (hnames : ProperNames files)
    (hnodup : (files.map fun a => destination a.name).Nodup) :
    Found (.ofFiles files) (files.filterMap Arg.placed) :=
  found_root.addFiles (sound_root _) (h.clear hnames hnodup) (List.nil_append _)

end

/-! ## The size of a directory -/

/-- A node has no more entries than there are nodes, and its two dots. -/
def Tree.Few (t : Tree) : Prop := ∀ i, Live t.count i → (t.node i).entries.length ≤ t.count + 2

namespace Tree.Few

variable {t : Tree} {parent : ℕ} {c path name : Path} {data : List UInt8}

lemma length_link (nd : Node) (name : Path) (j : ℕ) :
    (nd.link name j).entries.length ≤ nd.entries.length + 1 := by
  cases nd with
  | dir es => simp [Node.link, Node.entries]
  | file data => simp [Node.link, Node.entries]

lemma mkdir (h : t.Few) (hp : Live t.count parent) : (t.mkdir parent c path).2.Few := by
  intro i hi
  have hle : i ≤ t.count + 1 := hi.2
  show _ ≤ t.count + 1 + 2
  by_cases hic : i = t.count + 1
  · rw [hic, Tree.node_mkdir_child hp.2]
    show 2 ≤ _
    omega
  have hold := h i ⟨hi.1, by omega⟩
  by_cases hip : i = parent
  · rw [hip, Tree.node_mkdir_parent hp.2]
    have hlink := length_link (t.node parent) c (t.count + 1)
    rw [hip] at hold
    omega
  · rw [Tree.node_mkdir_of_ne (by omega) hip]
    omega

/-- By induction on the components. -/
lemma mkdirpLoop (h : t.Few) (hwf : t.Wf) (hp : t.IsDir parent) (p : Path) :
    (t.mkdirpLoop path parent p).2.Few := by
  induction t, path, parent, p using Tree.mkdirpLoop.induct with
  | case1 t path parent =>
    rw [Tree.mkdirpLoop, if_pos rfl]
    exact h
  | case2 t path parent p hne component r ih =>
    rw [Tree.mkdirpLoop, if_neg hne]
    have hd := hwf.descend parent component (joinPath path component)
    apply ih _ hd.1 hd.2
    show (t.descend parent component (joinPath path component)).2.Few
    unfold Tree.descend
    split
    · exact h
    · exact h.mkdir hp.1

/-- One file: its directories and its own entry. -/
lemma addFile (h : t.Few) (hwf : t.Wf) (arg : Arg) : (t.addFile arg).Few := by
  rcases hplaced : arg.placed with _ | ⟨dir, name, data⟩
  · rw [Tree.addFile_unplaced hplaced]
    exact h
  rw [Tree.addFile_placed hplaced]
  have hmade : (t.mkdirp dir).2.Few := by
    unfold Tree.mkdirp
    split
    · exact h
    · exact h.mkdirpLoop hwf hwf.root dir
  obtain ⟨-, hdir⟩ := hwf.mkdirp dir
  intro i hi
  have hle : i ≤ (t.mkdirp dir).2.count + 1 := hi.2
  show _ ≤ (t.mkdirp dir).2.count + 1 + 2
  by_cases hic : i = (t.mkdirp dir).2.count + 1
  · rw [hic, Tree.node_putFile_new hdir.1.2]
    exact Nat.zero_le _
  have hold := hmade i ⟨hi.1, by omega⟩
  by_cases hip : i = (t.mkdirp dir).1
  · rw [hip, Tree.node_putFile_parent hdir.1.2]
    have hlink := length_link ((t.mkdirp dir).2.node (t.mkdirp dir).1) name ((t.mkdirp dir).2.count + 1)
    rw [hip] at hold
    omega
  · rw [Tree.node_putFile_of_ne (by omega) hip]
    omega

lemma ofFiles (files : List Arg) : (Tree.ofFiles files).Few := by
  have hfold : ∀ (l : List Arg) (t : Tree), t.Few → t.Wf → (l.foldl Tree.addFile t).Few := by
    intro l
    induction l with
    | nil => exact fun t ht _ => ht
    | cons arg l ih => exact fun t ht hwf => ih _ (ht.addFile hwf arg) (hwf.addFile arg)
  apply hfold files .root _ Tree.wf_root
  intro i hi
  have h1 : 1 ≤ i := hi.1
  have h2 : i ≤ 2 := hi.2
  have h3 : i = 1 ∨ i = 2 := by omega
  rcases h3 with rfl | rfl
  · decide
  · decide

end Tree.Few

end Mkfs
end OhMyXv6
