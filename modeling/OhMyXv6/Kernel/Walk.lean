import Mathlib.Data.Finset.Card
import OhMyXv6.Kernel.Image
import OhMyXv6.Kernel.Steady

/-!
# Directories and paths during a system call

In a sound file system `dirlookup` is `Node.find` and `namex` is `Nodes.walk`: they end with that answer
and a reference to the inode it names, and they change nothing else. The errors they may stop with are
a parameter, with the conditions under which they do.
-/

namespace OhMyXv6
namespace Kernel

/-- The files of the state lie on its disk as they should, directories consist of whole entries, and
these name inodes. -/
structure Sound (T : State) : Prop where
  image : Image T.sb T.disk T.inodes T.nodes
  aligned : ∀ i, (T.nodes i).type = T_DIR → DIRENTSIZE ∣ (T.nodes i).size
  entries : ∀ i, (T.nodes i).type = T_DIR → ∀ m, (T.nodes i).Has m →
    (T.nodes i).inum m < T.sb.ninodes

/-- The entries of the cache that no table refers to. -/
def State.freeEntries (T : State) : Finset ℕ := {e ∈ Finset.range NINODE | (T.icache e).ref = 0}

/-- An inode without links is referred to by a table, or by one of `H`. -/
def Anchored (T : State) (H : List Held) : Prop :=
  ∀ i, (T.inodes i).type ≠ 0 → i < T.sb.ninodes → (T.inodes i).nlink = 0 →
    (∃ e, 0 < T.view.tab e ∧ T.view.inum e = i) ∨ ∃ a ∈ H, a.inum = i

/-- What a path lookup in the inodes `D` may stop with: an inode that is not allocated, or no entry of
the cache left for one more inode besides those of `H`. -/
structure Passable (T : State) (H : List Held) (D : ℕ → Prop) (E : Panic → Prop) : Prop where
  allocated : ∀ i, D i → (T.nodes i).type = 0 → E .ilockNoType
  closed : ∀ i, D i → (T.nodes i).type = T_DIR → ∀ m, (T.nodes i).Has m → D ((T.nodes i).inum m)
  room : T.freeEntries.card ≤ H.length + 1 → E .igetNoInodes

section
variable {T k t : State} {H H' : List Held} {L L' : List ℕ} {ip i p : ℕ} {E : Panic → Prop}
  {D : ℕ → Prop} {name path : List UInt8}

/-- Between two calls only the tables hold inodes. -/
lemma Settled.anchored (h : Settled T) (H : List Held) : Anchored T H := by
  intro i htype hlt h0
  rcases h.cached.unlinked i ⟨hlt, htype⟩ h0 with hfresh | ⟨e, he, hpos, hei, -⟩
  · exact hfresh.elim
  · refine .inl ⟨e, ?_, hei⟩
    show 0 < if e < NINODE then (T.icache e).ref else 0
    rw [if_pos he]
    exact hpos

/-- A reference can be given back as long as those that anchor the inodes are kept. -/
theorem Anchored.kept (h : Anchored T H) (hk : Steady T k (⟨ip, i, false⟩ :: H') L) (hsub : H ⊆ H') :
    Kept T H' ip i := by
  obtain ⟨hip, hi, hpos⟩ := hk.held (.head _)
  intro htype h0
  have hlt : i < T.sb.ninodes := by
    rw [← hi, ← hk.sb]
    exact hk.cached.inum ip hip hpos
  rcases h i htype hlt h0 with ⟨e, htab, hei⟩ | ⟨a, ha, hai⟩
  · obtain ⟨he, hinum, -⟩ := hk.cached.tab e htab
    have hpe : 0 < (k.icache e).ref := by
      rw [hk.ref_eq he]
      omega
    have heq := hk.cached.distinct e he ip hip hpe hpos (by rw [hinum, hei, hi])
    rw [← heq]
    omega
  · have hmem := hsub ha
    obtain ⟨hae, hainum, hpa⟩ := hk.held (.tail _ hmem)
    have heq := hk.cached.distinct a.ip hae ip hip hpa hpos (by rw [hainum, hai, hi])
    have hrefs := refsTo_pos hmem
    rw [heq] at hrefs
    omega

/-- When all entries of the cache are in use, those that no table refers to are held by the call. -/
theorem card_freeEntries_le (h : ∀ e < NINODE, 0 < T.view.tab e + refsTo H e) :
    T.freeEntries.card ≤ H.length := by
  have hsub : T.freeEntries ⊆ (H.map Held.ip).toFinset := by
    intro e he
    obtain ⟨hmem, h0⟩ := Finset.mem_filter.mp he
    rw [Finset.mem_range] at hmem
    have hpos := h e hmem
    have htab : T.view.tab e = 0 := by
      show (if e < NINODE then (T.icache e).ref else 0) = 0
      rw [if_pos hmem, h0]
    obtain ⟨a, ha, hae⟩ := mem_of_refsTo_pos (show 0 < refsTo H e by omega)
    rw [List.mem_toFinset, List.mem_map]
    exact ⟨a, ha, hae⟩
  refine (Finset.card_le_card hsub).trans ((List.toFinset_card_le _).trans ?_)
  rw [List.length_map]

/-! ## Directories -/

/-- The entry that is found is there. -/
lemma Sound.has_of_find (h : Sound T) (htype : (T.nodes i).type = T_DIR) {m : ℕ}
    (hfind : (T.nodes i).find name = some m) : (T.nodes i).Has m := by
  obtain ⟨-, hm, hmatch⟩ := Node.findFrom_some hfind
  obtain ⟨n, hn⟩ := h.aligned i htype
  rw [hn, nentries_mul, Nat.zero_add] at hm
  refine ⟨?_, hmatch.1⟩
  rw [hn]
  exact Nat.mul_le_mul_left _ hm

/-- A locked entry has the file of its inode. -/
lemma Steady.cached_eq (h : Steady T k H L) {v : Bool} (ha : ⟨ip, i, v⟩ ∈ H) (hL : ip ∈ L) :
    k.cached ip = T.nodes i := by
  obtain ⟨hdin, htype⟩ := h.locked_din ha hL
  have hlt : i < T.sb.ninodes := by
    rw [← h.sb]
    exact h.cached.inum_lt ha
  unfold State.cached State.nodes
  rw [hdin, if_pos hlt, h.disk]
  exact (nodeOf_live htype).symm

/-- A held entry is one for an inode that there is. -/
lemma Steady.inum_lt (h : Steady T k H L) {a : Held} (ha : a ∈ H) : a.inum < T.sb.ninodes := by
  rw [← h.sb]
  exact h.cached.inum_lt ha

/-- The blocks of a locked file are there. -/
lemma Steady.hasBlock (h : Steady T k H L) (hs : Sound T) {v : Bool} (ha : ⟨ip, i, v⟩ ∈ H)
    (hL : ip ∈ L) {off : ℕ} (hoff : off < (k.icache ip).din.size) : k.HasBlock ip (off / BSIZE) := by
  obtain ⟨hdin, htype⟩ := h.locked_din ha hL
  have hle : off / BSIZE * BSIZE ≤ off := Nat.div_mul_le_self _ _
  unfold State.HasBlock
  rw [hdin] at hoff ⊢
  rw [h.disk]
  exact hs.image.dense i _ ⟨h.inum_lt ha, htype⟩ (by omega)

/-- The size of a locked file is a `uint`. -/
lemma Steady.size_lt (h : Steady T k H L) (hs : Sound T) {v : Bool} (ha : ⟨ip, i, v⟩ ∈ H)
    (hL : ip ∈ L) : (k.icache ip).din.size < 2 ^ 32 := by
  obtain ⟨hdin, htype⟩ := h.locked_din ha hL
  have hshort := hs.image.short i ⟨h.inum_lt ha, htype⟩
  rw [hdin]
  have hM : MAXFILE * BSIZE = 71680 := rfl
  omega

/-- `dirlookup` in a locked directory finds what the directory has. -/
lemma Steady.dirlookup_ends (h : Steady T k H L) (hs : Sound T) {v : Bool} (ha : ⟨ip, i, v⟩ ∈ H)
    (hL : ip ∈ L) (htype : (T.nodes i).type = T_DIR)
    (hfull : (∀ e < NINODE, 0 < T.view.tab e + refsTo H e) → E .igetNoInodes) :
    Prog.Ends E (dirlookup ip name) (fun r t =>
      (r = none ∧ t = k ∧ (T.nodes i).find name = none) ∨
      ∃ m e, (T.nodes i).find name = some m ∧ r = some (e, DIRENTSIZE * m) ∧
        Steady T t (⟨e, (T.nodes i).inum m, false⟩ :: H) L) k := by
  have hcached := h.cached_eq ha hL
  have hdir : (k.icache ip).din.type = T_DIR := by
    rw [← hcached] at htype
    exact htype
  have hsize := h.size_lt hs ha hL
  have hdvd := hs.aligned i htype
  have hsame : (T.nodes i).size = (k.icache ip).din.size := by
    rw [← hcached]
    rfl
  rw [hsame] at hdvd
  -- no entry has the name, or `iget` is called for the first that has
  cases hfind : (T.nodes i).find name with
  | none =>
    have hexec : Prog.exec (dirlookup ip name) k = .done none k := by
      apply exec_dirlookup_none hdir hsize hdvd
      · rw [hcached]
        exact hfind
      · exact fun m hm => h.hasBlock hs ha hL hm
    unfold Prog.Ends
    rw [hexec]
    exact .inl ⟨rfl, rfl, rfl⟩
  | some m =>
    have hhas := hs.has_of_find htype hfind
    have hin : DIRENTSIZE * (m + 1) ≤ (k.icache ip).din.size := hsame ▸ hhas.1
    have hexec : Prog.exec (dirlookup ip name) k
        = (Prog.exec (iget ((T.nodes i).inum m)) k).andThen fun next t =>
          .done (some (next, DIRENTSIZE * m)) t := by
      rw [← hcached] at hfind ⊢
      apply exec_dirlookup hdir hsize hfind hin
      intro j hj
      apply h.hasBlock hs ha hL
      have hS : DIRENTSIZE = 16 := rfl
      rw [hS] at hin ⊢
      omega
    have hget := h.iget_ends (hs.entries i htype m hhas) hfull
    unfold Prog.Ends at hget ⊢
    rw [hexec]
    cases he : Prog.exec (iget ((T.nodes i).inum m)) k with
    | done e t =>
      rw [he] at hget
      exact .inr ⟨m, e, rfl, rfl, hget⟩
    | wait =>
      rw [he] at hget
      exact hget
    | stop e =>
      rw [he] at hget
      exact hget

/-! ## Paths -/

/-- The answer of a path lookup: a reference to the inode that was found, beside those of `H`. -/
def Reaches (T : State) (H : List Held) (o : Option (ℕ × List UInt8)) (r : Option (ℕ × List UInt8))
    (t : State) : Prop :=
  match o with
  | none => r = none ∧ Steady T t H []
  | some (i, name) => ∃ ip, r = some (ip, name) ∧ Steady T t (⟨ip, i, false⟩ :: H) []

/-- The loop of `namex` is the walk through the files. The induction is on the fuel; what is kept is the
one reference to the inode that the walk has come to. -/
theorem namexLoop_ends (hs : Sound T) (hanch : Anchored T H) (hpass : Passable T H D E) {parent : Bool}
    {fuel : ℕ} (h : Steady T k (⟨ip, i, false⟩ :: H) []) (hD : D i) (hfuel : path.length < fuel) :
    Prog.Ends E (namexLoop p parent fuel ip path)
      (Reaches T H (T.nodes.walk parent fuel i path)) k := by
  induction fuel generalizing k ip i path with
  | zero => omega
  | succ fuel ih =>
    have hkept := hanch.kept h (List.Subset.refl H)
    unfold namexLoop Nodes.walk
    cases hskip : skipelem path with
    | none =>
      dsimp only
      cases parent with
      | true =>
        rw [if_pos rfl, if_pos rfl, Prog.ends_bind]
        apply (h.iput_ends hkept nofun).mono fun _ he => he
        exact fun _ t ht => ⟨rfl, ht⟩
      | false =>
        rw [if_neg Bool.false_ne_true, if_neg Bool.false_ne_true, Prog.ends_pure]
        exact ⟨ip, rfl, h⟩
    | some pair =>
      obtain ⟨name, rest⟩ := pair
      have hlen := length_of_skipelem hskip
      have hlt : i < T.sb.ninodes := h.inum_lt (.head _)
      have hnode := hs.image.type hlt
      dsimp only
      rw [Prog.ends_bind]
      apply (h.ilock_ends (.head _) nofun fun h0 => hpass.allocated i hD (hnode.trans h0)).mono
        fun _ he => he
      intro _ k₁ h₁
      have hdin := (h₁.locked_din (.head _) (.head _)).1
      rw [ends_get, hdin, ← hnode]
      -- the error paths put the inode and return 0
      by_cases hdir : (T.nodes i).type ≠ T_DIR
      · rw [if_pos hdir, if_pos hdir, Prog.ends_bind]
        apply (h₁.iunlockput_ends hkept nofun nofun).mono fun _ he => he
        exact fun _ t ht => ⟨rfl, ht⟩
      rw [if_neg hdir, if_neg hdir]
      by_cases hlast : parent = true ∧ rest = []
      · rw [if_pos hlast, if_pos hlast, Prog.ends_bind]
        apply (h₁.iunlock_ends (.head _) nofun).mono fun _ he => he
        exact fun _ t ht => ⟨ip, rfl, ht⟩
      rw [if_neg hlast, if_neg hlast, Prog.ends_bind]
      have hdir' := not_not.mp hdir
      apply (h₁.dirlookup_ends hs (.head _) (.head _) hdir' fun hall =>
        hpass.room (card_freeEntries_le hall)).mono fun _ he => he
      rintro r k₂ (⟨rfl, rfl, hfind⟩ | ⟨m, next, hfind, rfl, h₂⟩)
      · rw [hfind]
        dsimp only
        rw [Prog.ends_bind]
        apply (h₁.iunlockput_ends hkept nofun nofun).mono fun _ he => he
        exact fun _ t ht => ⟨rfl, ht⟩
      · rw [hfind]
        dsimp only
        rw [Prog.ends_bind]
        -- the parent is put, the child is held
        have hkept₂ := hanch.kept h₂.swap (List.subset_cons_self _ H)
        apply (h₂.swap.iunlockput_ends hkept₂ nofun nofun).mono fun _ he => he
        intro _ k₃ h₃
        have hhas := hs.has_of_find hdir' hfind
        exact ih h₃ (hpass.closed i hD hdir' m hhas) (by omega)

/-- The inode at which a path lookup of process `p` begins. -/
def State.start (T : State) (p : ℕ) (path : List UInt8) : ℕ :=
  if path.head? = some slash then ROOTINO else (T.icache (T.proc p).cwd).inum

/-- The process has a current directory. -/
def HasCwd (T : State) (p : ℕ) : Prop :=
  (T.proc p).cwd < NINODE ∧ 0 < (T.icache (T.proc p).cwd).ref

/-- `namex` begins at the root or at the current directory. -/
lemma namexStart_ends (hs : Sound T) (hcwd : HasCwd T p) (hroom : T.freeEntries.card ≤ H.length →
    E .igetNoInodes) (h : Steady T k H []) :
    Prog.Ends E (namexStart p path) (fun ip t => Steady T t (⟨ip, T.start p path, false⟩ :: H) []) k := by
  unfold namexStart State.start
  by_cases hslash : path.head? = some slash
  · rw [if_pos hslash, if_pos hslash]
    exact h.iget_ends hs.image.geometry.root fun hall => hroom (card_freeEntries_le hall)
  · rw [if_neg hslash, if_neg hslash, ends_get]
    have htab : 0 < T.view.tab (T.proc p).cwd := by
      show 0 < if (T.proc p).cwd < NINODE then _ else 0
      rw [if_pos hcwd.1]
      exact hcwd.2
    have hpos : 0 < (k.icache (T.proc p).cwd).ref := by
      rw [h.ref_eq hcwd.1]
      omega
    rw [h.proc]
    apply (h.idup_ends hcwd.1 hpos (h.cached.tab _ htab).2.1).mono fun _ he => he
    rintro _ t ⟨rfl, ht⟩
    exact ht

/-- Path lookup is the walk through the files. -/
lemma namex_ends (hs : Sound T) (hcwd : HasCwd T p) (hanch : Anchored T H)
    (hpass : Passable T H D E) (hD : D (T.start p path)) {parent : Bool} (h : Steady T k H []) :
    Prog.Ends E (namex p path parent)
      (Reaches T H (T.nodes.walk parent (path.length + 1) (T.start p path) path)) k := by
  unfold namex
  rw [Prog.ends_bind]
  apply (namexStart_ends hs hcwd (fun hroom => hpass.room (by omega)) h).mono fun _ he => he
  intro ip t ht
  exact namexLoop_ends hs hanch hpass ht hD (Nat.lt_succ_self _)

end

end Kernel
end OhMyXv6
