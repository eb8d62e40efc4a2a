import OhMyXv6.Kernel.Resolve

/-!
# The name of the current directory

`sys_getcwd` goes from the current directory up to the root and puts the names it finds one in front of
the other. It takes a name from the entry up to its NUL. A name of `DIRSIZ` bytes has none, and what lies
behind the entry on the stack becomes part of the path.
-/

namespace OhMyXv6
namespace Kernel

open Words

/-! ## Directory trees -/

/-- The names on the way from the root to directory `i`, when each directory but the root is the entry
`label` of the directory `up`. -/
inductive Trail (up : ℕ → ℕ) (label : ℕ → List UInt8) : ℕ → List (List UInt8) → Prop
  | root : Trail up label ROOTINO []
  | child {i : ℕ} {W : List (List UInt8)} (hne : i ≠ ROOTINO) (h : Trail up label (up i) W) :
      Trail up label i (W ++ [label i])

/-- The directories `D` are a tree: `..` leads up, and there is one entry above for each of them. The
names of a directory are different from each other, and none is empty or has a slash. -/
structure DirTree (A : Nodes) (D : ℕ → Prop) (up : ℕ → ℕ) (label : ℕ → List UInt8) : Prop where
  type : ∀ i, D i → (A i).type = T_DIR
  closed : ∀ i, D i → D (up i)
  root : up ROOTINO = ROOTINO
  dotdot : ∀ i, D i → ∃ m, (A i).find dotdot = some m ∧ (A i).inum m = up i
  entry : ∀ i, D i → i ≠ ROOTINO → ∃ m, (A (up i)).Has m ∧ (A (up i)).inum m = i ∧
    (A (up i)).name m = label i ∧ ∀ j, (A (up i)).Has j → (A (up i)).inum j = i → j = m
  unique : ∀ i, D i → ∀ m j, (A i).Has m → (A i).Has j → (A i).name m = (A i).name j → m = j
  word : ∀ i, D i → i ≠ ROOTINO → label i ≠ [] ∧ slash ∉ label i

/-- A path with the given names. -/
def absolute (W : List (List UInt8)) : List UInt8 :=
  if W = [] then [slash] else W.flatMap (slash :: ·)

/-- The path goes into `tmp`, and with its NUL into a buffer of `size` bytes. -/
def FitsBuffer (size : ℤ) (W : List (List UInt8)) : Prop :=
  (absolute W).length ≤ TMPLEN ∧ (absolute W).length + 1 ≤ size

/-- What a buffer of `size` bytes has to hold: a path from the root to inode `i`, and a NUL. -/
structure Names (A : Nodes) (i : ℕ) (size : ℤ) (buf : List UInt8) : Prop where
  length : buf.length = size
  ends : 0 ∈ buf
  absolute : buf.head? = some slash
  resolve : A.resolve ROOTINO (buf.takeWhile (· ≠ 0)) = some i
  root : i = ROOTINO → buf.takeWhile (· ≠ 0) = [slash]

/-- The answer of `sys_getcwd` for a process in directory `i`, to which the names `W` lead. -/
def Answers (A : Nodes) (i : ℕ) (size : ℤ) (W : List (List UInt8)) (r : Ret) : Prop :=
  (r.1 = 0 ∧ Names A i size r.2) ∨ (r = failed ∧ ¬ FitsBuffer size W)

/-- `getcwd` of process `p`, for a buffer of `size` bytes and with the bytes `stack` behind the entry. -/
def Inverts (s : State) (p : ℕ) (size : ℤ) (W : List (List UInt8)) (stack : List UInt8) : Prop :=
  Prog.Ends (Crowded s) (sys_getcwd p (some size) stack) (fun r t => Steady s t [] [] ∧
    Answers s.nodes (s.icache (s.proc p).cwd).inum size W r) s

section
variable {A : Nodes} {D : ℕ → Prop} {up : ℕ → ℕ} {label : ℕ → List UInt8} {i : ℕ}
  {W V : List (List UInt8)} {stack path name : List UInt8}

/-- Only one list of names leads from the root to a directory. -/
lemma Trail.unique (h : Trail up label i W) (h' : Trail up label i V) : W = V := by
  induction h generalizing V with
  | root =>
    cases h' with
    | root => rfl
    | child hne _ => exact absurd rfl hne
  | child hne _ ih =>
    cases h' with
    | root => exact absurd rfl hne
    | child _ h' => rw [ih h']

/-- There is no way from a directory back to it. -/
lemma Trail.up_ne (h : Trail up label i W) (hne : i ≠ ROOTINO) : up i ≠ i := by
  intro heq
  cases h with
  | root => exact hne rfl
  | child _ h =>
    have hlong := Trail.child hne h
    rw [heq] at h
    have hsame := congrArg List.length (h.unique hlong)
    rw [List.length_append, List.length_singleton] at hsame
    omega

/-- A path is looked up in two parts. -/
lemma lookups_append : A.lookups i (W ++ V) = (A.lookups i W).bind fun j => A.lookups j V := by
  unfold Nodes.lookups
  rw [List.foldlM_append]
  rfl

/-- The name of an entry is found there, if no other entry has it. -/
theorem DirTree.lookup (h : DirTree A D up label) (hD : D i) (hne : i ≠ ROOTINO) :
    A.lookup (up i) (label i) = some i := by
  obtain ⟨m, hhas, hinum, hname, -⟩ := h.entry i hD hne
  have hDup := h.closed i hD
  have hmatch : (A (up i)).Matches (label i) m := ⟨hhas.2, by
    rw [← hname]
    exact (namecmp_iff (length_name_le _ _) (length_name_le _ _)).mpr rfl⟩
  have hlt := hhas.lt_nentries
  have hfind : (A (up i)).find (label i) = some m := by
    apply Node.findFrom_first (Nat.zero_le m) (by omega) hmatch
    intro j hj hother
    have hhasj : (A (up i)).Has j := by
      refine ⟨?_, hother.1⟩
      have hle := Nat.mul_le_mul_left DIRENTSIZE (Nat.succ_le_succ hj.le)
      exact hle.trans hhas.1
    have hsame : (A (up i)).name j = (A (up i)).name m := by
      rw [hname]
      refine ((namecmp_iff ?_ (length_name_le _ _)).mp hother.2).symm
      rw [← hname]
      exact length_name_le _ _
    have heq := h.unique (up i) hDup j m hhasj hhas hsame
    omega
  rw [Nodes.lookup_eq (h.type _ hDup), hfind, Option.map_some, hinum]

/-- The names lead from the root to the directory. -/
lemma DirTree.lookups (h : DirTree A D up label) (ht : Trail up label i W) (hD : D i) :
    A.lookups ROOTINO W = some i := by
  induction ht with
  | root => rfl
  | child hne _ ih =>
    rw [lookups_append, ih (h.closed _ hD), Option.bind_some, Nodes.lookups_cons, h.lookup hD hne]
    rfl

/-- The names on a trail are names that a path can have. -/
lemma DirTree.words (h : DirTree A D up label) (ht : Trail up label i W) (hD : D i) :
    ∀ w ∈ W, w ≠ [] ∧ slash ∉ w ∧ w.length ≤ DIRSIZ ∧ 0 ∉ w := by
  induction ht with
  | root => exact nofun
  | child hne _ ih =>
    intro w hw
    rcases List.mem_append.mp hw with hw | hw
    · exact ih (h.closed _ hD) w hw
    · rw [List.mem_singleton] at hw
      subst hw
      obtain ⟨m, -, -, hname, -⟩ := h.entry _ hD hne
      obtain ⟨hnil, hslash⟩ := h.word _ hD hne
      refine ⟨hnil, hslash, ?_, ?_⟩
      · rw [← hname]
        exact length_name_le _ _
      · rw [← hname]
        intro hmem
        simpa using List.mem_takeWhile_imp hmem

/-- The absolute path of a directory resolves to it. -/
lemma DirTree.resolve (h : DirTree A D up label) (ht : Trail up label i W) (hD : D i) :
    A.resolve ROOTINO (absolute W) = some i := by
  have hwords := h.words ht hD
  have hcomp : components (absolute W) = W := by
    unfold components absolute
    by_cases hnil : W = []
    · rw [if_pos hnil, hnil, words_sep_cons, words_nil]
      rfl
    · rw [if_neg hnil, words_flatMap fun w hw => ⟨(hwords w hw).1, (hwords w hw).2.1⟩]
      exact (List.map_congr_left fun w hw => List.take_of_length_le (hwords w hw).2.2.1).trans
        (List.map_id' W)
  unfold Nodes.resolve
  rw [hcomp]
  exact h.lookups ht hD

/-! ## What `strlen` finds -/

/-- The name that is copied for an entry with the given name. -/
def shown (stack name : List UInt8) : List UInt8 :=
  if name.length < DIRSIZ then name else name ++ stack.takeWhile (· ≠ 0)

/-- The name that `strlen` sees in an entry. -/
lemma strName_entryBytes (f : ℕ → UInt8) (k : ℕ) :
    strName (entryBytes f k) stack = shown stack (direntName f k) := by
  have hdrop : (entryBytes f k).drop 2 = (List.range DIRSIZ).map fun j => f (DIRENTSIZE * k + 2 + j) := by
    apply List.ext_getElem
    · rw [List.length_drop]
      unfold entryBytes
      rw [List.length_map, List.length_map, List.length_range, List.length_range]
      rfl
    · intro j hj hj'
      rw [List.getElem_drop]
      unfold entryBytes
      rw [List.getElem_map, List.getElem_map, List.getElem_range, List.getElem_range, Nat.add_assoc]
  have hlen : ((List.range DIRSIZ).map fun j => f (DIRENTSIZE * k + 2 + j)).length = DIRSIZ := by
    rw [List.length_map, List.length_range]
  unfold strName shown direntName
  rw [hdrop, List.takeWhile_append, hlen]
  set bytes := (List.range DIRSIZ).map fun j => f (DIRENTSIZE * k + 2 + j) with hbytes
  by_cases hall : (bytes.takeWhile (· ≠ 0)).length = DIRSIZ
  · -- there is no NUL in the entry
    have hself : bytes.takeWhile (· ≠ 0) = bytes :=
      (List.takeWhile_prefix _).eq_of_length (hall.trans hlen.symm)
    rw [if_pos hall, if_neg (by omega), hself]
  · have hle := (List.takeWhile_prefix (fun b : UInt8 => decide (b ≠ 0)) (l := bytes)).length_le
    rw [if_neg hall, if_pos (by omega)]

/-- What `getcwd` copies of a name is at least the name. -/
lemma length_le_shown : name.length ≤ (shown stack name).length := by
  unfold shown
  split
  · exact Nat.le_refl _
  · rw [List.length_append]
    exact Nat.le_add_right _ _

/-- The path that the loop puts together. -/
def rendered (stack : List UInt8) (W : List (List UInt8)) : List UInt8 :=
  W.flatMap fun w => slash :: shown stack w

/-- The path grows at the front, by a name and a slash. -/
lemma rendered_concat (w : List UInt8) :
    rendered stack (W ++ [w]) ++ path = rendered stack W ++ (slash :: shown stack w ++ path) := by
  unfold rendered
  rw [List.flatMap_append, List.flatMap_singleton, List.append_assoc]

/-- The loop over the entries of the parent finds the first one that names the inode. -/
theorem exec_findInum {s : State} {ip inum n k m : ℕ} (htype : (s.icache ip).din.type ≠ T_DEV)
    (hsize : (s.icache ip).din.size < 2 ^ 32) (hin : DIRENTSIZE * (m + 1) ≤ (s.icache ip).din.size)
    (hall : ∀ j, j ≤ m → s.HasBlock ip (DIRENTSIZE * j / BSIZE)) (hm : (s.cached ip).inum m = inum)
    (hfirst : ∀ j < m, (s.cached ip).inum j ≠ inum) (hkm : k ≤ m) (hmn : m < k + n) :
    Prog.exec (findInum ip inum n (DIRENTSIZE * k)) s
      = .done (some (entryBytes (s.cached ip).data m)) s := by
  have hS : DIRENTSIZE = 16 := rfl
  induction n generalizing k with
  | zero => omega
  | succ n ih =>
    have hend : DIRENTSIZE * (k + 1) ≤ (s.icache ip).din.size := by
      rw [hS] at hin ⊢
      omega
    have hread := exec_readi_entry htype hend (by omega) (hall k hkm)
    have hnext : DIRENTSIZE * k + DIRENTSIZE = DIRENTSIZE * (k + 1) := (Nat.mul_succ _ _).symm
    rw [findInum, exec_seq hread]
    dsimp only
    rw [if_neg (not_not.mpr (length_entryBytes _ _)), deInum_entryBytes, hnext]
    show Prog.exec (if (s.cached ip).inum k = inum then _ else _) s = _
    by_cases hk : k = m
    · subst hk
      rw [if_pos hm]
      rfl
    · rw [if_neg (hfirst k (by omega))]
      exact ih (by omega) (by omega)

/-! ## The loop -/

section
variable {s k : State} {p cur fuel : ℕ}

/-- The entry of a directory in its parent, which the call has locked. -/
theorem findInum_ends {H : List Held} {L : List ℕ} {E : Panic → Prop} (hs : Sound s)
    (htree : DirTree s.nodes D up label) (hD : D i) (hne : i ≠ ROOTINO) {parent : ℕ}
    (h : Steady s k H L) (ha : ⟨parent, up i, false⟩ ∈ H) (hL : parent ∈ L) :
    Prog.Ends E (findInum parent i (nentries (k.icache parent).din.size) 0)
      (fun r t => t = k ∧ ∃ de, r = some de ∧ strName de stack = shown stack (label i)) k := by
  obtain ⟨m, hhas, hinum, hname, honly⟩ := htree.entry i hD hne
  have hcached := h.cached_eq ha hL
  rw [← hcached] at hhas hinum hname honly
  have hin : DIRENTSIZE * (m + 1) ≤ (k.icache parent).din.size := hhas.1
  have hdir : (k.icache parent).din.type = T_DIR := by
    have htype := htree.type _ (htree.closed i hD)
    rw [← hcached] at htype
    exact htype
  have hlt : m < 0 + nentries (k.icache parent).din.size := by
    rw [Nat.zero_add]
    exact hhas.lt_nentries
  have hblocks : ∀ j, j ≤ m → k.HasBlock parent (DIRENTSIZE * j / BSIZE) := by
    intro j hj
    apply h.hasBlock hs ha hL
    have hS : DIRENTSIZE = 16 := rfl
    rw [hS] at hin ⊢
    omega
  have hfirst : ∀ j < m, (k.cached parent).inum j ≠ i := by
    intro j hj heq
    have hne0 : (k.cached parent).inum j ≠ 0 := by
      rw [heq, ← hinum]
      exact hhas.2
    have hle := Nat.mul_le_mul_left DIRENTSIZE (Nat.succ_le_succ hj.le)
    have hsame := honly j ⟨hle.trans hin, hne0⟩ heq
    omega
  have hexec := exec_findInum (by rw [hdir]; decide) (h.size_lt hs ha hL) hin hblocks hinum hfirst
    (Nat.zero_le m) hlt
  rw [Nat.mul_zero] at hexec
  unfold Prog.Ends
  rw [hexec]
  exact ⟨rfl, _, rfl, (strName_entryBytes _ _).trans (congrArg _ hname)⟩

/-- The first half of a round: the call comes to the directory above, and has it locked. -/
theorem getcwdLoop_round (hs : Sound s) (htree : DirTree s.nodes D up label)
    (hD : D i) (h : Steady s k [⟨cur, i, false⟩] []) {Q : Option (List UInt8) → State → Prop}
    (hrest : ∀ parent t, Steady s t [⟨parent, up i, false⟩, ⟨cur, i, false⟩] [parent] →
      Prog.Ends (Crowded s) (do
        let x ← get fun s => s.icache parent
        if i = x.inum then
          iunlock parent
          iput parent
          iput cur
          return some path
        else
          let de ← findInum parent i (nentries x.din.size) 0
          iunlock parent
          match de with
          | none => getcwdFail parent cur
          | some de =>
            if TMPLEN - path.length < (strName de stack).length + 1 then getcwdFail parent cur
            else
              iput cur
              getcwdLoop p stack fuel parent (slash :: strName de stack ++ path)) Q t) :
    Prog.Ends (Crowded s) (getcwdLoop p stack (fuel + 1) cur path) Q k := by
  have htype := htree.type i hD
  have hup := htree.type _ (htree.closed i hD)
  -- a directory of the tree is allocated on the disk
  have hnode : ∀ j, (s.nodes j).type = T_DIR → (s.inodes j).type ≠ 0 := by
    intro j hj h0
    have hlt : j < s.sb.ninodes := by
      by_contra hge
      unfold State.nodes at hj
      rw [if_neg hge] at hj
      exact absurd hj (by decide)
    rw [hs.image.type hlt, h0] at hj
    exact absurd hj (by decide)
  rw [getcwdLoop, Prog.ends_bind]
  apply (h.ilock_ends (.head _) nofun fun h0 => absurd h0 (hnode i htype)).mono fun _ he => he
  intro _ k₁ h₁
  rw [ends_get, (h₁.held (.head _)).2.1, Prog.ends_bind]
  obtain ⟨m, hfind, hinum⟩ := htree.dotdot i hD
  apply (h₁.dirlookup_ends hs (.head _) (.head _) htype fun hall =>
    ⟨rfl, card_freeEntries_le hall⟩).mono fun _ he => he
  rintro r k₂ (⟨-, -, hnone⟩ | ⟨j, parent, hj, rfl, h₂⟩)
  · rw [hfind] at hnone
    exact nomatch hnone
  rw [hfind] at hj
  obtain rfl := Option.some.inj hj
  -- the parent is held, and `cur` unlocked
  rw [hinum] at h₂
  rw [Prog.ends_bind]
  apply (h₂.iunlock_ends (.tail _ (.head _)) nofun).mono fun _ he => he
  intro _ k₃ h₃
  dsimp only
  rw [Prog.ends_bind]
  apply (h₃.ilock_ends (.head _) nofun fun h0 => absurd h0 (hnode _ hup)).mono fun _ he => he
  intro _ k₄ h₄
  exact hrest parent k₄ h₄

/-- Both references are given back. -/
lemma putBoth_ends {E : Panic → Prop} {parent j : ℕ} {r : Option (List UInt8)}
    (hsettled : Settled s) (h : Steady s k [⟨parent, j, false⟩, ⟨cur, i, false⟩] []) :
    Prog.Ends E (do iput parent; iput cur; return r) (fun r' t => Steady s t [] [] ∧ r' = r) k := by
  rw [Prog.ends_bind]
  apply (h.iput_ends ((hsettled.anchored []).kept h nofun) nofun).mono fun _ he => he
  intro _ k₁ h₁
  rw [Prog.ends_bind]
  apply (h₁.iput_ends ((hsettled.anchored []).kept h₁ nofun) nofun).mono fun _ he => he
  exact fun _ t ht => ⟨ht, rfl⟩

/-- The loop puts the names of the way up in front of the path. The induction is on that way. -/
theorem getcwdLoop_ends (hsettled : Settled s) (hs : Sound s) (htree : DirTree s.nodes D up label)
    (ht : Trail up label i W) (hD : D i) (h : Steady s k [⟨cur, i, false⟩] [])
    (hfuel : TMPLEN - path.length < fuel) (hlen : path.length ≤ TMPLEN) :
    Prog.Ends (Crowded s) (getcwdLoop p stack fuel cur path) (fun r t => Steady s t [] [] ∧
      r = if (rendered stack W ++ path).length ≤ TMPLEN then some (rendered stack W ++ path) else none)
      k := by
  induction ht generalizing k cur fuel path with
  | root =>
    obtain ⟨fuel, rfl⟩ := Nat.exists_eq_succ_of_ne_zero (show fuel ≠ 0 by omega)
    apply getcwdLoop_round hs htree hD h
    intro parent t h₁
    rw [ends_get, (h₁.held (.head _)).2.1, if_pos htree.root.symm, Prog.ends_bind]
    apply (h₁.iunlock_ends (.head _) nofun).mono fun _ he => he
    intro _ u h₂
    apply (putBoth_ends hsettled h₂).mono fun _ he => he
    rintro r v ⟨hv, rfl⟩
    exact ⟨hv, (if_pos hlen).symm⟩
  | @child j V hne ht ih =>
    obtain ⟨fuel, rfl⟩ := Nat.exists_eq_succ_of_ne_zero (show fuel ≠ 0 by omega)
    apply getcwdLoop_round hs htree hD h
    intro parent t h₁
    have hup := (Trail.child hne ht).up_ne hne
    rw [ends_get, (h₁.held (.head _)).2.1, if_neg hup.symm, Prog.ends_bind]
    apply (findInum_ends hs htree hD hne h₁ (.head _) (.head _)).mono fun _ he => he
    rintro _ _ ⟨rfl, de, rfl, hname⟩
    rw [Prog.ends_bind]
    apply (h₁.iunlock_ends (.head _) nofun).mono fun _ he => he
    intro _ u h₂
    dsimp only
    rw [hname, rendered_concat]
    by_cases hfull : TMPLEN - path.length < (shown stack (label j)).length + 1
    · rw [if_pos hfull]
      apply (putBoth_ends hsettled h₂).mono fun _ he => he
      rintro r v ⟨hv, rfl⟩
      refine ⟨hv, (if_neg ?_).symm⟩
      simp only [List.length_append, List.length_cons]
      omega
    · rw [if_neg hfull, Prog.ends_bind]
      have h₃ := h₂.swap
      apply (h₃.iput_ends ((hsettled.anchored []).kept h₃ nofun) nofun).mono fun _ he => he
      intro _ v h₄
      apply ih (htree.closed _ hD) h₄
      · simp only [List.length_append, List.length_cons]
        omega
      · simp only [List.length_append, List.length_cons]
        omega

/-! ## The answer -/

/-- `getcwd` answers with the rendered names from the root, if they fit, and fails otherwise. -/
lemma getcwd_ends (hsettled : Settled s) (hs : Sound s) (htree : DirTree s.nodes D up label)
    (hcwd : HasCwd s p) (ht : Trail up label (s.icache (s.proc p).cwd).inum W)
    (hD : D (s.icache (s.proc p).cwd).inum) (size : ℤ) :
    Prog.Ends (Crowded s) (sys_getcwd p (some size) stack) (fun r t => Steady s t [] [] ∧
      r = if (rendered stack W).length ≤ TMPLEN then getcwdResult size (rendered stack W) else failed)
      s := by
  unfold sys_getcwd
  rw [ends_get, Prog.ends_bind]
  apply (Steady.idup_ends hsettled hcwd.1 hcwd.2 rfl).mono fun _ he => he
  rintro _ k ⟨rfl, h⟩
  rw [Prog.ends_bind]
  have hloop : Prog.Ends (Crowded s) (getcwdLoop p stack (TMPLEN + 1) (s.proc p).cwd []) _ k :=
    getcwdLoop_ends hsettled hs htree ht hD h (Nat.lt_succ_of_le (Nat.sub_le _ _)) (Nat.zero_le _)
  apply hloop.mono fun _ he => he
  rintro r t ⟨hsteady, rfl⟩
  rw [List.append_nil]
  by_cases hlen : (rendered stack W).length ≤ TMPLEN
  · rw [if_pos hlen, if_pos hlen]
    exact ⟨hsteady, rfl⟩
  · rw [if_neg hlen, if_neg hlen]
    exact ⟨hsteady, rfl⟩

/-- Names with a zero behind them are copied as they are. -/
lemma rendered_of_short (h : ∀ w ∈ W, w.length < DIRSIZ) :
    rendered stack W = W.flatMap (slash :: ·) := by
  apply List.flatMap_congr
  intro w hw
  unfold shown
  rw [if_pos (h w hw)]

/-- What `getcwd` renders is at least as long as the path. -/
lemma length_le_rendered : (W.flatMap (slash :: ·)).length ≤ (rendered stack W).length := by
  induction W with
  | nil => exact Nat.le_refl _
  | cons w W ih =>
    have hw : w.length ≤ (shown stack w).length := length_le_shown
    unfold rendered at ih ⊢
    simp only [List.flatMap_cons, List.length_append, List.length_cons]
    omega

/-- Each name is a part of what is rendered. -/
lemma shown_le_rendered {w : List UInt8} (hw : w ∈ W) :
    (shown stack w).length ≤ (rendered stack W).length := by
  induction W with
  | nil => exact nomatch hw
  | cons v W ih =>
    unfold rendered at ih ⊢
    simp only [List.flatMap_cons, List.length_append, List.length_cons]
    rcases List.mem_cons.mp hw with rfl | hmem
    · omega
    · have := ih hmem
      omega

/-- The path in the buffer, when all names have their NUL. -/
lemma answers_of_fits (htree : DirTree A D up label) (ht : Trail up label i W) (hD : D i)
    {size : ℤ} (hsize : (absolute W).length + 1 ≤ size) :
    Answers A i size W (getcwdResult size (W.flatMap (slash :: ·))) := by
  have hwords := htree.words ht hD
  have hresult : (if W.flatMap (slash :: ·) = [] then [slash] else W.flatMap (slash :: ·)) = absolute W := by
    unfold absolute
    cases W with
    | nil => rfl
    | cons w W =>
      rw [if_neg (List.cons_ne_nil w W), if_neg]
      exact List.cons_ne_nil _ _
  -- no name has a NUL
  have hzero : ∀ b ∈ absolute W, decide (b ≠ 0) = true := by
    intro b hb
    rw [decide_eq_true_iff]
    rintro rfl
    unfold absolute at hb
    split at hb
    · exact absurd hb (by decide)
    · obtain ⟨w, hw, hmem⟩ := List.mem_flatMap.mp hb
      rcases List.mem_cons.mp hmem with h0 | hmem
      · exact absurd h0 (by decide)
      · exact (hwords w hw).2.2.2 hmem
  have hcut : ∀ n, (absolute W ++ List.replicate n 0).takeWhile (· ≠ 0) = absolute W := by
    intro n
    rw [List.takeWhile_append_of_pos hzero]
    cases n with
    | zero => exact List.append_nil _
    | succ n => simp [List.replicate_succ]
  unfold getcwdResult
  dsimp only
  rw [hresult, if_neg (by omega)]
  refine .inl ⟨rfl, ?_, ?_, ?_, ?_, ?_⟩
  · rw [List.length_append, List.length_replicate]
    omega
  · rw [List.mem_append, List.mem_replicate]
    exact .inr ⟨by omega, rfl⟩
  · unfold absolute
    cases W with
    | nil => rfl
    | cons w W => rfl
  · rw [hcut]
    exact htree.resolve ht hD
  · intro hroot
    subst hroot
    rw [hcut, ht.unique .root]
    rfl

/-- A path that does not fit is refused, whatever the names bring with them. -/
theorem failed_of_not_fits {size : ℤ} (hfits : ¬ FitsBuffer size W) :
    (if (rendered stack W).length ≤ TMPLEN then getcwdResult size (rendered stack W) else failed)
      = failed := by
  by_cases hlen : (rendered stack W).length ≤ TMPLEN
  · rw [if_pos hlen]
    have hle : (W.flatMap (slash :: ·)).length ≤ (rendered stack W).length := length_le_rendered
    have habs : (absolute W).length ≤ TMPLEN ∧ (absolute W).length ≤
        (if rendered stack W = [] then [slash] else rendered stack W).length := by
      unfold absolute
      cases W with
      | nil => exact ⟨by decide, Nat.le_refl _⟩
      | cons w W =>
        rw [if_neg (List.cons_ne_nil w W), if_neg (show rendered stack (w :: W) ≠ [] from List.cons_ne_nil _ _)]
        exact ⟨hle.trans hlen, hle⟩
    have hsize : ¬ ((absolute W).length + 1 : ℤ) ≤ size := fun hsize => hfits ⟨habs.1, hsize⟩
    unfold getcwdResult
    dsimp only
    rw [if_pos (by omega)]
  · rw [if_neg hlen]

/-- A name of `DIRSIZ` bytes on the way, and more bytes behind the entry than `tmp` has. -/
theorem not_inverts_of_long (hsettled : Settled s) (hs : Sound s)
    (htree : DirTree s.nodes D up label) (hcwd : HasCwd s p) (hroom : 1 < s.freeEntries.card)
    (ht : Trail up label (s.icache (s.proc p).cwd).inum W)
    (hD : D (s.icache (s.proc p).cwd).inum) {size : ℤ} {w : List UInt8} (hw : w ∈ W)
    (hlen : DIRSIZ ≤ w.length) (hfits : FitsBuffer size W) :
    ¬ Inverts s p size W (List.replicate 512 120) := by
  intro hinv
  set stack : List UInt8 := List.replicate 512 120 with hstack
  have hends : Prog.Ends (Crowded s) (sys_getcwd p (some size) stack) _ s :=
    getcwd_ends hsettled hs htree hcwd ht hD size
  have hshown : TMPLEN < (shown stack w).length := by
    have htake : stack.takeWhile (· ≠ 0) = stack := by
      rw [List.takeWhile_eq_self_iff]
      intro b hb
      rw [hstack, List.mem_replicate] at hb
      rw [hb.2]
      decide
    unfold shown
    rw [if_neg (by omega), htake, List.length_append, hstack, List.length_replicate]
    have hT : TMPLEN = 511 := rfl
    omega
  obtain ⟨r, t, hexec, -, hr⟩ := hends.returns fun e he => absurd he.2 (by omega)
  have hle : (shown stack w).length ≤ (rendered stack W).length := shown_le_rendered hw
  rw [if_neg (by omega)] at hr
  obtain ⟨-, hans⟩ := hinv.of_done hexec
  rcases hans with ⟨h0, -⟩ | ⟨-, hnot⟩
  · rw [hr] at h0
    exact absurd h0 (by decide)
  · exact hnot hfits

/-- `getcwd` is right whatever lies on the stack if and only if no name on the way has `DIRSIZ` bytes,
or the path does not fit anyway. -/
theorem getcwd_inverts_iff (hsettled : Settled s) (hs : Sound s)
    (htree : DirTree s.nodes D up label) (hcwd : HasCwd s p) (hroom : 1 < s.freeEntries.card)
    (ht : Trail up label (s.icache (s.proc p).cwd).inum W)
    (hD : D (s.icache (s.proc p).cwd).inum) (size : ℤ) :
    (∀ stack, Inverts s p size W stack) ↔
      (∀ w ∈ W, w.length < DIRSIZ) ∨ ¬ FitsBuffer size W := by
  constructor
  · intro hinv
    by_contra hnot
    rw [not_or, not_not] at hnot
    obtain ⟨hlong, hfits⟩ := hnot
    push Not at hlong
    obtain ⟨w, hw, hlen⟩ := hlong
    exact not_inverts_of_long hsettled hs htree hcwd hroom ht hD hw hlen hfits (hinv _)
  · intro hcond stack
    apply (getcwd_ends hsettled hs htree hcwd ht hD size).mono fun _ he => he
    rintro r t ⟨hsteady, rfl⟩
    refine ⟨hsteady, ?_⟩
    by_cases hfits : FitsBuffer size W
    · have hshort := hcond.resolve_right (not_not.mpr hfits)
      have hlen : (W.flatMap (slash :: ·)).length ≤ TMPLEN := by
        obtain ⟨hle, -⟩ := hfits
        unfold absolute at hle
        split at hle
        · next hnil =>
          rw [hnil]
          exact Nat.zero_le _
        · exact hle
      rw [rendered_of_short hshort, if_pos hlen]
      exact answers_of_fits htree ht hD hfits.2
    · rw [failed_of_not_fits hfits]
      exact .inr ⟨rfl, hfits⟩

end

end

/-! ## A disk with one directory

Inode 2 is a directory in the root, and the current directory of process 1. -/

/-- The root directory of the example. -/
def topInode : Dinode :=
  { Dinode.zero with type := T_DIR, nlink := 2, size := 48, addrs := oneAddr 59 }

/-- The directory in the root. -/
def subInode : Dinode :=
  { Dinode.zero with type := T_DIR, nlink := 1, size := 32, addrs := oneAddr 60 }

/-- The entries of the root directory. -/
def topEntries (name : List UInt8) : List (List UInt8 × ℕ) := [(dot, 1), (dotdot, 1), (name, 2)]

/-- The entries of the directory in the root. -/
def subEntries : List (List UInt8 × ℕ) := [(dot, 2), (dotdot, 1)]

/-- The blocks of the example, but for the inodes. -/
def oneDirBase (name : List UInt8) : Disk := fun b =>
  if b = 1 then oneFileSb.byte
  else if b = 58 then (List.range 61).foldl setBit zeroBlock
  else if b = 59 then Bytes.ofList (dirBytes (topEntries name))
  else if b = 60 then Bytes.ofList (dirBytes subEntries)
  else zeroBlock

/-- A file system with one directory in the root, which is the current one of process 0. -/
def oneDir (name : List UInt8) : State where
  sb := oneFileSb
  disk := twoDisk oneFileSb (oneDirBase name) topInode subInode
  icache := twoCache topInode subInode
  ftable := fun _ => ⟨.FD_NONE, 0, false, false, 0, 0, 0⟩
  proc := fun _ => ⟨true, fun _ => none, 0⟩
  pipe := fun _ => none
  outstanding := 0
  lh := []
  inOp := []

section
variable {name : List UInt8}

/-- The disk of the example is one with two inodes. -/
lemma twoFiles_oneDir (name : List UInt8) :
    TwoFiles oneFileSb (oneDirBase name) topInode subInode 60 := by
  have hz := Dinode.fits_zero
  have hfits : ∀ a < 2 ^ 32, ∀ k, oneAddr a k < 2 ^ 32 := by
    intro a ha k
    unfold oneAddr
    split
    · exact ha
    · decide
  have hblock : oneDirBase name 1 = oneFileBase 1 := if_pos rfl
  refine ⟨geometry_oneFile, by decide, hblock ▸ twoFiles_oneFile.super, fun i hi => ?_,
    fun c hc => ?_, by decide, .inr (by decide), ⟨rfl, rfl⟩, ⟨by decide, by decide⟩, ⟨by decide, by decide⟩,
    ⟨by decide, by decide, fun h => absurd h (by decide)⟩,
    ⟨by decide, hz.major, hz.minor, by decide, by decide, hfits 59 (by decide)⟩,
    by decide, hz.major, hz.minor, by decide, by decide, hfits 60 (by decide)⟩
  · have hblock : IBLOCK oneFileSb i = i / 8 + 32 := rfl
    have hlt : i < 200 := hi
    unfold oneDirBase
    rw [hblock, if_neg (by omega), if_neg (by omega), if_neg (by omega), if_neg (by omega)]
  · have hlt : c < 2000 := hc
    have hblock : BBLOCK oneFileSb c = 58 := by
      show c / 4096 + 58 = 58
      omega
    unfold bit
    rw [hblock]
    show testBit ((List.range 61).foldl setBit zeroBlock) (c % 4096) = _
    rw [testBit_foldl_setBit, Nat.mod_eq_of_lt (by omega), decide_eq_decide]
    show c < 61 ↔ c ≤ 59 ∨ c = 60
    omega

lemma nodes_oneDir (name : List UInt8) :
    (oneDir name).nodes = twoNodes oneFileSb (oneDirBase name) topInode subInode :=
  (twoFiles_oneDir name).nodes rfl rfl

/-- The root directory of the example. -/
lemma node_top (name : List UInt8) :
    (oneDir name).nodes 1 = ⟨T_DIR, 0, 0, 2, 48, Bytes.ofList (dirBytes (topEntries name))⟩ := by
  have h := twoFiles_oneDir name
  have hdata : fileByte (oneDir name).disk topInode = Bytes.ofList (dirBytes (topEntries name)) := by
    apply fileByte_dirBytes h.addrs.1 (by decide)
    · exact h.disk_of_ne (.inr (show 58 ≤ 59 by decide))
    · exact (by decide : 48 ≤ BSIZE)
  rw [nodes_oneDir, ← hdata]
  rfl

lemma node_sub (name : List UInt8) :
    (oneDir name).nodes 2 = ⟨T_DIR, 0, 0, 1, 32, Bytes.ofList (dirBytes subEntries)⟩ := by
  have h := twoFiles_oneDir name
  have hdata : fileByte (oneDir name).disk subInode = Bytes.ofList (dirBytes subEntries) := by
    apply fileByte_dirBytes h.addrs.2 (by decide)
    · exact h.disk_of_ne (.inr (show 58 ≤ 60 by decide))
    · decide
  rw [nodes_oneDir, ← hdata]
  rfl

/-- The entries of the root directory. -/
lemma entry_top (hname : NameOk name) (m : ℕ) :
    (m = 0 ∧ ((oneDir name).nodes 1).inum m = 1 ∧ ((oneDir name).nodes 1).name m = dot) ∨
    (m = 1 ∧ ((oneDir name).nodes 1).inum m = 1 ∧ ((oneDir name).nodes 1).name m = dotdot) ∨
    (m = 2 ∧ ((oneDir name).nodes 1).inum m = 2 ∧ ((oneDir name).nodes 1).name m = name) ∨
    (3 ≤ m ∧ ((oneDir name).nodes 1).inum m = 0) := by
  rw [node_top]
  by_cases hm : 3 ≤ m
  · exact .inr (.inr (.inr ⟨hm, direntInum_dirBytes_of_le hm⟩))
  · have hcases : m = 0 ∨ m = 1 ∨ m = 2 := by omega
    rcases hcases with rfl | rfl | rfl
    · exact .inl ⟨rfl, dirent_dirBytes (show 0 < 3 by decide) (show 1 < 2 ^ 16 by decide)
        (show NameOk dot from ⟨by decide, by decide⟩)⟩
    · exact .inr (.inl ⟨rfl, dirent_dirBytes (show 1 < 3 by decide) (show 1 < 2 ^ 16 by decide)
        (show NameOk dotdot from ⟨by decide, by decide⟩)⟩)
    · exact .inr (.inr (.inl ⟨rfl, dirent_dirBytes (show 2 < 3 by decide) (show 2 < 2 ^ 16 by decide)
        hname⟩))

/-- The entries of the directory in the root. -/
lemma entry_sub (name : List UInt8) (m : ℕ) :
    (m = 0 ∧ ((oneDir name).nodes 2).inum m = 2 ∧ ((oneDir name).nodes 2).name m = dot) ∨
    (m = 1 ∧ ((oneDir name).nodes 2).inum m = 1 ∧ ((oneDir name).nodes 2).name m = dotdot) ∨
    (2 ≤ m ∧ ((oneDir name).nodes 2).inum m = 0) := by
  rw [node_sub]
  by_cases hm : 2 ≤ m
  · exact .inr (.inr ⟨hm, direntInum_dirBytes_of_le hm⟩)
  · have hcases : m = 0 ∨ m = 1 := by omega
    rcases hcases with rfl | rfl
    · exact .inl ⟨rfl, dirent_dirBytes (show 0 < 2 by decide) (show 2 < 2 ^ 16 by decide)
        (show NameOk dot from ⟨by decide, by decide⟩)⟩
    · exact .inr (.inl ⟨rfl, dirent_dirBytes (show 1 < 2 by decide) (show 1 < 2 ^ 16 by decide)
        (show NameOk dotdot from ⟨by decide, by decide⟩)⟩)

/-- These are the only directories. -/
lemma dir_oneDir {i : ℕ} (h : ((oneDir name).nodes i).type = T_DIR) : i = 1 ∨ i = 2 := by
  rw [nodes_oneDir] at h
  refine TwoFiles.eq_of_live ((twoFiles_oneDir name).image.live_iff.mpr ?_).2
  rw [h]
  decide

/-- The example is a sound file system. -/
lemma sound_oneDir (hname : NameOk name) : Sound (oneDir name) := by
  have h := twoFiles_oneDir name
  constructor
  · rw [nodes_oneDir]
    exact h.image.congr fun i hi => h.dinode hi
  · intro i hdir
    rcases dir_oneDir hdir with rfl | rfl
    · rw [node_top]
      exact (by decide : DIRENTSIZE ∣ 48)
    · rw [node_sub]
      exact (by decide : DIRENTSIZE ∣ 32)
  · intro i hdir m hm
    show _ < 200
    rcases dir_oneDir hdir with rfl | rfl
    · rcases entry_top hname m with ⟨-, hi, -⟩ | ⟨-, hi, -⟩ | ⟨-, hi, -⟩ | ⟨-, hi⟩ <;> omega
    · rcases entry_sub name m with ⟨-, hi, -⟩ | ⟨-, hi, -⟩ | ⟨-, hi⟩ <;> omega

/-- `..` is the second entry. -/
lemma find_dotdot {x : Node} (hlen : 1 < nentries x.size) (h0 : x.name 0 = dot)
    (h1 : x.name 1 = dotdot) (hi : x.inum 1 ≠ 0) : x.find dotdot = some 1 := by
  apply Node.findFrom_first (Nat.zero_le 1)
  · rw [Nat.zero_add]
    exact hlen
  · refine ⟨hi, ?_⟩
    rw [h1]
    decide
  · intro j hj hmatch
    obtain rfl : j = 0 := by omega
    have hname := hmatch.2
    rw [h0] at hname
    exact absurd hname (by decide)

lemma dirTree_oneDir (hname : NameOk name) (hnil : name ≠ []) (hslash : slash ∉ name)
    (hdot : name ≠ dot) (hdotdot : name ≠ dotdot) :
    DirTree (oneDir name).nodes (fun i => i = 1 ∨ i = 2) (fun _ => 1) fun _ => name := by
  have htop := entry_top hname
  have hsub := entry_sub name
  have hdots : dot ≠ dotdot := by decide
  have hsize : ((oneDir name).nodes 1).size = 48 ∧ ((oneDir name).nodes 2).size = 32 := by
    rw [node_top, node_sub]
    exact ⟨rfl, rfl⟩
  constructor
  · rintro i (rfl | rfl)
    · rw [node_top]
    · rw [node_sub]
  · exact fun _ _ => .inl rfl
  · rfl
  · rintro i (rfl | rfl)
    · have h0 := htop 0
      have h1 := htop 1
      simp only [Nat.reduceLeDiff, false_and, or_false, true_and, zero_ne_one, one_ne_zero,
        false_or, OfNat.zero_ne_ofNat, OfNat.one_ne_ofNat, Nat.not_ofNat_le_one] at h0 h1
      refine ⟨1, find_dotdot ?_ h0.2 h1.2 (by omega), h1.1⟩
      rw [hsize.1]
      decide
    · have h0 := hsub 0
      have h1 := hsub 1
      simp only [Nat.reduceLeDiff, false_and, or_false, true_and, zero_ne_one, one_ne_zero,
        false_or, Nat.not_ofNat_le_one] at h0 h1
      refine ⟨1, find_dotdot ?_ h0.2 h1.2 (by omega), h1.1⟩
      rw [hsize.2]
      decide
  -- the parent of the root needs no entry; the one directory below stands in slot 2
  · rintro i (rfl | rfl) hne
    · exact absurd rfl hne
    · have h2 := htop 2
      simp only [Nat.reduceLeDiff, false_and, or_false, true_and, false_or, OfNat.ofNat_ne_zero,
        OfNat.ofNat_ne_one] at h2
      refine ⟨2, ⟨?_, by omega⟩, h2.1, h2.2, ?_⟩
      · rw [hsize.1]
        decide
      · intro j _ hj
        rcases htop j with ⟨-, hi, -⟩ | ⟨-, hi, -⟩ | ⟨hj2, -, -⟩ | ⟨-, hi⟩ <;> omega
  -- no two entries share a number
  · rintro i (rfl | rfl) m j hm hj hsame
    · have hpos := hm.2
      have hpos' := hj.2
      rcases htop m with ⟨rfl, hi, hn⟩ | ⟨rfl, hi, hn⟩ | ⟨rfl, hi, hn⟩ | ⟨-, hi⟩ <;>
        rcases htop j with ⟨rfl, hi', hn'⟩ | ⟨rfl, hi', hn'⟩ | ⟨rfl, hi', hn'⟩ | ⟨-, hi'⟩ <;>
        grind
    · have hpos := hm.2
      have hpos' := hj.2
      rcases hsub m with ⟨rfl, hi, hn⟩ | ⟨rfl, hi, hn⟩ | ⟨-, hi⟩ <;>
        rcases hsub j with ⟨rfl, hi', hn'⟩ | ⟨rfl, hi', hn'⟩ | ⟨-, hi'⟩ <;> grind
  · exact fun _ _ _ => ⟨hnil, hslash⟩

/-- A directory whose name has fourteen bytes, all of them `a`. -/
def longName : List UInt8 := List.replicate DIRSIZ 97

/-- The one name leads from the root to the directory. -/
lemma trail_oneDir (name : List UInt8) : Trail (fun _ => 1) (fun _ => name) 2 [name] := by
  show Trail (fun _ => 1) (fun _ => name) 2 ([] ++ [name])
  exact .child (by decide) .root

/-- The inode cache of the example has room. -/
lemma room_oneDir (name : List UInt8) : 1 < (oneDir name).freeEntries.card := room_twoCache rfl

/-- The directory `/f`, and a buffer of 3 bytes. -/
theorem getcwd_inverts_oneDir :
    (∀ stack, Inverts (oneDir [102]) 1 3 [[102]] stack) ↔
      (∀ w ∈ ([[102]] : List (List UInt8)), w.length < DIRSIZ) ∨ ¬ FitsBuffer 3 [[102]] :=
  getcwd_inverts_iff ((twoFiles_oneDir _).settled rfl rfl rfl)
    (sound_oneDir ⟨by decide, by decide⟩)
    (dirTree_oneDir ⟨by decide, by decide⟩ (by decide) (by decide) (by decide) (by decide))
    ⟨by decide, by decide⟩ (room_oneDir _) (trail_oneDir _) (.inr rfl) 3

/-- Nothing is called `x` in the directory. -/
lemma lookup_sub : (oneDir name).nodes.lookup 2 [120] = none := by
  have hfind : ((oneDir name).nodes 2).find [120] = none := by
    cases hf : ((oneDir name).nodes 2).find [120] with
    | none => rfl
    | some m =>
      obtain ⟨-, -, hne, hcmp⟩ := Node.findFrom_some hf
      rcases entry_sub name m with ⟨-, -, hn⟩ | ⟨-, -, hn⟩ | ⟨-, h0⟩
      · rw [hn] at hcmp
        exact absurd hcmp (by decide)
      · rw [hn] at hcmp
        exact absurd hcmp (by decide)
      · exact absurd h0 hne
  unfold Nodes.lookup
  rw [hfind, Option.map_none, ite_self]

/-- In `/aaaaaaaaaaaaaa`, with a buffer of 512 bytes and with `/x` and a NUL behind the entry, `getcwd`
answers `/aaaaaaaaaaaaaa/x`, which does not exist. -/
theorem not_getcwd_inverts_long :
    ¬ ∀ stack, Inverts (oneDir longName) 1 512 [longName] stack := by
  have hok : NameOk longName := ⟨by decide, by decide⟩
  have htree := dirTree_oneDir hok (by decide) (by decide) (by decide) (by decide)
  have hends : Prog.Ends (Crowded (oneDir longName)) (sys_getcwd 1 (some 512) [slash, 120]) _
      (oneDir longName) :=
    getcwd_ends ((twoFiles_oneDir longName).settled rfl rfl rfl) (sound_oneDir hok) htree
      ⟨by decide, by decide⟩ (trail_oneDir longName) (.inr rfl) 512
  have hroom := room_oneDir longName
  obtain ⟨r, t, hexec, -, hr⟩ := hends.returns fun e he => absurd he.2 (by omega)
  have hpath : rendered [slash, 120] [longName] = [longName, [120]].flatMap (slash :: ·) := by decide
  have hresult : getcwdResult 512 ([longName, [120]].flatMap (slash :: ·))
      = (0, [longName, [120]].flatMap (slash :: ·) ++ List.replicate 495 0) := rfl
  rw [hpath, if_pos (by decide), hresult] at hr
  intro hall
  obtain ⟨-, hans⟩ := (hall [slash, 120]).of_done hexec
  rw [hr] at hans
  rcases hans with ⟨-, hnames⟩ | ⟨hfail, -⟩
  · have hresolve := hnames.resolve
    have hclean : ∀ c ∈ [longName, [120]].flatMap (slash :: ·), decide (c ≠ 0) = true := by
      rw [← List.all_eq_true]
      decide
    have hcut : ([longName, [120]].flatMap (slash :: ·) ++ List.replicate 495 0).takeWhile (· ≠ 0)
        = [longName, [120]].flatMap (slash :: ·) := by
      rw [List.takeWhile_append_of_pos hclean, List.replicate_succ,
        List.takeWhile_cons_of_neg (by decide), List.append_nil]
    -- the path of the answer has one component more than the directory's
    have hwords : components ([longName, [120]].flatMap (slash :: ·)) = [longName, [120]] := by
      unfold components
      rw [words_flatMap (by decide)]
      rfl
    have hfirst : (oneDir longName).nodes.lookup ROOTINO longName = some 2 :=
      htree.lookup (show 2 = 1 ∨ 2 = 2 from .inr rfl) (by decide)
    rw [hcut] at hresolve
    unfold Nodes.resolve at hresolve
    rw [hwords, Nodes.lookups_cons, hfirst, Option.bind_some, Nodes.lookups_cons, lookup_sub]
      at hresolve
    exact nomatch hresolve
  · exact absurd (congrArg Prod.fst hfail) (by decide)

end

end Kernel
end OhMyXv6
