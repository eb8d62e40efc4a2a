import OhMyXv6.Kernel.Refs

/-!
# References that the path functions take

Looking up a path takes a reference to each directory on the way and gives it back, and what is found is
one reference more. Here is what each of these functions has taken at each of its exits.
-/

namespace OhMyXv6
namespace Kernel

open Prog

/-! ## Paths -/

/-- The references when a function has answered with a new one, or with none. -/
def taken (H : Multiset ℕ) : Option ℕ → Multiset ℕ
  | none => H
  | some k => k ::ₘ H

section
variable {T : Tables} {tab : ℕ → ℕ} {H L : Multiset ℕ} {p ip dp : ℕ} {name path : List UInt8}

/-- `dirlookup` holds one inode more if it finds the name. -/
lemma spec_dirlookup : Spec T tab H L (dirlookup dp name)
    (fun r => taken H (r.map Prod.fst)) (fun _ => L) := by
  have hloop : ∀ n off, Spec T tab H L (dirlookupLoop dp name n off)
      (fun r => taken H (r.map Prod.fst)) (fun _ => L) := by
    intro n
    induction n with
    | zero => exact fun _ => spec_pure rfl rfl
    | succ n ih =>
      intro off
      apply (keeps_readDirent (by decide) _ _ _ _).bind
      intro de
      split
      · exact ih _
      · split
        · exact Spec.bind spec_iget fun k => spec_pure rfl rfl
        · exact ih _
  apply Spec.bind (keeps_get _ _ _ _)
  intro x
  split
  · exact spec_panic (by decide)
  · exact hloop _ _

/-- `dirlink` gives back what it looks up. -/
lemma keeps_dirlink {inum : ℕ} : Keeps (dirlink dp name inum) := by
  have hloop : ∀ n off, Keeps (dirlinkLoop dp n off) := by
    intro n
    induction n with
    | zero => exact fun _ => keeps_pure
    | succ n ih =>
      intro off
      apply (keeps_readDirent (by decide)).bind
      intro de
      split
      · exact keeps_pure
      · exact ih _
  intro T tab H L
  apply Spec.bind spec_dirlookup
  intro r
  rcases r with _ | ⟨k, off⟩
  · have hwrite : Keeps (do
        let size ← get fun s => (s.icache dp).din.size
        let off ← dirlinkLoop dp (nentries size) 0
        let r ← writei dp (direntBytes inum name) off
        if r = some DIRENTSIZE then return true else panic .dirlink) := by
      apply Keeps.bind keeps_get
      intro size
      apply (hloop _ _).bind
      intro off
      apply Keeps.bind keeps_writei
      intro r
      split
      · exact keeps_pure
      · exact keeps_panic (by decide)
    exact hwrite T tab H L
  · exact Spec.bind spec_iput fun _ => spec_pure rfl rfl

/-- The loop of `namex` holds one inode at a time. -/
lemma spec_namexLoop {parent : Bool} (fuel : ℕ) : ∀ (ip : ℕ) (path : List UInt8),
    path.length < fuel → Spec T tab (ip ::ₘ H) L (namexLoop p parent fuel ip path)
      (fun r => taken H (r.map Prod.fst)) (fun _ => L) := by
  induction fuel with
  | zero => exact fun _ _ h => absurd h (Nat.not_lt_zero _)
  | succ fuel ih =>
    intro ip path hfuel
    unfold namexLoop
    rcases hskip : skipelem path with _ | ⟨name, rest⟩
    · dsimp only
      split
      · exact Spec.bind spec_iput fun _ => spec_pure rfl rfl
      · exact spec_pure rfl rfl
    · have hlen := length_of_skipelem hskip
      apply Spec.bind spec_ilock
      intro _
      apply Spec.bind (keeps_get _ _ _ _)
      intro type
      split
      · exact Spec.bind spec_iunlockput fun _ => spec_pure rfl rfl
      · split
        · exact Spec.bind spec_iunlock fun _ => spec_pure rfl rfl
        · apply Spec.bind spec_dirlookup
          intro r
          rcases r with _ | ⟨next, off⟩
          · exact Spec.bind spec_iunlockput fun _ => spec_pure rfl rfl
          · -- the new reference stands before the old one
            have hput : Spec T tab (next ::ₘ ip ::ₘ H) (ip ::ₘ L) (iunlockput ip)
                (fun _ => next ::ₘ H) (fun _ => L) := by
              rw [Multiset.cons_swap]
              exact spec_iunlockput
            exact hput.bind fun _ => ih next rest (by omega)

/-- `namex` holds the inode that it returns. -/
lemma spec_namex {parent : Bool} : Spec T tab H L (namex p path parent)
    (fun r => taken H (r.map Prod.fst)) (fun _ => L) := by
  have hstart : Spec T tab H L (namexStart p path) (fun k => k ::ₘ H) (fun _ => L) := by
    unfold namexStart
    split
    · exact spec_iget
    · exact Spec.bind (keeps_get _ _ _ _) fun cwd => spec_idup
  exact hstart.bind fun ip => spec_namexLoop _ ip path (Nat.lt_succ_self _)

/-- `namei` holds the inode that it returns. -/
lemma spec_namei : Spec T tab H L (namei p path) (fun r => taken H r) (fun _ => L) :=
  Spec.bind spec_namex fun _ => spec_pure rfl rfl

/-! ## Links -/

/-- `bad:` of `sys_link` puts the inode. -/
lemma spec_linkBad : Spec T tab (ip ::ₘ H) L (linkBad p ip) (fun _ => H) (fun _ => L) :=
  Spec.bind spec_ilock fun _ => Spec.bind (keeps_updateNlink _ _ _ _) fun _ =>
    Spec.bind spec_iunlockput fun _ => Spec.bind (keeps_end_op _ _ _ _) fun _ => spec_pure rfl rfl

/-- The second half of `sys_link` puts the inode and its new parent. -/
lemma spec_linkNew : Spec T tab (ip ::ₘ H) L (linkNew p ip path) (fun _ => H) (fun _ => L) := by
  apply Spec.bind spec_namex
  intro r
  rcases r with _ | ⟨dp, name⟩
  · exact spec_linkBad
  · apply Spec.bind spec_ilock
    intro _
    apply Spec.bind (keeps_get _ _ _ _)
    intro inum
    apply Spec.bind (keeps_dirlink _ _ _ _)
    intro b
    split
    · exact Spec.bind spec_iunlockput fun _ => Spec.bind spec_iput fun _ =>
        Spec.bind (keeps_end_op _ _ _ _) fun _ => spec_pure rfl rfl
    · exact Spec.bind spec_iunlockput fun _ => spec_linkBad

/-- `link` holds nothing afterwards. -/
lemma keeps_sys_link {old new : Option (List UInt8)} : Keeps (sys_link p old new) := by
  intro T tab H L
  rcases old with _ | old
  · exact spec_pure rfl rfl
  · rcases new with _ | new
    · exact spec_pure rfl rfl
    · apply Spec.bind (keeps_begin_op _ _ _ _)
      intro _
      apply Spec.bind spec_namei
      intro r
      rcases r with _ | ip
      · exact Spec.bind (keeps_end_op _ _ _ _) fun _ => spec_pure rfl rfl
      · apply Spec.bind spec_ilock
        intro _
        apply Spec.bind (keeps_get _ _ _ _)
        intro type
        split
        · exact Spec.bind spec_iunlockput fun _ => Spec.bind (keeps_end_op _ _ _ _) fun _ =>
            spec_pure rfl rfl
        · exact Spec.bind (keeps_updateNlink _ _ _ _) fun _ => Spec.bind spec_iunlock fun _ =>
            spec_linkNew

/-- `bad:` of `sys_unlink` unlocks and puts the directory. -/
lemma spec_unlinkBad :
    Spec T tab (dp ::ₘ H) (dp ::ₘ L) (unlinkBad p dp) (fun _ => H) (fun _ => L) :=
  Spec.bind spec_iunlockput fun _ => Spec.bind (keeps_end_op _ _ _ _) fun _ => spec_pure rfl rfl

/-- The entry is cleared, and both inodes are put. -/
lemma spec_unlinkEntry {off type : ℕ} : Spec T tab (ip ::ₘ dp ::ₘ H) (ip ::ₘ dp ::ₘ L)
    (unlinkEntry p dp ip off type) (fun _ => H) (fun _ => L) := by
  apply Spec.bind (keeps_writei _ _ _ _)
  intro r
  split
  · exact spec_panic (by decide)
  · have hparent : Keeps (unlinkParent dp type) := by
      unfold unlinkParent
      split
      · exact keeps_updateNlink
      · exact keeps_pure
    apply (hparent _ _ _ _).bind
    intro _
    rw [Multiset.cons_swap, Multiset.cons_swap ip dp L]
    exact Spec.bind spec_iunlockput fun _ => Spec.bind (keeps_updateNlink _ _ _ _) fun _ =>
      Spec.bind spec_iunlockput fun _ => Spec.bind (keeps_end_op _ _ _ _) fun _ =>
        spec_pure rfl rfl

/-- `sys_unlink` from the entry on. -/
lemma spec_unlinkFound {off : ℕ} : Spec T tab (ip ::ₘ dp ::ₘ H) (dp ::ₘ L)
    (unlinkFound p dp ip off) (fun _ => H) (fun _ => L) := by
  apply Spec.bind spec_ilock
  intro _
  apply Spec.bind (keeps_get _ _ _ _)
  intro x
  split
  · exact spec_panic (by decide)
  · have hbusy : Keeps (unlinkBusy ip x.type) := by
      unfold unlinkBusy
      split
      · exact Keeps.bind keeps_isdirempty fun _ => keeps_pure
      · exact keeps_pure
    apply (hbusy _ _ _ _).bind
    intro b
    split
    · exact Spec.bind spec_iunlockput fun _ => spec_unlinkBad
    · exact spec_unlinkEntry

/-- `unlink` holds nothing afterwards. -/
lemma keeps_sys_unlink {path : Option (List UInt8)} : Keeps (sys_unlink p path) := by
  intro T tab H L
  rcases path with _ | path
  · exact spec_pure rfl rfl
  · apply Spec.bind (keeps_begin_op _ _ _ _)
    intro _
    apply Spec.bind spec_namex
    intro r
    rcases r with _ | ⟨dp, name⟩
    · exact Spec.bind (keeps_end_op _ _ _ _) fun _ => spec_pure rfl rfl
    · apply Spec.bind spec_ilock
      intro _
      split
      · exact spec_unlinkBad
      · apply Spec.bind spec_dirlookup
        intro r
        rcases r with _ | ⟨ip, off⟩
        · exact spec_unlinkBad
        · exact spec_unlinkFound

/-! ## New files -/

/-- A `dirlink` whose failure is a panic. -/
lemma keeps_dirlinkOr {e : Panic} (he : Calm e) {inum : ℕ} : Keeps (dirlinkOr e dp name inum) := by
  apply Keeps.bind keeps_dirlink
  intro b
  split
  · exact keeps_pure
  · exact keeps_panic he

/-- `create` of a name that is not there: the parent is put, and the new inode is held and locked.
-/
lemma spec_createNew {type major minor : ℕ} : Spec T tab (dp ::ₘ H) (dp ::ₘ L)
    (createNew p dp name type major minor) (fun ip => ip ::ₘ H) (fun ip => ip ::ₘ L) := by
  have hdots : ∀ ip, Keeps (createDots dp ip type) := by
    intro ip
    unfold createDots
    split
    · exact Keeps.bind keeps_updateNlink fun _ => Keeps.bind keeps_get fun _ =>
        (keeps_dirlinkOr (by decide)).bind fun _ =>
          Keeps.bind keeps_get fun _ => keeps_dirlinkOr (by decide)
    · exact keeps_pure
  apply Spec.bind spec_ialloc
  intro ip
  apply Spec.bind spec_ilock
  intro _
  apply Spec.bind (keeps_modifyDin _ _ _ _)
  intro _
  apply Spec.bind (keeps_iupdate _ _ _ _)
  intro _
  apply (hdots ip _ _ _ _).bind
  intro _
  apply Spec.bind (keeps_get _ _ _ _)
  intro inum
  apply (keeps_dirlinkOr (by decide) _ _ _ _).bind
  intro _
  rw [Multiset.cons_swap, Multiset.cons_swap ip dp L]
  exact Spec.bind spec_iunlockput fun _ => spec_pure rfl rfl

/-- `create` returns an inode that is held and locked, or nothing is held. -/
lemma spec_create {type major minor : ℕ} : Spec T tab H L (create p path type major minor)
    (fun r => taken H r) (fun r => taken L r) := by
  apply Spec.bind spec_namex
  intro r
  rcases r with _ | ⟨dp, name⟩
  · exact spec_pure rfl rfl
  · apply Spec.bind spec_ilock
    intro _
    apply Spec.bind spec_dirlookup
    intro r
    rcases r with _ | ⟨ip, off⟩
    · exact Spec.bind spec_createNew fun ip => spec_pure rfl rfl
    · -- the entry is there already
      have hput : Spec T tab (ip ::ₘ dp ::ₘ H) (dp ::ₘ L) (iunlockput dp)
          (fun _ => ip ::ₘ H) (fun _ => L) := by
        rw [Multiset.cons_swap]
        exact spec_iunlockput
      apply hput.bind
      intro _
      apply Spec.bind spec_ilock
      intro _
      apply Spec.bind (keeps_get _ _ _ _)
      intro itype
      split
      · exact spec_pure rfl rfl
      · exact Spec.bind spec_iunlockput fun _ => spec_pure rfl rfl

/-- `open` up to its inode, which is held and locked. -/
lemma spec_openInode {omode : ℕ} : Spec T tab H L (openInode p path omode)
    (fun r => taken H r) (fun r => taken L r) := by
  unfold openInode
  split
  · exact spec_create
  · apply Spec.bind spec_namei
    intro r
    rcases r with _ | ip
    · exact spec_pure rfl rfl
    · apply Spec.bind spec_ilock
      intro _
      apply Spec.bind (keeps_get _ _ _ _)
      intro type
      split
      · exact Spec.bind spec_iunlockput fun _ => spec_pure rfl rfl
      · exact spec_pure rfl rfl

/-- `mkdir` and `mknod` put what they have made. -/
lemma spec_madeInode {r : Option ℕ} :
    Spec T tab (taken H r) (taken L r) (madeInode p r) (fun _ => H) (fun _ => L) := by
  rcases r with _ | ip
  · exact Spec.bind (keeps_end_op _ _ _ _) fun _ => spec_pure rfl rfl
  · exact Spec.bind spec_iunlockput fun _ => Spec.bind (keeps_end_op _ _ _ _) fun _ =>
      spec_pure rfl rfl

/-- `mkdir` holds nothing afterwards. -/
lemma keeps_sys_mkdir {path : Option (List UInt8)} : Keeps (sys_mkdir p path) := by
  intro T tab H L
  apply Spec.bind (keeps_begin_op _ _ _ _)
  intro _
  rcases path with _ | path
  · exact spec_madeInode (r := none)
  · exact Spec.bind spec_create fun r => spec_madeInode

/-- `mknod` holds nothing afterwards. -/
lemma keeps_sys_mknod {path : Option (List UInt8)} {major minor : ℕ} :
    Keeps (sys_mknod p path major minor) := by
  intro T tab H L
  apply Spec.bind (keeps_begin_op _ _ _ _)
  intro _
  rcases path with _ | path
  · exact spec_madeInode (r := none)
  · exact Spec.bind spec_create fun r => spec_madeInode

/-! ## The current directory -/

/-- `getcwd` looks for an inode number without holding anything more. -/
lemma keeps_findInum {inum : ℕ} (n off : ℕ) : Keeps (findInum dp inum n off) := by
  induction n generalizing off with
  | zero => exact keeps_pure
  | succ n ih =>
    apply Keeps.bind keeps_readi
    intro r
    rcases r with _ | de
    · exact keeps_pure
    · dsimp only
      split
      · exact keeps_pure
      · split
        · exact keeps_pure
        · exact ih _

/-- The loop of `sys_getcwd` holds one reference, and on each of its exits gives it back. -/
theorem spec_getcwdLoop {stack : List UInt8} (fuel : ℕ) : ∀ (cur : ℕ) (path : List UInt8),
    TMPLEN - path.length < fuel →
      Spec T tab (cur ::ₘ H) L (getcwdLoop p stack fuel cur path) (fun _ => H) (fun _ => L) := by
  induction fuel with
  | zero => exact fun _ _ h => absurd h (Nat.not_lt_zero _)
  | succ fuel ih =>
    intro cur path hfuel
    apply Spec.bind spec_ilock
    intro _
    apply Spec.bind (keeps_get _ _ _ _)
    intro curInum
    apply Spec.bind spec_dirlookup
    intro r
    apply Spec.bind spec_iunlock
    intro _
    rcases r with _ | ⟨parent, off⟩
    · exact Spec.bind spec_iput fun _ => spec_pure rfl rfl
    -- both inodes are put back on the way out
    · have hfail : Spec T tab (parent ::ₘ cur ::ₘ H) L (getcwdFail parent cur) (fun _ => H)
          (fun _ => L) :=
        Spec.bind spec_iput fun _ => Spec.bind spec_iput fun _ => spec_pure rfl rfl
      apply Spec.bind spec_ilock
      intro _
      apply Spec.bind (keeps_get _ _ _ _)
      intro x
      split
      · exact Spec.bind spec_iunlock fun _ => Spec.bind spec_iput fun _ =>
          Spec.bind spec_iput fun _ => spec_pure rfl rfl
      · apply (keeps_findInum _ _ _ _ _ _).bind
        intro de
        apply Spec.bind spec_iunlock
        intro _
        rcases de with _ | de
        · exact hfail
        · dsimp only
          split
          · exact hfail
          · next hroom =>
            have hput : Spec T tab (parent ::ₘ cur ::ₘ H) L (iput cur) (fun _ => parent ::ₘ H)
                (fun _ => L) := by
              rw [Multiset.cons_swap]
              exact spec_iput
            apply hput.bind
            intro _
            apply ih
            simp only [List.length_cons, List.length_append]
            omega

/-- `getcwd` puts every directory that it goes through. -/
lemma keeps_sys_getcwd {size : Option ℤ} {stack : List UInt8} :
    Keeps (sys_getcwd p size stack) := by
  intro T tab H L
  rcases size with _ | size
  · exact spec_pure rfl rfl
  · apply Spec.bind (keeps_get _ _ _ _)
    intro cwd
    apply Spec.bind spec_idup
    intro cur
    apply (spec_getcwdLoop _ cur [] (Nat.lt_succ_self _)).bind
    intro r
    rcases r with _ | path <;> exact spec_pure rfl rfl

/-- `exec` gives the inode of the program back. -/
lemma keeps_exec {path : Option (List UInt8)} {reads : List (ℕ × ℕ)} {ext : Ret} :
    Keeps (Kernel.exec p path reads ext) := by
  have hreads : ∀ ip, Keeps (execReads ip reads) := by
    intro ip
    induction reads with
    | nil => exact keeps_pure
    | cons r reads ih => exact Keeps.bind keeps_readi fun _ => ih
  intro T tab H L
  rcases path with _ | path
  · exact spec_pure rfl rfl
  · apply Spec.bind (keeps_begin_op _ _ _ _)
    intro _
    apply Spec.bind spec_namei
    intro r
    rcases r with _ | ip
    · exact Spec.bind (keeps_end_op _ _ _ _) fun _ => spec_pure rfl rfl
    · apply Spec.bind spec_ilock
      intro _
      exact (hreads ip _ _ _ _).bind fun _ => Spec.bind spec_iunlockput fun _ =>
        Spec.bind (keeps_end_op _ _ _ _) fun _ => spec_pure rfl rfl

end

end Kernel
end OhMyXv6
