import OhMyXv6.Kernel.Ops

/-!
# Which steps log

Each system call keeps to the discipline, and so does any number of them whose steps are interleaved: a step
that logs is one of a process that is in a transaction.
-/

namespace OhMyXv6
namespace Kernel

open Prog

section
variable {p n : ℕ}

/-! ## System calls -/

lemma ops_setOfile {fd : ℕ} {f : Option ℕ} : Ops p n n (setOfile p fd f) :=
  ops_modify fun _ => ⟨rfl, rfl⟩

lemma ops_fdalloc {f : ℕ} : Ops p n n (fdalloc p f) := by
  refine Ops.bind ops_get fun fd => ?_
  rcases fd with _ | a
  · exact ops_pure
  · exact Ops.bind ops_setOfile fun _ => ops_pure

lemma ops_sys_dup {fd : ℕ} : Ops p n n (sys_dup p fd) := by
  refine Ops.bind ops_get fun f => ?_
  rcases f with _ | a
  · exact ops_pure
  · refine Ops.bind ops_fdalloc fun fd => ?_
    rcases fd with _ | a
    · exact ops_pure
    · exact Ops.bind ops_filedup fun _ => ops_pure

/-- `read` logs nothing if all blocks are there. -/
lemma ops_sys_read {fd : ℕ} {len : Option ℕ} {ext : Ret} :
    Ops p n n (sys_read p fd len ext) := by
  refine Ops.bind ops_get fun f => ?_
  cases f with
  | none => exact ops_pure
  | some f =>
    cases len with
    | none => exact ops_pure
    | some len => exact ops_fileread

/-- `write` has its own transactions. -/
lemma ops_sys_write {fd : ℕ} {src : Option (List UInt8)} {ext : Ret} :
    Ops p n n (sys_write p fd src ext) := by
  refine Ops.bind ops_get fun f => ?_
  cases f with
  | none => exact ops_pure
  | some f =>
    cases src with
    | none => exact ops_pure
    | some src => exact ops_filewrite

/-- `close` has a transaction around `iput`. -/
lemma ops_sys_close {fd : ℕ} : Ops p n n (sys_close p fd) := by
  refine Ops.bind ops_get fun f => ?_
  rcases f with _ | a
  · exact ops_pure
  · exact Ops.bind ops_setOfile fun _ => Ops.bind ops_fileclose fun _ => ops_pure

lemma ops_sys_fstat {fd : ℕ} : Ops p n n (sys_fstat p fd) := by
  refine Ops.bind ops_get fun f => ?_
  rcases f with _ | a
  · exact ops_pure
  · refine Ops.bind ops_filestat fun st => ?_
    rcases st with _ | a <;> exact ops_pure

lemma ops_sys_fseek {fd : ℕ} {offset position : ℤ} :
    Ops p n n (sys_fseek p fd offset position) := by
  refine Ops.bind ops_get fun f => ?_
  rcases f with _ | a
  · exact ops_pure
  · exact ops_fileseek

/-- A count of links is changed inside of a transaction. -/
lemma ops_updateNlink {ip : ℕ} {g : ℕ → ℕ} : Ops p (n + 1) (n + 1) (updateNlink ip g) :=
  Ops.bind ops_modifyDin fun _ => ops_iupdate

/-- The exit of `link` by `bad` ends the transaction. -/
lemma ops_linkBad {ip : ℕ} : Ops p (n + 1) n (linkBad p ip) :=
  Ops.bind ops_ilock fun _ => Ops.bind ops_updateNlink fun _ => Ops.bind ops_iunlockput fun _ =>
    Ops.bind ops_end_op fun _ => ops_pure

lemma ops_linkNew {ip : ℕ} {new : List UInt8} : Ops p (n + 1) n (linkNew p ip new) := by
  refine Ops.bind ops_namex fun r => ?_
  rcases r with _ | ⟨a, b⟩
  · exact ops_linkBad
  · refine Ops.bind ops_ilock fun _ => Ops.bind ops_get fun inum => Ops.bind ops_dirlink fun ok => ?_
    split
    · exact Ops.bind ops_iunlockput fun _ => Ops.bind ops_iput fun _ => Ops.bind ops_end_op fun _ => ops_pure
    · exact Ops.bind ops_iunlockput fun _ => ops_linkBad

lemma ops_sys_link {old new : Option (List UInt8)} : Ops p n n (sys_link p old new) := by
  rcases old with _ | old
  · exact ops_pure
  · rcases new with _ | new
    · exact ops_pure
    · refine Ops.bind ops_begin_op fun _ => Ops.bind ops_namei fun r => ?_
      rcases r with _ | ip
      · exact Ops.bind ops_end_op fun _ => ops_pure
      · refine Ops.bind ops_ilock fun _ => Ops.bind ops_get fun type => ?_
        split
        · exact Ops.bind ops_iunlockput fun _ => Ops.bind ops_end_op fun _ => ops_pure
        · exact Ops.bind ops_updateNlink fun _ => Ops.bind ops_iunlock fun _ => ops_linkNew

/-- The exit of `unlink` by `bad` ends the transaction. -/
lemma ops_unlinkBad {dp : ℕ} : Ops p (n + 1) n (unlinkBad p dp) :=
  Ops.bind ops_iunlockput fun _ => Ops.bind ops_end_op fun _ => ops_pure

/-- The entries of a directory are looked at. -/
lemma ops_unlinkBusy {ip type : ℕ} : Ops p n n (unlinkBusy ip type) := by
  have hloop : ∀ j off, Ops p n n (isdiremptyLoop ip j off) := by
    intro j
    induction j with
    | zero => exact fun _ => ops_pure
    | succ j ih =>
      refine fun off => (ops_readDirent (by decide)).bind fun de => ?_
      split
      · exact ops_pure
      · exact ih _
  unfold unlinkBusy
  split
  · exact (Ops.bind ops_get fun _ => hloop _ _).bind fun _ => ops_pure
  · exact ops_pure

/-- All exits end the transaction. -/
lemma ops_unlinkEntry {dp ip off type : ℕ} :
    Ops p (n + 1) n (unlinkEntry p dp ip off type) := by
  have hparent : Ops p (n + 1) (n + 1) (unlinkParent dp type) := by
    unfold unlinkParent
    split
    · exact ops_updateNlink
    · exact ops_pure
  refine Ops.bind ops_writei fun r => ?_
  split
  · exact ops_panic (by decide)
  · exact hparent.bind fun _ => Ops.bind ops_iunlockput fun _ => Ops.bind ops_updateNlink fun _ =>
      Ops.bind ops_iunlockput fun _ => Ops.bind ops_end_op fun _ => ops_pure

/-- All exits end the transaction. -/
lemma ops_unlinkFound {dp ip off : ℕ} : Ops p (n + 1) n (unlinkFound p dp ip off) := by
  refine Ops.bind ops_ilock fun _ => Ops.bind ops_get fun x => ?_
  split
  · exact ops_panic (by decide)
  · refine Ops.bind ops_unlinkBusy fun busy => ?_
    split
    · exact Ops.bind ops_iunlockput fun _ => ops_unlinkBad
    · exact ops_unlinkEntry

lemma ops_sys_unlink {path : Option (List UInt8)} : Ops p n n (sys_unlink p path) := by
  unfold sys_unlink
  rcases path with _ | a
  · exact ops_pure
  · refine Ops.bind ops_begin_op fun _ => Ops.bind ops_namex fun r => ?_
    rcases r with _ | ⟨a, b⟩
    · exact Ops.bind ops_end_op fun _ => ops_pure
    · refine Ops.bind ops_ilock fun _ => ?_
      split
      · exact ops_unlinkBad
      · refine Ops.bind ops_dirlookup fun r => ?_
        rcases r with _ | ⟨a, b⟩
        · exact ops_unlinkBad
        · exact ops_unlinkFound

/-- `create` is called inside of a transaction. -/
lemma ops_create {path : List UInt8} {type major minor : ℕ} :
    Ops p (n + 1) (n + 1) (create p path type major minor) := by
  have hlink : ∀ {e : Panic} (_ : e ≠ .logWriteOutsideOfTrans) (dp : ℕ) (name : List UInt8)
      (inum : ℕ), Ops p (n + 1) (n + 1) (dirlinkOr e dp name inum) := by
    intro e he dp name inum
    refine Ops.bind ops_dirlink fun ok => ?_
    split
    · exact ops_pure
    · exact ops_panic he
  have hdots : ∀ dp ip, Ops p (n + 1) (n + 1) (createDots dp ip type) := by
    intro dp ip
    unfold createDots
    split
    · exact Ops.bind ops_updateNlink fun _ => Ops.bind ops_get fun _ => (hlink (by decide) _ _ _).bind
        fun _ => Ops.bind ops_get fun _ => hlink (by decide) _ _ _
    · exact ops_pure
  have hnew : ∀ dp name, Ops p (n + 1) (n + 1) (createNew p dp name type major minor) :=
    fun dp name => Ops.bind ops_ialloc fun ip => Ops.bind ops_ilock fun _ => Ops.bind ops_modifyDin fun _ =>
      Ops.bind ops_iupdate fun _ => (hdots _ _).bind fun _ => Ops.bind ops_get fun _ =>
        (hlink (by decide) _ _ _).bind fun _ => Ops.bind ops_iunlockput fun _ => ops_pure
  refine Ops.bind ops_namex fun r => ?_
  rcases r with _ | ⟨a, b⟩
  · exact ops_pure
  · refine Ops.bind ops_ilock fun _ => Ops.bind ops_dirlookup fun r => ?_
    rcases r with _ | ⟨ip, off⟩
    · exact (hnew _ _).bind fun _ => ops_pure
    · refine Ops.bind ops_iunlockput fun _ => Ops.bind ops_ilock fun _ => Ops.bind ops_get fun itype => ?_
      split
      · exact ops_pure
      · exact Ops.bind ops_iunlockput fun _ => ops_pure

/-- `open` without a free file ends the transaction. -/
lemma ops_openFull {ip : ℕ} : Ops p (n + 1) n (openFull p ip) :=
  Ops.bind ops_iunlockput fun _ => Ops.bind ops_end_op fun _ => ops_pure

/-- The inode of `open`, made or found. -/
lemma ops_openInode {path : List UInt8} {omode : ℕ} :
    Ops p (n + 1) (n + 1) (openInode p path omode) := by
  unfold openInode
  split
  · exact ops_create
  · refine Ops.bind ops_namei fun r => ?_
    rcases r with _ | a
    · exact ops_pure
    · refine Ops.bind ops_ilock fun _ => Ops.bind ops_get fun type => ?_
      split
      · exact Ops.bind ops_iunlockput fun _ => ops_pure
      · exact ops_pure

lemma ops_sys_open {path : Option (List UInt8)} {omode : ℕ} :
    Ops p n n (sys_open p path omode) := by
  unfold sys_open
  rcases path with _ | a
  · exact ops_pure
  · refine Ops.bind ops_begin_op fun _ => Ops.bind ops_openInode fun r => ?_
    rcases r with _ | a
    · exact Ops.bind ops_end_op fun _ => ops_pure
    · refine Ops.bind ops_filealloc fun f => ?_
      rcases f with _ | a
      · exact ops_openFull
      · refine Ops.bind ops_fdalloc fun fd => ?_
        rcases fd with _ | a
        · exact Ops.bind ops_fileclose fun _ => ops_openFull
        · exact Ops.bind ops_iunlock fun _ => Ops.bind ops_end_op fun _ =>
            (ops_modify fun _ => ⟨rfl, rfl⟩).bind fun _ => ops_pure

/-- `mkdir` and `mknod` end the transaction. -/
lemma ops_madeInode {ip : Option ℕ} : Ops p (n + 1) n (madeInode p ip) := by
  unfold madeInode
  rcases ip with _ | a
  · exact Ops.bind ops_end_op fun _ => ops_pure
  · exact Ops.bind ops_iunlockput fun _ => Ops.bind ops_end_op fun _ => ops_pure

lemma ops_sys_mkdir {path : Option (List UInt8)} : Ops p n n (sys_mkdir p path) := by
  refine Ops.bind ops_begin_op fun _ => ?_
  rcases path with _ | a
  · exact ops_madeInode
  · exact Ops.bind ops_create fun _ => ops_madeInode

lemma ops_sys_mknod {path : Option (List UInt8)} {major minor : ℕ} :
    Ops p n n (sys_mknod p path major minor) := by
  refine Ops.bind ops_begin_op fun _ => ?_
  rcases path with _ | a
  · exact ops_madeInode
  · exact Ops.bind ops_create fun _ => ops_madeInode

lemma ops_sys_chdir {path : Option (List UInt8)} : Ops p n n (sys_chdir p path) := by
  refine Ops.bind ops_begin_op fun _ => ?_
  rcases path with _ | a
  · exact Ops.bind ops_end_op fun _ => ops_pure
  · refine Ops.bind ops_namei fun r => ?_
    rcases r with _ | a
    · exact Ops.bind ops_end_op fun _ => ops_pure
    · refine Ops.bind ops_ilock fun _ => Ops.bind ops_get fun type => ?_
      split
      · exact Ops.bind ops_iunlockput fun _ => Ops.bind ops_end_op fun _ => ops_pure
      · exact Ops.bind ops_iunlock fun _ => Ops.bind ops_get fun _ => Ops.bind ops_iput fun _ =>
          Ops.bind ops_end_op fun _ => (ops_modify fun _ => ⟨rfl, rfl⟩).bind fun _ => ops_pure

/-- `sys_getcwd` takes part in no transaction: all its calls of `iput` and `readi` rely on what is
assumed of them outside of one. -/
theorem ops_sys_getcwd {size : Option ℤ} {stack : List UInt8} :
    Ops p n n (sys_getcwd p size stack) := by
  -- no part of `getcwd` begins or ends an operation
  have hfind : ∀ dp inum j off, Ops p n n (findInum dp inum j off) := by
    intro dp inum j
    induction j with
    | zero => exact fun _ => ops_pure
    | succ j ih =>
      refine fun off => Ops.bind ops_readi fun r => ?_
      rcases r with _ | a
      · exact ops_pure
      · dsimp only
        split
        · exact ops_pure
        · split
          · exact ops_pure
          · exact ih _
  have hfail : ∀ parent cur, Ops p n n (getcwdFail parent cur) := fun _ _ =>
    Ops.bind ops_iput fun _ => Ops.bind ops_iput fun _ => ops_pure
  have hloop : ∀ fuel cur path, Ops p n n (getcwdLoop p stack fuel cur path) := by
    intro fuel
    induction fuel with
    | zero => exact fun _ _ => ops_pure
    | succ fuel ih =>
      refine fun cur path => Ops.bind ops_ilock fun _ => Ops.bind ops_get fun curInum =>
        Ops.bind ops_dirlookup fun r => Ops.bind ops_iunlock fun _ => ?_
      rcases r with _ | ⟨a, b⟩
      · exact Ops.bind ops_iput fun _ => ops_pure
      · refine Ops.bind ops_ilock fun _ => Ops.bind ops_get fun x => ?_
        split
        · exact Ops.bind ops_iunlock fun _ => Ops.bind ops_iput fun _ => Ops.bind ops_iput fun _ => ops_pure
        · refine (hfind _ _ _ _).bind fun de => Ops.bind ops_iunlock fun _ => ?_
          rcases de with _ | a
          · exact hfail _ _
          · dsimp only
            split
            · exact hfail _ _
            · exact Ops.bind ops_iput fun _ => ih _ _
  unfold sys_getcwd
  rcases size with _ | a
  · exact ops_pure
  · refine Ops.bind ops_get fun cwd => Ops.bind ops_idup fun cur => (hloop _ _ _).bind fun r => ?_
    rcases r with _ | a <;> exact ops_pure

/-- `exec` has a transaction around the reads of the program. -/
lemma ops_exec {path : Option (List UInt8)} {reads : List (ℕ × ℕ)} {ext : Ret} :
    Ops p n n (exec p path reads ext) := by
  have hreads : ∀ ip reads, Ops p (n + 1) (n + 1) (execReads ip reads) := by
    intro ip reads
    induction reads with
    | nil => exact ops_pure
    | cons r reads ih => exact Ops.bind ops_readi fun _ => ih
  unfold exec
  rcases path with _ | a
  · exact ops_pure
  · refine Ops.bind ops_begin_op fun _ => Ops.bind ops_namei fun r => ?_
    rcases r with _ | a
    · exact Ops.bind ops_end_op fun _ => ops_pure
    · exact Ops.bind ops_ilock fun _ => (hreads _ _).bind fun _ => Ops.bind ops_iunlockput fun _ =>
        Ops.bind ops_end_op fun _ => ops_pure

lemma ops_fork {np : Option ℕ} : Ops p n n (fork p np) := by
  have hfiles : ∀ is, Ops p n n (forkFiles p is) := by
    intro is
    induction is with
    | nil => exact ops_pure
    | cons i is ih =>
      refine Ops.bind ops_get fun f => ?_
      rcases f with _ | a
      · exact ih
      · exact Ops.bind ops_filedup fun _ => ih
  unfold fork
  rcases np with _ | a
  · exact ops_pure
  · refine (hfiles _).bind fun _ => Ops.bind ops_get fun cwd => Ops.bind ops_idup fun cwd =>
      ops_act fun s => ?_
    split
    · trivial
    · exact ⟨rfl, rfl⟩

/-- `exit` has a transaction around `iput`. -/
lemma ops_exit : Ops p n n (exit p) := by
  have hfiles : ∀ fds, Ops p n n (exitFiles p fds) := by
    intro fds
    induction fds with
    | nil => exact ops_pure
    | cons fd fds ih =>
      refine Ops.bind ops_get fun f => ?_
      rcases f with _ | a
      · exact ih
      · exact Ops.bind ops_fileclose fun _ => Ops.bind ops_setOfile fun _ => ih
  unfold exit
  split
  · exact ops_panic (by decide)
  · exact (hfiles _).bind fun _ => Ops.bind ops_begin_op fun _ => Ops.bind ops_get fun _ =>
      Ops.bind ops_iput fun _ => Ops.bind ops_end_op fun _ => (ops_modify fun _ => ⟨rfl, rfl⟩).bind
        fun _ => ops_pure

lemma ops_sys_pipe {ptr : Bool} {page : Option ℕ} : Ops p n n (sys_pipe p ptr page) := by
  have hpage : ∀ pg, Ops p n n (pipePage pg) := by
    intro pg
    refine ops_act fun s => ?_
    split
    · trivial
    · exact ⟨rfl, rfl⟩
  have halloc : Ops p n n (pipealloc p page) := by
    refine Ops.bind ops_filealloc fun f0 => ?_
    rcases f0 with _ | a
    · exact ops_pure
    · refine Ops.bind ops_filealloc fun f1 => ?_
      rcases f1 with _ | a
      · exact Ops.bind ops_fileclose fun _ => ops_pure
      · rcases page with _ | pg
        · exact Ops.bind ops_fileclose fun _ => Ops.bind ops_fileclose fun _ => ops_pure
        · exact (hpage pg).bind fun _ => (ops_modify fun _ => ⟨rfl, rfl⟩).bind fun _ =>
            (ops_modify fun _ => ⟨rfl, rfl⟩).bind fun _ => ops_pure
  unfold sys_pipe
  split
  · exact ops_pure
  · refine halloc.bind fun r => ?_
    rcases r with _ | ⟨a, b⟩
    · exact ops_pure
    · refine Ops.bind ops_fdalloc fun fd => ?_
      rcases fd with _ | a
      · exact Ops.bind ops_fileclose fun _ => Ops.bind ops_fileclose fun _ => ops_pure
      · refine Ops.bind ops_fdalloc fun fd => ?_
        rcases fd with _ | a
        · exact Ops.bind ops_setOfile fun _ => Ops.bind ops_fileclose fun _ => Ops.bind ops_fileclose fun _ =>
            ops_pure
        · exact ops_pure

/-- Every system call ends outside of a transaction, and logs only inside of one. -/
theorem ops_syscall (c : Call) : Ops p n n (syscall p c) := by
  cases c with
  | dup => exact ops_sys_dup
  | read => exact ops_sys_read
  | write => exact ops_sys_write
  | close => exact ops_sys_close
  | fstat => exact ops_sys_fstat
  | fseek => exact ops_sys_fseek
  | link => exact ops_sys_link
  | unlink => exact ops_sys_unlink
  | «open» => exact ops_sys_open
  | mkdir => exact ops_sys_mkdir
  | mknod => exact ops_sys_mknod
  | chdir => exact ops_sys_chdir
  | getcwd => exact ops_sys_getcwd
  | exec => exact ops_exec
  | fork => exact ops_fork
  | exit => exact ops_exit
  | pipe => exact ops_sys_pipe

end

/-! ## Interleavings -/

/-- A step outside of a transaction finds nothing to free and nothing to allocate. -/
def QuietStep (S : Sys) : Act → Prop
  | .enter _ _ => True
  | .step p => p ∉ S.st.inOp → ∀ l ∈ S.label p, Quiet S.st l

instance (s : State) : (l : Label) → Decidable (Quiet s l)
  | .iputTest _ => inferInstanceAs (Decidable (¬ _))
  | .bmapAddr _ _ => inferInstanceAs (Decidable (_ ≠ 0))
  | .bmapEntry _ _ => inferInstanceAs (Decidable (_ ≠ 0))
  | .other | .beginOp | .endOp | .logWrite => instDecidableTrue

instance (S : Sys) : (a : Act) → Decidable (QuietStep S a)
  | .enter _ _ => instDecidableTrue
  | .step p => inferInstanceAs (Decidable (p ∉ S.st.inOp → ∀ l ∈ S.label p, Quiet S.st l))

/-- Whoever is about to log is in a transaction of its own, and nobody is about to panic for
being in none. -/
structure OnlyTransactionsLog (S : Sys) : Prop where
  inOp : ∀ p, S.label p = some .logWrite → p ∈ S.st.inOp
  noPanic : ∀ p, S.panics p ≠ some .logWriteOutsideOfTrans

/-- What is left of a process's system call keeps to the discipline. -/
def Disciplined (S : Sys) (p : ℕ) : Prop :=
  match S.prog p with
  | none => p ∉ S.st.inOp
  | some x => Guarded (opProtocol p) (S.st.inOp.count p) x fun g _ => g = 0

/-- What holds between any two steps of the processes. -/
structure OpInv (S : Sys) : Prop where
  count : S.st.outstanding = S.st.inOp.length
  prog : ∀ p, Disciplined S p

/-- The other processes are left alone. -/
lemma disciplined_setProg_of_ne {S : Sys} {p q : ℕ} {t : State} {x : Option (M Ret)}
    (hne : q ≠ p) (hcount : t.inOp.count q = S.st.inOp.count q) (h : Disciplined S q) :
    Disciplined ({ S with st := t }.setProg p x) q := by
  have hprog : ({ S with st := t }.setProg p x).prog q = S.prog q := Function.update_of_ne hne _ _
  have hst : ({ S with st := t }.setProg p x).st = t := rfl
  unfold Disciplined at h ⊢
  rw [hprog, hst]
  cases hq : S.prog q with
  | none =>
    rw [hq] at h
    exact List.count_eq_zero.mp (hcount.trans (List.count_eq_zero.mpr h))
  | some y =>
    rw [hq] at h
    rw [hcount]
    exact h

/-- How one step changes the transactions, counted for each process. -/
theorem OpChange.counts {p : ℕ} {l : Label} {s t : State} (h : OpChange p l s t)
    (hallow : l = .endOp → p ∈ s.inOp) (hlen : s.outstanding = s.inOp.length) :
    t.outstanding = t.inOp.length ∧ t.inOp.count p = (opProtocol p).next l (s.inOp.count p) ∧
      ∀ q, q ≠ p → t.inOp.count q = s.inOp.count q := by
  cases l with
  | beginOp =>
    obtain ⟨hout, hin⟩ := h
    refine ⟨?_, ?_, fun q hq => ?_⟩
    · rw [hout, hin, hlen, List.length_cons]
    · rw [hin, List.count_cons_self]
      rfl
    · rw [hin, List.count_cons_of_ne (Ne.symm hq)]
  | endOp =>
    obtain ⟨hout, hin⟩ := h
    refine ⟨?_, ?_, fun q hq => ?_⟩
    · rw [hout, hin, hlen, List.length_erase_of_mem (hallow rfl)]
    · rw [hin, List.count_erase_self]
      rfl
    · rw [hin, List.count_erase_of_ne hq]
  | other => exact ⟨by rw [h.1, h.2, hlen], by rw [h.2]; rfl, fun q _ => by rw [h.2]⟩
  | logWrite => exact ⟨by rw [h.1, h.2, hlen], by rw [h.2]; rfl, fun q _ => by rw [h.2]⟩
  | iputTest => exact ⟨by rw [h.1, h.2, hlen], by rw [h.2]; rfl, fun q _ => by rw [h.2]⟩
  | bmapAddr => exact ⟨by rw [h.1, h.2, hlen], by rw [h.2]; rfl, fun q _ => by rw [h.2]⟩
  | bmapEntry => exact ⟨by rw [h.1, h.2, hlen], by rw [h.2]; rfl, fun q _ => by rw [h.2]⟩

lemma OpInv.enter {S : Sys} {p : ℕ} {c : Call} (h : OpInv S) (hp : S.prog p = none) :
    OpInv (S.setProg p (some (syscall p c))) := by
  refine ⟨h.count, fun q => ?_⟩
  by_cases hq : q = p
  · subst hq
    have hnot := h.prog q
    unfold Disciplined at hnot ⊢
    rw [hp] at hnot
    have hprog : (S.setProg q (some (syscall q c))).prog q = some (syscall q c) :=
      Function.update_self _ _ _
    have hst : (S.setProg q (some (syscall q c))).st = S.st := rfl
    have hcount : S.st.inOp.count q = 0 := List.count_eq_zero.mpr hnot
    rw [hprog, hst, hcount]
    exact (ops_syscall c : Ops q 0 0 (syscall q c)) 0
  · exact disciplined_setProg_of_ne hq rfl (h.prog q)

lemma OpInv.leave {S : Sys} {p : ℕ} {r : Ret} (h : OpInv S) (hp : S.prog p = some (.ret r)) :
    OpInv (S.setProg p none) := by
  refine ⟨h.count, fun q => ?_⟩
  by_cases hq : q = p
  · subst hq
    have hret := h.prog q
    unfold Disciplined at hret ⊢
    rw [hp] at hret
    have hprog : (S.setProg q none).prog q = none := Function.update_self _ _ _
    rw [hprog]
    exact List.count_eq_zero.mp hret
  · exact disciplined_setProg_of_ne hq rfl (h.prog q)

/-- A process takes a step, and keeps to the discipline. -/
lemma OpInv.step {S T : Sys} {a : Act} (h : OpInv S) (hq : QuietStep S a)
    (hnext : S.next a = some T) : OpInv T := by
  cases a with
  | enter p c =>
    obtain ⟨hp, rfl⟩ := Sys.next_enter hnext
    exact h.enter hp
  | step p =>
    rcases Sys.next_step hnext with ⟨r, hp, rfl⟩ | ⟨β, l, f, k, b, t, hp, hf, rfl⟩
    · exact h.leave hp
    have hg := h.prog p
    unfold Disciplined at hg
    rw [hp] at hg
    have hmeets := hg.2 S.st
    rw [hf] at hmeets
    have hlabel : S.label p = some l := by
      unfold Sys.label
      rw [hp]
    obtain ⟨hchange, hk⟩ := hmeets fun h0 => hq (List.count_eq_zero.mp h0) l hlabel
    obtain ⟨hlen, hself, hother⟩ := hchange.counts
      (fun hl => List.count_pos_iff.mp (hg.1 (.inr hl))) h.count
    refine ⟨hlen, fun q => ?_⟩
    by_cases hqp : q = p
    · subst hqp
      unfold Disciplined
      have hprog : ({ S with st := t }.setProg q (some (k b))).prog q = some (k b) :=
        Function.update_self _ _ _
      have hst : ({ S with st := t }.setProg q (some (k b))).st = t := rfl
      rw [hprog, hst, hself]
      exact hk
    · exact disciplined_setProg_of_ne hqp (hother q hqp) (h.prog q)

/-- It holds if no call is running. -/
lemma opInv_idle {S : Sys} (h : S.Idle) : OpInv S := by
  refine ⟨by rw [h.outstanding, h.inOp]; rfl, fun p => ?_⟩
  unfold Disciplined
  rw [h.prog p, h.inOp]
  exact List.not_mem_nil

/-- A step that logs is one inside of a transaction. -/
lemma OpInv.onlyTransactionsLog {S : Sys} (h : OpInv S) : OnlyTransactionsLog S := by
  constructor
  · intro p hlabel
    have hg := h.prog p
    unfold Sys.label at hlabel
    unfold Disciplined at hg
    split at hlabel
    · next hp =>
      rw [hp] at hg
      exact List.count_pos_iff.mp (hg.1 (.inl (Option.some.inj hlabel)))
    · cases hlabel
  · intro p hpanic
    have hg := h.prog p
    unfold Sys.panics at hpanic
    unfold Disciplined at hg
    split at hpanic
    · next hp =>
      rw [hp] at hg
      split at hpanic
      · next e he =>
        have hmeets := hg.2 S.st
        rw [he] at hmeets
        -- the step logs with no transaction under way, but its own is
        obtain ⟨hl, hzero⟩ := hmeets (Option.some.inj hpanic)
        have hmem := List.count_pos_iff.mp (hg.1 (.inl hl))
        rw [h.count, List.length_eq_zero_iff] at hzero
        rw [hzero] at hmem
        exact List.not_mem_nil hmem
      · cases hpanic
    · cases hpanic

/-- **Only transactions log.** In every interleaving of system calls whose steps outside of a
transaction find nothing to free and nothing to allocate, every process that logs is between its
own `begin_op` and `end_op`, and nobody panics for logging outside of a transaction. -/
theorem onlyTransactionsLog_of_quiet {S T : Sys} {as : List Act} (h0 : S.Idle)
    (hquiet : Runs.Along Sys.next QuietStep S as) (hrun : Runs.run Sys.next S as = some T) :
    OnlyTransactionsLog T :=
  (Runs.Along.invariant (fun _ _ _ hinv hq hstep => OpInv.step hinv hq hstep) (opInv_idle h0)
    hquiet hrun).onlyTransactionsLog

/-- An `unlink` that is about to log the entry it has cleared. -/
def unlinkLogs : List Act := Demo.acts 2 (.unlink (some Demo.pathAB)) 41

/-- The next step of the run logs. -/
lemma unlinkLogs_label : (Runs.run Sys.next Demo.sys unlinkLogs).map (fun T => T.label 2)
    = some (some .logWrite) := by decide +kernel

/-- No step of the run frees or allocates outside of a transaction. -/
lemma unlinkLogs_quiet : Runs.Along Sys.next QuietStep Demo.sys unlinkLogs := by decide +kernel

/-- An `unlink` that is about to log. -/
theorem onlyTransactionsLog_unlink : ∃ T, Runs.run Sys.next Demo.sys unlinkLogs = some T ∧
    T.label 2 = some .logWrite ∧ OnlyTransactionsLog T := by
  obtain ⟨T, hrun, hlabel⟩ := Option.map_eq_some_iff.mp unlinkLogs_label
  exact ⟨T, hrun, hlabel, onlyTransactionsLog_of_quiet Demo.sys_idle unlinkLogs_quiet hrun⟩

/-- Both directories are removed while they are in use. Process 1, in `sys_getcwd`, has just got
the parent of its current directory when process 2 leaves that parent, and so drops the last
reference to it: it frees the inode with no transaction under way. -/
def getcwdRace : List Act :=
  Demo.acts 2 (.unlink (some Demo.pathAB)) 53 ++ Demo.acts 2 (.unlink (some Demo.pathA)) 40
    ++ Demo.acts 1 (.getcwd (some 100) []) 23 ++ Demo.acts 2 (.chdir (some [slash])) 11
    ++ List.replicate 7 (.step 1)

/-- `getcwd` gives back the last reference to a directory that was unlinked meanwhile. -/
lemma getcwdRace_panics : (Runs.run Sys.next Demo.sys getcwdRace).map (fun T => T.panics 1)
    = some (some .logWriteOutsideOfTrans) := by decide +kernel

/-- That `iput` logs, and it is in no transaction. -/
theorem getcwd_logs_outside : Demo.sys.Idle ∧
    ∃ T, Runs.run Sys.next Demo.sys getcwdRace = some T ∧ ¬ OnlyTransactionsLog T := by
  refine ⟨Demo.sys_idle, ?_⟩
  obtain ⟨T, hrun, hpanic⟩ := Option.map_eq_some_iff.mp getcwdRace_panics
  exact ⟨T, hrun, fun h => h.noPanic 1 hpanic⟩

end Kernel
end OhMyXv6
