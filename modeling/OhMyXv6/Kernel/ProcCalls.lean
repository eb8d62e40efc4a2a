import OhMyXv6.Kernel.FileCalls

/-!
# References of processes and pipes

`fork` doubles the references of a process and `exit` gives them back; `pipe` opens two files for the ends of
a new pipe. With these every system call is known to keep the counts.
-/

namespace OhMyXv6
namespace Kernel

open Prog

section
variable {s : State} {cw cnt : ℕ → ℕ} {H L F : Multiset ℕ} {E : Multiset (ℕ × Bool)} {p f : ℕ}

/-! ### Processes -/

/-- The processes without process `p`. -/
def without (proc : ℕ → Proc) (p : ℕ) : ℕ → Proc :=
  Function.update proc p ⟨false, (proc p).ofile, (proc p).cwd⟩

/-- The current directory of process `p` counts once. -/
lemma cwds_without (hp : s.Live p) (k : ℕ) :
    cwds s.proc k = cwds (without s.proc p) k + if (s.proc p).cwd = k then 1 else 0 := by
  have hsum := cwds_update s.proc
    (x := ⟨false, (s.proc p).ofile, (s.proc p).cwd⟩) hp.1 k
  simp only [Proc.cwdRef, hp.2, true_and, Bool.false_eq_true, false_and, if_false] at hsum
  unfold without
  omega

/-- `iput(proc->cwd); end_op();`, while the process still refers to the directory. -/
theorem Rest.putCwd (h : Rest s H L F E) (hp : s.Live p) :
    wp Calm (do iput (s.proc p).cwd; end_op p) (fun _ t =>
      Bal t (cwds (without s.proc p)) (fds s.proc) H L F E ∧ t.tables = s.tables) s := by
  have hmove : Bal s (cwds (without s.proc p)) (fds s.proc) ((s.proc p).cwd ::ₘ H) L F E := by
    apply Bal.move h
    · intro k
      rw [cwds_without hp k, Multiset.count_cons]
      simp only [eq_comm (a := k)]
      omega
    · exact fun g => rfl
  exact hmove.spec fun T tab => Spec.bind spec_iput fun _ => keeps_end_op _ _ _ _

/-- `chdir` puts the old directory and keeps the new one. -/
lemma rest_changeDir {ip : ℕ} (h : Rest s (ip ::ₘ 0) 0 0 0) (hp : s.Live p) :
    wp Calm (changeDir p ip) (fun _ t => Rest t 0 0 0 0) s := by
  unfold changeDir
  rw [wp_bind, wp_get, wp_bind]
  have hput := h.putCwd hp
  rw [wp_bind] at hput
  apply wp_mono hput
  intro _ t ht
  rw [wp_bind]
  apply wp_mono ht
  intro _ u hu
  have hproc : u.proc = s.proc := congrArg Tables.proc hu.2
  have hlive : (s.proc p).live = true := hp.2
  apply Bal.setProc hu.1
  · -- the new directory comes from the running call
    intro k
    have hsum := cwds_update s.proc (x := ⟨true, (s.proc p).ofile, ip⟩) hp.1 k
    have hout := cwds_without hp k
    simp only [Proc.cwdRef, hlive, true_and] at hsum
    show cwds (Function.update u.proc p ⟨(u.proc p).live, (u.proc p).ofile, ip⟩) k + _ = _
    rw [hproc, hlive, Multiset.count_cons, Multiset.count_zero]
    simp only [eq_comm (a := k)]
    omega
  · intro g
    have hsum := fds_update s.proc (x := ⟨true, (s.proc p).ofile, ip⟩) hp.1 g
    simp only [Proc.fds, hlive, if_true] at hsum
    show fds (Function.update u.proc p ⟨(u.proc p).live, (u.proc p).ofile, ip⟩) g + _ = _
    rw [hproc, hlive]
    omega

/-- `chdir`, to a directory or not. -/
lemma rest_sys_chdir {path : Option (List UInt8)} (h : Rest s 0 0 0 0) (hp : s.Live p) :
    wp Calm (sys_chdir p path) (fun _ t => Rest t 0 0 0 0) s := by
  apply wp_seq (h.keeps keeps_begin_op)
  intro _ t ht
  have hfail : ∀ {u : State}, Rest u 0 0 0 0 →
      wp Calm (do end_op p; return failed) (fun _ t => Rest t 0 0 0 0) u := by
    intro u hu
    apply wp_seq (hu.keeps keeps_end_op)
    intro _ v hv
    exact hv.1
  rcases path with _ | path
  · exact hfail ht.1
  · apply wp_seq (ht.1.spec fun T tab => spec_namei)
    intro r u hu
    rcases r with _ | ip
    · exact hfail hu.1
    · have hheld : Rest u (ip ::ₘ 0) 0 0 0 := hu.1
      apply wp_seq (hheld.spec fun T tab => spec_ilock)
      intro _ v hv
      rw [wp_bind, wp_get]
      have hvp : v.Live p := hp.of_proc (congrArg Tables.proc (hv.2.trans (hu.2.trans ht.2)))
      split
      · apply wp_seq (hv.1.spec fun T tab => spec_iunlockput)
        intro _ w hw
        exact hfail hw.1
      · apply wp_seq (hv.1.spec fun T tab => spec_iunlock)
        intro _ w hw
        exact rest_changeDir hw.1 (hvp.of_proc (congrArg Tables.proc hw.2))

/-- The files that the descriptors of a list refer to. -/
def filesOf (ofile : ℕ → Option ℕ) (is : List ℕ) : Multiset ℕ := (is.filterMap ofile : List ℕ)

/-- `fork` duplicates the files of the parent, by induction on the descriptors. -/
lemma rest_forkFiles (hp : s.Live p) (is : List ℕ) : ∀ {F : Multiset ℕ} {t : State},
    (∀ i ∈ is, i < NOFILE) → Rest t H L F E → t.proc = s.proc →
      wp Calm (forkFiles p is) (fun _ u => Rest u H L (F + filesOf (s.proc p).ofile is) E ∧
        u.proc = s.proc) t := by
  induction is with
  | nil =>
    intro F t _ h ht
    refine ⟨?_, ht⟩
    show Rest t H L (F + filesOf (s.proc p).ofile []) E
    simpa [filesOf] using h
  | cons i is ih =>
    intro F t his h ht
    have hi := his i List.mem_cons_self
    have his' : ∀ j ∈ is, j < NOFILE := fun j hj => his j (List.mem_cons_of_mem _ hj)
    unfold forkFiles
    rw [wp_bind, wp_get]
    rcases hf : (t.proc p).ofile i with _ | f
    · have hsame : filesOf (s.proc p).ofile (i :: is) = filesOf (s.proc p).ofile is := by
        rw [← ht]
        simp [filesOf, hf]
      rw [hsame]
      exact ih his' h ht
    · have htp : t.Live p := hp.of_proc ht
      have hmore : filesOf (s.proc p).ofile (i :: is) = f ::ₘ filesOf (s.proc p).ofile is := by
        rw [← ht]
        simp [filesOf, hf]
      apply wp_seq (Bal.filedup h (fds_pos htp hi hf))
      intro _ u hu
      have hrest : Rest u H L (f ::ₘ F) E := by
        unfold Rest
        rw [hu.2]
        exact hu.1
      apply wp_mono (ih his' hrest (hu.2.trans ht))
      intro _ v hv
      refine ⟨?_, hv.2⟩
      rw [hmore, Multiset.add_cons, ← Multiset.cons_add]
      exact hv.1

/-- All descriptors of a process are among the first `NOFILE`. -/
lemma count_filesOf (ofile : ℕ → Option ℕ) (g : ℕ) :
    (filesOf ofile (List.range NOFILE)).count g =
      ((Finset.range NOFILE).filter fun fd => ofile fd = some g).card := by
  have hlist : ∀ is : List ℕ, (filesOf ofile is).count g = is.countP fun fd => ofile fd = some g := by
    intro is
    induction is with
    | nil => rfl
    | cons i is ih =>
      unfold filesOf at ih ⊢
      rcases hi : ofile i with _ | f
      · simp [hi] at ih ⊢
        exact ih
      · simp only [List.filterMap_cons, hi, ← Multiset.cons_coe, Multiset.count_cons,
          List.countP_cons, ih, decide_eq_true_eq, Option.some.injEq, eq_comm (a := g)]
  rw [hlist, List.countP_eq_length_filter]
  rfl

/-- `fork` doubles the references of the process, or fails before it takes any. -/
lemma rest_fork {np : Option ℕ} (h : Rest s 0 0 0 0) (hp : s.Live p) :
    wp Calm (fork p np) (fun _ t => Rest t 0 0 0 0) s := by
  rcases np with _ | np
  · exact h
  · apply wp_seq (rest_forkFiles hp (List.range NOFILE) (fun i hi => List.mem_range.mp hi) h rfl)
    intro _ t ht
    rw [zero_add] at ht
    rw [wp_bind, wp_get]
    apply wp_seq (ht.1.spec fun T tab => spec_idup)
    intro cwd u hu
    rw [wp_act]
    split
    · trivial
    · next hnp =>
      have hlt : np < NPROC := by
        by_contra hge
        exact hnp (.inl (by omega))
      have hdead : (u.proc np).live = false := by
        by_contra hlive
        exact hnp (.inr (by simpa using hlive))
      have hproc : u.proc = s.proc := (congrArg Tables.proc hu.2).trans ht.2
      apply Bal.setProc hu.1
      · intro k
        have hsum := cwds_update u.proc (x := ⟨true, (u.proc p).ofile, cwd⟩) hlt k
        simp only [Proc.cwdRef, hdead, true_and, Bool.false_eq_true, false_and, if_false] at hsum
        rw [Multiset.count_cons, Multiset.count_zero]
        show cwds (Function.update u.proc np ⟨true, (u.proc p).ofile, cwd⟩) k + _ = _
        simp only [eq_comm (a := k)]
        omega
      · intro g
        have hsum := fds_update u.proc (x := ⟨true, (u.proc p).ofile, cwd⟩) hlt g
        simp only [Proc.fds, hdead, Bool.false_eq_true, if_false, if_true] at hsum
        rw [count_filesOf, Multiset.count_zero]
        show fds (Function.update u.proc np ⟨true, (u.proc p).ofile, cwd⟩) g + _ = _
        rw [← hproc]
        omega

/-- A file is closed while its descriptor still refers to it, and then the descriptor goes. -/
theorem rest_exitFile {fd : ℕ} (h : Rest s 0 0 0 0) (hp : s.Live p) (hfd : fd < NOFILE)
    (hf : (s.proc p).ofile fd = some f) :
    wp Calm (do fileclose p f; setOfile p fd none) (fun _ t =>
      Rest t 0 0 0 0 ∧ t.proc = (s.setFd p fd none).proc) s := by
  have hmove : Bal s (cwds s.proc) (fds (s.setFd p fd none).proc) 0 0 (f ::ₘ 0) 0 := by
    apply Bal.move h
    · exact fun k => rfl
    · intro g
      have hsum := fds_setFd (v := none) hp hfd g
      rw [hf] at hsum
      simp only [reduceCtorEq, if_false, Option.some.injEq] at hsum
      rw [Multiset.count_cons, Multiset.count_zero]
      simp only [eq_comm (a := g)]
      omega
  apply wp_seq hmove.fileclose
  intro _ t ht
  have hproc : (t.setFd p fd none).proc = (s.setFd p fd none).proc := by
    unfold State.setFd State.setProc
    rw [ht.2]
  refine ⟨?_, hproc⟩
  show Rest (t.setFd p fd none) 0 0 0 0
  unfold Rest
  rw [hproc, cwds_setFd]
  exact Bal.setProc ht.1 (fun _ => rfl) fun _ => rfl

/-- `exit` closes the files, by induction on the descriptors. -/
lemma rest_exitFiles (hp : p < NPROC) (is : List ℕ) : ∀ {t : State}, (∀ i ∈ is, i < NOFILE) →
    Rest t 0 0 0 0 → (t.proc p).live = true →
      wp Calm (exitFiles p is) (fun _ u => Rest u 0 0 0 0 ∧ (u.proc p).live = true ∧
        ∀ i, i ∈ is ∨ (t.proc p).ofile i = none → (u.proc p).ofile i = none) t := by
  induction is with
  | nil =>
    intro t _ h hlive
    refine ⟨h, hlive, fun i hi => ?_⟩
    rcases hi with hi | hi
    · exact absurd hi List.not_mem_nil
    · exact hi
  | cons i is ih =>
    intro t his h hlive
    have his' : ∀ j ∈ is, j < NOFILE := fun j hj => his j (List.mem_cons_of_mem _ hj)
    unfold exitFiles
    rw [wp_bind, wp_get]
    -- an empty slot needs no close
    rcases hf : (t.proc p).ofile i with _ | f
    · apply wp_mono (ih his' h hlive)
      intro _ u hu
      refine ⟨hu.1, hu.2.1, fun j hj => hu.2.2 j ?_⟩
      rcases hj with hj | hj
      · rcases List.mem_cons.mp hj with rfl | hj
        · exact .inr hf
        · exact .inl hj
      · exact .inr hj
    · have hclose := rest_exitFile h ⟨hp, hlive⟩ (his i List.mem_cons_self) hf
      rw [wp_bind] at hclose
      dsimp only
      rw [wp_bind]
      apply wp_mono hclose
      intro _ u hu
      apply wp_seq hu
      intro _ v hv
      have hofile : (v.proc p).ofile = Function.update (t.proc p).ofile i none := by
        rw [hv.2]
        simp [State.setFd, State.setProc]
      have hvlive : (v.proc p).live = true := by
        rw [hv.2]
        exact (live_setFd (p := p) (s := t) ⟨hp, hlive⟩).2
      apply wp_mono (ih his' hv.1 hvlive)
      intro _ w hw
      refine ⟨hw.1, hw.2.1, fun j hj => hw.2.2 j ?_⟩
      by_cases hji : j = i
      · right
        rw [hofile, hji, Function.update_self]
      · rcases hj with hj | hj
        · exact .inl (List.mem_of_ne_of_mem hji hj)
        · right
          rw [hofile, Function.update_of_ne hji]
          exact hj

/-- `exit` closes the files and gives the directory back. -/
lemma rest_exit (h : Rest s 0 0 0 0) (hp : s.Live p) :
    wp Calm (exit p) (fun _ t => Rest t 0 0 0 0) s := by
  unfold exit
  split
  · exact (by decide : Calm .initExiting)
  · apply wp_seq (rest_exitFiles hp.1 _ (fun i hi => List.mem_range.mp hi) h hp.2)
    intro _ t ht
    obtain ⟨hrest, hlive, hnone⟩ := ht
    apply wp_seq (hrest.keeps keeps_begin_op)
    intro _ u hu
    have huproc : u.proc = t.proc := congrArg Tables.proc hu.2
    have hup : u.Live p := ⟨hp.1, by rw [huproc]; exact hlive⟩
    rw [wp_bind, wp_get, wp_bind]
    have hput := hu.1.putCwd hup
    rw [wp_bind] at hput
    apply wp_mono hput
    intro _ v hv
    rw [wp_bind]
    apply wp_mono hv
    intro _ w hw
    have hwproc : w.proc = u.proc := congrArg Tables.proc hw.2
    show Rest (w.setProc p ⟨false, (w.proc p).ofile, (w.proc p).cwd⟩) 0 0 0 0
    apply Bal.setProc hw.1
    · intro k
      rw [← hwproc]
      rfl
    · -- the process has no descriptors left that could go with it
      intro g
      have hsum := fds_update w.proc
        (x := ⟨false, (w.proc p).ofile, (w.proc p).cwd⟩) hp.1 g
      have hzero : (w.proc p).fds g = 0 := by
        unfold Proc.fds
        split
        · rw [Finset.card_eq_zero, Finset.filter_eq_empty_iff]
          intro fd hfd
          rw [hwproc, huproc, hnone fd (.inl (List.mem_range.mpr (Finset.mem_range.mp hfd)))]
          simp
        · rfl
      have hdead : Proc.fds ⟨false, (w.proc p).ofile, (w.proc p).cwd⟩ g = 0 := rfl
      show fds (Function.update w.proc p ⟨false, (w.proc p).ofile, (w.proc p).cwd⟩) g + _ = _
      rw [← hwproc]
      omega

/-! ### Pipes -/

/-- A new file takes over an end of a pipe. -/
lemma Rest.pipeFile {pg : ℕ} {w : Bool} (h : Rest s H L F ((pg, w) ::ₘ E)) (hf : f < NFILE)
    (hnone : (s.ftable f).type = .FD_NONE) (hpos : 0 < (s.ftable f).ref) :
    Rest (s.setFile f (pipeFile (s.ftable f) pg w)) H L F E := by
  apply Bal.setFile h hf
  · intro k
    have hnew : (Kernel.pipeFile (s.ftable f) pg w).inodeRef k = 0 := by
      unfold File.inodeRef Kernel.pipeFile
      simp
    rw [hnew, inodeRef_none hnone]
  · intro pg' w'
    have hnew : (Kernel.pipeFile (s.ftable f) pg w).pipeRef pg' w' =
        if (pg', w') = (pg, w) then 1 else 0 := by
      unfold File.pipeRef Kernel.pipeFile
      simp only [hpos, true_and, Prod.mk.injEq, eq_comm (a := pg), eq_comm (a := w)]
    rw [hnew, pipeRef_none hnone, Multiset.count_cons]
    omega
  · rfl
  · exact fun g hg => rfl
  · intro h0
    have : (s.ftable f).ref = 0 := h0
    omega

/-- `pipealloc` returns two files, to which a descriptor is owed each. -/
lemma rest_pipealloc {page : Option ℕ} (h : Rest s H L F E) :
    wp Calm (pipealloc p page) (fun r t => t.proc = s.proc ∧
      match r with
      | none => Rest t H L F E
      | some (f0, f1) => Rest t H L (f0 ::ₘ f1 ::ₘ F) E) s := by
  apply wp_seq (rest_filealloc h)
  intro r t ht
  rcases r with _ | f0
  · exact ht
  · obtain ⟨htp, htr, hlt0, hnone0, hone0, -⟩ := ht
    apply wp_seq (rest_filealloc htr)
    intro r u hu
    rcases r with _ | f1
    · apply wp_seq (rest_fileclose hu.2)
      intro _ v hv
      exact ⟨hv.2.trans (hu.1.trans htp), hv.1⟩
    · obtain ⟨hup, hur, hlt1, hnone1, hone1, hkeep⟩ := hu
      -- the first file is in use, so the second one is another
      have hne : f0 ≠ f1 := by
        intro heq
        have hcount : (u.ftable f1).ref = fds u.proc f1 + (f1 ::ₘ f0 ::ₘ F).count f1 :=
          hur.files.ref f1
        rw [heq, Multiset.count_cons_self, Multiset.count_cons_self] at hcount
        omega
      rcases page with _ | pg
      · have hswap : Rest u H L (f0 ::ₘ f1 ::ₘ F) E := by
          rw [Multiset.cons_swap]
          exact hur
        apply wp_seq (rest_fileclose hswap)
        intro _ v hv
        apply wp_seq (rest_fileclose hv.1)
        intro _ w hw
        exact ⟨hw.2.trans (hv.2.trans (hup.trans htp)), hw.1⟩
      · apply wp_seq (Bal.pipePage hur)
        intro _ v hv
        obtain ⟨hvb, hvp, hvf⟩ := hv
        have hvr : Rest v H L (f1 ::ₘ f0 ::ₘ F) ((pg, false) ::ₘ (pg, true) ::ₘ E) := by
          unfold Rest
          rw [hvp]
          exact hvb
        have hf0 : v.ftable f0 = t.ftable f0 := by rw [hvf, hkeep f0 hne]
        have hset0 := hvr.pipeFile hlt0 (by rw [hf0, hnone0]) (by rw [hf0, hone0]; exact Nat.one_pos)
        have hf1 : (v.setFile f0 (Kernel.pipeFile (v.ftable f0) pg false)).ftable f1 =
            u.ftable f1 := by
          simp only [State.setFile, Function.update_of_ne (Ne.symm hne)]
          rw [hvf]
        have hset1 := hset0.pipeFile hlt1 (by rw [hf1, hnone1])
          (by rw [hf1, hone1]; exact Nat.one_pos)
        rw [Multiset.cons_swap] at hset1
        exact ⟨hvp.trans (hup.trans htp), hset1⟩

/-- `pipe` keeps the balance, also where it has no descriptors left. -/
lemma rest_sys_pipe {ptr : Bool} {page : Option ℕ} (h : Rest s 0 0 0 0) (hp : s.Live p) :
    wp Calm (sys_pipe p ptr page) (fun _ t => Rest t 0 0 0 0) s := by
  unfold sys_pipe
  split
  · exact h
  · apply wp_seq (rest_pipealloc h)
    intro r t ht
    rcases r with _ | ⟨rf, wf⟩
    · exact ht.2
    · obtain ⟨htp, htr⟩ := ht
      have hlive : t.Live p := hp.of_proc htp
      have hclose : ∀ {u : State}, Rest u 0 0 (rf ::ₘ wf ::ₘ 0) 0 →
          wp Calm (do fileclose p rf; fileclose p wf; return failed)
            (fun _ t => Rest t 0 0 0 0) u := by
        intro u hu
        apply wp_seq (rest_fileclose hu)
        intro _ v hv
        apply wp_seq (rest_fileclose hv.1)
        intro _ w hw
        exact hw.1
      apply wp_seq wp_fdalloc
      intro r u hu
      rcases r with _ | fd0
      · subst hu
        exact hclose htr
      · obtain ⟨hfd0, hfree0, rfl⟩ := hu
        have hset0 := htr.setFd_some hlive hfd0 hfree0
        have hlive0 : (t.setFd p fd0 (some rf)).Live p := live_setFd hlive
        apply wp_seq wp_fdalloc
        intro r v hv
        rcases r with _ | fd1
        · subst hv
          have hof : ((t.setFd p fd0 (some rf)).proc p).ofile fd0 = some rf := by
            simp [State.setFd, State.setProc]
          exact hclose (hset0.setFd_none hlive0 hfd0 hof)
        · obtain ⟨hfd1, hfree1, rfl⟩ := hv
          exact hset0.setFd_some hlive0 hfd1 hfree1

/-! ### Every call -/

/-- A call on a descriptor. -/
lemma rest_withFd {fd : ℕ} {x : Option ℕ → M Ret} (h : Rest s 0 0 0 0) (hp : s.Live p)
    (hnone : wp Calm (x none) (fun _ t => Rest t 0 0 0 0) s)
    (hsome : ∀ f, f < NFILE → wp Calm (x (some f)) (fun _ t => Rest t 0 0 0 0) s) :
    wp Calm (argfd p fd >>= x) (fun _ t => Rest t 0 0 0 0) s := by
  apply wp_seq wp_argfd
  intro r t ht
  obtain ⟨rfl, hr⟩ := ht
  rcases r with _ | f
  · exact hnone
  · obtain ⟨hfd, hf⟩ := hr f rfl
    exact hsome f (h.lt_of_fd hp hfd hf)

/-- Every system call leaves the counts as they should be, on every path. -/
theorem rest_syscall (h : Rest s 0 0 0 0) (hp : s.Live p) (c : Call) :
    wp Calm (syscall p c) (fun _ t => Rest t 0 0 0 0) s := by
  -- these calls give back every reference they take
  have hkeeps : ∀ {x : M Ret}, Keeps x → wp Calm x (fun _ t => Rest t 0 0 0 0) s := by
    intro x hx
    apply wp_mono (h.keeps hx)
    intro _ t ht
    exact ht.1
  cases c with
  | dup fd => exact rest_sys_dup h hp
  | read fd n ext =>
    apply rest_withFd h hp
    · exact h
    intro f hf
    rcases n with _ | n
    · exact h
    · exact rest_fileread h hf
  | write fd src ext =>
    apply rest_withFd h hp
    · exact h
    intro f hf
    rcases src with _ | src
    · exact h
    · exact rest_filewrite h hf
  | close fd => exact rest_sys_close h hp
  | fstat fd =>
    apply rest_withFd h hp
    · exact h
    intro f hf
    apply wp_seq (h.keeps keeps_filestat)
    intro r t ht
    rcases r with _ | st <;> exact ht.1
  | fseek fd offset position =>
    apply rest_withFd h hp
    · exact h
    intro f hf
    exact rest_fileseek h hf
  | link old new => exact hkeeps keeps_sys_link
  | unlink path => exact hkeeps keeps_sys_unlink
  | «open» path omode => exact rest_sys_open h hp
  | mkdir path => exact hkeeps keeps_sys_mkdir
  | mknod path major minor => exact hkeeps keeps_sys_mknod
  | chdir path => exact rest_sys_chdir h hp
  | getcwd size stack => exact hkeeps keeps_sys_getcwd
  | exec path reads ext => exact hkeeps keeps_exec
  | fork np => exact rest_fork h hp
  | exit => exact rest_exit h hp
  | pipe ptr page => exact rest_sys_pipe h hp

end

end Kernel
end OhMyXv6
