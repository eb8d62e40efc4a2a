import OhMyXv6.Kernel.Counts

/-!
# References of the calls on files

A call on a file leaves the counts as they were, but for `open`, `dup` and `close`, which change the
descriptors of the process with them.
-/

namespace OhMyXv6
namespace Kernel

open Prog

section
variable {s : State} {cw cnt : ℕ → ℕ} {H L F : Multiset ℕ} {E : Multiset (ℕ × Bool)} {p f : ℕ}

/-! ## System calls -/

/-- A program that only holds and puts inodes leaves the files and pipes as they are. -/
lemma Rest.spec {α : Type} {x : M α} {H' L' : α → Multiset ℕ} (h : Rest s H L F E)
    (hx : ∀ T tab, Spec T tab H L x H' L') :
    wp Calm x (fun a t => Rest t (H' a) (L' a) F E ∧ t.tables = s.tables) s := by
  apply wp_mono (Bal.spec h hx)
  intro a t ht
  have hproc : t.proc = s.proc := congrArg Tables.proc ht.2
  refine ⟨?_, ht.2⟩
  unfold Rest
  rw [hproc]
  exact ht.1

/-- A program that holds what it held before leaves everything in balance. -/
lemma Rest.keeps {α : Type} {x : M α} (h : Rest s H L F E) (hx : Keeps x) :
    wp Calm x (fun _ t => Rest t H L F E ∧ t.tables = s.tables) s :=
  h.spec fun T tab => hx T tab H L

/-- The offset of a file is no part of any count. -/
lemma Rest.setOff {off : ℕ} (h : Rest s H L F E) (hf : f < NFILE) :
    Rest (s.setFile f { s.ftable f with off := off }) H L F E := by
  apply Bal.setFile h hf
  · exact fun k => rfl
  · exact fun pg w => rfl
  · rfl
  · exact fun g hg => rfl
  · exact h.files.free f

/-- A file with a descriptor is in the table. -/
lemma Rest.lt_of_fd {fd : ℕ} (h : Rest s H L F E) (hp : s.Live p) (hfd : fd < NOFILE)
    (hf : (s.proc p).ofile fd = some f) : f < NFILE := by
  have hpos := fds_pos hp hfd hf
  exact h.files.range f (h.ref_pos (by omega))

/-- `dup` counts one descriptor more for its file, or fails. -/
lemma rest_sys_dup {fd : ℕ} (h : Rest s 0 0 0 0) (hp : s.Live p) :
    wp Calm (sys_dup p fd) (fun _ t => Rest t 0 0 0 0) s := by
  apply wp_seq wp_argfd
  intro r t ht
  obtain ⟨rfl, hr⟩ := ht
  rcases r with _ | f
  · exact h
  · obtain ⟨hfd, hf⟩ := hr f rfl
    apply wp_seq wp_fdalloc
    intro r u hu
    rcases r with _ | fd'
    · rw [hu]
      exact h
    · obtain ⟨hfd', hfree, rfl⟩ := hu
      -- the descriptor is there before the count is raised
      have hb : Bal (t.setFd p fd' (some f)) (cwds t.proc) (fds t.proc) 0 0 0 0 :=
        Bal.setProc h (fun _ => rfl) fun _ => rfl
      apply wp_seq (hb.filedup (fds_pos hp hfd hf))
      intro _ v hv
      have hcnt : ∀ g, fds v.proc g + Multiset.count g 0 =
          fds t.proc g + Multiset.count g (f ::ₘ (0 : Multiset ℕ)) := by
        intro g
        have hsum := fds_setFd (v := some f) hp hfd' g
        rw [hfree] at hsum
        simp only [reduceCtorEq, if_false, Option.some.injEq] at hsum
        rw [hv.2, Multiset.count_cons, Multiset.count_zero]
        simp only [eq_comm (a := g)]
        omega
      exact hv.1.move (fun k => by rw [hv.2, cwds_setFd]) hcnt

/-- The offset of a file is not in the balance. -/
lemma rest_advance {r : ℕ} (h : Rest s H L F E) (hf : f < NFILE) :
    wp Calm (advance f r) (fun _ t => Rest t H L F E) s := h.setOff hf

/-- `fileread`, from whatever the file is. -/
lemma rest_fileread {n : ℕ} {ext : Ret} (h : Rest s H L F E) (hf : f < NFILE) :
    wp Calm (fileread p f n ext) (fun _ t => Rest t H L F E) s := by
  unfold fileread
  rw [wp_bind, wp_get]
  split
  · exact h
  · rcases (s.ftable f).type with _ | _ | _
    · exact (by decide : Calm .fileread)
    · exact h
    · rw [wp_bind, wp_get]
      split
      · exact h
      · apply wp_seq (h.spec fun T tab => spec_ilock)
        intro _ t ht
        unfold filereadInode
        rw [wp_bind, wp_get]
        apply wp_seq (ht.1.keeps keeps_readi)
        intro r u hu
        rcases r with _ | data
        · apply wp_seq (hu.1.spec fun T tab => spec_iunlock)
          intro _ v hv
          exact hv.1
        · apply wp_seq (rest_advance hu.1 hf)
          intro _ v hv
          apply wp_seq (hv.spec fun T tab => spec_iunlock)
          intro _ w hw
          exact hw.1

/-- One transaction of `filewrite` keeps the balance. -/
lemma rest_filewriteRound {ip : ℕ} {src : List UInt8} (h : Rest s H L F E) (hf : f < NFILE) :
    wp Calm (filewriteRound p f ip src) (fun _ t => Rest t H L F E) s := by
  apply wp_seq (h.keeps keeps_begin_op)
  intro _ t ht
  apply wp_seq (ht.1.spec fun T tab => spec_ilock)
  intro _ u hu
  rw [wp_bind, wp_get]
  apply wp_seq (hu.1.keeps keeps_writei)
  intro r v hv
  apply wp_seq (rest_advance hv.1 hf)
  intro _ w hw
  apply wp_seq (hw.spec fun T tab => spec_iunlock)
  intro _ x hx
  apply wp_seq (hx.1.keeps keeps_end_op)
  intro _ y hy
  exact hy.1

/-- The loop of `filewrite` keeps the balance, by induction on the transactions. -/
lemma rest_filewriteLoop {ip : ℕ} (hf : f < NFILE) (fuel : ℕ) : ∀ (src : List UInt8) (s : State),
    Rest s H L F E → wp Calm (filewriteLoop p f ip fuel src) (fun _ t => Rest t H L F E) s := by
  induction fuel with
  | zero => exact fun _ _ h => h
  | succ fuel ih =>
    intro src s h
    unfold filewriteLoop
    split
    · exact h
    · apply wp_seq (rest_filewriteRound h hf)
      intro r t ht
      rcases r with _ | r
      · exact ht
      · dsimp only
        split
        · exact (by decide : Calm .shortFilewrite)
        · exact ih _ t ht

/-- `filewrite` keeps the balance. -/
lemma rest_filewrite {src : List UInt8} {ext : Ret} (h : Rest s H L F E) (hf : f < NFILE) :
    wp Calm (filewrite p f src ext) (fun _ t => Rest t H L F E) s := by
  unfold filewrite
  rw [wp_bind, wp_get]
  split
  · exact h
  · rcases (s.ftable f).type with _ | _ | _
    · exact (by decide : Calm .filewrite)
    · exact h
    · rw [wp_bind, wp_get]
      split
      · exact h
      · apply wp_seq (rest_filewriteLoop hf _ src s h)
        intro _ t ht
        exact ht

/-- `filestat` holds nothing afterwards. -/
lemma keeps_filestat : Keeps (filestat p f) := by
  intro T tab H L
  apply Spec.bind (keeps_get _ _ _ _)
  intro x
  split
  · exact Spec.bind spec_ilock fun _ => Spec.bind (keeps_get _ _ _ _) fun _ =>
      Spec.bind spec_iunlock fun _ => spec_pure rfl rfl
  · exact spec_pure rfl rfl

/-- `fileseek` changes an offset, or fails. -/
lemma rest_fileseek {offset position : ℤ} (h : Rest s H L F E) (hf : f < NFILE) :
    wp Calm (fileseek p f offset position) (fun _ t => Rest t H L F E) s := by
  apply wp_seq (h.keeps keeps_filestat)
  intro r t ht
  rcases r with _ | st
  · exact ht.1
  · dsimp only
    rw [wp_bind, wp_get]
    rcases seekTarget (t.ftable f).off st.size offset position with _ | target
    · exact ht.1
    · exact ht.1.setOff hf

/-- `close` gives one reference to the file back, with its descriptor. -/
lemma rest_sys_close {fd : ℕ} (h : Rest s 0 0 0 0) (hp : s.Live p) :
    wp Calm (sys_close p fd) (fun _ t => Rest t 0 0 0 0) s := by
  apply wp_seq wp_argfd
  intro r t ht
  obtain ⟨rfl, hr⟩ := ht
  rcases r with _ | f
  · exact h
  · obtain ⟨hfd, hf⟩ := hr f rfl
    have hset : wp Calm (setOfile p fd none) (fun _ u => u = t.setFd p fd none) t := rfl
    apply wp_seq hset
    intro _ u hu
    subst hu
    apply wp_seq (Bal.fileclose (h.setFd_none hp hfd hf))
    intro _ v hv
    show Rest v 0 0 0 0
    unfold Rest
    rw [hv.2]
    exact hv.1

/-- `fileclose` takes what is owed for one descriptor. -/
lemma rest_fileclose (h : Rest s H L (f ::ₘ F) E) :
    wp Calm (fileclose p f) (fun _ t => Rest t H L F E ∧ t.proc = s.proc) s := by
  apply wp_mono (Bal.fileclose h)
  intro _ t ht
  refine ⟨?_, ht.2⟩
  unfold Rest
  rw [ht.2]
  exact ht.1

/-- `filealloc` returns a file without a type, to which one descriptor is owed. -/
lemma rest_filealloc (h : Rest s H L F E) : wp Calm filealloc (fun r t => t.proc = s.proc ∧
    match r with
    | none => Rest t H L F E
    | some f => Rest t H L (f ::ₘ F) E ∧ f < NFILE ∧ (t.ftable f).type = .FD_NONE ∧
        (t.ftable f).ref = 1 ∧ ∀ g, g ≠ f → t.ftable g = s.ftable g) s := by
  apply wp_mono (Bal.filealloc h)
  intro r t ht
  refine ⟨ht.1, ?_⟩
  rcases r with _ | f
  · unfold Rest
    rw [ht.1]
    exact ht.2
  · refine ⟨?_, ht.2.2⟩
    unfold Rest
    rw [ht.1]
    exact ht.2.1

/-- Whether a process lives is in its slot. -/
lemma State.Live.of_proc {t : State} (h : s.Live p) (ht : t.proc = s.proc) : t.Live p := by
  unfold State.Live
  rw [ht]
  exact h

/-- The new file takes over the reference to its inode. -/
lemma Rest.openFile {ip omode : ℕ} (h : Rest s (ip ::ₘ H) L F E) (hf : f < NFILE)
    (hnone : (s.ftable f).type = .FD_NONE) (hpos : 0 < (s.ftable f).ref) :
    Rest (s.setFile f (openFile (s.ftable f) ip omode)) H L F E := by
  apply Bal.setFile h hf
  · intro k
    have hnew : (Kernel.openFile (s.ftable f) ip omode).inodeRef k = if ip = k then 1 else 0 := by
      unfold File.inodeRef Kernel.openFile
      simp only [hpos, true_and]
    rw [hnew, inodeRef_none hnone, Multiset.count_cons]
    simp only [eq_comm (a := k)]
    omega
  · intro pg w
    have hnew : (Kernel.openFile (s.ftable f) ip omode).pipeRef pg w = 0 := by
      unfold File.pipeRef Kernel.openFile
      simp
    rw [hnew, pipeRef_none hnone]
  · rfl
  · exact fun g hg => rfl
  · intro h0
    have : (s.ftable f).ref = 0 := h0
    omega

/-- `open` without a file or a descriptor left puts its inode. -/
lemma spec_openFull {T : Tables} {tab : ℕ → ℕ} {ip : ℕ} :
    Spec T tab (ip ::ₘ H) (ip ::ₘ L) (openFull p ip) (fun _ => H) (fun _ => L) :=
  Spec.bind spec_iunlockput fun _ => Spec.bind (keeps_end_op _ _ _ _) fun _ => spec_pure rfl rfl

/-- `open` keeps the balance, also where it fails. -/
lemma rest_sys_open {path : Option (List UInt8)} {omode : ℕ} (h : Rest s 0 0 0 0)
    (hp : s.Live p) : wp Calm (sys_open p path omode) (fun _ t => Rest t 0 0 0 0) s := by
  rcases path with _ | path
  · exact h
  · apply wp_seq (h.keeps keeps_begin_op)
    intro _ t ht
    apply wp_seq (ht.1.spec fun T tab => spec_openInode)
    intro r u hu
    have hup : u.Live p := hp.of_proc (congrArg Tables.proc (hu.2.trans ht.2))
    rcases r with _ | ip
    · apply wp_seq (hu.1.keeps keeps_end_op)
      intro _ v hv
      exact hv.1
    · have hheld : Rest u (ip ::ₘ 0) (ip ::ₘ 0) 0 0 := hu.1
      apply wp_seq (rest_filealloc hheld)
      intro r v hv
      rcases r with _ | f
      · dsimp only
        apply wp_mono (hv.2.spec fun T tab => spec_openFull)
        intro _ w hw
        exact hw.1
      · obtain ⟨hproc, hrest, hf, hnone, hone, -⟩ := hv
        have hvp : v.Live p := hup.of_proc hproc
        apply wp_seq wp_fdalloc
        intro r w hw
        rcases r with _ | fd
        · -- the new file has no type yet, so closing it drops no inode
          subst hw
          apply wp_seq (rest_fileclose hrest)
          intro _ x hx
          apply wp_mono (hx.1.spec fun T tab => spec_openFull)
          intro _ y hy
          exact hy.1
        · obtain ⟨hfd, hfree, rfl⟩ := hw
          have hset := hrest.setFd_some hvp hfd hfree
          apply wp_seq (hset.spec fun T tab => spec_iunlock)
          intro _ x hx
          apply wp_seq (hx.1.keeps keeps_end_op)
          intro _ y hy
          have hft : y.ftable = v.ftable := congrArg Tables.ftable (hy.2.trans hx.2)
          refine hy.1.openFile hf ?_ ?_
          · rw [hft, hnone]
          · rw [hft, hone]
            exact Nat.one_pos

end

end Kernel
end OhMyXv6
