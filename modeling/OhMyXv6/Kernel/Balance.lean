import OhMyXv6.Kernel.ProcCalls

/-!
# References between system calls

Between two system calls the running call has nothing, so the count of a cached inode is the number
of open files and current directories that refer to it, and the count of a file the number of
descriptors. This is proved for every call, whatever it answers, by following what each of its
exits has taken so far.
-/

namespace OhMyXv6
namespace Kernel

open Prog

/-! ## Between the calls -/

/-- The count of every cached inode is the number of open files and of current directories that
refer to it, and no inode is locked. -/
structure InodeBalance (s : State) : Prop where
  ref : ∀ k, (s.icache k).ref = inodeFiles s.ftable k + cwds s.proc k
  unlocked : ∀ k, (s.icache k).lock = none

/-- The count of every file is the number of its descriptors, a free file has no type, and an end
of a pipe is open as long as a file, and then one file, is that end. -/
structure FileBalance (s : State) : Prop where
  ref : ∀ f, (s.ftable f).ref = fds s.proc f
  free : ∀ f, (s.ftable f).ref = 0 → (s.ftable f).type = .FD_NONE
  range : ∀ f, 0 < (s.ftable f).ref → f < NFILE
  ends : ∀ pg w, pipeFiles s.ftable pg w = if isOpen s.pipe pg w then 1 else 0
  page : ∀ pg, s.pipe pg ≠ some ⟨false, false⟩

/-- All counts are what the tables say. -/
structure Balanced (s : State) : Prop where
  inodes : InodeBalance s
  files : FileBalance s

section
variable {s t : State}

/-- Between two calls nothing is held. -/
lemma rest_iff_balanced : Rest s 0 0 0 0 ↔ Balanced s := by
  constructor
  · intro h
    refine ⟨⟨fun k => ?_, fun k => ?_⟩, ⟨fun f => ?_, h.files.free, h.files.range, fun pg w => ?_,
      h.files.page⟩⟩
    · rw [h.refs.ref k, Multiset.count_zero, Nat.add_zero]
    · have hlock := h.refs.lock k
      by_contra hne
      rw [if_pos (Option.isSome_iff_ne_none.mpr hne), Multiset.count_zero] at hlock
      omega
    · have href := h.files.ref f
      rw [Multiset.count_zero, Nat.add_zero] at href
      exact href
    · have hends := h.files.ends pg w
      rw [Multiset.count_zero, Nat.add_zero] at hends
      exact hends
  · intro h
    refine ⟨⟨rfl, fun k => ?_, fun k => ?_⟩, ⟨fun f => ?_, h.files.free, h.files.range,
      fun pg w => ?_, h.files.page⟩⟩
    · rw [h.inodes.ref k, Multiset.count_zero, Nat.add_zero]
    · rw [h.inodes.unlocked k]
      rfl
    · rw [Multiset.count_zero, Nat.add_zero]
      exact h.files.ref f
    · rw [Multiset.count_zero, Nat.add_zero]
      exact h.files.ends pg w

/-- **One call** keeps the balance. -/
lemma Balanced.call {c : ℕ × Call} (h : Balanced s) (hcall : call s c = some t) :
    Balanced t := by
  obtain ⟨hlive, r, hr⟩ := call_eq_some hcall
  have hwp := rest_syscall (rest_iff_balanced.mpr h) hlive c.2
  exact rest_iff_balanced.mp (wp_done (Q := fun _ t => Rest t 0 0 0 0) hwp hr)

lemma Balanced.run {cs : List (ℕ × Call)} (h : Balanced s)
    (hrun : Runs.run Kernel.call s cs = some t) : Balanced t :=
  Runs.invariant (fun _ _ _ hI hstep => hI.call hstep) h hrun

/-- When the kernel has started, only the first process refers to anything. -/
theorem balanced_boot (d : Disk) : Balanced (boot d) := by
  have hfiles : ∀ k, inodeFiles (boot d).ftable k = 0 := by
    intro k
    apply Finset.sum_eq_zero
    intro f _
    exact inodeRef_none rfl k
  have hcwds : ∀ k, cwds (boot d).proc k = if k = 0 then 1 else 0 := by
    intro k
    unfold cwds
    rw [Finset.sum_eq_single_of_mem 0 (Finset.mem_range.mpr (by decide))]
    · simp [boot, Proc.cwdRef, eq_comm]
    · intro p _ hp
      simp [boot, Proc.cwdRef, hp]
  refine ⟨⟨fun k => ?_, fun k => ?_⟩, ⟨fun f => ?_, fun f _ => rfl, fun f hf => ?_,
    fun pg w => ?_, fun pg => ?_⟩⟩
  · rw [hfiles, hcwds]
    by_cases hk : k = 0
    · simp [boot, hk]
    · simp [boot, hk]
  · by_cases hk : k = 0
    · simp [boot, hk]
    · simp [boot, hk]
  · symm
    apply Finset.sum_eq_zero
    intro p _
    simp [boot, Proc.fds]
  · exact absurd hf (Nat.lt_irrefl 0)
  · have hsum : pipeFiles (boot d).ftable pg w = 0 := by
      apply Finset.sum_eq_zero
      intro f _
      exact pipeRef_none rfl pg w
    rw [hsum]
    rfl
  · intro h
    cases h

/-- **Inode references are balanced.** After any calls of any processes, with any answers, the
count of every cached inode is the number of open files and current directories that refer to it,
and no inode is locked. -/
theorem inode_balance {cs : List (ℕ × Call)} (h : Balanced s)
    (hrun : Runs.run call s cs = some t) : InodeBalance t := (h.run hrun).inodes

/-- Calls that share files and a pipe between two processes and remove a directory that is open. -/
def Demo.shared : List (ℕ × Call) :=
  [(0, .open (some pathAB) 0), (0, .dup 0), (0, .fork (some 1)), (1, .chdir (some pathA)),
    (1, .pipe true (some 7)), (0, .close 0), (1, .unlink (some pathAB)), (1, .exit), (0, .close 1)]

theorem inode_balance_shared :
    ∃ t, Runs.run call (boot Demo.disk) Demo.shared = some t ∧ InodeBalance t := by
  have hsome : (Runs.run call (boot Demo.disk) Demo.shared).isSome = true := by decide +kernel
  obtain ⟨t, ht⟩ := Option.isSome_iff_exists.mp hsome
  exact ⟨t, ht, inode_balance (balanced_boot _) ht⟩

/-- A file with a positive count has a descriptor. -/
lemma exists_fd {f : ℕ} (h : 0 < fds s.proc f) :
    ∃ p fd, s.Live p ∧ fd < NOFILE ∧ (s.proc p).ofile fd = some f := by
  obtain ⟨p, hp, hne⟩ := Finset.exists_ne_zero_of_sum_ne_zero (Nat.pos_iff_ne_zero.mp h)
  unfold Proc.fds at hne
  by_cases hlive : (s.proc p).live = true
  · rw [if_pos hlive] at hne
    obtain ⟨fd, hfd⟩ := Finset.card_pos.mp (Nat.pos_iff_ne_zero.mpr hne)
    rw [Finset.mem_filter, Finset.mem_range] at hfd
    exact ⟨p, fd, ⟨Finset.mem_range.mp hp, hlive⟩, hfd.1, hfd.2⟩
  · rw [if_neg hlive] at hne
    exact absurd rfl hne

/-- The descriptor is one end of the pipe in page `pg`. -/
def IsEnd (s : State) (p fd pg : ℕ) (writable : Bool) : Prop :=
  s.Live p ∧ fd < NOFILE ∧ ∃ f, (s.proc p).ofile fd = some f ∧
    (s.ftable f).type = .FD_PIPE ∧ (s.ftable f).pipe = pg ∧ (s.ftable f).writable = writable

/-- An end of a pipe is open as long as there is a descriptor for it. -/
theorem Balanced.isOpen_iff (h : Balanced s) (pg : ℕ) (w : Bool) :
    isOpen s.pipe pg w = true ↔ ∃ p fd, IsEnd s p fd pg w := by
  have hends := h.files.ends pg w
  constructor
  · intro hopen
    rw [if_pos hopen] at hends
    have hne : pipeFiles s.ftable pg w ≠ 0 := by omega
    obtain ⟨f, hf, hne⟩ := Finset.exists_ne_zero_of_sum_ne_zero hne
    unfold File.pipeRef at hne
    by_cases hx : 0 < (s.ftable f).ref ∧ (s.ftable f).type = .FD_PIPE ∧ (s.ftable f).pipe = pg ∧
        (s.ftable f).writable = w
    · rw [h.files.ref f] at hx
      obtain ⟨p, fd, hlive, hfd, hof⟩ := exists_fd hx.1
      exact ⟨p, fd, hlive, hfd, f, hof, hx.2⟩
    · rw [if_neg hx] at hne
      exact absurd rfl hne
  · rintro ⟨p, fd, hlive, hfd, f, hof, hx⟩
    have hpos : 0 < (s.ftable f).ref := by
      rw [h.files.ref f]
      exact fds_pos hlive hfd hof
    by_contra hclosed
    rw [if_neg hclosed] at hends
    have hzero := (Finset.sum_eq_zero_iff.mp hends) f
      (Finset.mem_range.mpr (h.files.range f hpos))
    unfold File.pipeRef at hzero
    rw [if_pos ⟨hpos, hx⟩] at hzero
    exact absurd hzero (by omega)

/-- **File counts are balanced.** After any calls of any processes, the count of every file is the
number of its descriptors; an end of a pipe is open exactly as long as there are descriptors for
it, and an inode is referred to once by each open file. No further call finds a count that has run
out, or closes an end of a pipe that is closed already: what the last descriptor of a file stands
for is released once. -/
theorem file_balance {cs : List (ℕ × Call)} (h : Balanced s)
    (hrun : Runs.run call s cs = some t) : FileBalance t ∧
      (∀ pg w, isOpen t.pipe pg w = true ↔ ∃ p fd, IsEnd t p fd pg w) ∧
      (∀ k, (t.icache k).ref = inodeFiles t.ftable k + cwds t.proc k) ∧
      ∀ p c e, t.Live p → (syscall p c).exec t = .stop e →
        e ≠ .filedup ∧ e ≠ .fileclose ∧ e ≠ .refBelowZero ∧ e ≠ .endReleased := by
  have ht := h.run hrun
  refine ⟨ht.files, ht.isOpen_iff, ht.inodes.ref, fun p c e hlive hstop => ?_⟩
  have hcalm : Calm e := wp_stop (rest_syscall (rest_iff_balanced.mpr ht) hlive c) hstop
  exact hcalm

theorem file_balance_shared :
    ∃ t, Runs.run call (boot Demo.disk) Demo.shared = some t ∧ FileBalance t := by
  have hsome : (Runs.run call (boot Demo.disk) Demo.shared).isSome = true := by decide +kernel
  obtain ⟨t, ht⟩ := Option.isSome_iff_exists.mp hsome
  exact ⟨t, ht, (file_balance (balanced_boot _) ht).1⟩

end

end Kernel
end OhMyXv6
