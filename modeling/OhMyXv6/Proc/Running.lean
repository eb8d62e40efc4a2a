import OhMyXv6.Proc.Forking

/-!
# RUNNING processes

In every run a process is RUNNING exactly when it is the current process of one CPU, except while the CPU
that holds `ptable.lock` switches to it or away from it.
-/

namespace OhMyXv6
namespace Sched

open Ptable (Slot Chan initproc)

variable {κ : Type}

section
variable {s t : St κ} {c d : κ} {i : Slot}
variable [DecidableEq κ]

/-! ## Whole runs -/

lemma Inv.next {a : κ × Move} (h : Inv s) (hst : s.next a = some t) : Inv t :=
  ⟨h.toCore.next h.toForks hst, h.toForks.next h.toCore hst⟩

end

lemma start_proc (i : Slot) : ((start κ).proc i).state ≠ .RUNNING ∧
    ((start κ).proc i).context.bind Context.np = none := by
  unfold start
  dsimp only
  split
  · exact ⟨by simp, rfl⟩
  · exact ⟨by simp, rfl⟩

lemma start_carries (x : κ ⊕ Slot) : (start κ).carries x = none := by
  cases x with
  | inl c => rfl
  | inr i => exact (start_proc i).2

lemma inv_start : Inv (start κ) where
  lock := fun c => by simp [start, Pc.holds]
  frame := fun c => ⟨rfl, rfl, rfl⟩
  want := fun c i hi => by cases hi
  inj := fun c d i hi => by cases hi
  running := fun i hi => absurd hi (start_proc i).1
  reaps := fun c i hi => by cases hi
  embryo := fun x np hx => by
    rw [start_carries] at hx
    cases hx
  single := fun x y np hx => by
    rw [start_carries] at hx
    cases hx

/-- CPU `c` switches to process `i` or away from it: it is the current process and its state is not
RUNNING yet, or not any more. -/
def St.Switching (s : St κ) (c : κ) (i : Slot) : Prop :=
  (s.cpu c).proc = some i ∧
    match (s.cpu c).pc with
    | .picked _ | .mapped _ | .sched _ | .back _ | .unmapped _ => True
    | _ => False

/-- CPU `c` is in `wait` and about to free the kernel stack or the page table of process `i`. -/
def St.Frees (s : St κ) (c : κ) (i : Slot) : Prop :=
  (s.cpu c).pc = .waitStack i ∨ (s.cpu c).pc = .waitVm i

section
variable {s : St κ} {c d : κ} {i : Slot}

/-- The current process of a CPU that is not switching is RUNNING. -/
theorem Inv.running_of_current (h : Inv s) (hi : (s.cpu c).proc = some i)
    (hnot : ¬ s.Switching c i) : (s.proc i).state = .RUNNING := by
  have hwant := h.want c i hi
  cases hpc : (s.cpu c).pc <;> rw [hpc] at hwant <;>
    first | exact hwant | exact absurd ⟨hi, by rw [hpc]; trivial⟩ hnot

/-- A switch happens under the lock. -/
lemma Inv.locked_of_switching (h : Inv s) (hsw : s.Switching c i) : s.lock = some c := by
  apply (h.lock c).mp
  obtain ⟨-, hpc⟩ := hsw
  cases heq : (s.cpu c).pc <;> rw [heq] at hpc <;> first | rfl | cases hpc

/-- A CPU that runs on the stack of a process or uses its page table has it as its current one. -/
theorem Core.current_of_stack (h : Core s) (hi : (s.cpu d).stack = some i ∨ (s.cpu d).cr3 = some i) :
    (s.cpu d).proc = some i := by
  have hframe := h.frame d
  unfold Cpu.Frame at hframe
  split at hframe
  all_goals
    first
    | obtain ⟨j, hp, hst, hcr, -⟩ := hframe
      rw [hst, hcr, or_self] at hi
      rw [hp, hi]
    | obtain ⟨hp, hst, hcr⟩ := hframe
      rw [hst, hcr] at hi
      rcases hi with hi | hi
      · cases hi
      · first | exact hp.trans hi | exact absurd hi (Option.some_ne_none i).symm

/-- **The states of the processes agree with what the CPUs run**, in every interleaving. -/
theorem running_iff_current [DecidableEq κ] {acts : List (κ × Move)}
    (hrun : Runs.run St.next (start κ) acts = some s) :
    (∀ i, ((s.proc i).state = .RUNNING ↔ ∃! c, (s.cpu c).proc = some i) ∨
      ∃ c, s.lock = some c ∧ s.Switching c i) ∧
    (∀ c d i, (s.cpu c).proc = some i → (s.cpu d).proc = some i → c = d) ∧
    (s.lock = none → ∀ i, (s.proc i).state = .SLEEPING ∨ (s.proc i).state = .ZOMBIE →
      ∀ c, (s.cpu c).proc ≠ some i) ∧
    ∀ c i, s.Frees c i → ∀ d, (s.cpu d).stack ≠ some i ∧ (s.cpu d).cr3 ≠ some i := by
  have h : Inv s := Runs.invariant (fun _ _ _ hs hst => hs.next hst) inv_start hrun
  refine ⟨fun i => ?_, h.inj, fun hfree i hi c hc => ?_, fun c i hfrees d => ?_⟩
  · by_cases hsw : ∃ c, s.Switching c i
    · obtain ⟨c, hc⟩ := hsw
      exact .inr ⟨c, h.locked_of_switching hc, hc⟩
    · refine .inl ⟨fun hr => ?_, fun ⟨c, hc, _⟩ => ?_⟩
      · obtain ⟨c, hc⟩ := h.running i hr
        exact ⟨c, hc, fun d hd => h.inj d c i hd hc⟩
      · exact h.running_of_current hc fun hs => hsw ⟨c, hs⟩
  · have hr := h.running_of_unlocked (by rw [hfree]; exact (Option.some_ne_none c).symm) hc
    rw [hr] at hi
    simp at hi
  · -- the child is a zombie, and the CPU that waits has the lock
    have hreaps : (s.cpu c).pc.reaps = some i := by
      rcases hfrees with hpc | hpc <;> rw [hpc] <;> rfl
    have hz := h.reaps c i hreaps
    have hlock : s.lock = some c := by
      apply (h.lock c).mp
      rcases hfrees with hpc | hpc <;> rw [hpc] <;> rfl
    have hnot : (s.cpu d).proc ≠ some i := by
      intro hd
      by_cases hdc : d = c
      · have hwant := h.want d i hd
        rw [hdc, hz] at hwant
        rcases hfrees with hpc | hpc <;> rw [hpc] at hwant <;> cases hwant
      · have hr := h.running_of_locked hlock hdc hd
        rw [hz] at hr
        cases hr
    exact ⟨fun hs => hnot (h.current_of_stack (.inl hs)),
      fun hcr => hnot (h.current_of_stack (.inr hcr))⟩

/-- Two CPUs: the first one picks `init` and switches to it while the second one waits. -/
def pickActs : List (Bool × Move) := List.replicate 6 (true, .go)

theorem running_iff_current_pickActs : ∃ s, Runs.run St.next (start Bool) pickActs = some s ∧
    (s.cpu true).proc = some initproc ∧
    ((∀ i, ((s.proc i).state = .RUNNING ↔ ∃! c, (s.cpu c).proc = some i) ∨
      ∃ c, s.lock = some c ∧ s.Switching c i) ∧
    (∀ c d i, (s.cpu c).proc = some i → (s.cpu d).proc = some i → c = d) ∧
    (s.lock = none → ∀ i, (s.proc i).state = .SLEEPING ∨ (s.proc i).state = .ZOMBIE →
      ∀ c, (s.cpu c).proc ≠ some i) ∧
    ∀ c i, s.Frees c i → ∀ d, (s.cpu d).stack ≠ some i ∧ (s.cpu d).cr3 ≠ some i) :=
  ⟨_, rfl, rfl, running_iff_current (show Runs.run St.next (start Bool) pickActs = some _ from rfl)⟩

end

end Sched
end OhMyXv6
