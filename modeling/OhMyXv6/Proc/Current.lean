import Mathlib.Logic.Equiv.Basic
import OhMyXv6.Proc.Cpu

/-!
# Which process runs on which CPU

A process is RUNNING exactly when it is the current process of one CPU, except while the CPU that holds
`ptable.lock` switches to it or away from it. The invariant says for each program point which stack and
page table the CPU has and which state its current process is in (`Frame`, `Want`). Points at which the
process is not RUNNING hold the lock, so a CPU that has the lock finds the current processes of all
others RUNNING; that is why the steps under the lock cannot disturb them.

`fork` changes the state of the new process without the lock. The new process is EMBRYO then, and only
one task refers to it (`Forks`).
-/

namespace OhMyXv6
namespace Sched

open Ptable (Slot Chan initproc)

/-- The lock is held at this point. -/
def Pc.holds : Pc → Bool
  | .idle | .task _ => false
  | _ => true

/-- The state is one in which a process is switched away from. -/
def Off (st : Ptable.State) : Prop := st = .RUNNABLE ∨ st = .SLEEPING ∨ st = .ZOMBIE

/-- The state of the current process of a CPU at this point. -/
def Pc.Want : Pc → Ptable.State → Prop
  | .picked _, st | .mapped _, st => st = .RUNNABLE
  | .back _, st | .unmapped _, st | .sched _, st => Off st
  | _, st => st = .RUNNING

/-- Current process, stack and page table belong together. -/
def Cpu.Frame (x : Cpu) : Prop :=
  match x.pc with
  | .idle | .scan _ | .wakeup _ none | .release none =>
    x.proc = none ∧ x.stack = none ∧ x.cr3 = none
  | .picked i | .unmapped i => x.proc = some i ∧ x.stack = none ∧ x.cr3 = none
  | .mapped i | .marked i | .back i => x.proc = some i ∧ x.stack = none ∧ x.cr3 = some i
  | _ => ∃ i, x.proc = some i ∧ x.stack = some i ∧ x.cr3 = some i ∧ x.scheduler = i

/-- The process that a task is forking. -/
def Task.np : Task → Option Slot
  | .user => none
  | .forkStack np | .forkCopy np | .forkReady np => some np

/-- The process that is being forked where a process was switched out. -/
def Context.np : Context → Option Slot
  | .yield k => k.np
  | _ => none

/-- The process that is being forked at this point. -/
def Pc.np : Pc → Option Slot
  | .task k | .yield k => k.np
  | .wakeup _ k | .release k => k.bind Task.np
  | .resume ctx | .sched ctx => ctx.np
  | _ => none

/-- The child that `wait` has found. -/
def Pc.reaps : Pc → Option Slot
  | .waitStack i | .waitVm i | .waitClear i => some i
  | _ => none

variable {κ : Type}

/-- The process that is being forked, by a CPU or by a process that is switched out. -/
def St.carries (s : St κ) : κ ⊕ Slot → Option Slot
  | .inl c => (s.cpu c).pc.np
  | .inr i => (s.proc i).context.bind Context.np

/-- What holds of the CPUs and their current processes. -/
structure Core (s : St κ) : Prop where
  lock : ∀ c, (s.cpu c).pc.holds = true ↔ s.lock = some c
  frame : ∀ c, (s.cpu c).Frame
  want : ∀ c i, (s.cpu c).proc = some i → (s.cpu c).pc.Want (s.proc i).state
  inj : ∀ c d i, (s.cpu c).proc = some i → (s.cpu d).proc = some i → c = d
  running : ∀ i, (s.proc i).state = .RUNNING → ∃ c, (s.cpu c).proc = some i
  reaps : ∀ c i, (s.cpu c).pc.reaps = some i → (s.proc i).state = .ZOMBIE

/-- What holds of the processes that are being forked. -/
structure Forks (s : St κ) : Prop where
  embryo : ∀ x np, s.carries x = some np → (s.proc np).state = .EMBRYO
  single : ∀ x y np, s.carries x = some np → s.carries y = some np → x = y

/-- What holds between any two steps. -/
structure Inv (s : St κ) : Prop extends Core s, Forks s

/-! ## Projections -/

section
variable (s : St κ) (i j : Slot) (f : Proc → Proc)

@[simp] lemma modify_lock : (s.modify i f).lock = s.lock := rfl
@[simp] lemma modify_cpu : (s.modify i f).cpu = s.cpu := rfl
@[simp] lemma modify_self : (s.modify i f).proc i = f (s.proc i) := Function.update_self _ _ _
@[simp] lemma setState_lock (st : Ptable.State) : (s.setState i st).lock = s.lock := rfl
@[simp] lemma setState_cpu (st : Ptable.State) : (s.setState i st).cpu = s.cpu := rfl
@[simp] lemma wakeup1_lock (chan : Option Chan) : (s.wakeup1 chan).lock = s.lock := rfl
@[simp] lemma wakeup1_cpu (chan : Option Chan) : (s.wakeup1 chan).cpu = s.cpu := rfl

variable {s i j f}

lemma modify_of_ne (h : j ≠ i) : (s.modify i f).proc j = s.proc j := Function.update_of_ne h _ _

/-- The state of a process after a change to one entry of the table. -/
theorem modify_state : ((s.modify i f).proc j).state
    = if j = i then (f (s.proc i)).state else (s.proc j).state := by
  by_cases h : j = i
  · rw [if_pos h, h, modify_self]
  · rw [if_neg h, modify_of_ne h]

/-- A process stays as it is, or wakes up. -/
lemma wakeup1_state (chan : Option Chan) : ((s.wakeup1 chan).proc j).state = (s.proc j).state ∨
    (s.proc j).state = .SLEEPING ∧ ((s.wakeup1 chan).proc j).state = .RUNNABLE := by
  unfold St.wakeup1
  dsimp only
  split
  · next h => exact .inr ⟨h.1, rfl⟩
  · exact .inl rfl

end

/-! ## What the invariant says about the other CPUs -/

section
variable {s t : St κ} {c d : κ} {i : Slot}

/-- Outside the lock a process that is current is running. -/
lemma Pc.want_of_not_holds {pc : Pc} (h : pc.holds = false) {st : Ptable.State}
    (hw : pc.Want st) : st = .RUNNING := by
  cases pc <;> first | exact hw | cases h

/-- Without the lock, the current process is RUNNING. -/
lemma Core.running_of_unlocked (h : Core s) (hd : s.lock ≠ some d)
    (hi : (s.cpu d).proc = some i) : (s.proc i).state = .RUNNING := by
  apply Pc.want_of_not_holds _ (h.want d i hi)
  rw [← Bool.not_eq_true, h.lock]
  exact hd

/-- For the holder of the lock, the current processes of the others are RUNNING. -/
theorem Core.running_of_locked (h : Core s) (hc : s.lock = some c) (hd : d ≠ c)
    (hi : (s.cpu d).proc = some i) : (s.proc i).state = .RUNNING := by
  apply h.running_of_unlocked _ hi
  rw [hc]
  exact fun heq => hd (Option.some.inj heq).symm

/-- A current process is no free slot and no embryo. -/
lemma Pc.want_ne {pc : Pc} {st : Ptable.State} (h : pc.Want st) :
    st ≠ .UNUSED ∧ st ≠ .EMBRYO := by
  constructor
  · rintro rfl
    cases pc <;> simp [Pc.Want, Off] at h
  · rintro rfl
    cases pc <;> simp [Pc.Want, Off] at h

/-- The current process of a CPU is neither unused nor being forked. -/
theorem Core.ne_of_current (h : Core s) (hi : (s.cpu d).proc = some i) :
    (s.proc i).state ≠ .UNUSED ∧ (s.proc i).state ≠ .EMBRYO := Pc.want_ne (h.want d i hi)

/-- A step of CPU `c` keeps the invariant if `c` is all right after it and it has not changed the
state of the current process of another CPU. -/
theorem Core.update (h : Core s) (hcpu : ∀ d, d ≠ c → t.cpu d = s.cpu d)
    (hlock : ∀ d, d ≠ c → (t.lock = some d ↔ s.lock = some d))
    (hholds : (t.cpu c).pc.holds = true ↔ t.lock = some c) (hframe : (t.cpu c).Frame)
    (hwant : ∀ i, (t.cpu c).proc = some i → (t.cpu c).pc.Want (t.proc i).state)
    (hkeep : ∀ d, d ≠ c → ∀ i, (s.cpu d).proc = some i → (t.proc i).state = (s.proc i).state)
    (hinj : ∀ d, d ≠ c → ∀ i, (t.cpu c).proc = some i → (s.cpu d).proc ≠ some i)
    (hrun : ∀ i, (t.proc i).state = .RUNNING → (t.cpu c).proc = some i ∨
      (s.proc i).state = .RUNNING ∧ (s.cpu c).proc ≠ some i)
    (hreap : ∀ i, (t.cpu c).pc.reaps = some i → (t.proc i).state = .ZOMBIE)
    (hzombie : s.lock ≠ some c → ∀ i, (s.proc i).state = .ZOMBIE → (t.proc i).state = .ZOMBIE) :
    Core t := by
  constructor
  · intro d
    by_cases hd : d = c
    · rw [hd]
      exact hholds
    · rw [hcpu d hd, hlock d hd]
      exact h.lock d
  · intro d
    by_cases hd : d = c
    · rw [hd]
      exact hframe
    · rw [hcpu d hd]
      exact h.frame d
  · intro d i hi
    by_cases hd : d = c
    · rw [hd] at hi ⊢
      exact hwant i hi
    · rw [hcpu d hd] at hi ⊢
      rw [hkeep d hd i hi]
      exact h.want d i hi
  · intro d e i hd he
    by_cases hdc : d = c
    · by_cases hec : e = c
      · rw [hdc, hec]
      · rw [hdc] at hd
        rw [hcpu e hec] at he
        exact absurd he (hinj e hec i hd)
    · rw [hcpu d hdc] at hd
      by_cases hec : e = c
      · rw [hec] at he
        exact absurd hd (hinj d hdc i he)
      · rw [hcpu e hec] at he
        exact h.inj d e i hd he
  · intro i hi
    rcases hrun i hi with hc | ⟨hold, hne⟩
    · exact ⟨c, hc⟩
    · obtain ⟨d, hd⟩ := h.running i hold
      have hdc : d ≠ c := fun heq => hne (heq ▸ hd)
      exact ⟨d, by rw [hcpu d hdc]; exact hd⟩
  · intro d i hi
    by_cases hd : d = c
    · rw [hd] at hi
      exact hreap i hi
    · rw [hcpu d hd] at hi
      -- CPU `d` is in `wait` with the lock, so `c` does not have it
      have hholds : (s.cpu d).pc.holds = true := by
        cases hpc : (s.cpu d).pc <;> rw [hpc] at hi <;> first | rfl | cases hi
      have hdl := (h.lock d).mp hholds
      refine hzombie ?_ i (h.reaps d i hi)
      rw [hdl]
      exact fun heq => hd (Option.some.inj heq)

/-- A step under the lock: the processes of the table that are RUNNING on other CPUs stay so. -/
theorem Core.locked [DecidableEq κ] {x : Cpu} (h : Core s) (hl : s.lock = some c)
    (hcpu : t.cpu = s.cpu) (hlock : t.lock = if x.pc.holds then some c else none) (hframe : x.Frame)
    (hwant : ∀ i, x.proc = some i → x.pc.Want (t.proc i).state)
    (hkeep : ∀ i, (s.proc i).state = .RUNNING → (s.cpu c).proc ≠ some i →
      (t.proc i).state = .RUNNING)
    (hnew : ∀ i, x.proc = some i → (s.cpu c).proc = some i ∨ (s.proc i).state ≠ .RUNNING)
    (hrun : ∀ i, (t.proc i).state = .RUNNING → x.proc = some i ∨
      (s.proc i).state = .RUNNING ∧ (s.cpu c).proc ≠ some i)
    (hreap : ∀ i, x.pc.reaps = some i → (t.proc i).state = .ZOMBIE) : Core (t.setCpu c x) := by
  have hself : (t.setCpu c x).cpu c = x := Function.update_self _ _ _
  -- every other CPU is where it was, so its part of the invariant carries over
  refine h.update (c := c) (t := t.setCpu c x) ?_ ?_ ?_ ?_ ?_ ?_ ?_ ?_ ?_ ?_
  · intro d hd
    show Function.update t.cpu c x d = _
    rw [Function.update_of_ne hd, hcpu]
  · intro d hd
    show t.lock = _ ↔ _
    rw [hlock, hl]
    have hcd : ¬ c = d := fun heq => hd heq.symm
    by_cases hx : x.pc.holds = true
    · simp [hx, hcd]
    · simp [hx, hcd]
  · rw [hself]
    show _ ↔ t.lock = _
    rw [hlock]
    by_cases hx : x.pc.holds = true
    · simp [hx]
    · simp [hx]
  · rw [hself]
    exact hframe
  · rw [hself]
    exact hwant
  · intro d hd i hi
    have hrun := h.running_of_locked hl hd hi
    rw [hrun]
    exact hkeep i hrun fun hc => hd (h.inj d c i hi hc)
  · rw [hself]
    intro d hd i hi hdi
    rcases hnew i hi with hc | hne
    · exact hd (h.inj d c i hdi hc)
    · exact hne (h.running_of_locked hl hd hdi)
  · rw [hself]
    exact hrun
  · rw [hself]
    exact hreap
  · exact fun hne => absurd hl hne

/-- The same for a step that changes only the program point of the CPU. -/
theorem Core.lockedGoto [DecidableEq κ] {pc : Pc} (h : Core s) (hl : s.lock = some c)
    (hcpu : t.cpu = s.cpu) (hlock : t.lock = if pc.holds then some c else none)
    (hframe : ({ s.cpu c with pc := pc } : Cpu).Frame)
    (hwant : ∀ i, (s.cpu c).proc = some i → pc.Want (t.proc i).state)
    (hkeep : ∀ i, (s.cpu c).proc ≠ some i →
      ((t.proc i).state = .RUNNING ↔ (s.proc i).state = .RUNNING))
    (hreap : ∀ i, pc.reaps = some i → (t.proc i).state = .ZOMBIE) : Core (t.goto c pc) := by
  have hgoto : t.goto c pc = t.setCpu c { s.cpu c with pc := pc } := by rw [St.goto, hcpu]
  rw [hgoto]
  refine h.locked hl hcpu hlock hframe hwant ?_ (fun i hi => .inl hi) ?_ hreap
  · exact fun i hi hne => (hkeep i hne).mpr hi
  · intro i hi
    by_cases hc : (s.cpu c).proc = some i
    · exact .inl hc
    · exact .inr ⟨(hkeep i hc).mp hi, hc⟩

/-- A step without the lock: it may take the lock, and change the state of a process that is being
forked. -/
theorem Core.unlocked [DecidableEq κ] {pc : Pc} (h : Core s) (hl : s.lock ≠ some c)
    (hcpu : t.cpu = s.cpu) (hlock : t.lock = if pc.holds then some c else s.lock)
    (hfree : pc.holds = true → s.lock = none)
    (hframe : ({ s.cpu c with pc := pc } : Cpu).Frame)
    (hwant : ∀ i, (s.cpu c).proc = some i → pc.Want (s.proc i).state)
    (hchange : ∀ i, (t.proc i).state = (s.proc i).state ∨
      (s.proc i).state = .EMBRYO ∧ (t.proc i).state ≠ .RUNNING)
    (hreap : pc.reaps = none) : Core (t.goto c pc) := by
  have hgoto : t.goto c pc = t.setCpu c { s.cpu c with pc := pc } := by rw [St.goto, hcpu]
  have hself : (t.goto c pc).cpu c = { s.cpu c with pc := pc } := by
    rw [hgoto]
    exact Function.update_self _ _ _
  -- a current process is no embryo, so its state stays
  have hsame : ∀ d i, (s.cpu d).proc = some i → (t.proc i).state = (s.proc i).state := by
    intro d i hi
    rcases hchange i with heq | ⟨hemb, -⟩
    · exact heq
    · exact absurd hemb (h.ne_of_current hi).2
  refine h.update (c := c) (t := t.goto c pc) ?_ ?_ ?_ ?_ ?_ ?_ ?_ ?_ ?_ ?_
  · intro d hd
    rw [hgoto]
    show Function.update t.cpu c _ d = _
    rw [Function.update_of_ne hd, hcpu]
  · intro d hd
    show t.lock = _ ↔ _
    have hcd : ¬ c = d := fun heq => hd heq.symm
    rw [hlock]
    by_cases hx : pc.holds = true
    · simp [hx, hcd, hfree hx]
    · simp [hx]
  · rw [hself]
    show _ ↔ t.lock = _
    rw [hlock]
    by_cases hx : pc.holds = true
    · simp [hx]
    · simp [hx, hl]
  · rw [hself]
    exact hframe
  · rw [hself]
    intro i hi
    show pc.Want (t.proc i).state
    rw [hsame c i hi]
    exact hwant i hi
  · exact fun d _ i hi => hsame d i hi
  · rw [hself]
    exact fun d hd i hi hdi => hd (h.inj d c i hdi hi)
  · rw [hself]
    intro i hi
    by_cases hc : (s.cpu c).proc = some i
    · exact .inl hc
    · rcases hchange i with heq | ⟨-, hne⟩
      · exact .inr ⟨heq ▸ hi, hc⟩
      · exact absurd hi hne
  · rw [hself]
    intro i hi
    rw [show Pc.reaps _ = none from hreap] at hi
    cases hi
  · intro _ i hi
    rcases hchange i with heq | ⟨hemb, -⟩
    · exact heq.trans hi
    · rw [hi] at hemb
      cases hemb

end

end Sched
end OhMyXv6
