import Mathlib.Logic.Function.Basic
import Mathlib.Tactic.Common
import OhMyXv6.Lib.Runs

/-!
# `sleeplock.c`: who holds a sleep-lock

Any number of processes call `acquiresleep`, `releasesleep` and `holdingsleep` on one lock, in any
order. Each pass through `lk->lk` is one step: the test of `lk->locked` in `acquiresleep`, which takes
the lock or falls asleep, the whole of `releasesleep`, and the whole of `holdingsleep`.
`brelse`, `bwrite`, `iderw` and `iunlock` panic when `holdingsleep` gives 0; `brelse` and `iunlock`
go on to `releasesleep`, and nothing else calls it.

`holdingsleep` looks at `lk->locked` and not at `lk->pid`: it tells whether anybody holds the lock.
-/

namespace OhMyXv6
namespace Sleeplock

/-- `struct sleeplock`, without its spinlock and its name. -/
structure Lock where
  locked : ℕ
  pid : ℕ

/-- Where a process is. -/
inductive Pc where
  /-- In none of the functions. -/
  | running
  /-- In `acquiresleep`, about to test `lk->locked`. -/
  | acquiring
  /-- In `acquiresleep`, in the `sleep` on `lk`. -/
  | sleeping
  /-- In `brelse` or `iunlock`, past the check. -/
  | releasing
  /-- In `panic`, which does not return. -/
  | panicked
deriving DecidableEq

/-- The functions that check `holdingsleep`. -/
inductive Checked where
  | brelse | bwrite | iderw | iunlock
deriving DecidableEq

/-- What comes after the check. -/
def Checked.pass : Checked → Pc
  | brelse | iunlock => .releasing
  | bwrite | iderw => .running

/-- The lock and the processes, which are named by their pids. -/
structure State where
  lk : Lock
  pc : ℕ → Pc
  /-- The process is between its `acquiresleep` and its `releasesleep`. -/
  between : ℕ → Bool

/-- After `initsleeplock`. -/
def initsleeplock : State := ⟨⟨0, 0⟩, fun _ => .running, fun _ => false⟩

/-- `acquiresleep`, from `acquire(&lk->lk)` to the end of the loop's test. -/
def acquiresleep (p : ℕ) (s : State) : State :=
  if s.lk.locked ≠ 0 then
    { s with pc := Function.update s.pc p .sleeping }
  else
    { lk := ⟨1, p⟩
      pc := Function.update s.pc p .running
      between := Function.update s.between p true }

/-- `wakeup(lk)`: the sleepers test `lk->locked` again. -/
def wakeup (pc : ℕ → Pc) : ℕ → Pc := fun p => if pc p = .sleeping then .acquiring else pc p

/-- `releasesleep`: the lock is free, and its sleepers can run. -/
def releasesleep (p : ℕ) (s : State) : State where
  lk := ⟨0, 0⟩
  pc := Function.update (wakeup s.pc) p .running
  between := Function.update s.between p false

/-- `holdingsleep`. -/
def holdingsleep (lk : Lock) : ℕ := lk.locked

/-- `if (!holdingsleep(&b->lock)) panic(..)`, and on to what `f` does then. -/
def check (f : Checked) (p : ℕ) (s : State) : State :=
  { s with pc := Function.update s.pc p (if holdingsleep s.lk = 0 then .panicked else f.pass) }

/-- What may happen next. -/
inductive Act where
  /-- `p` calls `acquiresleep`. -/
  | acquire (p : ℕ)
  | acquiresleep (p : ℕ)
  /-- `kill` wakes a process that sleeps in `acquiresleep`. -/
  | kill (p : ℕ)
  | releasesleep (p : ℕ)
  | holdingsleep (p : ℕ)
  | check (f : Checked) (p : ℕ)

/-- A process calls `releasesleep` past the check of `brelse` or `iunlock`, or else when it is its turn
to: to end what its own `acquiresleep` has begun. -/
def step (s : State) : Act → Option State
  | .acquire p =>
    if s.pc p = .running then some { s with pc := Function.update s.pc p .acquiring } else none
  | .acquiresleep p => if s.pc p = .acquiring then some (acquiresleep p s) else none
  -- `kill` wakes a sleeper, which then tests the lock again
  | .kill p =>
    if s.pc p = .sleeping then some { s with pc := Function.update s.pc p .acquiring } else none
  | .releasesleep p =>
    if s.pc p = .releasing ∨ s.pc p = .running ∧ s.between p then some (releasesleep p s) else none
  | .holdingsleep p => if s.pc p = .running then some s else none
  | .check f p => if s.pc p = .running then some (check f p s) else none

/-! ## What the checks are for -/

/-- The process that asks `holdingsleep`, if the step does. -/
def Act.asks : Act → Option ℕ
  | .holdingsleep p | .check _ p => some p
  | _ => none

/-- `holdingsleep` gives the process that calls it a nonzero number just if it holds the lock. -/
def Answered (s : State) (a : Act) : Prop :=
  ∀ p, a.asks = some p → (holdingsleep s.lk ≠ 0 ↔ s.between p)

/-- A checked function panics just if it is called by a process that does not hold the lock. -/
def Guarded (s : State) (a : Act) : Prop :=
  ∀ f p t, a = .check f p → step s a = some t → (t.pc p = .panicked ↔ s.between p = false)

/-- At most one process is between its `acquiresleep` and its `releasesleep`. -/
def Exclusive (s : State) : Prop := ∀ p q, s.between p → s.between q → p = q

/-- The ownership checks are sound along a run. -/
structure Sound (as : List Act) : Prop where
  exclusive : ∀ bs t, bs <+: as → Runs.run step initsleeplock bs = some t → Exclusive t
  answered : Runs.Along step Answered initsleeplock as
  guarded : Runs.Along step Guarded initsleeplock as

/-- `holdingsleep` is not called while another process holds the lock. -/
def Unheld (s : State) (a : Act) : Prop := ∀ p, a.asks = some p → ∀ q, s.between q → q = p

/-! ## The invariant -/

/-- `lk` is the lock of the one process that holds it, if there is one. -/
structure Held (s : State) : Prop where
  exclusive : Exclusive s
  locked : s.lk.locked ≠ 0 ↔ ∃ p, s.between p
  pid : ∀ p, s.between p → s.lk.pid = p
  releasing : ∀ p, s.pc p = .releasing → s.between p

section
variable {s t : State} {p : ℕ}

lemma held_initsleeplock : Held initsleeplock := by
  refine ⟨fun _ _ hp => ?_, ?_, fun _ hp => ?_, fun _ hp => ?_⟩
  · cases hp
  · simp [initsleeplock]
  · cases hp
  · cases hp

/-- A step that leaves the lock with whom it is. -/
lemma Held.goto (h : Held s) {c : Pc} (hc : c = .releasing → s.between p) :
    Held { s with pc := Function.update s.pc p c } := by
  refine ⟨h.exclusive, h.locked, h.pid, fun q hq => ?_⟩
  by_cases hqp : q = p
  · subst hqp
    exact hc (by simpa using hq)
  · exact h.releasing q (by simpa [hqp] using hq)

/-- While the lock is free, no process is between the two calls. -/
lemma Held.free (h : Held s) (hfree : s.lk.locked = 0) (q : ℕ) : s.between q = false := by
  have hnone := mt h.locked.mpr (not_not.mpr hfree)
  simpa using fun hq => hnone ⟨q, hq⟩

/-- The lock is taken, or the process sleeps. -/
lemma Held.acquiresleep (h : Held s) : Held (acquiresleep p s) := by
  unfold Sleeplock.acquiresleep
  split
  · exact h.goto nofun
  · next hfree =>
    have hnone := h.free (not_not.mp hfree)
    -- `p` is now the only one
    have hbetween : ∀ q, Function.update s.between p true q = true ↔ q = p := by
      intro q
      by_cases hqp : q = p <;> simp [hqp, hnone]
    refine ⟨fun q r hq hr => ?_, ?_, fun q hq => ?_, fun q hq => ?_⟩
    · rw [(hbetween q).mp hq, (hbetween r).mp hr]
    · simp only [hbetween, exists_eq, iff_true]
      exact Nat.one_ne_zero
    · exact ((hbetween q).mp hq).symm
    · by_cases hqp : q = p
      · exact (hbetween q).mpr hqp
      · have hpc : s.pc q = .releasing := by simpa [hqp] using hq
        have hheld := h.releasing q hpc
        rw [hnone q] at hheld
        cases hheld

/-- The holder gives the lock back. -/
lemma Held.releasesleep (h : Held s) (hp : s.between p) : Held (releasesleep p s) := by
  have hnone : ∀ q, Function.update s.between p false q = false := by
    intro q
    by_cases hqp : q = p
    · simp [hqp]
    · have hq : s.between q = false := by simpa using fun hq => hqp (h.exclusive q p hq hp)
      simp [hqp, hq]
  refine ⟨fun q r hq => ?_, ?_, fun q hq => ?_, fun q hq => ?_⟩
  · simp [Sleeplock.releasesleep, hnone] at hq
  · simp [Sleeplock.releasesleep, hnone]
  · simp [Sleeplock.releasesleep, hnone] at hq
  · by_cases hqp : q = p
    · simp [Sleeplock.releasesleep, hqp] at hq
    · -- a process that stands in front of `releasesleep` holds the lock, and only `p` does
      have hpc : s.pc q = .releasing := by
        simp only [Sleeplock.releasesleep, wakeup, Function.update_of_ne hqp] at hq
        split at hq
        · cases hq
        · exact hq
      exact absurd (h.exclusive q p (h.releasing q hpc) hp) hqp

/-- While no other process holds the lock, `holdingsleep` tells whether the caller does. -/
theorem Held.answered_iff (h : Held s) {a : Act} : Answered s a ↔ Unheld s a := by
  refine forall_congr' fun p => imp_congr_right fun _ => ?_
  unfold holdingsleep
  rw [h.locked]
  constructor
  · intro hiff q hq
    exact h.exclusive q p hq (hiff.mp ⟨q, hq⟩)
  · intro hall
    constructor
    · rintro ⟨q, hq⟩
      exact hall q hq ▸ hq
    · exact fun hp => ⟨p, hp⟩

/-- A checked function panics when `holdingsleep` gives 0. -/
lemma check_panicked {f : Checked} : (check f p s).pc p = .panicked ↔ holdingsleep s.lk = 0 := by
  simp only [check, Function.update_self]
  split
  · next h => simp [h]
  · next h => cases f <;> simp [h, Checked.pass]

/-- An answer given under the guard. -/
lemma Answered.guarded {a : Act} (h : Answered s a) : Guarded s a := by
  intro f p t ha hstep
  subst ha
  simp only [step, Option.ite_none_right_eq_some, Option.some.injEq] at hstep
  rw [← hstep.2, check_panicked, ← not_iff_not, ← ne_eq, h p rfl]
  simp

/-- A process that passes the check while no other holds the lock holds it itself. -/
theorem Held.step (h : Held s) {a : Act} (hok : Unheld s a) (hstep : step s a = some t) : Held t := by
  cases a <;> simp only [Sleeplock.step, Option.ite_none_right_eq_some, Option.some.injEq] at hstep <;>
    obtain ⟨hpc, rfl⟩ := hstep
  case acquire p => exact h.goto nofun
  case acquiresleep p => exact h.acquiresleep
  case kill p => exact h.goto nofun
  case releasesleep p => exact h.releasesleep (hpc.elim (h.releasing p) And.right)
  case holdingsleep p => exact h
  case check f p =>
    refine h.goto fun hc => ?_
    have hheld : holdingsleep s.lk ≠ 0 := by
      intro hzero
      rw [if_pos hzero] at hc
      cases hc
    exact (h.answered_iff.mpr hok p rfl).mp hheld

end

/-! ## Runs -/

/-- The ownership checks are sound along a run just if no process calls `holdingsleep` while another one
holds the lock. -/
theorem sound_iff (as : List Act) : Sound as ↔ Runs.Along step Unheld initsleeplock as := by
  have hiff : Runs.Along step Answered initsleeplock as ↔ Runs.Along step Unheld initsleeplock as :=
    Runs.along_congr (fun _ _ h => h.answered_iff) (fun _ _ _ h hok => h.step hok) held_initsleeplock as
  constructor
  · intro h
    exact hiff.mp h.answered
  · intro hok
    refine ⟨fun bs t hbs hrun => ?_, hiff.mpr hok, (hiff.mpr hok).mono fun _ _ h => h.guarded⟩
    have hheld : Held t :=
      (hok.of_prefix hbs).invariant (fun _ _ _ h hok => h.step hok) held_initsleeplock hrun
    exact hheld.exclusive

/-- 1 takes the lock; `brelse` lets 2 release it, and 3 takes it. -/
def taken : List Act :=
  [.acquire 1, .acquiresleep 1, .check .brelse 2, .releasesleep 2, .acquire 3, .acquiresleep 3]

/-- Then 1 and 3 are both between `acquiresleep` and `releasesleep`. -/
theorem not_sound_taken : ¬ Sound taken := by
  intro h
  have hrun : (Runs.run step initsleeplock taken).map (fun t => (t.between 1, t.between 3)) =
      some (true, true) := by decide
  obtain ⟨t, ht, hboth⟩ := Option.map_eq_some_iff.mp hrun
  have heq := h.exclusive taken t List.prefix_rfl ht 1 3 (congrArg Prod.fst hboth) (congrArg Prod.snd hboth)
  cases heq

end Sleeplock
end OhMyXv6
