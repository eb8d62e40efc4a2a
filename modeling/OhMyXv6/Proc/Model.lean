import Mathlib.Data.List.FinRange
import Mathlib.Logic.Function.Basic
import Mathlib.Tactic.Common
import OhMyXv6.Lib.Runs
import OhMyXv6.Param

/-!
# `proc.c`: the process table

The processes fork, exit, wait, kill, sleep and are scheduled, in any order and on any number of CPUs.
One step is what the code does between `acquire(&ptable.lock)` and `release`, or one of the writes that
`allocproc` and `fork` make without the lock. A process that `wait` puts to sleep is switched to with
the lock still held and scans the table again at once, so that scan belongs to `schedule`.

The table is the one that `userinit` leaves behind, with `init` in the first slot. Of a process the
model has what these functions read. The names, the memory and the open files are left out: `kalloc` and
`copyuvm` succeed or fail in any order.
-/

namespace OhMyXv6
namespace Ptable

/-- An index of `ptable.proc`. -/
abbrev Slot := Fin NPROC

/-- `initproc`. -/
def initproc : Slot := ⟨0, NPROC_pos⟩

/-- `enum procstate`. -/
inductive State where
  | UNUSED
  | EMBRYO
  | SLEEPING
  | RUNNABLE
  | RUNNING
  | ZOMBIE
deriving DecidableEq

/-- The process can be scheduled, now or later. -/
def State.Live (st : State) : Prop := st = .SLEEPING ∨ st = .RUNNABLE ∨ st = .RUNNING

instance (st : State) : Decidable st.Live := inferInstanceAs (Decidable (_ ∨ _))

/-- What a process sleeps on: a process, in `wait`, or something else. -/
inductive Chan where
  | proc (i : Slot)
  | other (k : ℕ)
deriving DecidableEq

/-- `struct proc`. -/
structure Proc where
  state : State
  pid : Int32
  parent : Option Slot
  chan : Option Chan
  killed : Bool
  /-- History: which process has the slot, counted from the first `allocproc`. -/
  uid : ℕ
  /-- History: there was a `kill` of its pid, or a fault of its own. -/
  hit : Bool
deriving DecidableEq

/-- Where a process is. -/
inductive Pc where
  /-- Outside of what follows; a new process starts here. -/
  | user
  /-- `fork`, in `allocproc`: about to call `kalloc`. -/
  | forkStack (np : Slot)
  /-- `fork`: about to call `copyuvm`. -/
  | forkCopy (np : Slot)
  /-- `fork`: about to set `np->state`. -/
  | forkReady (np : Slot)
  /-- `sleep`, on something else than a process. -/
  | sleeping
  /-- `wait`, in `sleep`. -/
  | waiting
deriving DecidableEq

/-- What is remembered of a process. -/
inductive Event where
  | alloc (i : Slot) (uid : ℕ)
  | exit (i : Slot) (uid : ℕ)
  /-- A `wait` of `caller` returns this one. -/
  | reap (i : Slot) (uid : ℕ) (caller : Slot)
deriving DecidableEq

/-- The process table, and where each process is. -/
structure Table where
  proc : Slot → Proc
  nextpid : Int32
  pc : Slot → Pc
  /-- What the last system call of a process has returned. -/
  rax : Slot → Int32
  /-- History: the next `uid`. -/
  born : ℕ
  /-- History: the newest event first. -/
  log : List Event

/-- What may happen next. -/
inductive Act where
  /-- The scheduler switches to a process. -/
  | schedule (p : Slot)
  | yield (p : Slot)
  | sleep (p : Slot) (k : ℕ)
  | wakeup (k : ℕ)
  /-- `fork`, up to the `release` in `allocproc`. -/
  | fork (p : Slot)
  /-- The next step of `fork`; `ok` says whether `kalloc` or `copyuvm` succeeds. -/
  | step (p : Slot) (ok : Bool)
  | exit (p : Slot)
  | wait (p : Slot)
  | kill (p : Slot) (pid : Int32)
  /-- A trap in user space. -/
  | fault (p : Slot)

namespace Table

/-- One process is changed. -/
def modify (s : Table) (i : Slot) (f : Proc → Proc) : Table :=
  { s with proc := Function.update s.proc i (f (s.proc i)) }

/-- `p->state` is changed. -/
def setState (s : Table) (i : Slot) (st : State) : Table :=
  s.modify i fun q => { q with state := st }

/-- The process goes on elsewhere. -/
def goto (s : Table) (p : Slot) (pc : Pc) : Table := { s with pc := Function.update s.pc p pc }

/-- Process `p` returns from its system call. -/
def ret (s : Table) (p : Slot) (val : Int32) : Table :=
  { s.goto p .user with rax := Function.update s.rax p val }

/-- An event is remembered. -/
def record (s : Table) (e : Event) : Table := { s with log := e :: s.log }

/-- The first slot with this property, in the order of the loops over `ptable.proc`. -/
def scan (s : Table) (good : Proc → Bool) : Option Slot :=
  (List.finRange NPROC).find? fun i => good (s.proc i)

/-- `wakeup1`: all sleepers on the channel can run. -/
def wakeup1 (s : Table) (chan : Chan) : Table :=
  { s with
    proc := fun i =>
      if (s.proc i).state = .SLEEPING ∧ (s.proc i).chan = some chan then
        { s.proc i with state := .RUNNABLE }
      else s.proc i }

/-- The part of `allocproc` that holds the lock, called by `fork`. -/
def allocproc (s : Table) (p : Slot) : Table :=
  match s.scan fun q => q.state = .UNUSED with
  -- no free slot: `fork` returns -1
  | none => s.ret p (-1)
  | some i =>
    let t := s.modify i fun q =>
      { q with state := .EMBRYO, pid := s.nextpid, uid := s.born, hit := false }
    ({ t with nextpid := s.nextpid + 1, born := s.born + 1 }.record (.alloc i s.born)).goto p
      (.forkStack i)

/-- `fork` gives up. -/
def forkFail (s : Table) (p np : Slot) : Table := (s.setState np .UNUSED).ret p (-1)

/-- What `fork` does without the lock. -/
def forkStep (s : Table) (p : Slot) (ok : Bool) : Option Table :=
  match s.pc p with
  | .forkStack np =>
    -- A new context is to return from `forkret`.
    if ok then some ((s.goto np .user).goto p (.forkCopy np)) else some (s.forkFail p np)
  | .forkCopy np =>
    if ok then
      let t := s.modify np fun q => { q with parent := some p }
      some ({ t with rax := Function.update t.rax np 0 }.goto p (.forkReady np))
    else some (s.forkFail p np)
  | .forkReady np => some ((s.setState np .RUNNABLE).ret p (s.proc np).pid)
  | _ => none

/-- One iteration of the loop in `exit`. -/
def passChild (p : Slot) (s : Table) (i : Slot) : Table :=
  if (s.proc i).parent = some p then
    let t := s.modify i fun q => { q with parent := some initproc }
    if (t.proc i).state = .ZOMBIE then t.wakeup1 (.proc initproc) else t
  else s

/-- `wakeup1(proc->parent)`. Nobody sleeps on a null channel. -/
def wakeParent (s : Table) (p : Slot) : Table :=
  match (s.proc p).parent with
  | none => s
  | some q => s.wakeup1 (.proc q)

/-- What `exit` does under the lock. -/
def exit (s : Table) (p : Slot) : Table :=
  let t := (List.finRange NPROC).foldl (passChild p) (s.wakeParent p)
  (t.setState p .ZOMBIE).record (.exit p (s.proc p).uid)

/-- One time through the outer loop of `wait`. -/
def waitLoop (s : Table) (p : Slot) : Table :=
  match s.scan fun q => q.parent = some p ∧ q.state = .ZOMBIE with
  | some i =>
    let t := s.modify i fun q =>
      { q with pid := 0, parent := none, killed := false, state := .UNUSED }
    (t.record (.reap i (s.proc i).uid p)).ret p (s.proc i).pid
  | none =>
    -- no child at all, or the caller was killed
    let havekids := (s.scan fun q => q.parent = some p).isSome
    if havekids = false ∨ (s.proc p).killed then s.ret p (-1)
    else
      (s.modify p fun q => { q with chan := some (.proc p), state := .SLEEPING }).goto p .waiting

/-- The scheduler switches to `p`, which goes on until it releases the lock. -/
def schedule (s : Table) (p : Slot) : Table :=
  match s.pc p with
  | .waiting => (s.modify p fun q => { q with state := .RUNNING, chan := none }).waitLoop p
  | .sleeping => (s.modify p fun q => { q with state := .RUNNING, chan := none }).goto p .user
  | _ => s.setState p .RUNNING

/-- `kill`; it looks at all slots, whatever their state. -/
def kill (s : Table) (p : Slot) (pid : Int32) : Table :=
  match s.scan fun q => q.pid = pid with
  | none => s.ret p (-1)
  -- the slot may be of any state, `UNUSED` among them
  | some i =>
    (s.modify i fun q =>
      { q with
        killed := true
        state := if q.state = .SLEEPING then .RUNNABLE else q.state
        hit := true }).ret p 0

/-- Process `p` runs and can make a system call. -/
def Running (s : Table) (p : Slot) : Prop := (s.proc p).state = .RUNNING ∧ s.pc p = .user

instance (s : Table) (p : Slot) : Decidable (s.Running p) := inferInstanceAs (Decidable (_ ∧ _))

/-- One action; `none` when it cannot be taken. -/
def step (s : Table) : Act → Option Table
  | .schedule p => if (s.proc p).state = .RUNNABLE then some (s.schedule p) else none
  | .yield p => if (s.proc p).state = .RUNNING then some (s.setState p .RUNNABLE) else none
  | .sleep p k =>
    if s.Running p then
      some ((s.modify p fun q => { q with chan := some (.other k), state := .SLEEPING }).goto p
        .sleeping)
    else none
  | .wakeup k => some (s.wakeup1 (.other k))
  | .fork p => if s.Running p then some (s.allocproc p) else none
  | .step p ok => if (s.proc p).state = .RUNNING then s.forkStep p ok else none
  | .exit p => if s.Running p ∧ p ≠ initproc then some (s.exit p) else none
  | .wait p => if s.Running p then some (s.waitLoop p) else none
  | .kill p pid => if s.Running p then some (s.kill p pid) else none
  | .fault p =>
    if s.Running p then some (s.modify p fun q => { q with killed := true, hit := true }) else none

end Table

/-- The table after `userinit`. -/
def userinit : Table where
  proc := fun i =>
    if i = initproc then ⟨.RUNNABLE, 1, none, none, false, 0, false⟩
    else ⟨.UNUSED, 0, none, none, false, 0, false⟩
  nextpid := 2
  pc := fun _ => .user
  rax := fun _ => 0
  born := 1
  log := []

end Ptable
end OhMyXv6
