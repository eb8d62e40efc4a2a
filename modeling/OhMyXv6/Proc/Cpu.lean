import OhMyXv6.Proc.Model

/-!
# `proc.c`: the CPUs

The same table as in `Proc.Model`, seen from closer by: who holds `ptable.lock`, which process each CPU
has as its current one, on which stack and with which page table it runs, and where it is in the code.
`swtch` is a step of its own. The lock is taken by a process and released by the scheduler of the CPU,
or by another process that this CPU switches to, so its holder is the CPU.

A step is one assignment of the source, or a loop over the table that the lock protects. What a process
does without the lock is a single program point, at which it may be interrupted at any time. `kalloc`
and `copyuvm` succeed or fail in any order.
-/

namespace OhMyXv6
namespace Sched

open Ptable (Slot Chan initproc)

/-- What a process does while it does not hold the lock. -/
inductive Task where
  /-- Outside of what follows. -/
  | user
  /-- `fork`, in `allocproc`: about to call `kalloc`. -/
  | forkStack (np : Slot)
  /-- `fork`: about to call `copyuvm`. -/
  | forkCopy (np : Slot)
  /-- `fork`: about to set `np->state`. -/
  | forkReady (np : Slot)
deriving DecidableEq

/-- `p->context`: where a process goes on when it is switched to. -/
inductive Context where
  | forkret
  /-- In `yield`, which has interrupted this. -/
  | yield (k : Task)
  /-- In `sleep`, with another lock to be taken again. -/
  | sleep
  /-- In the `sleep` of `wait`. -/
  | wait
  /-- In `exit`. -/
  | exit
deriving DecidableEq

/-- Where a CPU is. -/
inductive Pc where
  /-- `scheduler`, about to acquire the lock. -/
  | idle
  /-- The loop of `scheduler`, at this slot. -/
  | scan (j : ℕ)
  /-- `scheduler`, about to call `switchuvm(p)`. -/
  | picked (i : Slot)
  /-- `scheduler`, about to set `p->state`. -/
  | mapped (i : Slot)
  /-- `scheduler`, about to switch to `p`. -/
  | marked (i : Slot)
  /-- `scheduler`, back from the process, about to call `switchkvm()`. -/
  | back (i : Slot)
  /-- `scheduler`, about to set `proc = 0`. -/
  | unmapped (i : Slot)
  /-- `wakeup`, with the lock, called from `scheduler` by an interrupt or from a task. -/
  | wakeup (chan : Chan) (k : Option Task)
  /-- About to release the lock, in `scheduler` or in a task. -/
  | release (k : Option Task)
  | task (k : Task)
  /-- A process has just been switched to. -/
  | resume (ctx : Context)
  /-- `yield`, with the lock. -/
  | yield (k : Task)
  /-- `sleep`, with `ptable.lock`. -/
  | sleep (chan : Chan)
  /-- `exit`, with the lock. -/
  | exit
  /-- `wait`, about to look through the table. -/
  | wait
  /-- `wait`, about to free the kernel stack of a child. -/
  | waitStack (i : Slot)
  /-- `wait`, about to free the page table of a child. -/
  | waitVm (i : Slot)
  /-- `wait`, about to give up the slot of a child. -/
  | waitClear (i : Slot)
  /-- `kill`, with the lock. -/
  | kill (pid : Int32)
  /-- `allocproc`, with the lock. -/
  | alloc
  /-- `sched`, about to switch to the scheduler. -/
  | sched (ctx : Context)
deriving DecidableEq

/-- `struct proc`. `context` is `none` while the process runs. -/
structure Proc where
  state : Ptable.State
  pid : Int32
  parent : Option Slot
  chan : Option Chan
  killed : Bool
  /-- The kernel stack is allocated. -/
  kstack : Bool
  /-- The page table is allocated. -/
  pgdir : Bool
  context : Option Context

/-- `struct cpu`, and the registers that matter. -/
structure Cpu where
  proc : Option Slot
  /-- Whose kernel stack the CPU runs on; `none` for the stack of `scheduler`. -/
  stack : Option Slot
  /-- Whose page table the CPU uses; `none` for `kpml4`. -/
  cr3 : Option Slot
  /-- The variable `p` of `scheduler`, on its stack. -/
  scheduler : Slot
  pc : Pc

/-- The process table, and what each CPU is doing. -/
structure St (κ : Type) where
  /-- The CPU that holds `ptable.lock`. -/
  lock : Option κ
  proc : Slot → Proc
  nextpid : Int32
  cpu : κ → Cpu

/-- What a task or an interrupt does next, where that is open. -/
inductive Move where
  | go
  | yield
  | sleep (chan : Chan)
  | wakeup (chan : Chan)
  | fork
  | exit
  | wait
  | kill (pid : Int32)
  /-- `kalloc` or `copyuvm` answers. -/
  | answer (ok : Bool)

namespace St

variable {κ : Type} [DecidableEq κ]

/-- One process is changed. -/
def modify (s : St κ) (i : Slot) (f : Proc → Proc) : St κ :=
  { s with proc := Function.update s.proc i (f (s.proc i)) }

/-- One CPU is changed. -/
def setCpu (s : St κ) (c : κ) (x : Cpu) : St κ := { s with cpu := Function.update s.cpu c x }

/-- The CPU goes on elsewhere. -/
def goto (s : St κ) (c : κ) (pc : Pc) : St κ := s.setCpu c { s.cpu c with pc := pc }

/-- `p->state` is changed. -/
def setState (s : St κ) (i : Slot) (st : Ptable.State) : St κ :=
  s.modify i fun q => { q with state := st }

/-- `acquire(&ptable.lock)`, and the point behind it. -/
def acquire (s : St κ) (c : κ) (pc : Pc) : Option (St κ) :=
  if s.lock = none then some ({ s with lock := some c }.goto c pc) else none

/-- `release(&ptable.lock)`, and the point behind it. -/
def release (s : St κ) (c : κ) (pc : Pc) : St κ := { s with lock := none }.goto c pc

/-- The first slot with this property, in the order of the loops over `ptable.proc`. -/
def find (s : St κ) (good : Proc → Bool) : Option Slot :=
  (List.finRange NPROC).find? fun i => good (s.proc i)

/-- `wakeup1`: all sleepers on the channel can run. -/
def wakeup1 (s : St κ) (chan : Option Chan) : St κ :=
  { s with
    proc := fun i =>
      if (s.proc i).state = .SLEEPING ∧ (s.proc i).chan = chan then
        { s.proc i with state := .RUNNABLE }
      else s.proc i }

/-- One iteration of the loop in `exit` of process `p`. -/
def passChild (p : Slot) (s : St κ) (i : Slot) : St κ :=
  if (s.proc i).parent = some p then
    let t := s.modify i fun q => { q with parent := some initproc }
    if (t.proc i).state = .ZOMBIE then t.wakeup1 (some (.proc initproc)) else t
  else s

/-- The loop of `exit` and what comes before it. A process without a parent has no one to wake:
nobody sleeps on a null channel. -/
def exitWake (s : St κ) (p : Slot) : St κ :=
  let t := match (s.proc p).parent with
    | none => s
    | some q => s.wakeup1 (some (.proc q))
  (List.finRange NPROC).foldl (passChild p) t

/-- `switchuvm(p)`. It panics if there is no page table. -/
def switchuvm (s : St κ) (c : κ) (i : Slot) (pc : Pc) : Option (St κ) :=
  if (s.proc i).pgdir then some (s.setCpu c { s.cpu c with cr3 := some i, pc := pc }) else none

/-- `swtch(&cpu->scheduler, p->context)`. -/
def swtchTo (s : St κ) (c : κ) (i : Slot) : Option (St κ) :=
  (s.proc i).context.map fun ctx =>
    (s.modify i fun q => { q with context := none }).setCpu c
      { s.cpu c with stack := some i, scheduler := i, pc := .resume ctx }

/-- `swtch(&proc->context, cpu->scheduler)` in `sched`, which panics without the lock or if the state
of the process has not been changed. -/
def sched (s : St κ) (c : κ) (p : Slot) (ctx : Context) : Option (St κ) :=
  if s.lock = some c ∧ (s.proc p).state ≠ .RUNNING then
    some ((s.modify p fun q => { q with context := some ctx }).setCpu c
      { s.cpu c with stack := none, pc := .back (s.cpu c).scheduler })
  else none

/-- A step of `scheduler`. -/
def scheduler (s : St κ) (c : κ) : Pc → Option (St κ)
  | .idle => s.acquire c (.scan 0)
  -- the loop over the table; `picked` to `back` are its body
  | .scan j =>
    if h : j < NPROC then
      if (s.proc ⟨j, h⟩).state = .RUNNABLE then
        some (s.setCpu c { s.cpu c with proc := some ⟨j, h⟩, pc := .picked ⟨j, h⟩ })
      else some (s.goto c (.scan (j + 1)))
    else some (s.release c .idle)
  | .picked i => s.switchuvm c i (.mapped i)
  | .mapped i => some ((s.setState i .RUNNING).goto c (.marked i))
  | .marked i => s.swtchTo c i
  -- `switchkvm`: the process is done running for now
  | .back i => some (s.setCpu c { s.cpu c with cr3 := none, pc := .unmapped i })
  -- it should have changed its state before coming back
  | .unmapped i => some (s.setCpu c { s.cpu c with proc := none, pc := .scan (i + 1) })
  | _ => none

/-- The lookup of `wait`. -/
def waitScan (s : St κ) (c : κ) (p : Slot) : St κ :=
  match s.find fun q => q.parent = some p ∧ q.state = .ZOMBIE with
  | some i => s.goto c (.waitStack i)
  | none =>
    let havekids := (s.find fun q => q.parent = some p).isSome
    if havekids = false ∨ (s.proc p).killed then s.goto c (.release (some .user))
    else
      -- `sleep(proc, &ptable.lock)`
      (s.modify p fun q => { q with chan := some (.proc p), state := .SLEEPING }).goto c
        (.sched .wait)

/-- What `kill` does under the lock. -/
def killPid (s : St κ) (pid : Int32) : St κ :=
  match s.find fun q => q.pid = pid with
  | none => s
  | some i => s.modify i fun q =>
      { q with killed := true, state := if q.state = .SLEEPING then .RUNNABLE else q.state }

/-- What `allocproc` does under the lock. -/
def allocproc (s : St κ) (c : κ) : St κ :=
  match s.find fun q => q.state = .UNUSED with
  | none => s.goto c (.release (some .user))
  | some i =>
    { s.modify i fun q => { q with state := .EMBRYO, pid := s.nextpid } with
      nextpid := s.nextpid + 1 }.goto c (.release (some (.forkStack i)))

/-- A step of process `p` with the lock. -/
def locked (s : St κ) (c : κ) (p : Slot) : Pc → Option (St κ)
  -- a new process comes out of `forkret`, which holds the lock from `scheduler`
  | .resume .forkret => some (s.release c (.task .user))
  | .resume (.yield k) => some (s.release c (.task k))
  -- `sleep` tidies up: `proc->chan = 0`
  | .resume .sleep => some ((s.modify p fun q => { q with chan := none }).goto c (.release (some .user)))
  -- one scan of `wait`; a zombie is freed by the next three steps
  | .resume .wait => some ((s.modify p fun q => { q with chan := none }).goto c .wait)
  | .yield k => some ((s.setState p .RUNNABLE).goto c (.sched (.yield k)))
  | .sleep chan =>
    some ((s.modify p fun q => { q with chan := some chan, state := .SLEEPING }).goto c (.sched .sleep))
  | .exit => some (((s.exitWake p).setState p .ZOMBIE).goto c (.sched .exit))
  | .wait => some (s.waitScan c p)
  | .waitStack i => some ((s.modify i fun q => { q with kstack := false }).goto c (.waitVm i))
  | .waitVm i => some ((s.modify i fun q => { q with pgdir := false }).goto c (.waitClear i))
  | .waitClear i => some ((s.modify i fun q =>
      { q with pid := 0, parent := none, killed := false, state := .UNUSED }).goto c
        (.release (some .user)))
  | .kill pid => some ((s.killPid pid).goto c (.release (some .user)))
  | .alloc => some (s.allocproc c)
  | .sched ctx => s.sched c p ctx
  | _ => none

/-- `kalloc` in `allocproc`, `copyuvm` in `fork` and what follows them. -/
def forkStep (s : St κ) (c : κ) (p : Slot) (ok : Bool) : Task → Option (St κ)
  | .user => none
  -- the rest of `allocproc`: the kernel stack
  | .forkStack np =>
    if ok then
      some ((s.modify np fun q => { q with kstack := true, context := some .forkret }).goto c
        (.task (.forkCopy np)))
    else some ((s.setState np .UNUSED).goto c (.task .user))
  -- `copyuvm`, which gives the stack back when it fails
  | .forkCopy np =>
    if ok then
      some ((s.modify np fun q => { q with pgdir := true, parent := some p }).goto c
        (.task (.forkReady np)))
    else
      some ((s.modify np fun q => { q with kstack := false, state := .UNUSED }).goto c (.task .user))
  | .forkReady np => some ((s.setState np .RUNNABLE).goto c (.task .user))

/-- A step of process `p` without the lock. -/
def unlocked (s : St κ) (c : κ) (p : Slot) (k : Task) : Move → Option (St κ)
  | .yield => s.acquire c (.yield k)
  | .wakeup chan => s.acquire c (.wakeup chan (some k))
  | .answer ok => s.forkStep c p ok k
  | .sleep chan => if k = .user then s.acquire c (.sleep chan) else none
  | .fork => if k = .user then s.acquire c .alloc else none
  | .exit => if k = .user ∧ p ≠ initproc then s.acquire c .exit else none
  | .wait => if k = .user then s.acquire c .wait else none
  | .kill pid => if k = .user then s.acquire c (.kill pid) else none
  | .go => none

/-- A step of a CPU; `none` when it has to wait, or panics. -/
def next (s : St κ) (a : κ × Move) : Option (St κ) :=
  match (s.cpu a.1).pc, a.2 with
  -- an interrupt handler wakes a channel
  | .idle, .wakeup chan => s.acquire a.1 (.wakeup chan none)
  | .wakeup chan k, .go => some ((s.wakeup1 (some chan)).goto a.1 (.release k))
  | .release none, .go => some (s.release a.1 .idle)
  | .release (some k), .go => some (s.release a.1 (.task k))
  -- outside the lock a processor runs its process
  | .task k, m => (s.cpu a.1).proc.bind fun p => s.unlocked a.1 p k m
  | pc, .go =>
    match pc with
    | .idle | .scan _ | .picked _ | .mapped _ | .marked _ | .back _ | .unmapped _ =>
      s.scheduler a.1 pc
    | _ => (s.cpu a.1).proc.bind fun p => s.locked a.1 p pc
  | _, _ => none

end St

/-- After `userinit`, when the CPUs enter `scheduler`. -/
def start (κ : Type) : St κ where
  lock := none
  proc := fun i =>
    if i = initproc then ⟨.RUNNABLE, 1, none, none, false, true, true, some .forkret⟩
    else ⟨.UNUSED, 0, none, none, false, false, false, none⟩
  nextpid := 2
  cpu := fun _ => ⟨none, none, none, initproc, .idle⟩

end Sched
end OhMyXv6
