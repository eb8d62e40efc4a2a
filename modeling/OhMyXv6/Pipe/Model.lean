import Mathlib.Logic.Function.Basic
import Mathlib.Tactic.Common
import OhMyXv6.Lib.Runs

/-!
# `pipe.c`

Any number of processes call `piperead`, `pipewrite` and `pipeclose` on one pipe, and are killed, in any
order. A process is at one of the places `Pc` of these functions, and one step takes it to the next: it
acquires or releases the lock, goes once through a loop, or calls `wakeup`. So another process can step
in wherever the code does not hold the lock, and `kill` can step in everywhere.

`sleep` lets go of the pipe's lock while it holds `ptable.lock`, which `wakeup` and `kill` need too, so
it is one step. The counters are `uint`s and wrap around.

The two ends are open files. `refs` has the descriptors for an end: who has one may read or write, and
`fileclose` of the last one calls `pipeclose`.
-/

namespace OhMyXv6
namespace Pipe

/-- `pipe.c`: bytes of the ring. -/
def PIPESIZE : UInt32 := 512

/-- What a process sleeps on: `&p->nread` or `&p->nwrite`. -/
inductive Chan where
  | nread
  | nwrite
deriving DecidableEq

/-- Where a process is. -/
inductive Pc where
  | idle
  /-- `pipewrite`: `acquire`, with these bytes still to be written. -/
  | writeAcquire (addr : List UInt8)
  /-- The loops. -/
  | writeLoop (addr : List UInt8)
  /-- The pipe is full: `wakeup(&p->nread)`. -/
  | writeFull (addr : List UInt8)
  /-- `sleep(&p->nwrite, &p->lock)`. -/
  | writeSleep (addr : List UInt8)
  | writeSleeping (addr : List UInt8)
  /-- `release` and return `-1`. -/
  | writeFail
  /-- `wakeup(&p->nread)` after the loop. -/
  | writeWakeup
  /-- `release` and return. -/
  | writeDone
  /-- `piperead`: `acquire`, with `n` bytes to be read. -/
  | readAcquire (n : ℕ)
  /-- The first loop. -/
  | readWait (n : ℕ)
  /-- `sleep(&p->nread, &p->lock)`. -/
  | readSleep (n : ℕ)
  | readSleeping (n : ℕ)
  | readFail
  /-- The second loop, and the bytes it has copied. -/
  | readLoop (n : ℕ) (got : List UInt8)
  /-- `wakeup(&p->nwrite)`. -/
  | readWakeup (got : List UInt8)
  | readDone (got : List UInt8)
  /-- `pipeclose`: `acquire`. -/
  | closeAcquire (writable : Bool)
  /-- `p->writeopen = 0` or `p->readopen = 0`. -/
  | closeSet (writable : Bool)
  /-- `wakeup`. -/
  | closeWakeup (writable : Bool)
  /-- `release`, and `kfree` if both ends are closed. -/
  | closeDone
deriving DecidableEq

namespace Pc

/-- `wakeup(chan)` or `kill`, for a process that sleeps: it goes on with `acquire`. -/
def wake (chan : Chan) : Pc → Pc
  | writeSleeping addr => if chan = .nwrite then writeAcquire addr else writeSleeping addr
  | readSleeping n => if chan = .nread then readAcquire n else readSleeping n
  | pc => pc

/-- The process holds the lock. -/
def Holds : Pc → Bool
  | idle | writeAcquire _ | writeSleeping _ | readAcquire _ | readSleeping _ | closeAcquire _ => false
  | _ => true

/-- The bytes that `piperead` has copied and not yet returned. -/
def got : Pc → List UInt8
  | readLoop _ got | readWakeup got | readDone got => got
  | _ => []

end Pc

/-- A pipe, the processes that use it, and its history. -/
structure St where
  lock : Option ℕ
  data : ℕ → UInt8
  nread : UInt32
  nwrite : UInt32
  readopen : Bool
  writeopen : Bool
  pc : ℕ → Pc
  killed : ℕ → Bool
  /-- The processes with a descriptor for the write end (`true`) or the read end, one place for each
  descriptor. -/
  refs : Bool → List ℕ
  /-- History: the bytes that `pipewrite` has put into the pipe. -/
  stored : List UInt8
  /-- History: the bytes that `piperead` has returned. -/
  returned : List UInt8

/-- What may happen next. -/
inductive Act where
  /-- `fileread`. -/
  | read (p n : ℕ)
  /-- `filewrite`. -/
  | write (p : ℕ) (addr : List UInt8)
  /-- `fileclose`. -/
  | close (p : ℕ) (writable : Bool)
  /-- `filedup`, for a descriptor of process `q`. -/
  | dup (p q : ℕ) (writable : Bool)
  /-- The next step of a process. -/
  | step (p : ℕ)
  | kill (p : ℕ)

namespace St

/-- Process `p` goes on elsewhere. -/
def goto (s : St) (p : ℕ) (pc : Pc) : St := { s with pc := Function.update s.pc p pc }

/-- `acquire(&p->lock)`, possible if nobody has it. -/
def acquire (s : St) (p : ℕ) (pc : Pc) : Option St :=
  if s.lock = none then some { s.goto p pc with lock := some p } else none

/-- `release(&p->lock)`. -/
def release (s : St) (p : ℕ) (pc : Pc) : St := { s.goto p pc with lock := none }

/-- `wakeup`: all sleepers on the channel go on. -/
def wakeup (s : St) (chan : Chan) : St := { s with pc := fun q => (s.pc q).wake chan }

/-- `p->nwrite == p->nread + PIPESIZE`. -/
def Full (s : St) : Prop := s.nwrite = s.nread + PIPESIZE

/-- `p->nread == p->nwrite`. -/
def Empty (s : St) : Prop := s.nread = s.nwrite

instance (s : St) : Decidable s.Full := inferInstanceAs (Decidable (_ = _))

instance (s : St) : Decidable s.Empty := inferInstanceAs (Decidable (_ = _))

/-- `p->data[p->nwrite++ % PIPESIZE] = c`. -/
def store (s : St) (c : UInt8) : St :=
  { s with
    data := Function.update s.data (s.nwrite % PIPESIZE).toNat c
    nwrite := s.nwrite + 1
    stored := s.stored ++ [c] }

/-- `p->data[p->nread % PIPESIZE]`. -/
def front (s : St) : UInt8 := s.data (s.nread % PIPESIZE).toNat

/-- The next step of process `p`. -/
def next (s : St) (p : ℕ) : Option St :=
  match s.pc p with
  | .idle => none
  | .writeAcquire addr => s.acquire p (.writeLoop addr)
  | .writeLoop [] => some (s.goto p .writeWakeup)
  -- the test of the `while`, and its body
  | .writeLoop (c :: addr) =>
    if s.Full then
      -- -1 without a `wakeup` of the readers
      if s.readopen = false ∨ s.killed p then some (s.goto p .writeFail)
      else some (s.goto p (.writeFull (c :: addr)))
    else some ((s.store c).goto p (.writeLoop addr))
  | .writeFull addr => some ((s.wakeup .nread).goto p (.writeSleep addr))
  | .writeSleep addr => some (s.release p (.writeSleeping addr))
  | .writeSleeping _ => none
  | .writeFail => some (s.release p .idle)
  | .writeWakeup => some ((s.wakeup .nread).goto p .writeDone)
  | .writeDone => some (s.release p .idle)
  | .readAcquire n => s.acquire p (.readWait n)
  -- `pipe-empty`
  | .readWait n =>
    if s.Empty ∧ s.writeopen then
      if s.killed p then some (s.goto p .readFail) else some (s.goto p (.readSleep n))
    else some (s.goto p (.readLoop n []))
  | .readSleep n => some (s.release p (.readSleeping n))
  | .readSleeping _ => none
  | .readFail => some (s.release p .idle)
  -- one turn of the `for`
  | .readLoop n got =>
    if got.length = n ∨ s.Empty then some (s.goto p (.readWakeup got))
    else some ({ s with nread := s.nread + 1 }.goto p (.readLoop n (got ++ [s.front])))
  | .readWakeup got => some ((s.wakeup .nwrite).goto p (.readDone got))
  | .readDone got => some { s.release p .idle with returned := s.returned ++ got }
  | .closeAcquire writable => s.acquire p (.closeSet writable)
  -- the flag of this end
  | .closeSet writable =>
    let t := if writable then { s with writeopen := false } else { s with readopen := false }
    some (t.goto p (.closeWakeup writable))
  | .closeWakeup writable =>
    some ((s.wakeup (if writable then .nread else .nwrite)).goto p .closeDone)
  | .closeDone => some (s.release p .idle)

/-- One action; `none` when it cannot be taken. -/
def step (s : St) : Act → Option St
  | .read p n =>
    if s.pc p = .idle ∧ p ∈ s.refs false then some (s.goto p (.readAcquire n)) else none
  | .write p addr =>
    if s.pc p = .idle ∧ p ∈ s.refs true then some (s.goto p (.writeAcquire addr)) else none
  -- `fileclose` calls `pipeclose` for the last reference only
  | .close p writable =>
    if s.pc p = .idle ∧ p ∈ s.refs writable then
      let left := (s.refs writable).erase p
      let t := { s with refs := Function.update s.refs writable left }
      some (if left = [] then t.goto p (.closeAcquire writable) else t)
    else none
  | .dup p q writable =>
    if s.pc p = .idle ∧ s.pc q = .idle ∧ p ∈ s.refs writable then
      some { s with refs := Function.update s.refs writable (q :: s.refs writable) }
    else none
  | .step p => s.next p
  -- `kill` sets the flag and wakes the process, whatever it sleeps on
  | .kill p =>
    some { s with
      killed := Function.update s.killed p true
      pc := Function.update s.pc p (((s.pc p).wake .nread).wake .nwrite) }

end St

/-- The pipe that `pipealloc` makes for process `p`, in a page with any contents. -/
def pipealloc (p : ℕ) (data : ℕ → UInt8) : St where
  lock := none
  data := data
  nread := 0
  nwrite := 0
  readopen := true
  writeopen := true
  pc := fun _ => .idle
  killed := fun _ => false
  refs := fun _ => [p]
  stored := []
  returned := []

end Pipe
end OhMyXv6
