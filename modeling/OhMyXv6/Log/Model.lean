import Mathlib.Logic.Function.Basic
import Mathlib.Data.Nat.Notation
import OhMyXv6.Param

/-!
# `log.c`: the redo log, one disk write at a time

The state is what survives a crash (the disk) and what does not: the buffer cache, the
in-memory log header `lh`, the two counters of `struct log`, and where each process stands.
One action is one step of one process that no other process can be seen to interrupt: a
section under `log.lock`, or a stretch of code with a single block write in it. Any
interleaving of the steps of any processes is then a list of actions, and a crash, which
may come between any two of them, is one more action.

Three points of the source shape the model:

* `log_write` tests its two limits *before* it takes `log.lock`. The test and the locked
  part are two actions (`logWrite`, `append`), so that other processes can run in between.
* `bio.c` has `NBUF` buffers. A block that misses takes one that is not in use and is read
  from the disk; `bget` panics when all of them are dirty, locked or referenced. Which unused
  buffer is given up is left open: `evict` drops one, at any moment. Processes that only look
  at a block, or wait for its lock, keep its buffer with `bread` and let it go with `brelse`.
* `commit` and `recover_from_log` run the same `install_trans`; the one walks the header it
  has in memory, the other first reads that header back from the disk.

`opId`, `nextOp`, `group`, `committed`, `past`, `pend` and `logged` are history variables. No
branch reads them; they record which operation made which block modification and which
operations belong to a group whose header write has reached the disk.
-/

namespace OhMyXv6
namespace Log

/-- The log area of the disk, as `initlog` takes it from the super block: the header block
at `start`, then `size - 1` blocks for data. -/
structure Area where
  start : ℕ
  size : ℕ

/-- Block `b` lies in the log area. -/
def Area.Contains (L : Area) (b : ℕ) : Prop := L.start ≤ b ∧ b < L.start + L.size

instance (L : Area) (b : ℕ) : Decidable (L.Contains b) :=
  inferInstanceAs (Decidable (_ ∧ _))

/-- `struct buf`, as far as the log sees it. -/
structure Buf (β : Type) where
  data : β
  /-- `B_DIRTY`: modified and logged, not to be recycled. -/
  dirty : Bool
  /-- A process holds the buffer's sleep lock. -/
  locked : Bool

/-- The disk. The header block at `start` is kept decoded: the block numbers it lists, of
which there are `n`. -/
structure Disk (β : Type) where
  head : List ℕ
  blk : ℕ → β

/-- The calls of `panic` in `log.c` that are about transactions, and the one in `bget`. -/
inductive Panic
  /-- `"too big a transaction"` -/
  | tooBig
  /-- `"log_write outside of trans"` -/
  | outsideTrans
  /-- `"log.committing"` -/
  | committing
  /-- `"bget: no buffers"` -/
  | noBuffers
deriving DecidableEq

/-- Where a process stands with respect to the log. -/
inductive Pc
  /-- Not between `begin_op` and `end_op`. -/
  | out
  /-- Between `begin_op` and `end_op`. -/
  | op
  /-- Has locked and modified buffer `b`, and calls `log_write` next. -/
  | modified (b : ℕ)
  /-- In `log_write(b)`, past the tests and before `acquire(&log.lock)`. -/
  | checked (b : ℕ)
  /-- In `commit`, at its first test. -/
  | commit
  /-- In `write_log`, with `tail` blocks copied. -/
  | writeLog (tail : ℕ)
  /-- At the `write_head` that commits. -/
  | writeHead
  /-- In `install_trans`, with `tail` blocks copied home. -/
  | installTrans (tail : ℕ)
  /-- At the `write_head` that erases the transaction. -/
  | clearHead
  /-- Back in `end_op`, before `log.committing = 0`. -/
  | committed
deriving DecidableEq

/-- What the machine as a whole is doing. -/
inductive Mode
  /-- Just booted: `recover_from_log` calls `read_head` next. -/
  | readHead
  /-- In the `install_trans` of `recover_from_log`, with `tail` blocks copied home. -/
  | recover (tail : ℕ)
  /-- At the `write_head` of `recover_from_log`. -/
  | clearHead
  /-- Recovery is over, processes run. -/
  | up
  | panicked (why : Panic)
  /-- `log_write` stored past the end of `lh.block`. -/
  | overrun
deriving DecidableEq

/-- One block modification: operation `op` set block `blk` to `data`. -/
structure Update (β : Type) where
  op : ℕ
  blk : ℕ
  data : β

/-- The disk, the buffer cache and the log, and what the processes have done. -/
structure State (P β : Type) where
  disk : Disk β
  cache : ℕ → Option (Buf β)
  /-- The blocks the buffers in use belong to. -/
  bufs : List ℕ
  /-- The part of `b->refcnt` that is due to processes which only look at the block. -/
  refs : ℕ → ℕ
  /-- `log.lh`, the blocks it lists. -/
  lh : List ℕ
  outstanding : ℕ
  committing : Bool
  pc : P → Pc
  mode : Mode
  /-- The operation a process is in, or was in last. -/
  opId : P → ℕ
  nextOp : ℕ
  /-- The operations begun since the last group commit. -/
  group : List ℕ
  /-- The operations of the groups whose header write has reached the disk. -/
  committed : List ℕ
  /-- The modifications made before the current group, in order. -/
  past : List (Update β)
  /-- The modifications of the current group, in order. -/
  pend : List (Update β)
  /-- The blocks a process has logged since its `begin_op`. -/
  logged : P → List ℕ

/-- What may happen next. -/
inductive Act (P β : Type)
  | beginOp (p : P)
  /-- `bread(b)` by `p`, and new contents `v` stored in the buffer. -/
  | modify (p : P) (b : ℕ) (v : β)
  /-- `log_write` by `p` up to `acquire(&log.lock)`. -/
  | logWrite (p : P)
  /-- The rest of `log_write` by `p`, and `brelse`. -/
  | append (p : P)
  | endOp (p : P)
  /-- The next step of `p` in `commit`, or after it. -/
  | commit (p : P)
  /-- `bread(b)` by a process that only looks at the block. -/
  | bread (b : ℕ)
  /-- The `brelse` that goes with it. -/
  | brelse (b : ℕ)
  /-- `bget` recycles the buffer of block `b`. -/
  | evict (b : ℕ)
  | crash
  /-- The next step of `recover_from_log`. -/
  | recover

variable {P β : Type}

/-- Every modification ever made, in order. -/
def State.hist (s : State P β) : List (Update β) := s.past ++ s.pend

/-- What `bread(b)` finds in the buffer it returns. -/
def State.bread (s : State P β) (b : ℕ) : β :=
  match s.cache b with
  | some buf => buf.data
  | none => s.disk.blk b

/-- The buffer of block `b` is locked. -/
def State.isLocked (s : State P β) (b : ℕ) : Bool :=
  match s.cache b with
  | some buf => buf.locked
  | none => false

/-- The buffer of block `b` is dirty. -/
def State.isDirty (s : State P β) (b : ℕ) : Bool :=
  match s.cache b with
  | some buf => buf.dirty
  | none => false

/-- The scan of `bget` for a buffer to recycle takes the one of block `b`, when the caller
itself holds the buffers of the blocks `held`. -/
def State.recyclable (s : State P β) (held : List ℕ) (b : ℕ) : Bool :=
  !s.isDirty b && !s.isLocked b && s.refs b == 0 && b ∉ held

/-- Block `b` gets a buffer, and the buffer is read from the disk. -/
def State.fill (s : State P β) (b : ℕ) : State P β :=
  { s with
    cache := Function.update s.cache b (some ⟨s.disk.blk b, false, false⟩)
    bufs := b :: s.bufs }

/-- `bread(b)` by a process that holds the buffers of `held`, and then `k`. Where every buffer
is in use but one can be recycled, that one has to be dropped first. -/
def State.bget (s : State P β) (held : List ℕ) (b : ℕ)
    (k : State P β → Option (State P β)) : Option (State P β) :=
  if (s.cache b).isSome then k s
  else if s.bufs.length < NBUF then k (s.fill b)
  else if s.bufs.any (s.recyclable held) then none
  else some { s with mode := .panicked .noBuffers }

/-- `bwrite` of the buffer of `b` holding `v`: `iderw` writes the block and clears
`B_DIRTY`. -/
def State.bwrite (s : State P β) (b : ℕ) (v : β) : State P β :=
  { s with
    disk := { s.disk with blk := Function.update s.disk.blk b v }
    cache := Function.update s.cache b (some ⟨v, false, s.isLocked b⟩) }

/-- `write_head`: the in-memory header goes to the disk in one block write. -/
def State.writeHead (s : State P β) : State P β :=
  { s with disk := { s.disk with head := s.lh } }

section
variable [DecidableEq P]

/-- `begin_op`. A process that would sleep is not enabled. -/
def beginOp (p : P) (s : State P β) : Option (State P β) :=
  if s.mode = .up ∧ s.pc p = .out then
    -- `begin_op` sleeps while a commit is under way
    if s.committing then none
    -- and while the operation might not fit into the log
    else if s.lh.length + (s.outstanding + 1) * MAXOPBLOCKS > LOGSIZE then none
    else some { s with
      outstanding := s.outstanding + 1
      pc := Function.update s.pc p .op
      opId := Function.update s.opId p s.nextOp
      nextOp := s.nextOp + 1
      group := s.nextOp :: s.group
      logged := Function.update s.logged p [] }
  else none

/-- A process inside an operation locks the buffer of `b` and changes its contents. -/
def modify (p : P) (b : ℕ) (v : β) (s : State P β) : Option (State P β) :=
  if s.mode = .up ∧ s.pc p = .op ∧ s.isLocked b = false then
    s.bget [] b fun s => some { s with
      cache := Function.update s.cache b (some ⟨v, s.isDirty b, true⟩)
      pc := Function.update s.pc p (.modified b)
      pend := s.pend ++ [⟨s.opId p, b, v⟩] }
  else none

/-- `log_write` up to `acquire(&log.lock)`: the two tests, made without the lock. -/
def logWrite (L : Area) (p : P) (s : State P β) : Option (State P β) :=
  match s.mode, s.pc p with
  | .up, .modified b =>
    -- `panic("too big a transaction")`
    if LOGSIZE ≤ s.lh.length ∨ L.size ≤ s.lh.length + 1 then
      some { s with mode := .panicked .tooBig }
    -- `panic("log_write outside of trans")`
    else if s.outstanding < 1 then
      some { s with mode := .panicked .outsideTrans }
    else some { s with pc := Function.update s.pc p (.checked b) }
  | _, _ => none

/-- `log_write` under `log.lock`: absorb the block or append it, and mark the buffer dirty;
then `brelse`. -/
def append (p : P) (s : State P β) : Option (State P β) :=
  match s.mode, s.pc p with
  | .up, .checked b =>
    -- the check was made without the lock: the array may have filled up since
    if b ∉ s.lh ∧ LOGSIZE ≤ s.lh.length then some { s with mode := .overrun }
    else some { s with
      -- absorption: a block that is listed already is not listed again
      lh := if b ∈ s.lh then s.lh else s.lh ++ [b]
      cache := Function.update s.cache b (some ⟨s.bread b, true, false⟩)
      pc := Function.update s.pc p .op
      logged := Function.update s.logged p (s.logged p ++ [b]) }
  | _, _ => none

/-- `end_op` up to the call of `commit`. -/
def endOp (p : P) (s : State P β) : Option (State P β) :=
  if s.mode = .up ∧ s.pc p = .op then
    -- `panic("log.committing")`
    if s.committing then some { s with mode := .panicked .committing }
    -- the last operation commits, without holding the lock
    else if s.outstanding - 1 = 0 then
      some { s with
        outstanding := s.outstanding - 1
        committing := true
        pc := Function.update s.pc p .commit }
    else
      some { s with
        outstanding := s.outstanding - 1
        pc := Function.update s.pc p .out }
  else none

/-- `commit` and the end of `end_op`, one block write at a time. -/
def commit (L : Area) (p : P) (s : State P β) : Option (State P β) :=
  if s.mode = .up then
    match s.pc p with
    | .commit =>
      if 0 < s.lh.length then some { s with pc := Function.update s.pc p (.writeLog 0) }
      else some { s with pc := Function.update s.pc p .committed }
    -- `write_log`: a block from the cache into the log
    | .writeLog tail =>
      match s.lh[tail]? with
      | some b =>
        s.bget [] (L.start + tail + 1) fun s => s.bget [L.start + tail + 1] b fun s =>
          some { s.bwrite (L.start + tail + 1) (s.bread b) with
            pc := Function.update s.pc p (.writeLog (tail + 1)) }
      | none => some { s with pc := Function.update s.pc p .writeHead }
    -- the true point of commit: the header names the blocks
    | .writeHead =>
      s.bget [] L.start fun s => some { s.writeHead with
        pc := Function.update s.pc p (.installTrans 0)
        committed := s.group ++ s.committed
        group := []
        past := s.past ++ s.pend
        pend := [] }
    -- `install_trans`: a block from the log to its own place
    | .installTrans tail =>
      match s.lh[tail]? with
      | some b =>
        s.bget [] (L.start + tail + 1) fun s => s.bget [L.start + tail + 1] b fun s =>
          some { s.bwrite b (s.bread (L.start + tail + 1)) with
            pc := Function.update s.pc p (.installTrans (tail + 1)) }
      | none => some { s with lh := [], pc := Function.update s.pc p .clearHead }
    -- the transaction is erased from the log
    | .clearHead =>
      s.bget [] L.start fun s =>
        some { s.writeHead with pc := Function.update s.pc p .committed }
    | .committed =>
      some { s with committing := false, pc := Function.update s.pc p .out }
    | _ => none
  else none

/-- `bread` by a process that only looks at the block. -/
def bread (b : ℕ) (s : State P β) : Option (State P β) :=
  if s.mode = .up then
    s.bget [] b fun s => some { s with refs := Function.update s.refs b (s.refs b + 1) }
  else none

/-- `brelse` of a buffer that was only looked at. -/
def brelse (b : ℕ) (s : State P β) : Option (State P β) :=
  if s.mode = .up ∧ 0 < s.refs b then
    some { s with refs := Function.update s.refs b (s.refs b - 1) }
  else none

/-- The machine goes on: it has not panicked, nor overwritten what follows `lh.block`. -/
def Mode.Alive : Mode → Prop
  | .panicked _ | .overrun => False
  | .readHead | .recover _ | .clearHead | .up => True

instance : ∀ m : Mode, Decidable m.Alive
  | .panicked _ | .overrun => isFalse id
  | .readHead | .recover _ | .clearHead | .up => isTrue trivial

/-- `bget` gives up the buffer of `b`: unused and not dirty. -/
def evict (b : ℕ) (s : State P β) : Option (State P β) :=
  if s.mode.Alive ∧ (s.cache b).isSome ∧ s.recyclable [] b then
    some { s with cache := Function.update s.cache b none, bufs := s.bufs.erase b }
  else none

/-- Power is lost: only the disk survives, and the next boot starts with recovery. -/
def crash (s : State P β) : State P β :=
  { s with
    cache := fun _ => none
    bufs := []
    refs := fun _ => 0
    lh := []
    outstanding := 0
    committing := false
    pc := fun _ => .out
    mode := .readHead
    group := []
    -- what was pending is lost, and stays in the history
    past := s.past ++ s.pend
    pend := [] }

/-- `recover_from_log`, one block write at a time. -/
def recover (L : Area) (s : State P β) : Option (State P β) :=
  match s.mode with
  | .readHead => s.bget [] L.start fun s => some { s with lh := s.disk.head, mode := .recover 0 }
  -- `install_trans`: a block from the log to its home
  | .recover tail =>
    match s.lh[tail]? with
    | some b =>
      s.bget [] (L.start + tail + 1) fun s => s.bget [L.start + tail + 1] b fun s =>
        some { s.bwrite b (s.bread (L.start + tail + 1)) with mode := .recover (tail + 1) }
    -- `log.lh.n = 0`, before `write_head` empties the log
    | none => some { s with lh := [], mode := .clearHead }
  | .clearHead => s.bget [] L.start fun s => some { s.writeHead with mode := .up }
  | _ => none

/-- One action of the machine. -/
def step (L : Area) (s : State P β) : Act P β → Option (State P β)
  | .beginOp p => beginOp p s
  | .modify p b v => modify p b v s
  | .logWrite p => logWrite L p s
  | .append p => append p s
  | .endOp p => endOp p s
  | .commit p => commit L p s
  | .bread b => bread b s
  | .brelse b => brelse b s
  | .evict b => evict b s
  | .crash => some (crash s)
  | .recover => recover L s

end

/-- Power-on with the disk `d`. -/
def boot (d : Disk β) : State P β where
  disk := d
  cache := fun _ => none
  bufs := []
  refs := fun _ => 0
  lh := []
  outstanding := 0
  committing := false
  pc := fun _ => .out
  mode := .readHead
  opId := fun _ => 0
  nextOp := 0
  group := []
  committed := []
  past := []
  pend := []
  logged := fun _ => []

end Log
end OhMyXv6
