import Mathlib.Data.Fintype.Prod
import Mathlib.Data.Fintype.Sum
import OhMyXv6.Bio.Flat

/-!
# The log over the buffer cache

Processes read and change blocks through the cache, and `commit` copies the blocks that were logged
into the log and back to where they belong. A process may have several buffers at a time, one in each
of its slots; `commit` has two, one for a block of the log and one for the block it logs.

One action is a section under `bcache.lock` or `log.lock`, the return of `acquiresleep`, or what a
process does with a buffer whose lock it holds: nobody else can see the buffer in between. The disk
transfers the data without an error. A call that panics ends the run, and so does an append behind
the end of `lh.block`.

`req` and `mods` are history variables: the block that was asked for in a slot, and the changes that
were made to blocks, the newest first. The copy of `install_trans` is no change: it is to write what
the block holds.
-/

namespace OhMyXv6
namespace Store

open Bio

/-- The log as `initlog` finds it, and how the header is stored in the data of a block. -/
structure Area (β : Type) where
  dev : ℕ
  start : ℕ
  size : ℕ
  header : List ℕ → β → β

/-- The block belongs to the log. -/
def Area.Contains {β : Type} (L : Area β) (n : ℕ) : Prop := L.start ≤ n ∧ n < L.start + L.size

instance {β : Type} (L : Area β) (n : ℕ) : Decidable (L.Contains n) :=
  inferInstanceAs (Decidable (_ ∧ _))

/-- The users of buffers: the slots of the processes, and the two buffers of `commit`. -/
abbrev Agent (P K : Type) := (P × K) ⊕ Bool

/-- `to` in `write_log`, `lbuf` in `install_trans`, `buf` in `write_head`. -/
def lbuf {P K : Type} : Agent P K := .inr false

/-- `from` in `write_log`, `dbuf` in `install_trans`. -/
def dbuf {P K : Type} : Agent P K := .inr true

/-- What a process has done with the buffer in a slot. -/
inductive Phase where
  /-- `bread` has not returned, or there is no buffer. -/
  | unread
  /-- There is nothing to write. -/
  | ready
  /-- The data is changed. -/
  | modified
  /-- In `log_write`, past the tests and before `acquire(&log.lock)`. -/
  | checked
deriving DecidableEq

/-- Where `commit` stands; `i` counts the steps of one round of a loop or of `write_head`. -/
inductive At where
  | test
  | writeLog (tail i : ℕ)
  | writeHead (i : ℕ)
  | installTrans (tail i : ℕ)
  | clearHead (i : ℕ)
  | done
deriving DecidableEq

/-- Where a process is with its operation. -/
inductive Pc where
  | out
  /-- Between `begin_op` and `end_op`. -/
  | op
  | commit (a : At)
deriving DecidableEq

/-- The cache, the disk and the log, and what the processes do with them. -/
structure State (P K β : Type) where
  bio : Sys (Agent P K) β
  disk : ℕ → ℕ → β
  lh : List ℕ
  outstanding : ℕ
  committing : Bool
  pc : P → Pc
  phase : P × K → Phase
  req : P × K → ℕ × ℕ
  mods : List (ℕ × ℕ × β)

/-- What block `n` of device `d` holds: the last change, or what was on the disk. -/
def latest {β : Type} (D : ℕ → ℕ → β) : List (ℕ × ℕ × β) → ℕ → ℕ → β
  | [] => D
  | m :: ms => put (latest D ms) m.1 m.2.1 m.2.2

variable {P K β : Type} [DecidableEq P] [DecidableEq K]

namespace State

/-! ## Buffers -/

/-- The state after a step of the cache, if that was possible. -/
def withBio (S : State P K β) (B : Option (Sys (Agent P K) β)) : Option (State P K β) :=
  B.map fun B => { S with bio := B }

/-- `bwrite`, with what it does to the disk. -/
def bwrite (u : Agent P K) (S : State P K β) : Option (State P K β) :=
  match S.bio.held u with
  | some x => (S.bio.bwrite u).map fun B =>
      { S with bio := B, disk := put S.disk x.dev x.blockno x.data }
  | none => none

/-- `memmove` into the data of the buffer of `u`, and `bwrite`. -/
def overwrite (u : Agent P K) (v : β) (S : State P K β) : Option (State P K β) :=
  (S.withBio (S.bio.store u v)).bind fun S => S.bwrite u

/-- The data of the buffer that `u` holds is copied into that of `v`, which is written. -/
def copy (u v : Agent P K) (S : State P K β) : Option (State P K β) :=
  match S.bio.held u with
  | some x => S.overwrite v x.data
  | none => none

/-! ## Processes -/

/-- A step of a process that is not in `commit`, with the buffer in one of its slots. -/
def client (p : P) (f : Option (State P K β)) (S : State P K β) : Option (State P K β) :=
  match S.pc p with
  | .commit _ => none
  | _ => f

/-- Slot `u` goes on to another phase. -/
def setPhase (u : P × K) (ph : Phase) (S : State P K β) : State P K β :=
  { S with phase := Function.update S.phase u ph }

/-- `bread` up to `acquiresleep`. -/
def bget (u : P × K) (d n : ℕ) (S : State P K β) : Option (State P K β) :=
  S.client u.1 ((S.withBio (S.bio.bget (.inl u) d n)).map fun S =>
    { S with req := Function.update S.req u (d, n) })

/-- `acquiresleep`, in a slot of a process. -/
def acquiresleep (u : P × K) (S : State P K β) : Option (State P K β) :=
  S.client u.1 (S.withBio (S.bio.acquiresleep (.inl u)))

/-- The rest of `bread`. -/
def fill (u : P × K) (S : State P K β) : Option (State P K β) :=
  S.client u.1 (if S.phase u = .unread then
    (S.withBio (S.bio.fill S.disk (.inl u))).map fun S => S.setPhase u .ready else none)

/-- The data is changed. -/
def modify (u : P × K) (v : β) (S : State P K β) : Option (State P K β) :=
  S.client u.1 (if S.phase u = .ready ∨ S.phase u = .modified then
    match S.bio.held (.inl u) with
    | some x => (S.withBio (S.bio.store (.inl u) v)).map fun S =>
        { S.setPhase u .modified with mods := (x.dev, x.blockno, v) :: S.mods }
    | none => none
  else none)

/-- `log_write` up to `acquire(&log.lock)`. -/
def logWrite (L : Area β) (u : P × K) (S : State P K β) : Option (State P K β) :=
  if S.pc u.1 = .op ∧ (S.phase u = .ready ∨ S.phase u = .modified) then
    if LOGSIZE ≤ S.lh.length ∨ L.size ≤ S.lh.length + 1 ∨ S.outstanding < 1 then none
    else some (S.setPhase u .checked)
  else none

/-- `log_write` under `log.lock`. -/
def append (u : P × K) (S : State P K β) : Option (State P K β) :=
  S.client u.1 (if S.phase u = .checked then
    match S.bio.held (.inl u) with
    | some x =>
      -- the array is full although the check passed
      if x.blockno ∉ S.lh ∧ LOGSIZE ≤ S.lh.length then none
      else (S.withBio (S.bio.setDirty (.inl u))).map fun S =>
        { S.setPhase u .ready with
          lh := if x.blockno ∈ S.lh then S.lh else S.lh ++ [x.blockno] }
    | none => none
  else none)

/-- A process calls `bwrite` on a buffer that it holds. -/
def write (u : P × K) (S : State P K β) : Option (State P K β) :=
  S.client u.1 (if S.phase u = .ready ∨ S.phase u = .modified then
    (S.bwrite (.inl u)).map fun S => S.setPhase u .ready else none)

/-- `brelse` up to `acquire(&bcache.lock)`. -/
def releasesleep (u : P × K) (S : State P K β) : Option (State P K β) :=
  S.client u.1 (if S.phase u = .ready then
    (S.withBio (S.bio.releasesleep (.inl u))).map fun S => S.setPhase u .unread else none)

/-- The reference to a buffer is given back. -/
def brelse (u : P × K) (S : State P K β) : Option (State P K β) :=
  S.client u.1 (S.withBio (S.bio.brelse (.inl u)))

/-! ## Operations -/

/-- Process `p` goes on elsewhere. -/
def setPc (p : P) (pc : Pc) (S : State P K β) : State P K β :=
  { S with pc := Function.update S.pc p pc }

/-- `begin_op`: the process goes on if the log has room for one more operation. -/
def beginOp (p : P) (S : State P K β) : Option (State P K β) :=
  if S.pc p = .out then
    if S.committing ∨ S.lh.length + (S.outstanding + 1) * MAXOPBLOCKS > LOGSIZE then none
    else some { S.setPc p .op with outstanding := S.outstanding + 1 }
  else none

/-- `end_op` up to the call of `commit`. What the process has changed is written by then. -/
def endOp [Fintype K] (p : P) (S : State P K β) : Option (State P K β) :=
  if S.pc p = .op ∧ ∀ k, S.phase (p, k) = .unread ∨ S.phase (p, k) = .ready then
    if S.committing then none
    else if S.outstanding - 1 = 0 then
      some { S.setPc p (.commit .test) with outstanding := S.outstanding - 1, committing := true }
    else some { S.setPc p .out with outstanding := S.outstanding - 1 }
  else none

/-! ## `commit` -/

/-- The steps of one round of `write_log` or `install_trans`, up to `memmove`: the log block and then
the other one are read. -/
def readBoth (L : Area β) (a b : ℕ) (S : State P K β) : ℕ → Option (State P K β)
  | 0 => S.withBio (S.bio.bget lbuf L.dev a)
  | 1 => S.withBio (S.bio.acquiresleep lbuf)
  | 2 => S.withBio (S.bio.fill S.disk lbuf)
  | 3 => S.withBio (S.bio.bget dbuf L.dev b)
  | 4 => S.withBio (S.bio.acquiresleep dbuf)
  | 5 => S.withBio (S.bio.fill S.disk dbuf)
  | _ => none

/-- The end of a round: the two buffers are released. -/
def releaseBoth (u v : Agent P K) (S : State P K β) : ℕ → Option (State P K β)
  | 7 => S.withBio (S.bio.releasesleep u)
  | 8 => S.withBio (S.bio.brelse u)
  | 9 => S.withBio (S.bio.releasesleep v)
  | 10 => S.withBio (S.bio.brelse v)
  | _ => none

/-- One round of `write_log`. -/
def writeLog (L : Area β) (tail b i : ℕ) (S : State P K β) : Option (State P K β) :=
  if i < 6 then S.readBoth L (L.start + tail + 1) b i
  else if i = 6 then
    match S.bio.held dbuf with
    | some x => (S.copy dbuf lbuf).map fun S =>
        { S with mods := (L.dev, L.start + tail + 1, x.data) :: S.mods }
    | none => none
  else S.releaseBoth dbuf lbuf i

/-- One round of `install_trans`. -/
def installTrans (L : Area β) (tail b i : ℕ) (S : State P K β) : Option (State P K β) :=
  if i < 6 then S.readBoth L (L.start + tail + 1) b i
  else if i = 6 then S.copy lbuf dbuf
  else S.releaseBoth lbuf dbuf i

/-- The steps of `write_head`. -/
def writeHead (L : Area β) (S : State P K β) : ℕ → Option (State P K β)
  | 0 => S.withBio (S.bio.bget lbuf L.dev L.start)
  | 1 => S.withBio (S.bio.acquiresleep lbuf)
  | 2 => S.withBio (S.bio.fill S.disk lbuf)
  | 3 =>
    match S.bio.held lbuf with
    -- the count and the block numbers, over what the block held
    | some x => (S.overwrite lbuf (L.header S.lh x.data)).map fun S =>
        { S with mods := (L.dev, L.start, L.header S.lh x.data) :: S.mods }
    | none => none
  | 4 => S.withBio (S.bio.releasesleep lbuf)
  | 5 => S.withBio (S.bio.brelse lbuf)
  | _ => none

/-- The next step of a process in `commit`, and of `end_op` after it. -/
def commit (L : Area β) (p : P) (S : State P K β) : Option (State P K β) :=
  match S.pc p with
  | .commit .test =>
    some (S.setPc p (.commit (if 0 < S.lh.length then .writeLog 0 0 else .done)))
  -- eleven steps for each block: two `bread`, the copy, a `bwrite`, two `brelse`
  | .commit (.writeLog tail i) =>
    match S.lh[tail]? with
    | some b => (S.writeLog L tail b i).map fun S => S.setPc p (.commit
        (if i = 10 then .writeLog (tail + 1) 0 else .writeLog tail (i + 1)))
    | none => some (S.setPc p (.commit (.writeHead 0)))
  | .commit (.writeHead i) =>
    (S.writeHead L i).map fun S => S.setPc p (.commit
      (if i = 5 then .installTrans 0 0 else .writeHead (i + 1)))
  | .commit (.installTrans tail i) =>
    match S.lh[tail]? with
    | some b => (S.installTrans L tail b i).map fun S => S.setPc p (.commit
        (if i = 10 then .installTrans (tail + 1) 0 else .installTrans tail (i + 1)))
    -- `log.lh.n = 0`
    | none => some { S.setPc p (.commit (.clearHead 0)) with lh := [] }
  | .commit (.clearHead i) =>
    (S.writeHead L i).map fun S => S.setPc p (.commit
      (if i = 5 then .done else .clearHead (i + 1)))
  | .commit .done => some { S.setPc p .out with committing := false }
  | _ => none

end State

/-- A step of a slot, or of a process. -/
inductive Act (P K β : Type) where
  | bget (u : P × K) (d n : ℕ)
  | acquiresleep (u : P × K)
  | fill (u : P × K)
  | modify (u : P × K) (v : β)
  | logWrite (u : P × K)
  | append (u : P × K)
  | write (u : P × K)
  | releasesleep (u : P × K)
  | brelse (u : P × K)
  | beginOp (p : P)
  | endOp (p : P)
  | commit (p : P)

/-- One step of the system; `none` where it is not possible. -/
def step [Fintype K] (L : Area β) (S : State P K β) : Act P K β → Option (State P K β)
  | .bget u d n => S.bget u d n
  | .acquiresleep u => S.acquiresleep u
  | .fill u => S.fill u
  | .modify u v => S.modify u v
  | .logWrite u => S.logWrite L u
  | .append u => S.append u
  | .write u => S.write u
  | .releasesleep u => S.releasesleep u
  | .brelse u => S.brelse u
  | .beginOp p => S.beginOp p
  | .endOp p => S.endOp p
  | .commit p => S.commit L p

/-- After `binit`, with `D` on the disk and an empty log. -/
def init (z : β) (D : ℕ → ℕ → β) : State P K β :=
  ⟨.init z, D, [], 0, false, fun _ => .out, fun _ => .unread, fun _ => (0, 0), []⟩

end Store
end OhMyXv6
