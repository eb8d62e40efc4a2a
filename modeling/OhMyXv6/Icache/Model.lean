import Mathlib.Data.Fintype.Basic
import OhMyXv6.Fs.Layout

/-!
# `fs.c`: the inode cache, with many processes

One action is a section under `icache.lock`, a section in which the buffer of an inode block is held,
the return of `acquiresleep`, or a change of the inode in memory by whoever may change it. Any
interleaving of the actions of any processes is a list of them.

A user is one reference: it is made by `iget` (or `ialloc`, or `idup`) and given back by `iput`. A
process that has several references is several users. A user may lock its inode, and change it while
it has it locked; it calls `iupdate` before `iunlock` if it has changed something. It does not change
the type: only `ialloc` and `iput` do.

Only the inodes of the disk are kept. `itrunc` also frees blocks, which changes the bitmap but no
inode. A call that panics ends the run.
-/

namespace OhMyXv6
namespace Icache

/-- `struct inode`. -/
structure Entry where
  dev : ℕ
  inum : ℕ
  ref : ℕ
  /-- `I_VALID`. -/
  valid : Bool
  /-- The sleep lock is held. -/
  locked : Bool
  din : Dinode

/-- The entry is that of inode `n` of device `d`. -/
def Entry.Is (x : Entry) (d n : ℕ) : Prop := x.dev = d ∧ x.inum = n

instance (x : Entry) (d n : ℕ) : Decidable (x.Is d n) := inferInstanceAs (Decidable (_ ∧ _))

/-- Where a user stands. -/
inductive Stage where
  | idle
  /-- In the loop of `ialloc`, at inode `n`. -/
  | scanning (d n type : ℕ)
  /-- In `ialloc`, past the `brelse` of the block and before `iget`. -/
  | claimed (d n : ℕ)
  | having (e : Fin NINODE)
  /-- In `ilock`, past `acquiresleep`. -/
  | locked (e : Fin NINODE)
  /-- `ilock` has returned, and nothing is to be written. -/
  | ready (e : Fin NINODE)
  /-- The inode is changed in memory. -/
  | changed (e : Fin NINODE)
  /-- In `iput`, past the test that the inode is to be freed; `i` counts the steps. -/
  | freeing (e : Fin NINODE) (i : ℕ)
deriving DecidableEq

/-- The user has a reference to the entry. -/
def Stage.On (e : Fin NINODE) : Stage → Prop
  | .having c => c = e
  | .locked c => c = e
  | .ready c => c = e
  | .changed c => c = e
  | .freeing c _ => c = e
  | _ => False

instance (e : Fin NINODE) : ∀ st : Stage, Decidable (st.On e)
  | .idle => .isFalse id
  | .scanning .. => .isFalse id
  | .claimed .. => .isFalse id
  | .having c => inferInstanceAs (Decidable (c = e))
  | .locked c => inferInstanceAs (Decidable (c = e))
  | .ready c => inferInstanceAs (Decidable (c = e))
  | .changed c => inferInstanceAs (Decidable (c = e))
  | .freeing c _ => inferInstanceAs (Decidable (c = e))

/-- The user holds the lock of the entry. -/
def Stage.Holds (e : Fin NINODE) : Stage → Prop
  | .locked c => c = e
  | .ready c => c = e
  | .changed c => c = e
  | _ => False

/-- The cache, the disk, and where each user is. -/
structure State (U : Type) where
  ent : Fin NINODE → Entry
  /-- The inodes on the disk, by device and number. -/
  disk : ℕ → ℕ → Dinode
  /-- `sb.ninodes`. -/
  ninodes : ℕ
  stage : U → Stage
  /-- History: the reference was made by `ialloc`. -/
  fresh : U → Bool

variable {U : Type} [DecidableEq U]

namespace State

/-- The cache with another entry at `e`. -/
def setEnt (S : State U) (e : Fin NINODE) (x : Entry) : State U :=
  { S with ent := Function.update S.ent e x }

/-- User `u` is elsewhere. -/
def setStage (S : State U) (u : U) (st : Stage) : State U :=
  { S with stage := Function.update S.stage u st }

/-- Inode `n` of device `d` is written. -/
def write (S : State U) (d n : ℕ) (x : Dinode) : State U :=
  { S with disk := fun d' n' => if d' = d ∧ n' = n then x else S.disk d' n' }

/-- `iget`: the entry that is in use for the inode, or an empty one; `none` is the panic
`"iget: no inodes"`. -/
def slot (S : State U) (d n : ℕ) : Option (Fin NINODE × Entry) :=
  match (List.finRange NINODE).find? fun e => 0 < (S.ent e).ref ∧ (S.ent e).Is d n with
  | some e => some (e, { S.ent e with ref := (S.ent e).ref + 1 })
  | none =>
    match (List.finRange NINODE).find? fun e => (S.ent e).ref = 0 with
    | some e => some (e, { S.ent e with dev := d, inum := n, ref := 1, valid := false })
    | none => none

/-- `iget`: the user has a reference to the entry. -/
def get (u : U) (d n : ℕ) (S : State U) : Option (State U) :=
  (S.slot d n).map fun x => (S.setEnt x.1 x.2).setStage u (.having x.1)

/-- `iget` by a caller. -/
def iget (u : U) (d n : ℕ) (S : State U) : Option (State U) :=
  if S.stage u = .idle then
    (S.get u d n).map fun S => { S with fresh := Function.update S.fresh u false }
  else none

/-- `ialloc`, up to its loop. The types that are asked for are `T_DIR`, `T_FILE` and `T_DEV`. -/
def ialloc (u : U) (d type : ℕ) (S : State U) : Option (State U) :=
  if S.stage u = .idle ∧ (type = T_DIR ∨ type = T_FILE ∨ type = T_DEV) then
    some (S.setStage u (.scanning d 1 type))
  else none

/-- `ialloc`: one inode is looked at, and taken if it is free. -/
def scan (u : U) (S : State U) : Option (State U) :=
  match S.stage u with
  | .scanning d n type =>
    if n < S.ninodes then
      if (S.disk d n).type = 0 then
        -- a free inode: it gets its type, and nothing else
        some ((S.write d n { Dinode.zero with type := type }).setStage u (.claimed d n))
      else some (S.setStage u (.scanning d (n + 1) type))
    else none
  | _ => none

/-- The `iget` of `ialloc`. -/
def take (u : U) (S : State U) : Option (State U) :=
  match S.stage u with
  | .claimed d n => (S.get u d n).map fun S => { S with fresh := Function.update S.fresh u true }
  | _ => none

/-- `idup` of the inode of another user `v`. -/
def idup (u v : U) (S : State U) : Option (State U) :=
  if S.stage u = .idle then
    match S.stage v with
    | .having e | .ready e | .changed e =>
      some { (S.setEnt e { S.ent e with ref := (S.ent e).ref + 1 }).setStage u (.having e) with
        fresh := Function.update S.fresh u false }
    | _ => none
  else none

/-- `ilock` up to the return of `acquiresleep`. -/
def acquiresleep (u : U) (S : State U) : Option (State U) :=
  match S.stage u with
  | .having e =>
    if (S.ent e).ref < 1 ∨ (S.ent e).locked then none
    else some ((S.setEnt e { S.ent e with locked := true }).setStage u (.locked e))
  | _ => none

/-- The rest of `ilock`. -/
def load (u : U) (S : State U) : Option (State U) :=
  match S.stage u with
  | .locked e =>
    if (S.ent e).valid then some (S.setStage u (.ready e))
    -- `panic("ilock: no type")`
    else if (S.disk (S.ent e).dev (S.ent e).inum).type = 0 then none
    else some ((S.setEnt e { S.ent e with
      din := S.disk (S.ent e).dev (S.ent e).inum, valid := true }).setStage u (.ready e))
  | _ => none

/-- The holder of the lock changes the inode in memory. -/
def change (u : U) (x : Dinode) (S : State U) : Option (State U) :=
  match S.stage u with
  | .ready e | .changed e =>
    if x.type = (S.ent e).din.type then
      some ((S.setEnt e { S.ent e with din := x }).setStage u (.changed e))
    else none
  | _ => none

/-- What `iupdate` does. -/
def writeBack (e : Fin NINODE) (S : State U) : State U :=
  S.write (S.ent e).dev (S.ent e).inum (S.ent e).din

/-- `iupdate`: the inode is written to the disk. -/
def iupdate (u : U) (S : State U) : Option (State U) :=
  match S.stage u with
  | .ready e | .changed e => some ((S.writeBack e).setStage u (.ready e))
  | _ => none

/-- `iunlock`: the entry is unlocked. -/
def iunlock (u : U) (S : State U) : Option (State U) :=
  match S.stage u with
  | .ready e => some ((S.setEnt e { S.ent e with locked := false }).setStage u (.having e))
  | _ => none

/-- The inode is to be freed by `iput`. -/
def Frees (x : Entry) : Prop := x.ref = 1 ∧ x.valid = true ∧ x.din.nlink = 0

instance (x : Entry) : Decidable (Frees x) := inferInstanceAs (Decidable (_ ∧ _))

/-- `iput` up to its first `release`. -/
def iput (u : U) (S : State U) : Option (State U) :=
  match S.stage u with
  | .having e =>
    if Frees (S.ent e) then some (S.setStage u (.freeing e 0))
    else some ((S.setEnt e { S.ent e with ref := (S.ent e).ref - 1 }).setStage u .idle)
  | _ => none

/-- The rest of `iput`: `itrunc`, whose last step is an `iupdate`, then `ip->type = 0`, `iupdate`, and
the second section under `icache.lock`. -/
def free (u : U) (S : State U) : Option (State U) :=
  match S.stage u with
  -- `itrunc`
  | .freeing e 0 =>
    some ((S.setEnt e { S.ent e with
      din := { (S.ent e).din with addrs := fun _ => 0, size := 0 } }).setStage u (.freeing e 1))
  -- and its `iupdate`
  | .freeing e 1 => some ((S.writeBack e).setStage u (.freeing e 2))
  -- `ip->type = 0`
  | .freeing e 2 =>
    some ((S.setEnt e { S.ent e with
      din := { (S.ent e).din with type := 0 } }).setStage u (.freeing e 3))
  | .freeing e 3 => some ((S.writeBack e).setStage u (.freeing e 4))
  -- `ip->flags = 0`, and the reference is given back
  | .freeing e 4 =>
    some ((S.setEnt e { S.ent e with
      valid := false, ref := (S.ent e).ref - 1 }).setStage u .idle)
  | _ => none

end State

/-- A step of one user. -/
inductive Act (U : Type) where
  | iget (u : U) (d n : ℕ)
  | ialloc (u : U) (d type : ℕ)
  | scan (u : U)
  | take (u : U)
  | idup (u v : U)
  | acquiresleep (u : U)
  | load (u : U)
  | change (u : U) (x : Dinode)
  | iupdate (u : U)
  | iunlock (u : U)
  | iput (u : U)
  | free (u : U)

/-- One step of the system; `none` where it is not possible. -/
def step (S : State U) : Act U → Option (State U)
  | .iget u d n => S.iget u d n
  | .ialloc u d type => S.ialloc u d type
  | .scan u => S.scan u
  | .take u => S.take u
  | .idup u v => S.idup u v
  | .acquiresleep u => S.acquiresleep u
  | .load u => S.load u
  | .change u x => S.change u x
  | .iupdate u => S.iupdate u
  | .iunlock u => S.iunlock u
  | .iput u => S.iput u
  | .free u => S.free u

/-- After `iinit`, with the inodes `D` on the disk. -/
def init (ninodes : ℕ) (D : ℕ → ℕ → Dinode) : State U :=
  ⟨fun _ => ⟨0, 0, 0, false, false, .zero⟩, D, ninodes, fun _ => .idle, fun _ => false⟩

end Icache
end OhMyXv6
