import Mathlib.Data.Fintype.Basic
import OhMyXv6.Lib.Dlist
import OhMyXv6.Param

/-!
# `bio.c`: the buffer cache

The buffers are in a ring of pointers, the most recently used ones first, and carry the number of the
block they hold. Two sections run under `bcache.lock`: the searches of `bget` and the end of
`brelse`. Between them a process waits for the sleep lock of its buffer, holds it, and lets go of it
again; while it holds it, it may change the data, `log_write` may set `B_DIRTY`, and the interrupt of
the disk may end the transfer that the process waits for in `iderw`.

A user is one such engagement, from `bget` to `brelse`; a process that has several buffers at a time
is several users. At most that many references are taken at a time, so `refcnt` is a natural number
here.
-/

namespace OhMyXv6
namespace Bio

/-- A buffer, or `&bcache.head`. -/
abbrev Ptr := Option (Fin NBUF)

/-- `&bcache.head`. -/
def head : Ptr := none

/-- `struct buf`. -/
structure Buf (β : Type) where
  /-- `B_VALID`. -/
  valid : Bool
  /-- `B_DIRTY`. -/
  dirty : Bool
  dev : ℕ
  blockno : ℕ
  /-- The sleep lock is held. -/
  locked : Bool
  refcnt : ℕ
  data : β

/-- `bcache`. -/
structure Cache (β : Type) where
  next : Ptr → Ptr
  prev : Ptr → Ptr
  buf : Fin NBUF → Buf β

variable {β U : Type}

/-- The buffer carries this number. -/
def Buf.Is (x : Buf β) (dev blockno : ℕ) : Prop := x.dev = dev ∧ x.blockno = blockno

instance (x : Buf β) (dev blockno : ℕ) : Decidable (x.Is dev blockno) :=
  inferInstanceAs (Decidable (_ ∧ _))

/-- The buffer can be taken for another block. -/
def Buf.Unused (x : Buf β) : Prop := x.refcnt = 0 ∧ x.dirty = false

instance (x : Buf β) : Decidable x.Unused := inferInstanceAs (Decidable (_ ∧ _))

namespace Cache

/-- The cache with another buffer at `b`. -/
def set (C : Cache β) (b : Fin NBUF) (x : Buf β) : Cache β :=
  { C with buf := Function.update C.buf b x }

/-- Take the buffer out of the ring. -/
def unlink (C : Cache β) (b : Fin NBUF) : Cache β :=
  let l := Dlist.unlink C.next C.prev (some b)
  { C with next := l.1, prev := l.2 }

/-- Put the buffer at the front of the ring. -/
def pushFront (C : Cache β) (b : Fin NBUF) : Cache β :=
  let l := Dlist.pushFront C.next C.prev head (some b)
  { C with next := l.1, prev := l.2 }

/-- `bcache` before `binit`, with `z` for the zeroed data and the head linked to itself. -/
def zero (z : β) : Cache β := ⟨fun _ => head, fun _ => head, fun _ => ⟨false, false, 0, 0, false, 0, z⟩⟩

/-- `binit`: each buffer is pushed to the front of the list. -/
def binit (z : β) : Cache β := (List.finRange NBUF).foldl pushFront (zero z)

/-- The part of `bget` under `bcache.lock`; `none` is the panic `"bget: no buffers"`. -/
def bget (C : Cache β) (dev blockno : ℕ) : Option (Fin NBUF × Cache β) :=
  match Dlist.find C.next head (fun p => p.any fun b => (C.buf b).Is dev blockno) NBUF
    (C.next head) with
  -- the block is in the cache
  | some (some b) => some (b, C.set b { C.buf b with refcnt := (C.buf b).refcnt + 1 })
  | _ =>
    -- from the back of the list: the least recently used
    match Dlist.find C.prev head (fun p => p.any fun b => (C.buf b).Unused) NBUF (C.prev head) with
    | some (some b) =>
      some (b, C.set b { C.buf b with
        dev := dev, blockno := blockno, valid := false, dirty := false, refcnt := 1 })
    -- `panic("bget: no buffers")`
    | _ => none

/-- The part of `brelse` under `bcache.lock`. -/
def brelse (C : Cache β) (b : Fin NBUF) : Cache β :=
  let C := C.set b { C.buf b with refcnt := (C.buf b).refcnt - 1 }
  if (C.buf b).refcnt = 0 then (C.unlink b).pushFront b else C

end Cache

/-! ## Users -/

/-- Where a user stands. -/
inductive Stage where
  | idle
  /-- Past the search of `bget`, before `acquiresleep` has returned. -/
  | waiting (b : Fin NBUF)
  | holding (b : Fin NBUF)
  /-- In `brelse`, past `releasesleep`. -/
  | releasing (b : Fin NBUF)
deriving DecidableEq

/-- The user has a reference to the buffer. -/
def Stage.On (b : Fin NBUF) : Stage → Prop
  | .idle => False
  | .waiting c => c = b
  | .holding c => c = b
  | .releasing c => c = b

instance (b : Fin NBUF) : ∀ st : Stage, Decidable (st.On b)
  | .idle => .isFalse id
  | .waiting c => inferInstanceAs (Decidable (c = b))
  | .holding c => inferInstanceAs (Decidable (c = b))
  | .releasing c => inferInstanceAs (Decidable (c = b))

/-- The cache, and where each user of it is. -/
structure Sys (U β : Type) where
  cache : Cache β
  stage : U → Stage

/-- A step of one user. -/
inductive Act (U β : Type) where
  | bget (u : U) (dev blockno : ℕ)
  | acquiresleep (u : U)
  /-- The data of the buffer is changed. -/
  | store (u : U) (v : β)
  /-- `b->flags |= B_DIRTY`, in `log_write` or `bwrite`. -/
  | setDirty (u : U)
  /-- The interrupt of the disk; `v` is what a read transfers. -/
  | ideintr (u : U) (v : β)
  | releasesleep (u : U)
  | brelse (u : U)

namespace Sys

variable [DecidableEq U]

/-- `bget`, up to the `acquiresleep` of its buffer. -/
def bget (u : U) (dev blockno : ℕ) (S : Sys U β) : Option (Sys U β) :=
  if S.stage u = .idle then
    (S.cache.bget dev blockno).map fun x =>
      ⟨x.2, Function.update S.stage u (.waiting x.1)⟩
  else none

/-- The user waits until the lock is free. -/
def acquiresleep (u : U) (S : Sys U β) : Option (Sys U β) :=
  match S.stage u with
  | .waiting b =>
    if (S.cache.buf b).locked then none
    else some ⟨S.cache.set b { S.cache.buf b with locked := true },
      Function.update S.stage u (.holding b)⟩
  | _ => none

/-- A change of the buffer that the user holds. -/
def onHeld (u : U) (f : Buf β → Option (Buf β)) (S : Sys U β) : Option (Sys U β) :=
  match S.stage u with
  | .holding b => (f (S.cache.buf b)).map fun x => { S with cache := S.cache.set b x }
  | _ => none

/-- The holder of a buffer changes the data. -/
def store (u : U) (v : β) (S : Sys U β) : Option (Sys U β) :=
  S.onHeld u fun x => some { x with data := v }

/-- The holder of a buffer marks it dirty. -/
def setDirty (u : U) (S : Sys U β) : Option (Sys U β) :=
  S.onHeld u fun x => some { x with dirty := true }

/-- `ideintr`, for the buffer that its user has passed to `iderw`. -/
def ideintr (u : U) (v : β) (S : Sys U β) : Option (Sys U β) :=
  S.onHeld u fun x =>
    if x.valid = true ∧ x.dirty = false then none
    else some { x with data := if x.dirty then x.data else v, valid := true, dirty := false }

/-- The first half of `brelse`: the buffer is unlocked. -/
def releasesleep (u : U) (S : Sys U β) : Option (Sys U β) :=
  match S.stage u with
  | .holding b =>
    some ⟨S.cache.set b { S.cache.buf b with locked := false },
      Function.update S.stage u (.releasing b)⟩
  | _ => none

/-- The second half of `brelse`: the reference is given back. -/
def brelse (u : U) (S : Sys U β) : Option (Sys U β) :=
  match S.stage u with
  | .releasing b => some ⟨S.cache.brelse b, Function.update S.stage u .idle⟩
  | _ => none

/-- One step of the system; `none` where it is not possible. -/
def step (S : Sys U β) : Act U β → Option (Sys U β)
  | .bget u dev blockno => S.bget u dev blockno
  | .acquiresleep u => S.acquiresleep u
  | .store u v => S.store u v
  | .setDirty u => S.setDirty u
  | .ideintr u v => S.ideintr u v
  | .releasesleep u => S.releasesleep u
  | .brelse u => S.brelse u

/-- The buffer that the user holds. -/
def held (u : U) (S : Sys U β) : Option (Buf β) :=
  match S.stage u with
  | .holding b => some (S.cache.buf b)
  | _ => none

/-- The end of `bread`: the data is read from the disk if it is not there. -/
def fill (disk : ℕ → ℕ → β) (u : U) (S : Sys U β) : Option (Sys U β) :=
  match S.held u with
  | some x => if x.valid then some S else S.ideintr u (disk x.dev x.blockno)
  | none => none

/-- `bwrite`: the buffer goes to the disk. -/
def bwrite (u : U) (S : Sys U β) : Option (Sys U β) :=
  match S.held u with
  | some x => (S.setDirty u).bind fun S => S.ideintr u x.data
  | none => none

/-- After `binit`. -/
def init (z : β) : Sys U β := ⟨.binit z, fun _ => .idle⟩

end Sys

end Bio
end OhMyXv6
