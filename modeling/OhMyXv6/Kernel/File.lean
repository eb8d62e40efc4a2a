import OhMyXv6.Kernel.Path

/-!
# `file.c`: open files

What a pipe or a device answers is an argument of the calls, since it depends on nothing that is
modelled here: a return value and the bytes that come with it. Of a pipe itself only the two ends
are here, which `pipeclose` closes.
-/

namespace OhMyXv6
namespace Kernel

/-- What a system call gives back: its return value, and the bytes it put into the caller's
buffer. -/
abbrev Ret := ℤ × List UInt8

/-- The return value `-1`. -/
def failed : Ret := (-1, [])

/-- Allocate a file structure; `none` when the table is full. -/
def filealloc : M (Option ℕ) :=
  .act .other fun s =>
    match (List.range NFILE).find? fun f => (s.ftable f).ref == 0 with
    | some f => .done (some f) (s.setFile f { s.ftable f with ref := 1 })
    | none => .done none s

/-- Increment the reference count of file `f`. -/
def filedup (f : ℕ) : M Unit :=
  .act .other fun s =>
    if (s.ftable f).ref < 1 then .stop .filedup
    else .done () (s.setFile f { s.ftable f with ref := (s.ftable f).ref + 1 })

/-- The critical section of `fileclose`: the file as it was, if this was its last reference. -/
def filedrop (f : ℕ) : M (Option File) :=
  .act .other fun s =>
    let x := s.ftable f
    if x.ref < 1 then .stop .fileclose
    else if 0 < x.ref - 1 then .done none (s.setFile f { x with ref := x.ref - 1 })
    else .done (some x) (s.setFile f { x with ref := 0, type := .FD_NONE })

/-- A pipe with one end closed; `none` when that was the last one and the page is freed. -/
def Pipe.close (x : Pipe) (writable : Bool) : Option Pipe :=
  let y : Pipe := if writable then { x with writeopen := false } else { x with readopen := false }
  if y.readopen = false ∧ y.writeopen = false then none else some y

/-- One end of the pipe in page `pg` is open. -/
def isOpen (pipe : ℕ → Option Pipe) (pg : ℕ) (writable : Bool) : Bool :=
  match pipe pg with
  | none => false
  | some x => if writable then x.writeopen else x.readopen

/-- Close one end. A page without a pipe has been freed, and is not the caller's to close. -/
def pipeclose (pg : ℕ) (writable : Bool) : M Unit :=
  .act .other fun s =>
    match s.pipe pg with
    | none => .stop .endReleased
    | some x =>
      if isOpen s.pipe pg writable then .done () (s.setPipe pg (x.close writable))
      else .stop .endReleased

/-- Close file `f`. -/
def fileclose (p f : ℕ) : M Unit := do
  -- `filedrop` answers with the entry when this was the last reference
  match ← filedrop f with
  | none => return ()
  | some ff =>
    match ff.type with
    | .FD_NONE => return ()
    | .FD_PIPE => pipeclose ff.pipe ff.writable
    | .FD_INODE =>
      begin_op p
      iput ff.ip
      end_op p

/-- `struct stat`, without the device number. -/
structure Stat where
  type : ℕ
  ino : ℕ
  nlink : ℕ
  size : ℕ

/-- Copy stat information from an inode. -/
def stati (x : Inode) : Stat := ⟨x.din.type, x.inum, x.din.nlink, x.din.size⟩

/-- Get metadata about file `f`; `none` is the answer `-1`. -/
def filestat (p f : ℕ) : M (Option Stat) := do
  let x ← get fun s => s.ftable f
  if x.type = .FD_INODE then
    ilock p x.ip
    let st ← get fun s => stati (s.icache x.ip)
    iunlock x.ip
    return some st
  -- neither a pipe end nor a free entry has a status
  else return none

/-- `f->off += r`. -/
def advance (f r : ℕ) : M Unit :=
  modify fun s => s.setFile f { s.ftable f with off := (s.ftable f).off + r }

/-- What `fileread` and `filewrite` answer for a device: `-1` when the major number is not in the
device table, else what the device answers. -/
def devAnswer (major : ℕ) (ext : Ret) : Ret := if NDEV ≤ major then failed else ext

/-- `if ((r = readi(f->ip, addr, f->off, n)) > 0) f->off += r;` and the end of `fileread`. -/
def filereadInode (f ip : ℕ) (n : ℕ) : M Ret := do
  let off ← get fun s => (s.ftable f).off
  match ← readi ip off n with
  | none =>
    iunlock ip
    return failed
  | some data =>
    advance f data.length
    iunlock ip
    return (data.length, data)

/-- Read from file `f`. -/
def fileread (p f n : ℕ) (ext : Ret) : M Ret := do
  let x ← get fun s => s.ftable f
  if ¬ x.readable then return failed
  else
    match x.type with
    | .FD_NONE => panic .fileread
    | .FD_PIPE => return ext
    | .FD_INODE =>
      let din ← get fun s => (s.icache x.ip).din
      -- `devsw[major].read`, without a lock on the inode
      if din.type = T_DEV then return devAnswer din.major ext
      else
        ilock p x.ip
        filereadInode f x.ip n

/-- Most bytes that `filewrite` writes in one transaction. -/
def filewriteMax : ℕ := (LOGSIZE - 1 - 1 - 2) / 2 * 512

/-- One round of the loop of `filewrite`: the answer of `writei`. -/
def filewriteRound (p f ip : ℕ) (src : List UInt8) : M (Option ℕ) := do
  begin_op p
  ilock p ip
  let off ← get fun s => (s.ftable f).off
  let r ← writei ip src off
  -- the offset moves only if `writei` stored something
  advance f (r.getD 0)
  iunlock ip
  end_op p
  return r

/-- The loop of `filewrite` over the bytes that are left; whether all were written. -/
def filewriteLoop (p f ip : ℕ) : ℕ → List UInt8 → M Bool
  | 0, _ => return true
  | fuel + 1, src =>
    if src.length = 0 then return true
    else do
      match ← filewriteRound p f ip (src.take filewriteMax) with
      | none => return false
      | some r =>
        -- `panic("short filewrite")`
        if r ≠ (src.take filewriteMax).length then panic .shortFilewrite
        else filewriteLoop p f ip fuel (src.drop filewriteMax)

/-- Write to file `f`. -/
def filewrite (p f : ℕ) (src : List UInt8) (ext : Ret) : M Ret := do
  let x ← get fun s => s.ftable f
  if ¬ x.writable then return failed
  else
    match x.type with
    | .FD_NONE => panic .filewrite
    | .FD_PIPE => return ext
    | .FD_INODE =>
      let din ← get fun s => (s.icache x.ip).din
      -- `devsw[major].write`, without a lock on the inode
      if din.type = T_DEV then return devAnswer din.major ext
      else
        let all ← filewriteLoop p f x.ip src.length src
        -- `i == n ? n : -1`
        return if all then (src.length, []) else failed

/-- The value that an `int` gets from an unsigned sum. -/
def toInt32 (z : ℤ) : ℤ := z.bmod (2 ^ 32)

/-- The offset that `fileseek` computes, before it is clamped; `none` is the answer `-1`. -/
def seekTarget (off size : ℕ) (offset position : ℤ) : Option ℤ :=
  if position = 0 then some offset
  else if position = 1 then some (toInt32 (off + offset))
  else if position = 2 then some (toInt32 (size - offset))
  else none

/-- `if (new_off < 0) new_off = 0; if (new_off > s.size) new_off = s.size;`. -/
def seekClamp (size : ℕ) (target : ℤ) : ℕ := min target.toNat size

/-- `fileseek`; sums are those of the source's `int`s. -/
def fileseek (p f : ℕ) (offset position : ℤ) : M Ret := do
  match ← filestat p f with
  | none => return failed
  | some st =>
    let off ← get fun s => (s.ftable f).off
    match seekTarget off st.size offset position with
    | none => return failed
    | some target =>
      -- the offset is held between 0 and the size
      modify fun s => s.setFile f { s.ftable f with off := seekClamp st.size target }
      return (seekClamp st.size target, [])

end Kernel
end OhMyXv6
