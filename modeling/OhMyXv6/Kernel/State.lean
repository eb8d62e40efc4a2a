import OhMyXv6.Fs.Blocks
import OhMyXv6.Lib.Prog

/-!
# The state of the file system in the kernel

The disk, the inode cache, the file table, the descriptors and current directories of the
processes, and the log. The kernel's code is modelled as programs over this state, one atomic
step for each critical section of the source: a section under a spinlock, the time a buffer is
held between `bread` and `brelse`, or a single access to a field of an inode.

`disk` is what `bread` answers, so a block that was changed and not yet committed is already
changed there. What becomes of it in a crash is the matter of the log. There is one device,
and the device numbers of the source, all equal, are left out.
-/

namespace OhMyXv6
namespace Kernel

/-- `struct inode`, the in-memory copy of an inode. `din` holds the fields that are copied from
the disk; `lock` is the process that holds the sleep-lock. -/
structure Inode where
  inum : ℕ
  ref : ℕ
  lock : Option ℕ
  valid : Bool
  din : Dinode

/-- `file.h`: the type of an open file. -/
inductive FileType where
  | FD_NONE
  | FD_PIPE
  | FD_INODE
deriving DecidableEq

/-- `struct file`. `ip` is an index into the inode cache, `pipe` the page of a pipe. -/
structure File where
  type : FileType
  ref : ℕ
  readable : Bool
  writable : Bool
  pipe : ℕ
  ip : ℕ
  off : ℕ

/-- `struct pipe`, as far as it says which ends are open. -/
structure Pipe where
  readopen : Bool
  writeopen : Bool

/-- The part of `struct proc` that the file system uses. `cwd` is an index into the inode cache,
`ofile` holds indices into the file table. -/
structure Proc where
  live : Bool
  ofile : ℕ → Option ℕ
  cwd : ℕ

/-- The disk, the log, the inode cache, the open files, the pipes and the processes. -/
structure State where
  /-- The global `sb`. -/
  sb : Superblock
  disk : Disk
  /-- `icache.inode[NINODE]`. -/
  icache : ℕ → Inode
  /-- `ftable.file[NFILE]`. -/
  ftable : ℕ → File
  /-- `ptable.proc[NPROC]`. -/
  proc : ℕ → Proc
  /-- The pages that hold a pipe. -/
  pipe : ℕ → Option Pipe
  /-- `log.outstanding`. -/
  outstanding : ℕ
  /-- `log.lh.block`, of length `log.lh.n`. -/
  lh : List ℕ
  /-- History: the processes that are between their `begin_op` and `end_op`. -/
  inOp : List ℕ

/-- The messages that the modelled code panics with. The last two are no messages: the source would
go on there with a count below zero, or with a page that it has given back, and the model stops. -/
inductive Panic where
  | ballocOutOfBlocks
  | freeingFreeBlock
  | iallocNoInodes
  | igetNoInodes
  | ilock
  | ilockNoType
  | iunlock
  | bmapOutOfRange
  | dirlookupNotDir
  | dirlookupRead
  | dirlinkRead
  | dirlink
  | isdiremptyReadi
  | unlinkNlink
  | unlinkWritei
  | createDots
  | createDirlink
  | filedup
  | fileclose
  | fileread
  | filewrite
  | shortFilewrite
  | tooBigATransaction
  | logWriteOutsideOfTrans
  | initExiting
  /-- `iput` of an inode whose count is zero. -/
  | refBelowZero
  /-- `pipeclose` of an end that is not open. -/
  | endReleased
deriving DecidableEq

/-- What a step is, to those who ask which steps log. The tests of `iput` and `bmap` are the
ones after which a step that logs may or may not follow. -/
inductive Label where
  | other
  | beginOp
  | endOp
  /-- The step may call `log_write`. -/
  | logWrite
  /-- `iput` looks whether to free the inode of cache entry `ip`. -/
  | iputTest (ip : ℕ)
  /-- `bmap` looks at `addrs[i]` of cache entry `ip`. -/
  | bmapAddr (ip i : ℕ)
  /-- `bmap` looks at entry `i` of the indirect block `b`. -/
  | bmapEntry (b i : ℕ)
deriving DecidableEq

/-- A program of the kernel. -/
abbrev M := Prog State Panic Label

/-! ## Single steps -/

section
variable {α : Type}

/-- Look at the state. -/
def get (g : State → α) : M α := .act .other fun s => .done (g s) s

/-- Change the state. -/
def modify (g : State → State) : M Unit := .act .other fun s => .done () (g s)

/-- `panic`. -/
def panic (e : Panic) : M α := .act .other fun _ => .stop e

end

namespace State

/-- `icache.inode[k] = x`. -/
def setInode (s : State) (k : ℕ) (x : Inode) : State :=
  { s with icache := Function.update s.icache k x }

lemma setInode_self (s : State) (k : ℕ) (x : Inode) : (s.setInode k x).icache k = x :=
  Function.update_self _ _ _

lemma setInode_of_ne {j k : ℕ} (h : j ≠ k) (s : State) (x : Inode) :
    (s.setInode k x).icache j = s.icache j := Function.update_of_ne h _ _

/-- `ftable.file[f] = x`. -/
def setFile (s : State) (f : ℕ) (x : File) : State :=
  { s with ftable := Function.update s.ftable f x }

/-- `ptable.proc[p] = x`. -/
def setProc (s : State) (p : ℕ) (x : Proc) : State :=
  { s with proc := Function.update s.proc p x }

/-- The pipe at page `pg` is another one, or none. -/
def setPipe (s : State) (pg : ℕ) (x : Option Pipe) : State :=
  { s with pipe := Function.update s.pipe pg x }

/-- Block `b` has other contents. -/
def setBlock (s : State) (b : ℕ) (x : Block) : State :=
  { s with disk := Function.update s.disk b x }

end State

/-- Change the fields of cache entry `k` that are copies of the disk's. -/
def modifyDin (k : ℕ) (g : Dinode → Dinode) : M Unit :=
  modify fun s => s.setInode k { s.icache k with din := g (s.icache k).din }

/-! ## `log.c`

`commit` writes the logged blocks home and empties the header. No process can log while it runs,
since `outstanding` is zero and `begin_op` waits, so it is one step with the end of `end_op`. -/

/-- `begin_op`, which waits until the log has room for one more operation. -/
def begin_op (p : ℕ) : M Unit :=
  .act .beginOp fun s =>
    if LOGSIZE < s.lh.length + (s.outstanding + 1) * MAXOPBLOCKS then .wait
    else .done () { s with outstanding := s.outstanding + 1, inOp := p :: s.inOp }

/-- `end_op`; the last one commits, and the log is empty. -/
def end_op (p : ℕ) : M Unit :=
  .act .endOp fun s =>
    .done () { s with
      outstanding := s.outstanding - 1
      lh := if s.outstanding - 1 = 0 then [] else s.lh
      inOp := s.inOp.erase p }

/-- `log_write` of block `b`, in a state where the block is already changed. -/
def log_write (b : ℕ) (s : State) : Out State Panic Unit :=
  if LOGSIZE ≤ s.lh.length ∨ s.sb.nlog - 1 ≤ s.lh.length then .stop .tooBigATransaction
  else if s.outstanding < 1 then .stop .logWriteOutsideOfTrans
  else .done () { s with lh := if b ∈ s.lh then s.lh else s.lh ++ [b] }

/-- A block is read, changed, logged and released. -/
def logBlock (b : State → ℕ) (g : State → Block) : M Unit :=
  .act .logWrite fun s => log_write (b s) (s.setBlock (b s) (g s))

end Kernel
end OhMyXv6
