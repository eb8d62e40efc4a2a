import OhMyXv6.Fs.Blocks

/-!
# `mkfs.c`: building the file-system image

`mkfs` is modelled over the bytes of the image it writes: every inode and every block address
goes through the sector it is stored in, so a write to a wrong sector damages what is there,
as it does in the C program.

A run can end in three ways other than `exit(0)`: with a message and status 1, by a failed
`assert`, or by copying a string past the end of its array, after which C promises nothing.
The `uint` counters are natural numbers: a number that does not fit the image makes `rsect`
fail long before a counter could wrap. The trace records what was handed out and which sectors
were written; the code does not have it.
-/

namespace OhMyXv6
namespace Mkfs

open Bytes

/-- `mkfs.c`: how many inodes there are. -/
def NINODES : ℕ := 200

/-- `mkfs.c`: how many directories are remembered. -/
def MAXDIRS : ℕ := 64

/-- How many blocks the free map has. -/
def nbitmap : ℕ := FSSIZE / (BSIZE * 8) + 1

/-- How many blocks the inodes have. -/
def ninodeblocks : ℕ := NINODES / IPB + 1

/-- How many blocks the log has. -/
def nlog : ℕ := LOGSIZE

/-- Boot block, superblock, log, inodes and bitmap. -/
def nmeta : ℕ := 2 + nlog + ninodeblocks + nbitmap

/-- How many blocks are left for data. -/
def nblocks : ℕ := FSSIZE - nmeta

/-- The superblock that is written. -/
def sb : Superblock where
  size := FSSIZE
  nblocks := nblocks
  ninodes := NINODES
  nlog := nlog
  logstart := 2
  inodestart := 2 + nlog
  bmapstart := 2 + nlog + ninodeblocks

/-- A C string, without its NUL. -/
abbrev Path := List UInt8

/-- `'/'` -/
def slash : UInt8 := 47

/-- `'_'` -/
def underscore : UInt8 := 95

/-- `"."` -/
def dotName : Path := [46]

/-- `".."` -/
def dotdotName : Path := [46, 46]

/-- `"bin"` -/
def binName : Path := [98, 105, 110]

/-- `"etc/"` -/
def etcSlash : Path := [101, 116, 99, 47]

/-- The messages that go with `exit(1)`. -/
inductive Failure
  | perror (what : Path)
  | read
  | directoryNameTooLong (name : Path)
  | packageNameTooLong (name : Path)
  | fileNameTooLong (name : Path)
  | tooManyDirectories
deriving DecidableEq

/-- How a run ends when it does not reach `exit(0)`. -/
inductive Stop
  | exit (why : Failure)
  | assert
  /-- A string was copied past the end of its array. -/
  | undefined
deriving DecidableEq

/-- What a run did, for the history. -/
inductive Event
  /-- `ialloc` handed out an inode number. -/
  | inode (inum : ℕ)
  /-- `iappend` took a block number from `freeblock`. -/
  | block (b : ℕ)
  /-- `winode` wrote a sector. -/
  | winode (sec : ℕ)
  /-- `iappend` wrote a sector. -/
  | wdata (sec : ℕ)
deriving DecidableEq

/-- The image file: its length in sectors, and the sectors. -/
structure Image where
  len : ℕ
  disk : Disk

/-- The global variables. -/
structure St where
  img : Image
  freeinode : ℕ
  freeblock : ℕ
  dirs : List (Path × ℕ)
  trace : List Event

/-! ## Sectors and inodes -/

/-- The sector that `lseek` to `sec * BSIZE` leads to: the product is a 32-bit one. -/
def sector (sec : ℕ) : ℕ := sec % 2 ^ 23

/-- `wsect`: a sector is written. -/
def wsect (s : St) (sec : ℕ) (buf : Block) : St :=
  { s with img := ⟨max s.img.len (sector sec + 1), Function.update s.img.disk (sector sec) buf⟩ }

/-- A read behind the end of the image is short, and `rsect` exits. -/
def rsect (s : St) (sec : ℕ) : Except Stop Block :=
  if sector sec < s.img.len then .ok (s.img.disk (sector sec)) else .error (.exit .read)

/-- History: what has been done. -/
def log (s : St) (e : Event) : St := { s with trace := s.trace ++ [e] }

/-- `winode`: an inode is written to its block. -/
def winode (s : St) (inum : ℕ) (ip : Dinode) : Except Stop St := do
  let bn := IBLOCK sb inum
  let buf ← rsect s bn
  return log (wsect s bn (Dinode.write buf (inum % IPB * DINODESIZE) ip)) (.winode (sector bn))

/-- `rinode`: an inode is read from its block. -/
def rinode (s : St) (inum : ℕ) : Except Stop Dinode := do
  let buf ← rsect s (IBLOCK sb inum)
  return Dinode.read buf (inum % IPB * DINODESIZE)

/-- `ialloc`: the next inode, with one link. -/
def ialloc (s : St) (type : ℕ) : Except Stop (ℕ × St) := do
  let inum := s.freeinode
  let s := log { s with freeinode := s.freeinode + 1 } (.inode inum)
  let s ← winode s inum { Dinode.zero with type := type, nlink := 1 }
  return (inum, s)

/-- `balloc`: the first `used` bits of the bitmap block are set. -/
def balloc (s : St) (used : ℕ) : Except Stop St :=
  if used < BSIZE * 8 then
    .ok (wsect s sb.bmapstart ((List.range used).foldl setBit zeroBlock))
  else .error .assert

/-! ## Appending to a file -/

/-- `freeblock++` -/
def takeBlock (s : St) : St := log { s with freeblock := s.freeblock + 1 } (.block s.freeblock)

/-- The address of block `fbn` of a file that has an indirect block. -/
def entryFor (s : St) (din : Dinode) (fbn : ℕ) : Except Stop (St × Dinode × ℕ) := do
  let indirect ← rsect s (din.addr NDIRECT)
  if entry indirect (fbn - NDIRECT) = 0 then
    let s' := wsect (takeBlock s) (din.addr NDIRECT)
      (setEntry indirect (fbn - NDIRECT) s.freeblock)
    return (log s' (.wdata (sector (din.addr NDIRECT))), din, s.freeblock)
  else return (s, din, entry indirect (fbn - NDIRECT))

/-- The first half of the loop of `iappend`: the address of block `fbn` of the file, which is
given one if it has none. -/
def blockFor (s : St) (din : Dinode) (fbn : ℕ) : Except Stop (St × Dinode × ℕ) :=
  if fbn < NDIRECT then
    if din.addr fbn = 0 then
      .ok (takeBlock s, din.setAddr fbn s.freeblock, s.freeblock)
    else .ok (s, din, din.addr fbn)
  -- the indirect block is taken first
  else if din.addr NDIRECT = 0 then
    entryFor (takeBlock s) (din.setAddr NDIRECT s.freeblock) fbn
  else entryFor s din fbn

/-- One round of the loop of `iappend`: the state, the inode in hand, and `n1`. -/
def appendRound (s : St) (din : Dinode) (off : ℕ) (p : List UInt8) :
    Except Stop (St × Dinode × ℕ) :=
  let fbn := off / BSIZE
  if fbn < MAXFILE then do
    let (s, din, x) ← blockFor s din fbn
    let n1 := min p.length ((fbn + 1) * BSIZE - off)
    let buf ← rsect s x
    let s := log (wsect s x (blit buf (off - fbn * BSIZE) n1 (ofList p))) (.wdata (sector x))
    return (s, din, n1)
  -- `assert(fbn < MAXFILE)`
  else .error .assert

/-- A round takes what fits into the current block. -/
lemma appendRound_le {s s' : St} {din din' : Dinode} {off n1 : ℕ} {p : List UInt8}
    (h : appendRound s din off p = .ok (s', din', n1)) :
    n1 = min p.length ((off / BSIZE + 1) * BSIZE - off) := by
  unfold appendRound at h
  dsimp only at h
  split at h
  · cases hb : blockFor s din (off / BSIZE) with
    | error e => rw [hb] at h; cases h
    | ok r =>
      obtain ⟨t, din'', x⟩ := r
      rw [hb] at h
      cases hr : rsect t x with
      | error e => simp [hr, bind, Except.bind] at h
      | ok buf =>
        simp only [hr, bind, Except.bind, pure, Except.pure, Except.ok.injEq, Prod.mk.injEq] at h
        exact h.2.2.symm
  · cases h

/-- The loop of `iappend`. -/
def appendLoop (s : St) (din : Dinode) (off : ℕ) (p : List UInt8) :
    Except Stop (St × Dinode × ℕ) :=
  if p = [] then .ok (s, din, off)
  else
    match _hround : appendRound s din off p with
    | .error e => .error e
    | .ok (s', din', n1) => appendLoop s' din' (off + n1) (p.drop n1)
termination_by p.length
decreasing_by
  have hn1 := appendRound_le _hround
  have hpos : 0 < p.length := List.length_pos_iff.mpr (by assumption)
  have hlt := Nat.lt_mul_div_succ off (show 0 < BSIZE by decide)
  rw [Nat.mul_comm] at hlt
  rw [List.length_drop]
  omega

/-- `iappend`: bytes at the end of a file. -/
def iappend (s : St) (inum : ℕ) (p : List UInt8) : Except Stop St := do
  let din ← rinode s inum
  let (s, din, off) ← appendLoop s din din.size p
  winode s inum { din with size := off }

/-! ## Directories -/

/-- `dirlookup` in the table of directories; 0 stands for none. -/
def dirlookup (s : St) (path : Path) : ℕ :=
  match s.dirs.find? (·.1 = path) with
  | some d => d.2
  | none => 0

/-- `dirlink`: an entry at the end of a directory. -/
def dirlink (s : St) (parent : ℕ) (name : Path) (child : ℕ) : Except Stop St :=
  if DIRSIZ < name.length then .error (.exit (.directoryNameTooLong name))
  else iappend s parent (direntBytes child name)

/-- The branch of `mkdirp` that makes a directory. -/
def mkdir (s : St) (parent : ℕ) (component path : Path) : Except Stop (ℕ × St) := do
  let (child, s) ← ialloc s T_DIR
  if MAXDIRS ≤ s.dirs.length then .error (.exit .tooManyDirectories) else
  let s ← dirlink s parent component child
  let s ← dirlink s child dotName child
  let s ← dirlink s child dotdotName parent
  return (child, { s with dirs := s.dirs ++ [(path, child)] })

/-- `strcat` of a component to the path so far, with a slash between them. -/
def joinPath (path component : Path) : Path :=
  if path = [] then component else path ++ slash :: component

/-- The directory for one more component of a path, made if there is none. -/
def descend (s : St) (parent : ℕ) (component path : Path) : Except Stop (ℕ × St) :=
  if dirlookup s path ≠ 0 then .ok (dirlookup s path, s) else mkdir s parent component path

/-- The loop of `mkdirp`; `path` is the array `partial`, of 128 bytes. -/
def mkdirpLoop (s : St) (path : Path) (parent : ℕ) (p : Path) : Except Stop (ℕ × St) :=
  if p = [] then .ok (parent, s)
  else
    let component := p.takeWhile (· ≠ slash)
    let path := joinPath path component
    if DIRSIZ < component.length then .error (.exit (.directoryNameTooLong component))
    -- the array for the path is too small: undefined
    else if 128 ≤ path.length then .error .undefined
    else do
      let (parent, s) ← descend s parent component path
      mkdirpLoop s path parent (p.dropWhile (· ≠ slash)).tail
termination_by p.length
decreasing_by
  have hpos : 0 < p.length := List.length_pos_iff.mpr (by assumption)
  have hle := (List.dropWhile_sublist (· ≠ slash) (l := p)).length_le
  rw [List.length_tail]
  omega

/-- `mkdirp`: all directories on the way are made. -/
def mkdirp (s : St) (path : Path) : Except Stop (ℕ × St) :=
  if path = [] then .ok (ROOTINO, s) else mkdirpLoop s [] ROOTINO path

/-! ## The command line -/

/-- `index(p, '/')`: what stands before the first slash and after it. -/
def index (p : Path) : Option (Path × Path) :=
  match p.dropWhile (· ≠ slash) with
  | [] => none
  | _ :: after => some (p.takeWhile (· ≠ slash), after)

/-- `rindex(p, '/')`: what stands before the last slash and after it. -/
def rindex (p : Path) : Option (Path × Path) :=
  (index p.reverse).map fun (after, before) => (before.reverse, after.reverse)

/-- Where a file goes: the directory and the name in it. -/
def place (name : Path) : Except Stop (Path × Path) :=
  if name.head? = some underscore then .ok (binName, name.tail)
  else
    -- without a slash the file goes to `bin`
    match index name with
    | none => .ok (binName, name)
    | some (package, after) =>
      -- the files of a package go to `etc/`, under its name
      if after.take 4 = etcSlash then
        if DIRSIZ < package.length then .error (.exit (.packageNameTooLong package))
        else
          match rindex (after.drop 4) with
          | none => .ok (etcSlash ++ package, after.drop 4)
          | some (dir, file) => .ok (etcSlash ++ package ++ slash :: dir, file)
      else
        match rindex name with
        | none => .ok (binName, name)
        | some (dir, file) => .ok (dir, file)

/-- A file on the command line, and what reading it gives; `none` when it cannot be opened. -/
structure Arg where
  name : Path
  noNul : 0 ∉ name
  data : Option (List UInt8)

/-- The loop that reads a file in pieces of `BSIZE` bytes. -/
def readLoop (s : St) (inum : ℕ) (data : List UInt8) : Except Stop St :=
  if data = [] then .ok s
  else do
    let s ← iappend s inum (data.take BSIZE)
    readLoop s inum (data.drop BSIZE)
termination_by data.length
decreasing_by
  have hpos : 0 < data.length := List.length_pos_iff.mpr (by assumption)
  rw [List.length_drop, BSIZE]
  omega

/-- One round of the file loop of `main`; `original` is an array of 256 bytes. -/
def addFile (s : St) (arg : Arg) : Except Stop St :=
  match arg.data with
  | none => .error (.exit (.perror arg.name))
  | some data =>
    -- the copy of the name runs over its array
    if 256 ≤ arg.name.length then .error .undefined
    else do
      let (dirpath, fsname) ← place arg.name
      if DIRSIZ < fsname.length then .error (.exit (.fileNameTooLong fsname)) else
      let (parent, s) ← mkdirp s dirpath
      let (inum, s) ← ialloc s T_FILE
      let s ← iappend s parent (direntBytes inum fsname)
      readLoop s inum data

/-- One round of the last loop of `main`. -/
def roundSize (s : St) (inum : ℕ) : Except Stop St := do
  let din ← rinode s inum
  winode s inum { din with size := (din.size / BSIZE + 1) * BSIZE }

/-- The image after the sectors are zeroed and the superblock is written. -/
def format : St :=
  let s : St := ⟨⟨0, fun _ => zeroBlock⟩, 1, nmeta, [], []⟩
  let s := (List.range FSSIZE).foldl (fun s i => wsect s i zeroBlock) s
  wsect s 1 (blit zeroBlock 0 28 sb.byte)

/-- The part of `main` that makes the root and `/bin`. -/
def makeRoot : Except Stop St := do
  let (rootino, s) ← ialloc format T_DIR
  if rootino ≠ ROOTINO then .error .assert else
  let s := { s with dirs := s.dirs ++ [([], rootino)] }
  let s ← iappend s rootino (direntBytes rootino dotName)
  let s ← iappend s rootino (direntBytes rootino dotdotName)
  let (inum, s) ← ialloc s T_DIR
  -- `bin` is a `uchar`
  let bin := inum % 256
  let s ← iappend s rootino (direntBytes bin binName)
  let s ← iappend s bin (direntBytes bin dotName)
  let s ← iappend s bin (direntBytes rootino dotdotName)
  return { s with dirs := s.dirs ++ [(binName, bin)] }

/-- `main`: the state at `exit(0)`. -/
def main (files : List Arg) : Except Stop St := do
  let s ← makeRoot
  let s ← files.foldlM addFile s
  let s ← s.dirs.foldlM (fun s dir => roundSize s dir.2) s
  balloc s s.freeblock

end Mkfs
end OhMyXv6
