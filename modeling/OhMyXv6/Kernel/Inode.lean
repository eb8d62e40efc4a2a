import OhMyXv6.Kernel.State

/-!
# `fs.c`: blocks, inodes and their contents

Loops whose bound the source reads from memory run over a count that is read when the loop
starts: what they read (the size of a locked inode, the superblock) does not change meanwhile.
The loops over a range of bytes take the number of bytes left as fuel; each round handles at
least one.
-/

namespace OhMyXv6
namespace Kernel

/-! ## Blocks -/

/-- `readsb`. -/
def readsb : M Unit := modify fun s => { s with sb := .read (s.disk 1) }

/-- `bzero`. -/
def bzero (b : ℕ) : M Unit := logBlock (fun _ => b) fun _ => zeroBlock

/-- One round of the outer loop of `balloc`: the first free bit of the bitmap block for `b`. -/
def ballocScan (b : ℕ) : M (Option ℕ) :=
  .act .logWrite fun s =>
    let data := s.disk (BBLOCK s.sb b)
    -- the first clear bit below `sb.size`
    match (List.range (min BPB (s.sb.size - b))).find? fun bi => !testBit data bi with
    | none => .done none s
    | some bi =>
      (log_write (BBLOCK s.sb b) (s.setBlock (BBLOCK s.sb b) (setBit data bi))).andThen
        fun _ t => .done (some bi) t

/-- The outer loop of `balloc`, over the blocks of the free map. -/
def ballocLoop : ℕ → ℕ → M ℕ
  -- `panic("balloc: out of blocks")`
  | 0, _ => panic .ballocOutOfBlocks
  | n + 1, b => do
    match ← ballocScan b with
    | none => ballocLoop n (b + BPB)
    | some bi =>
      bzero (b + bi)
      return b + bi

/-- Allocate a zeroed disk block. -/
def balloc : M ℕ := do
  let n ← get fun s => (s.sb.size + BPB - 1) / BPB
  ballocLoop n 0

/-- Free a disk block. -/
def bfree (b : ℕ) : M Unit := do
  readsb
  .act .logWrite fun s =>
    let data := s.disk (BBLOCK s.sb b)
    if testBit data (b % BPB) then
      log_write (BBLOCK s.sb b) (s.setBlock (BBLOCK s.sb b) (clearBit data (b % BPB)))
    else .stop .freeingFreeBlock

/-! ## Inodes -/

/-- Find the inode with number `inum` in the cache, or give it an entry. -/
def iget (inum : ℕ) : M ℕ :=
  .act .other fun s =>
    match (List.range NINODE).find? fun k =>
        0 < (s.icache k).ref && (s.icache k).inum == inum with
    -- the inode is in the cache
    | some k => .done k (s.setInode k { s.icache k with ref := (s.icache k).ref + 1 })
    | none =>
      -- otherwise a free entry is recycled
      match (List.range NINODE).find? fun k => (s.icache k).ref == 0 with
      | some k => .done k (s.setInode k
          { s.icache k with inum := inum, ref := 1, valid := false })
      | none => .stop .igetNoInodes

/-- One round of the loop of `ialloc`. -/
def iallocTry (type inum : ℕ) : M Bool :=
  .act .logWrite fun s =>
    if (dinode s.sb s.disk inum).type = 0 then
      (log_write (IBLOCK s.sb inum)
        { s with disk := setDinode s.sb s.disk inum { Dinode.zero with type := type } }).andThen
        fun _ t => .done true t
    else .done false s

/-- The loop of `ialloc` over the inodes. -/
def iallocLoop (type : ℕ) : ℕ → ℕ → M ℕ
  | 0, _ => panic .iallocNoInodes
  | n + 1, inum => do
    if ← iallocTry type inum then iget inum else iallocLoop type n (inum + 1)

/-- Allocate a new inode with the given type. -/
def ialloc (type : ℕ) : M ℕ := do
  let ninodes ← get fun s => s.sb.ninodes
  iallocLoop type (ninodes - 1) 1

/-- Copy a modified in-memory inode to disk. -/
def iupdate (ip : ℕ) : M Unit :=
  .act .logWrite fun s =>
    log_write (IBLOCK s.sb (s.icache ip).inum)
      { s with disk := setDinode s.sb s.disk (s.icache ip).inum (s.icache ip).din }

/-- `idup`. -/
def idup (ip : ℕ) : M ℕ := do
  modify fun s => s.setInode ip { s.icache ip with ref := (s.icache ip).ref + 1 }
  return ip

/-- The first half of `ilock`: the sleep-lock is taken. -/
def acquire (p ip : ℕ) : M Unit :=
  .act .other fun s =>
    if (s.icache ip).ref < 1 then .stop .ilock
    else if (s.icache ip).lock.isSome then .wait
    else .done () (s.setInode ip { s.icache ip with lock := some p })

/-- The second half of `ilock`: the inode is read from the disk if need be. -/
def iload (ip : ℕ) : M Unit :=
  .act .other fun s =>
    let dip := dinode s.sb s.disk (s.icache ip).inum
    if (s.icache ip).valid then .done () s
    else if dip.type = 0 then .stop .ilockNoType
    else .done () (s.setInode ip { s.icache ip with din := dip, valid := true })

/-- Lock the given inode, and read it from the disk if necessary. -/
def ilock (p ip : ℕ) : M Unit := do
  acquire p ip
  iload ip

/-- `iunlock`, with its panic. -/
def iunlock (ip : ℕ) : M Unit :=
  .act .other fun s =>
    if (s.icache ip).lock.isNone ∨ (s.icache ip).ref < 1 then .stop .iunlock
    else .done () (s.setInode ip { s.icache ip with lock := none })

/-- `if (ip->addrs[i]) { bfree(ip->addrs[i]); ip->addrs[i] = 0; }`, for each `i` of a list. -/
def itruncDirect (ip : ℕ) : List ℕ → M Unit
  | [] => return ()
  | i :: is => do
    let addr ← get fun s => (s.icache ip).din.addr i
    if addr = 0 then itruncDirect ip is
    else
      bfree addr
      modifyDin ip fun x => x.setAddr i 0
      itruncDirect ip is

/-- `if (a[j]) bfree(a[j]);`, for each `j` of a list. -/
def itruncEntries (a : Block) : List ℕ → M Unit
  | [] => return ()
  | j :: js => do
    if entry a j = 0 then itruncEntries a js
    else
      bfree (entry a j)
      itruncEntries a js

/-- The indirect block and the blocks it refers to. -/
def itruncIndirect (ip : ℕ) : M Unit := do
  let addr ← get fun s => (s.icache ip).din.addr NDIRECT
  if addr = 0 then return ()
  else
    let a ← get fun s => s.disk addr
    itruncEntries a (List.range NINDIRECT)
    -- the indirect block itself goes last
    bfree addr
    modifyDin ip fun x => x.setAddr NDIRECT 0

/-- Truncate inode (discard contents). -/
def itrunc (ip : ℕ) : M Unit := do
  itruncDirect ip (List.range NDIRECT)
  itruncIndirect ip
  modifyDin ip fun x => { x with size := 0 }
  iupdate ip

/-- The test of `iput`. When the inode is not to be freed, the reference is dropped in the same
critical section. -/
def iputTest (ip : ℕ) : M Bool :=
  .act (.iputTest ip) fun s =>
    let x := s.icache ip
    if x.ref < 1 then .stop .refBelowZero
    else if x.ref = 1 ∧ x.valid ∧ x.din.nlink = 0 then .done true s
    else .done false (s.setInode ip { x with ref := x.ref - 1 })

/-- Drop a reference to an in-memory inode, and free the inode if that was the last one and
there are no links to it. -/
def iput (ip : ℕ) : M Unit := do
  -- the last reference to an inode without links
  if ← iputTest ip then
    itrunc ip
    modifyDin ip fun x => { x with type := 0 }
    iupdate ip
    .act .other fun s =>
      let x := s.icache ip
      if x.ref < 1 then .stop .refBelowZero
      else .done () (s.setInode ip { x with valid := false, ref := x.ref - 1 })
  else return ()

/-- `iunlockput`. -/
def iunlockput (ip : ℕ) : M Unit := do
  iunlock ip
  iput ip

/-! ## Inode content -/

/-- `if ((addr = ip->addrs[i]) == 0) ip->addrs[i] = addr = balloc(ip->dev);`. -/
def bmapAddr (ip i : ℕ) : M ℕ := do
  let addr ← .act (.bmapAddr ip i) fun s => .done ((s.icache ip).din.addr i) s
  if addr = 0 then
    let b ← balloc
    modifyDin ip fun x => x.setAddr i b
    return b
  else return addr

/-- `if ((addr = a[i]) == 0) { a[i] = addr = balloc(ip->dev); log_write(bp); }`, for the indirect
block `b`. -/
def bmapEntry (b i : ℕ) : M ℕ := do
  let addr ← .act (.bmapEntry b i) fun s => .done (entry (s.disk b) i) s
  if addr = 0 then
    let c ← balloc
    logBlock (fun _ => b) fun s => setEntry (s.disk b) i c
    return c
  else return addr

/-- The disk block address of the `bn`-th block of an inode, allocated if there is none. -/
def bmap (ip bn : ℕ) : M ℕ :=
  if bn < NDIRECT then bmapAddr ip bn
  else if bn - NDIRECT < NINDIRECT then do
    let b ← bmapAddr ip NDIRECT
    bmapEntry b (bn - NDIRECT)
  else panic .bmapOutOfRange

/-- Bytes of one round of the loops below: those that are left, up to the end of the block. -/
def chunk (off n : ℕ) : ℕ := min n (BSIZE - off % BSIZE)

/-- The loop of `readi`. -/
def readiLoop (ip : ℕ) : ℕ → ℕ → ℕ → M (List UInt8)
  | 0, _, _ => return []
  | fuel + 1, off, n =>
    if n = 0 then return []
    else do
      let addr ← bmap ip (off / BSIZE)
      -- as much of this block as is asked for
      let head ← get fun s =>
        (List.range (chunk off n)).map fun j => s.disk addr (off % BSIZE + j)
      let tail ← readiLoop ip fuel (off + chunk off n) (n - chunk off n)
      return head ++ tail

/-- The number of bytes that `readi` is to read: no more than there are. -/
def readiLen (size off n : ℕ) : ℕ := if size < off + n then size - off else n

/-- Read data from an inode; `none` is the answer `-1`. -/
def readi (ip off n : ℕ) : M (Option (List UInt8)) := do
  let x ← get fun s => (s.icache ip).din
  if x.type = T_DEV then return none
  else if x.size < off ∨ 2 ^ 32 ≤ off + n then return none
  else
    let data ← readiLoop ip (readiLen x.size off n) off (readiLen x.size off n)
    return some data

/-- The loop of `writei`. -/
def writeiLoop (ip : ℕ) : ℕ → ℕ → List UInt8 → M Unit
  | 0, _, _ => return ()
  | fuel + 1, off, src =>
    if src.length = 0 then return ()
    else do
      let addr ← bmap ip (off / BSIZE)
      -- as much into this block as fits
      logBlock (fun _ => addr) fun s =>
        Bytes.blit (s.disk addr) (off % BSIZE) (chunk off src.length) (Bytes.ofList src)
      writeiLoop ip fuel (off + chunk off src.length) (src.drop (chunk off src.length))

/-- The end of `writei`: `if (n > 0 && off > ip->size) { ip->size = off; iupdate(ip); }`. -/
def writeiSize (ip off n : ℕ) : M Unit := do
  let size ← get fun s => (s.icache ip).din.size
  if 0 < n ∧ size < off then
    modifyDin ip fun x => { x with size := off }
    iupdate ip
  else return ()

/-- Write data to an inode; `none` is the answer `-1`. -/
def writei (ip : ℕ) (src : List UInt8) (off : ℕ) : M (Option ℕ) := do
  let x ← get fun s => (s.icache ip).din
  if x.type = T_DEV then return none
  -- no write begins past the end, and the sum must not wrap
  else if x.size < off ∨ 2 ^ 32 ≤ off + src.length then return none
  -- nor may the file outgrow its blocks
  else if MAXFILE * BSIZE < off + src.length then return none
  else
    writeiLoop ip src.length off src
    writeiSize ip (off + src.length) src.length
    return some src.length

end Kernel
end OhMyXv6
