import OhMyXv6.Kernel.File

/-!
# `sysfile.c`: the system calls

The arguments are those that `argint`, `argptr` and `argstr` have fetched; `none` stands for an
argument that was refused. A negative descriptor is refused like one that is too large, and the
descriptors here are natural numbers. `fork` and `exit` (of `proc.c`) and `exec` are modelled as
far as they use the file system.
-/

namespace OhMyXv6
namespace Kernel

/-! ## Descriptors -/

/-- The file of a descriptor; `none` is the answer `-1`. -/
def argfd (p fd : ℕ) : M (Option ℕ) :=
  get fun s => if NOFILE ≤ fd then none else (s.proc p).ofile fd

/-- `proc->ofile[fd] = f`. -/
def setOfile (p fd : ℕ) (f : Option ℕ) : M Unit :=
  modify fun s => s.setProc p
    { s.proc p with ofile := Function.update (s.proc p).ofile fd f }

/-- Allocate a file descriptor for the given file; `none` is the answer `-1`. -/
def fdalloc (p f : ℕ) : M (Option ℕ) := do
  let fd ← get fun s => (List.range NOFILE).find? fun fd => (s.proc p).ofile fd == none
  match fd with
  | none => return none
  | some fd =>
    setOfile p fd (some f)
    return some fd

/-- `sys_dup`. -/
def sys_dup (p fd : ℕ) : M Ret := do
  match ← argfd p fd with
  | none => return failed
  | some f =>
    match ← fdalloc p f with
    | none => return failed
    | some fd =>
      filedup f
      return (fd, [])

/-- `sys_read`; `n` is none where `argint` or `argptr` fails. -/
def sys_read (p fd : ℕ) (n : Option ℕ) (ext : Ret) : M Ret := do
  match ← argfd p fd, n with
  | some f, some n => fileread p f n ext
  | _, _ => return failed

/-- `sys_write`; `src` is none where `argint` or `argptr` fails. -/
def sys_write (p fd : ℕ) (src : Option (List UInt8)) (ext : Ret) : M Ret := do
  match ← argfd p fd, src with
  | some f, some src => filewrite p f src ext
  | _, _ => return failed

/-- `sys_close`. -/
def sys_close (p fd : ℕ) : M Ret := do
  match ← argfd p fd with
  | none => return failed
  | some f =>
    setOfile p fd none
    fileclose p f
    return (0, [])

/-- The bytes of `struct stat` that the caller gets are left out. -/
def sys_fstat (p fd : ℕ) : M Ret := do
  match ← argfd p fd with
  | none => return failed
  | some f =>
    match ← filestat p f with
    | none => return failed
    | some _ => return (0, [])

/-- `sys_fseek`. -/
def sys_fseek (p fd : ℕ) (offset position : ℤ) : M Ret := do
  match ← argfd p fd with
  | none => return failed
  | some f => fileseek p f offset position

/-! ## Links -/

/-- The loop of `isdirempty`, from offset `off` on. -/
def isdiremptyLoop (dp : ℕ) : ℕ → ℕ → M Bool
  | 0, _ => return true
  | n + 1, off => do
    let de ← readDirent dp off .isdiremptyReadi
    if deInum de ≠ 0 then return false else isdiremptyLoop dp n (off + DIRENTSIZE)

/-- Is the directory empty except for `.` and `..`? -/
def isdirempty (dp : ℕ) : M Bool := do
  let size ← get fun s => (s.icache dp).din.size
  isdiremptyLoop dp (nentries (size - 2 * DIRENTSIZE)) (2 * DIRENTSIZE)

/-- `nlink++` of a `short`. -/
def nlinkInc (n : ℕ) : ℕ := (n + 1) % 2 ^ 16

/-- `nlink--` of a `short`. -/
def nlinkDec (n : ℕ) : ℕ := (n + 2 ^ 16 - 1) % 2 ^ 16

/-- `ip->nlink = g(ip->nlink); iupdate(ip);`. -/
def updateNlink (ip : ℕ) (g : ℕ → ℕ) : M Unit := do
  modifyDin ip fun x => { x with nlink := g x.nlink }
  iupdate ip

/-- The label `bad` of `sys_link`. -/
def linkBad (p ip : ℕ) : M Ret := do
  ilock p ip
  updateNlink ip nlinkDec
  iunlockput ip
  end_op p
  return failed

/-- The second half of `sys_link`, from `nameiparent` on. -/
def linkNew (p ip : ℕ) (new : List UInt8) : M Ret := do
  match ← nameiparent p new with
  | none => linkBad p ip
  | some (dp, name) =>
    ilock p dp
    let inum ← get fun s => (s.icache ip).inum
    -- `dirlink` fails if the name is there
    if ← dirlink dp name inum then
      iunlockput dp
      iput ip
      end_op p
      return (0, [])
    else
      iunlockput dp
      linkBad p ip

/-- Create the path `new` as a link to the same inode as `old`. -/
def sys_link (p : ℕ) (old new : Option (List UInt8)) : M Ret :=
  match old, new with
  | some old, some new => do
    begin_op p
    match ← namei p old with
    | none =>
      end_op p
      return failed
    | some ip =>
      ilock p ip
      let type ← get fun s => (s.icache ip).din.type
      -- no links to directories
      if type = T_DIR then
        iunlockput ip
        end_op p
        return failed
      else
        -- the count goes up before the name is there; `bad` takes it back
        updateNlink ip nlinkInc
        iunlock ip
        linkNew p ip new
  | _, _ => return failed

/-- The label `bad` of `sys_unlink`. -/
def unlinkBad (p dp : ℕ) : M Ret := do
  iunlockput dp
  end_op p
  return failed

/-- `if (ip->type == T_DIR) { dp->nlink--; iupdate(dp); }`. -/
def unlinkParent (dp type : ℕ) : M Unit :=
  if type = T_DIR then updateNlink dp nlinkDec else return ()

/-- The end of `sys_unlink`, from the clearing of the entry on. -/
def unlinkEntry (p dp ip off type : ℕ) : M Ret := do
  let r ← writei dp (List.replicate DIRENTSIZE 0) off
  if r ≠ some DIRENTSIZE then panic .unlinkWritei
  else
    -- a directory's `..` no longer counts for the parent
    unlinkParent dp type
    iunlockput dp
    updateNlink ip nlinkDec
    iunlockput ip
    end_op p
    return (0, [])

/-- `ip->type == T_DIR && !isdirempty(ip)`. -/
def unlinkBusy (ip type : ℕ) : M Bool :=
  if type = T_DIR then do
    let empty ← isdirempty ip
    return !empty
  else return false

/-- The middle of `sys_unlink`, once the entry is found. -/
def unlinkFound (p dp ip off : ℕ) : M Ret := do
  ilock p ip
  let x ← get fun s => (s.icache ip).din
  -- `ip->nlink < 1`, of a `short`
  if x.nlink = 0 ∨ 2 ^ 15 ≤ x.nlink then panic .unlinkNlink
  else
    if ← unlinkBusy ip x.type then
      iunlockput ip
      unlinkBad p dp
    else unlinkEntry p dp ip off x.type

/-- `sys_unlink`; `path` is none where `argstr` fails. -/
def sys_unlink (p : ℕ) (path : Option (List UInt8)) : M Ret :=
  match path with
  | none => return failed
  | some path => do
    begin_op p
    match ← nameiparent p path with
    | none =>
      end_op p
      return failed
    | some (dp, name) =>
      ilock p dp
      -- Cannot unlink "." or "..".
      if namecmp name dot ∨ namecmp name dotdot then unlinkBad p dp
      else
        match ← dirlookup dp name with
        | none => unlinkBad p dp
        | some (ip, off) => unlinkFound p dp ip off

/-! ## New files -/

/-- `dirlink(..) < 0` panics. -/
def dirlinkOr (e : Panic) (dp : ℕ) (name : List UInt8) (inum : ℕ) : M Unit := do
  if ← dirlink dp name inum then return () else panic e

/-- `if (type == T_DIR) { .. }`: create the entries `.` and `..`. -/
def createDots (dp ip type : ℕ) : M Unit :=
  if type = T_DIR then do
    -- for `..`
    updateNlink dp nlinkInc
    let inum ← get fun s => (s.icache ip).inum
    -- no `nlink++` for `.`
    dirlinkOr .createDots ip dot inum
    let parent ← get fun s => (s.icache dp).inum
    dirlinkOr .createDots ip dotdot parent
  else return ()

/-- The end of `create`, once there is no such entry. `ialloc` does not return when there is no
free inode. -/
def createNew (p dp : ℕ) (name : List UInt8) (type major minor : ℕ) : M ℕ := do
  let ip ← ialloc type
  ilock p ip
  modifyDin ip fun x => { x with major := major, minor := minor, nlink := 1 }
  iupdate ip
  createDots dp ip type
  let inum ← get fun s => (s.icache ip).inum
  dirlinkOr .createDirlink dp name inum
  iunlockput dp
  return ip

/-- The middle of `create`, when the name is there already. -/
def createFound (p dp ip type : ℕ) : M (Option ℕ) := do
  iunlockput dp
  ilock p ip
  let itype ← get fun s => (s.icache ip).din.type
  -- an existing file may be opened again, an existing directory may not be made
  if type = T_FILE ∧ itype = T_FILE then return some ip
  else
    iunlockput ip
    return none

/-- The inode that is returned is locked. -/
def create (p : ℕ) (path : List UInt8) (type major minor : ℕ) : M (Option ℕ) := do
  match ← nameiparent p path with
  | none => return none
  | some (dp, name) =>
    ilock p dp
    match ← dirlookup dp name with
    | some (ip, _) => createFound p dp ip type
    | none =>
      let ip ← createNew p dp name type major minor
      return some ip

/-- The first part of `sys_open`: the inode, locked. -/
def openInode (p : ℕ) (path : List UInt8) (omode : ℕ) : M (Option ℕ) :=
  if omode &&& O_CREATE ≠ 0 then create p path T_FILE 0 0
  else do
    match ← namei p path with
    | none => return none
    | some ip =>
      ilock p ip
      let type ← get fun s => (s.icache ip).din.type
      -- a directory is opened for reading only
      if type = T_DIR ∧ omode ≠ O_RDONLY then
        iunlockput ip
        return none
      else return some ip

/-- `sys_open` when there is no file or no descriptor left. -/
def openFull (p ip : ℕ) : M Ret := do
  iunlockput ip
  end_op p
  return failed

/-- The fields that `sys_open` gives the new file. -/
def openFile (x : File) (ip omode : ℕ) : File :=
  { x with
    type := .FD_INODE
    ip := ip
    off := 0
    readable := omode &&& O_WRONLY = 0
    writable := omode &&& O_WRONLY ≠ 0 ∨ omode &&& O_RDWR ≠ 0 }

/-- `sys_open`; `path` is none where `argstr` fails. -/
def sys_open (p : ℕ) (path : Option (List UInt8)) (omode : ℕ) : M Ret :=
  match path with
  | none => return failed
  | some path => do
    begin_op p
    match ← openInode p path omode with
    | none =>
      end_op p
      return failed
    | some ip =>
      match ← filealloc with
      -- a file created above stays
      | none => openFull p ip
      | some f =>
        match ← fdalloc p f with
        | none =>
          -- `if (f) fileclose(f)`
          fileclose p f
          openFull p ip
        | some fd =>
          iunlock ip
          end_op p
          modify fun s => s.setFile f (openFile (s.ftable f) ip omode)
          return (fd, [])

/-- The end of `sys_mkdir` and `sys_mknod`. -/
def madeInode (p : ℕ) (ip : Option ℕ) : M Ret :=
  match ip with
  | none => do
    end_op p
    return failed
  | some ip => do
    iunlockput ip
    end_op p
    return (0, [])

/-- `sys_mkdir`. -/
def sys_mkdir (p : ℕ) (path : Option (List UInt8)) : M Ret := do
  begin_op p
  match path with
  | none => madeInode p none
  | some path =>
    let ip ← create p path T_DIR 0 0
    madeInode p ip

/-- `create` takes the numbers as `short`s. -/
def sys_mknod (p : ℕ) (path : Option (List UInt8)) (major minor : ℕ) : M Ret := do
  begin_op p
  match path with
  | none => madeInode p none
  | some path =>
    let ip ← create p path T_DEV (major % 2 ^ 16) (minor % 2 ^ 16)
    madeInode p ip

/-- `iput(proc->cwd); end_op(); proc->cwd = ip;`. -/
def changeDir (p ip : ℕ) : M Ret := do
  let cwd ← get fun s => (s.proc p).cwd
  iput cwd
  end_op p
  modify fun s => s.setProc p { s.proc p with cwd := ip }
  return (0, [])

/-- `sys_chdir`. -/
def sys_chdir (p : ℕ) (path : Option (List UInt8)) : M Ret := do
  begin_op p
  match path with
  | none =>
    end_op p
    return failed
  | some path =>
    match ← namei p path with
    | none =>
      end_op p
      return failed
    | some ip =>
      ilock p ip
      let type ← get fun s => (s.icache ip).din.type
      if type ≠ T_DIR then
        iunlockput ip
        end_op p
        return failed
      else
        iunlock ip
        -- the old directory is put inside the same transaction
        changeDir p ip

/-! ## The current directory -/

/-- The loop of `sys_getcwd` over the entries of the parent. -/
def findInum (dp inum : ℕ) : ℕ → ℕ → M (Option (List UInt8))
  | 0, _ => return none
  | n + 1, off => do
    match ← readi dp off DIRENTSIZE with
    | none => return none
    | some de =>
      -- a short read ends the search
      if de.length ≠ DIRENTSIZE then return none
      else if deInum de = inum then return some de
      else findInum dp inum n (off + DIRENTSIZE)

/-- Give up: `iput(parent); iput(cur); return -1;`. -/
def getcwdFail (parent cur : ℕ) : M (Option (List UInt8)) := do
  iput parent
  iput cur
  return none

/-- The bytes of `tmp` before its last one. -/
def TMPLEN : ℕ := 511

/-- The name that `strlen` and `memmove` take from an entry. A name of `DIRSIZ` bytes has no NUL,
and `strlen` goes on with what lies behind the entry on the stack. -/
def strName (de stack : List UInt8) : List UInt8 := (de.drop 2 ++ stack).takeWhile (· ≠ 0)

/-- The loop of `sys_getcwd`. `path` is what `tmp` holds from `pos` on, so `pos` is
`TMPLEN - path.length`; it gets smaller in each round, so `TMPLEN + 1` is enough fuel. -/
def getcwdLoop (p : ℕ) (stack : List UInt8) : ℕ → ℕ → List UInt8 → M (Option (List UInt8))
  | 0, _, _ => return none
  | fuel + 1, cur, path => do
    ilock p cur
    let curInum ← get fun s => (s.icache cur).inum
    let r ← dirlookup cur dotdot
    iunlock cur
    match r with
    | none =>
      iput cur
      return none
    | some (parent, _) =>
      ilock p parent
      let x ← get fun s => s.icache parent
      -- `..` of the root is the root
      if curInum = x.inum then
        iunlock parent
        iput parent
        iput cur
        return some path
      else
        let de ← findInum parent curInum (nentries x.din.size) 0
        iunlock parent
        match de with
        | none => getcwdFail parent cur
        | some de =>
          -- `pos < namelen + 1`
          if TMPLEN - path.length < (strName de stack).length + 1 then getcwdFail parent cur
          else
            iput cur
            getcwdLoop p stack fuel parent (slash :: strName de stack ++ path)

/-- What `sys_getcwd` copies to the buffer of `size` bytes. -/
def getcwdResult (size : ℤ) (path : List UInt8) : Ret :=
  let result := if path = [] then [slash] else path
  if size < result.length + 1 then failed
  else (0, result ++ List.replicate (size.toNat - result.length) 0)

/-- `size` is `none` when the buffer was refused. -/
def sys_getcwd (p : ℕ) (size : Option ℤ) (stack : List UInt8) : M Ret :=
  match size with
  | none => return failed
  | some size => do
    let cwd ← get fun s => (s.proc p).cwd
    let cur ← idup cwd
    match ← getcwdLoop p stack (TMPLEN + 1) cur [] with
    | none => return failed
    | some path => return getcwdResult size path

/-! ## Processes -/

/-- The reads of `exec`, each given by offset and length. -/
def execReads (ip : ℕ) : List (ℕ × ℕ) → M Unit
  | [] => return ()
  | (off, n) :: reads => do
    let _ ← readi ip off n
    execReads ip reads

/-- `exec`, as far as it uses the file system. Which parts of the file it reads depends on the
file's headers and on the memory it gets: they are an argument. -/
def exec (p : ℕ) (path : Option (List UInt8)) (reads : List (ℕ × ℕ)) (ext : Ret) : M Ret :=
  match path with
  | none => return failed
  | some path => do
    begin_op p
    match ← namei p path with
    | none =>
      end_op p
      return failed
    | some ip =>
      ilock p ip
      -- the headers and the segments
      execReads ip reads
      iunlockput ip
      end_op p
      return ext

/-- `np->ofile[i] = filedup(proc->ofile[i])`, for each `i` of a list. -/
def forkFiles (p : ℕ) : List ℕ → M Unit
  | [] => return ()
  | i :: is => do
    let f ← get fun s => (s.proc p).ofile i
    match f with
    | none => forkFiles p is
    | some f =>
      filedup f
      forkFiles p is

/-- `fork`. `np` is the unused process entry that `allocproc` found, or `none` when there is no
entry or no memory. -/
def fork (p : ℕ) (np : Option ℕ) : M Ret :=
  match np with
  | none => return failed
  | some np => do
    forkFiles p (List.range NOFILE)
    let cwd ← get fun s => (s.proc p).cwd
    let cwd ← idup cwd
    .act .other fun s =>
      -- not a slot that `allocproc` can have given
      if NPROC ≤ np ∨ (s.proc np).live then .wait
      else .done (np, []) (s.setProc np ⟨true, (s.proc p).ofile, cwd⟩)

/-- Close all open files. -/
def exitFiles (p : ℕ) : List ℕ → M Unit
  | [] => return ()
  | fd :: fds => do
    let f ← get fun s => (s.proc p).ofile fd
    match f with
    | none => exitFiles p fds
    | some f =>
      fileclose p f
      setOfile p fd none
      exitFiles p fds

/-- `exit`. The first process is `init`. -/
def exit (p : ℕ) : M Ret :=
  -- `panic("init exiting")`
  if p = 0 then panic .initExiting
  else do
    exitFiles p (List.range NOFILE)
    begin_op p
    let cwd ← get fun s => (s.proc p).cwd
    iput cwd
    end_op p
    modify fun s => s.setProc p { s.proc p with live := false }
    return (0, [])

/-! ## Pipes -/

/-- The file that `pipealloc` makes of an end of the pipe. -/
def pipeFile (x : File) (pg : ℕ) (writable : Bool) : File :=
  { x with type := .FD_PIPE, readable := !writable, writable := writable, pipe := pg }

/-- `kalloc` for a pipe, whose ends are then open: it does not answer with a page in use. -/
def pipePage (pg : ℕ) : M Unit :=
  .act .other fun s =>
    if (s.pipe pg).isSome then .wait else .done () (s.setPipe pg (some ⟨true, true⟩))

/-- `pipealloc`; `page` is what `kalloc` answers. -/
def pipealloc (p : ℕ) (page : Option ℕ) : M (Option (ℕ × ℕ)) := do
  match ← filealloc with
  -- `bad`: whatever was allocated is closed
  | none => return none
  | some f0 =>
    match ← filealloc with
    | none =>
      fileclose p f0
      return none
    | some f1 =>
      match page with
      | none =>
        fileclose p f0
        fileclose p f1
        return none
      | some pg =>
        -- both ends are open
        pipePage pg
        modify fun s => s.setFile f0 (pipeFile (s.ftable f0) pg false)
        modify fun s => s.setFile f1 (pipeFile (s.ftable f1) pg true)
        return some (f0, f1)

/-- `sys_pipe`; `ptr` says whether the address for the descriptors was accepted. -/
def sys_pipe (p : ℕ) (ptr : Bool) (page : Option ℕ) : M Ret :=
  if !ptr then return failed
  else do
    match ← pipealloc p page with
    | none => return failed
    | some (rf, wf) =>
      match ← fdalloc p rf with
      | none =>
        fileclose p rf
        fileclose p wf
        return failed
      | some fd0 =>
        match ← fdalloc p wf with
        | none =>
          -- the first descriptor is taken back
          setOfile p fd0 none
          fileclose p rf
          fileclose p wf
          return failed
        | some _ => return (0, [])

/-! ## All of them -/

/-- The system calls that use the file system, with their arguments. -/
inductive Call where
  | dup (fd : ℕ)
  | read (fd : ℕ) (n : Option ℕ) (ext : Ret)
  | write (fd : ℕ) (src : Option (List UInt8)) (ext : Ret)
  | close (fd : ℕ)
  | fstat (fd : ℕ)
  | fseek (fd : ℕ) (offset position : ℤ)
  | link (old new : Option (List UInt8))
  | unlink (path : Option (List UInt8))
  | open (path : Option (List UInt8)) (omode : ℕ)
  | mkdir (path : Option (List UInt8))
  | mknod (path : Option (List UInt8)) (major minor : ℕ)
  | chdir (path : Option (List UInt8))
  | getcwd (size : Option ℤ) (stack : List UInt8)
  | exec (path : Option (List UInt8)) (reads : List (ℕ × ℕ)) (ext : Ret)
  | fork (np : Option ℕ)
  | exit
  | pipe (ptr : Bool) (page : Option ℕ)

/-- A string argument: the bytes from its address on, up to the NUL. -/
def cstr (path : Option (List UInt8)) : Option (List UInt8) := path.map fun b => b.takeWhile (· ≠ 0)

/-- `syscall`, by process `p`. -/
def syscall (p : ℕ) : Call → M Ret
  | .dup fd => sys_dup p fd
  | .read fd n ext => sys_read p fd n ext
  | .write fd src ext => sys_write p fd src ext
  | .close fd => sys_close p fd
  | .fstat fd => sys_fstat p fd
  | .fseek fd offset position => sys_fseek p fd offset position
  | .link old new => sys_link p (cstr old) (cstr new)
  | .unlink path => sys_unlink p (cstr path)
  | .open path omode => sys_open p (cstr path) omode
  | .mkdir path => sys_mkdir p (cstr path)
  | .mknod path major minor => sys_mknod p (cstr path) major minor
  | .chdir path => sys_chdir p (cstr path)
  | .getcwd size stack => sys_getcwd p size stack
  | .exec path reads ext => exec p (cstr path) reads ext
  | .fork np => fork p np
  | .exit => exit p
  | .pipe ptr page => sys_pipe p ptr page

end Kernel
end OhMyXv6
