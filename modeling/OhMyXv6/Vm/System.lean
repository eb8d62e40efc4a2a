import OhMyXv6.Lib.Runs
import OhMyXv6.Vm.Table

/-!
# The processes and their memory

The calls that `fork`, `exec`, `sbrk`, `exit`, `wait` and `pipe` make to `kalloc.c` and `vm.c`. A step of
the system is one such call, so that those of different processes are interleaved in any order: `fork`
takes the kernel stack in one step and copies the memory in another, `exec` makes a step for the new page
table, one for each segment, one for the stack, one for the commit and one that frees the old page table.

Of a process there is what these calls use. `p->pgdir` is not cleared when its page table is freed.
-/

namespace OhMyXv6
namespace Vm

/-- A slot of the process table. -/
abbrev Slot := Fin NPROC

/-- `initproc`. -/
def initproc : Slot := ⟨0, NPROC_pos⟩

/-- `p->state`; a process that can run, runs or sleeps is alive. -/
inductive Status where
  | unused
  | embryo
  | live
  | zombie
deriving DecidableEq

/-- Where a process is in the kernel. -/
inductive Pc where
  | user
  /-- `fork`, about to call `copyuvm`. -/
  | fork (np : Slot)
  /-- `exec`, in the loop over the program headers. -/
  | exec (pgdir sz : ℕ)
  /-- `exec`, with the stack allocated, copying the arguments. -/
  | args (pgdir sz : ℕ)
  /-- `exec`, about to free `oldpgdir`. -/
  | free (oldpgdir : ℕ)
deriving DecidableEq

/-- `struct proc`. -/
structure Proc where
  status : Status
  parent : Option Slot
  kstack : Option ℕ
  pgdir : Option ℕ
  sz : ℕ
  pc : Pc

/-- `struct file`. A pipe is known by its page. -/
structure File where
  ref : ℕ
  pipe : Option ℕ
  readable : Bool
  writable : Bool
deriving DecidableEq

/-- The memory, the processes and the pipes. -/
structure Sys where
  mem : Mem
  proc : Slot → Proc
  /-- The pages of the pipes that are open. -/
  pipes : List ℕ

/-- The part of `struct proghdr` that `exec` reads. -/
structure Proghdr where
  /-- `ph.type == ELF_PROG_LOAD`. -/
  load : Bool
  vaddr : UInt64
  filesz : UInt64
  memsz : UInt64

/-- A system call. -/
inductive Call where
  | fork
  | sbrk (n : Int64)
  | exec
  | wait
  /-- `pipe`, with the file table that it finds. -/
  | pipe (files : List File)

/-- How a call goes on. -/
inductive Move where
  | copy
  /-- One round of the loop of `exec`; `ok i` says whether `readi` reads the page at `ph.vaddr + i`. -/
  | segment (ph : Proghdr) (ok : ℕ → Bool)
  | stack
  | commit
  /-- A `goto bad` of `exec` for another reason than memory. -/
  | bad
  | freeOld

/-- A step of a process. -/
inductive Act where
  /-- A process makes a system call, at this address. -/
  | call (p : Slot) (rip : ℕ) (c : Call)
  | go (p : Slot) (move : Move)
  /-- By a system call or for a trap. -/
  | exit (p : Slot)
  /-- The last end of a pipe is closed. -/
  | pipeclose (f : ℕ)

namespace Sys

/-- One process is changed. -/
def setProc (s : Sys) (p : Slot) (P : Proc) : Sys := { s with proc := Function.update s.proc p P }

/-- A process goes on elsewhere. -/
def setPc (s : Sys) (p : Slot) (pc : Pc) : Sys := s.setProc p { s.proc p with pc := pc }

/-- Run a function of `vm.c` and go on with its result. -/
def onMem {α : Type} (s : Sys) (x : V α) (k : α → Sys → Sys) : Except Panic Sys :=
  match x.run s.mem with
  | .ok (a, m) => .ok (k a { s with mem := m })
  | .error e => .error e

end Sys

/-- The first slot that is not used. -/
def findUnused (s : Sys) : Option Slot := (List.finRange NPROC).find? fun q => (s.proc q).status = .unused

variable (K : Kernel)

/-- `allocproc`, called by `fork`. -/
def allocproc (s : Sys) (p : Slot) : Except Panic Sys :=
  match findUnused s with
  | none => .ok s
  | some np => s.onMem kalloc fun kstack s =>
    match kstack with
    | none => s
    | some k =>
      (s.setProc np { s.proc np with status := .embryo, kstack := some k, pc := .user }).setPc p (.fork np)

/-- `copyuvm`, called by `fork`, which gives the kernel stack back if there is no copy. -/
def copyOrUndo (pgdir sz kstack : ℕ) : V (Option ℕ) := do
  match ← copyuvm K pgdir sz with
  | none =>
    kfree K kstack
    return none
  | some d => return some d

/-- The rest of `fork`. -/
def forkCopy (s : Sys) (p np : Slot) : Except Panic Sys :=
  let P := s.proc p
  s.onMem (copyOrUndo K (P.pgdir.getD 0) P.sz ((s.proc np).kstack.getD 0)) fun d s =>
    match d with
    | none => (s.setProc np { s.proc np with status := .unused, kstack := none }).setPc p .user
    | some d => (s.setProc np { s.proc np with
        status := .live, parent := some p, pgdir := some d, sz := P.sz }).setPc p .user

/-- `sys_sbrk`. -/
def sbrk (s : Sys) (p : Slot) (n : Int64) : Except Panic Sys :=
  let P := s.proc p
  s.onMem (growproc K (P.pgdir.getD 0) P.sz n) fun r s => s.setProc p { P with sz := r.2 }

/-- The body of the loop of `exec`; `none` stands for `goto bad`. -/
def execSegment (pgdir sz : ℕ) (ph : Proghdr) (ok : ℕ → Bool) : V (Option ℕ) := do
  if !ph.load then return some sz
  if ph.memsz < ph.filesz then return none
  -- the sum wraps round
  if ph.vaddr + ph.memsz < ph.vaddr then return none
  let sz ← allocuvm K pgdir sz (ph.vaddr + ph.memsz).toNat
  if sz = 0 then return none
  if ph.vaddr.toNat % PGSIZE ≠ 0 then return none
  if ← loaduvm pgdir ph.vaddr.toNat ph.filesz.toNat ok then return some sz else return none

/-- The two pages for the stack, of which the first is not accessible. -/
def execStack (pgdir sz : ℕ) : V (Option ℕ) := do
  let sz := PGROUNDUP sz
  let sz ← allocuvm K pgdir sz ((sz + 2 * PGSIZE) % 2 ^ 64)
  if sz = 0 then return none
  clearpteu pgdir (sz - 2 * PGSIZE)
  return some sz

/-- `exec` goes on if there is a size, and frees the new page table otherwise. -/
def orBad (pgdir : ℕ) (x : V (Option ℕ)) : V (Option ℕ) := do
  match ← x with
  | none =>
    freevm K (some pgdir)
    return none
  | some sz => return some sz

/-- Where `exec` is afterwards. -/
def unlessBad (pc : ℕ → Pc) : Option ℕ → Pc
  | none => .user
  | some sz => pc sz

/-- Give back what a zombie has. -/
def reap (P : Proc) : V Unit := do
  kfree K (P.kstack.getD 0)
  freevm K P.pgdir

/-- `wait`, which reaps one child that is a zombie. -/
def wait (s : Sys) (p : Slot) : Except Panic Sys :=
  match (List.finRange NPROC).find? fun q => (s.proc q).parent = some p ∧ (s.proc q).status = .zombie with
  | none => .ok s
  | some q => s.onMem (reap K (s.proc q)) fun _ s =>
    s.setProc q { s.proc q with status := .unused, parent := none, kstack := none }

/-- `exit`: the children are given to `initproc`. -/
def exit (s : Sys) (p : Slot) : Sys :=
  { s with proc := fun q =>
      let P := if (s.proc q).parent = some p then { s.proc q with parent := some initproc } else s.proc q
      if q = p then { P with status := .zombie } else P }

/-- The first file without references gets one. -/
def filealloc (files : List File) : Option (ℕ × List File) :=
  match files.findIdx? fun f => f.ref = 0 with
  | none => none
  | some i => some (i, files.modify i fun f => { f with ref := 1 })

/-- `fileclose` of a file that `filealloc` has just returned. -/
def fileclose (files : List File) (i : ℕ) : List File := files.modify i fun f => { f with ref := 0, pipe := none }

/-- `pipealloc`: the page and the file table; no page stands for `-1`. -/
def pipealloc (files : List File) : V (Option ℕ × List File) := do
  match filealloc files with
  | none => return (none, files)
  | some (f0, files) =>
    match filealloc files with
    -- `bad`: what was allocated is closed
    | none => return (none, fileclose files f0)
    | some (f1, files) =>
      match ← kalloc with
      | none => return (none, fileclose (fileclose files f0) f1)
      | some p => return (some p, (files.modify f0 fun f =>
            { f with pipe := some p, readable := true, writable := false }).modify f1 fun f =>
            { f with pipe := some p, readable := false, writable := true })

/-- What a process does in user mode. -/
def call (s : Sys) (p : Slot) : Call → Except Panic Sys
  | .fork => allocproc s p
  | .sbrk n => sbrk K s p n
  | .exec => s.onMem (setupkvm K) fun d s => match d with
    | none => s
    | some d => s.setPc p (.exec d PGSIZE)
  | .wait => wait K s p
  | .pipe files => s.onMem (pipealloc files) fun r s => { s with pipes := r.1.toList ++ s.pipes }

/-- What a process does in the kernel. `none`: the step is not possible there. -/
def go (s : Sys) (p : Slot) : Pc → Move → Option (Except Panic Sys)
  -- `copyuvm`, or the child's slot is free again
  | .fork np, .copy => some (forkCopy K s p np)
  -- `ok` is false where a read of the file fails
  | .exec d sz, .segment ph ok => some <|
    s.onMem (orBad K d (execSegment K d sz ph ok)) fun r s => s.setPc p (unlessBad (.exec d) r)
  | .exec d sz, .stack => some <|
    s.onMem (orBad K d (execStack K d sz)) fun r s => s.setPc p (unlessBad (.args d) r)
  | .exec d _, .bad => some <| s.onMem (freevm K (some d)) fun _ s => s.setPc p .user
  | .args d _, .bad => some <| s.onMem (freevm K (some d)) fun _ s => s.setPc p .user
  -- the old table is freed in a step of its own
  | .args d sz, .commit =>
    some <| .ok <| s.setProc p
      { s.proc p with pgdir := some d, sz := sz, pc := .free ((s.proc p).pgdir.getD 0) }
  | .free d, .freeOld => some <| s.onMem (freevm K (some d)) fun _ s => s.setPc p .user
  | _, _ => none

/-- One step, which may stop the system. -/
def trans (s : Sys) : Act → Option (Except Panic Sys)
  | .call p _ c => if (s.proc p).status = .live ∧ (s.proc p).pc = .user then some (call K s p c) else none
  | .go p move => if (s.proc p).status = .live then go K s p (s.proc p).pc move else none
  | .exit p =>
    if (s.proc p).status = .live ∧ (s.proc p).pc = .user ∧ p ≠ initproc then some (.ok (exit s p)) else none
  | .pipeclose f =>
    if f ∈ s.pipes then some (s.onMem (kfree K f) fun _ s => { s with pipes := s.pipes.erase f }) else none

/-- One step of the system; `none` where it is not possible, or panics. -/
def step (s : Sys) (a : Act) : Option Sys :=
  match trans K s a with
  | some (.ok t) => some t
  | _ => none

/-- The processor finds the instruction at `rip` in the memory of the process. -/
def fetches (s : Sys) (p : Slot) (rip : ℕ) : Prop :=
  rip / PGSIZE < userPages ∧
    ((s.proc p).pgdir.bind fun r => find s.mem r (path (rip / PGSIZE))).isSome

instance (s : Sys) (p : Slot) (rip : ℕ) : Decidable (fetches s p rip) :=
  inferInstanceAs (Decidable (_ ∧ _))

/-- The steps of the machine: a process makes a system call with an instruction that it has. A process
without any page can not, and what is left to it is the page fault for which it is killed.

If it could go on, it might shrink to 0 and grow in turns. A shrink to 0 leaves its size as it is, so each
round makes it larger, until `allocuvm` gets to the kernel half that all page tables share. -/
def machine (s : Sys) : Act → Option Sys
  | .call p rip c => if fetches s p rip then step K s (.call p rip c) else none
  | a => step K s a

/-! ## The start -/

/-- `userinit`: the kernel stack and the page table of the first process. -/
def userinit (sz : ℕ) : V (Option (ℕ × ℕ)) := do
  match ← kalloc with
  | none => return none
  | some kstack =>
    match ← setupkvm K with
    | none => return none
    | some pgdir =>
      inituvm pgdir sz
      return some (kstack, pgdir)

/-- A slot that was never used. -/
def emptyProc : Proc := ⟨.unused, none, none, none, 0, .user⟩

/-- The system when `userinit` has returned. -/
structure Started (s : Sys) : Prop where
  init : ∃ m₀ size kstack pgdir, Owns K m₀ K.kept ∧
    (userinit K size).run m₀ = .ok (some (kstack, pgdir), s.mem) ∧
    s.proc = Function.update (fun _ => emptyProc) initproc
      ⟨.live, none, some kstack, some pgdir, 2 * PGSIZE, .user⟩
  pipes : s.pipes = []

end Vm
end OhMyXv6
