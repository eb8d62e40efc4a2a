import OhMyXv6.Kernel.Sysfile
import OhMyXv6.Lib.Component
import OhMyXv6.Vm.Exec

/-!
# `exec.c`

All of `exec`, with what it does to the file system, to the memory and to its process. It runs alone: when
it has to wait for another process it does not return. The functions that `exec` calls in `vm.c` and the
copies of what it loads are those of `Vm.Exec`, but here the file is read through its inode, where the source
reads it.
-/

namespace OhMyXv6
namespace Exec

open Fallible
open Vm (Loader Elfhdr Segment ELF_MAGIC)

/-- `struct trapframe`. -/
inductive Reg where
  | rax | rbx | rcx | rdx | rbp | rsi | rdi
  | r8 | r9 | r10 | r11 | r12 | r13 | r14 | r15
  | trapno | err
  | rip | cs | rflags | rsp | ss
deriving DecidableEq

/-- What `exec` changes in its `struct proc`. The name is a string, without its zero. -/
structure Task where
  pgdir : ℕ
  sz : ℕ
  name : List UInt8
  tf : Reg → ℕ

/-- The file system, the page tables and the process that calls `exec`. -/
structure State where
  fs : Kernel.State
  vm : Loader
  task : Task

/-- Why `exec` does not return. -/
inductive Stop where
  | fs (e : Kernel.Panic)
  | vm (e : Vm.Fault)
  | asleep
deriving DecidableEq

/-- A program over this state that may stop. -/
abbrev M := Fallible State Stop

/-- The memory. -/
def memory : Component State Loader where
  get s := s.vm
  put s l := { s with vm := l }
  get_put _ _ := rfl
  put_get _ := rfl
  put_put _ _ _ := rfl

/-- A step of the memory part. -/
def onVm {α : Type} (x : Vm.X α) : M α := on memory Stop.vm x

/-- A call of a function of the file system. -/
def onFs {α : Type} (x : Kernel.M α) : M α := fun s =>
  match x.exec s.fs with
  | .done a t => .ok (a, { s with fs := t })
  | .wait => .error .asleep
  | .stop e => .error (.fs e)

/-- `proc->tf->r = v`. -/
def setReg (r : Reg) (v : ℕ) : M Unit :=
  modify fun s => ⟨s.fs, s.vm, ⟨s.task.pgdir, s.task.sz, s.task.name, Function.update s.task.tf r v⟩⟩

/-! ## Loading the program -/

/-- A `readi` that has to read all that it is asked for. -/
def readExact (ip off n : ℕ) : M (Option (List UInt8)) := do
  let bytes ← onFs (Kernel.readi ip off n)
  return bytes.filter fun bytes => bytes.length = n

/-- The header of the file, if it is one of a program. -/
def readElfhdr (ip : ℕ) : M (Option Elfhdr) := do
  let bytes ← readExact ip 0 Elfhdr.size
  return (bytes.map Elfhdr.decode).filter fun elf => elf.magic = ELF_MAGIC

/-- The program header at `off` of the file. -/
def readSegment (ip off : ℕ) : M (Option Segment) := do
  let bytes ← readExact ip off Segment.size
  return bytes.map Segment.decode

/-- The loop of `loaduvm`. -/
def loadLoop (ip pgdir addr offset sz : ℕ) : ℕ → ℕ → M Bool
  | 0, _ => return true
  | n + 1, i => do
    match ← onVm (Vm.onMem (Vm.walkpgdir pgdir (addr + i) false)) with
    -- `panic("loaduvm: address should exist")`
    | none => throw (.vm (.panic .loaduvmAddress))
    | some (t, j) =>
      let s ← onVm get
      let pa := (s.mem.table t j).frame
      match ← onFs (Kernel.readi ip ((offset + i) % 2 ^ 32) (Vm.chunk sz i)) with
      | none => return false
      | some bytes =>
        onVm (Vm.load pgdir (addr + i) pa bytes)
        if bytes.length = Vm.chunk sz i then loadLoop ip pgdir addr offset sz n (i + PGSIZE) else return false

/-- `loaduvm`, with its `uint`s `offset` and `sz`. -/
def loaduvm (ip pgdir addr offset sz : ℕ) : M Bool := do
  if addr % PGSIZE ≠ 0 then throw (.vm .loaduvmAligned)
  loadLoop ip pgdir addr offset sz (Vm.pageCount 0 sz) 0

variable (K : Vm.Kernel)

/-- The body of the loop over the program headers; `none` stands for `goto bad`. -/
def loadSegment (ip pgdir sz : ℕ) (ph : Segment) : M (Option ℕ) := do
  if !ph.load then return some sz
  if ph.memsz < ph.filesz then return none
  -- the sum wraps round
  if ph.vaddr + ph.memsz < ph.vaddr then return none
  let sz ← onVm (Vm.onMem (Vm.allocuvm K pgdir sz (ph.vaddr + ph.memsz).toNat))
  if sz = 0 then return none
  if ph.vaddr.toNat % PGSIZE ≠ 0 then return none
  if ← loaduvm ip pgdir ph.vaddr.toNat (ph.off.toNat % 2 ^ 32) (ph.filesz.toNat % 2 ^ 32) then
    return some sz
  else return none

/-- The loop over the program headers, of which there are `n` left. -/
def loadSegments (ip pgdir : ℕ) : ℕ → ℕ → ℕ → M (Option ℕ)
  | 0, _, sz => return some sz
  | n + 1, off, sz => do
    match ← readSegment ip off with
    | none => return none
    | some ph =>
      match ← loadSegment K ip pgdir sz ph with
      | none => return none
      | some sz => loadSegments ip pgdir n ((off + Segment.size) % 2 ^ 32) sz

/-! ## The process -/

/-- `for (last = s = path; *s; s++) if (*s == '/') last = s + 1;`. -/
def lastElem (last : List UInt8) : List UInt8 → List UInt8
  | [] => last
  | c :: s => if c = Kernel.slash then lastElem s s else lastElem last s

/-- `proc.h`: `char name[16]`, with the zero. -/
def NAMESIZE : ℕ := 16

/-- The commit: `proc` gets the new image, and the old page table goes. -/
def commit (oldpgdir : ℕ) (path : List UInt8) (pgdir sz entry sp : ℕ) : M Unit := do
  modify fun s => { s with task := { s.task with
    -- `safestrcpy` of the last element of the path
    name := (lastElem path path).take (NAMESIZE - 1)
    pgdir := pgdir
    sz := sz } }
  setReg .rip entry
  setReg .rcx entry
  setReg .rsp sp
  onVm (Vm.onMem (Vm.freevm K (some oldpgdir)))

/-- `iunlockput(ip); end_op();`. -/
def close (p ip : ℕ) : M Unit := do
  onFs (Kernel.iunlockput ip)
  onFs (Kernel.end_op p)

/-- `bad:`. The result `false` stands for -1. -/
def bad (p : ℕ) (pgdir ip : Option ℕ) : M Bool := do
  match pgdir with
  | none => pure ()
  | some pgdir => onVm (Vm.onMem (Vm.freevm K (some pgdir)))
  match ip with
  | none => pure ()
  | some ip => close p ip
  return false

/-- `exec` behind the loop over the arguments. -/
def finish (p oldpgdir : ℕ) (path : List UInt8) (entry pgdir sz argc sp : ℕ) (ustack : List ℕ) :
    M Bool := do
  -- the registers of the caller are set before `copyout` may fail
  setReg .rdi argc
  setReg .rsi (Vm.lower sp ((argc + 1) * 8))
  let sp := Vm.lower sp ((1 + argc + 1) * 8)
  if ← onVm (Vm.copyout pgdir sp (Vm.addrBytes (0xffffffffffffffff :: ustack ++ [0]))) then
    commit K oldpgdir path pgdir sz entry sp
    return true
  else bad K p (some pgdir) none

/-- `exec` behind the first `end_op`. -/
def stack (p oldpgdir : ℕ) (path : List UInt8) (argv : List (List UInt8)) (entry pgdir sz : ℕ) :
    M Bool := do
  match ← onVm (Vm.onMem (Vm.execStack K pgdir sz)) with
  | none => bad K p (some pgdir) none
  | some sz =>
    match ← onVm (Vm.pushArgs pgdir 0 sz argv) with
    | none => bad K p (some pgdir) none
    | some (sp, ustack) => finish K p oldpgdir path entry pgdir sz argv.length sp ustack

/-- `exec` with its inode locked. -/
def image (p oldpgdir : ℕ) (path : List UInt8) (argv : List (List UInt8)) (ip : ℕ) : M Bool := do
  match ← readElfhdr ip with
  | none => bad K p none (some ip)
  | some elf =>
    match ← onVm (Vm.onMem (Vm.setupkvm K)) with
    | none => bad K p none (some ip)
    | some pgdir =>
      match ← loadSegments K ip pgdir elf.phnum (elf.phoff % 2 ^ 32) PGSIZE with
      | none => bad K p (some pgdir) (some ip)
      | some sz =>
        -- `iunlockput` and `end_op`: from here on the file is not needed
        close p ip
        stack K p oldpgdir path argv elf.entry pgdir sz

/-- `exec`, from the lookup of the path to the commit; `false` stands for `-1`. -/
def exec (p : ℕ) (path : List UInt8) (argv : List (List UInt8)) : M Bool := do
  let oldpgdir := (← get).task.pgdir
  onFs (Kernel.begin_op p)
  match ← onFs (Kernel.namei p path) with
  | none =>
    onFs (Kernel.end_op p)
    return false
  | some ip =>
    onFs (Kernel.ilock p ip)
    image K p oldpgdir path argv ip

end Exec
end OhMyXv6
