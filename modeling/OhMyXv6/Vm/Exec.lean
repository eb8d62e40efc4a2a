import OhMyXv6.Lib.Bytes
import OhMyXv6.Vm.System

/-!
# `exec.c`

`exec` from the point where the inode of the program is locked: the file is its bytes, the arguments are
the strings that `sys_exec` has found in the memory of the caller, each without its zero.

What `loaduvm` reads from the file and what `copyout` writes goes to user pages, and of these there are no
bytes here. Instead each copy is kept, with the page that it went to and the page tables at that time.
-/

namespace OhMyXv6
namespace Vm

/-- `param.h`: most arguments of `exec`. -/
def MAXARG : ℕ := 32

/-- `elf.h`: `"\x7FELF"` as a number. -/
def ELF_MAGIC : ℕ := 0x464C457F

/-- `elf.h`: a segment that is loaded. -/
def ELF_PROG_LOAD : ℕ := 1

/-- Bytes that the kernel has copied to a user page. -/
structure Stored where
  pgdir : ℕ
  va : ℕ
  frame : ℕ
  bytes : List UInt8
  mem : Mem

/-- The memory, and what was copied to user pages: from the file, and of the arguments. -/
structure Loader where
  mem : Mem
  loads : List Stored
  args : List Stored

/-- How the kernel stops. -/
inductive Fault where
  | panic (e : Panic)
  /-- `panic("loaduvm: addr must be page aligned")`. -/
  | loaduvmAligned
  /-- The kernel reads an entry of a page table through a null pointer. -/
  | nullEntry
deriving DecidableEq

/-- A function of `exec.c`. -/
abbrev X := Fallible Loader Fault

/-- A call of a function of `vm.c`. -/
def onMem {α : Type} (x : V α) : X α := fun s =>
  match x.run s.mem with
  | .ok (a, m) => .ok (a, { s with mem := m })
  | .error e => .error (.panic e)

/-- What such a call does. -/
lemma run_onMem {α : Type} {x : V α} {s : Loader} : (onMem x).run s = match x.run s.mem with
    | .ok (a, m) => .ok (a, { s with mem := m })
    | .error e => .error (.panic e) := rfl

/-! ## The file -/

/-- What `readi` reads; `off` and `n` are `uint`s. -/
def readi (file : List UInt8) (off n : ℕ) : Option (List UInt8) :=
  if file.length < off ∨ 2 ^ 32 ≤ off + n then none else some ((file.drop off).take n)

/-- A `readi` that has to read all that it is asked for. -/
def readExact (file : List UInt8) (off n : ℕ) : Option (List UInt8) :=
  (readi file off n).filter fun bytes => bytes.length = n

/-- `struct elfhdr`, as far as `exec` reads it. -/
structure Elfhdr where
  magic : ℕ
  entry : ℕ
  phoff : ℕ
  phnum : ℕ
deriving DecidableEq

/-- `sizeof(struct elfhdr)`. -/
def Elfhdr.size : ℕ := 64

/-- The header in these bytes. -/
def Elfhdr.decode (bytes : List UInt8) : Elfhdr :=
  let b := Bytes.ofList bytes
  ⟨Bytes.le b 0 4, Bytes.le b 24 8, Bytes.le b 32 8, Bytes.le b 56 2⟩

/-- `struct proghdr`, with the place of the segment in the file. -/
structure Segment extends Proghdr where
  off : UInt64

/-- `sizeof(struct proghdr)`. -/
def Segment.size : ℕ := 56

/-- The program header in these bytes. -/
def Segment.decode (bytes : List UInt8) : Segment :=
  let b := Bytes.ofList bytes
  { load := Bytes.le b 0 4 = ELF_PROG_LOAD
    off := .ofNat (Bytes.le b 8 8)
    vaddr := .ofNat (Bytes.le b 16 8)
    filesz := .ofNat (Bytes.le b 32 8)
    memsz := .ofNat (Bytes.le b 40 8) }

/-- The header of the file, if it is one of a program. -/
def readElfhdr (file : List UInt8) : Option Elfhdr :=
  ((readExact file 0 Elfhdr.size).map Elfhdr.decode).filter fun elf => elf.magic = ELF_MAGIC

/-- The program header at `off`, if it is in the file. -/
def readSegment (file : List UInt8) (off : ℕ) : Option Segment :=
  (readExact file off Segment.size).map Segment.decode

/-! ## Loading the program -/

/-- `readi` to the page `P2V(pa)`, for address `va`. -/
def load (pgdir va pa : ℕ) (bytes : List UInt8) : X Unit :=
  modify fun s => { s with loads := s.loads ++ [⟨pgdir, va, pa, bytes, s.mem⟩] }

/-- How much a round of `loaduvm` reads. -/
def chunk (sz i : ℕ) : ℕ := if sz - i < PGSIZE then sz - i else PGSIZE

/-- The loop of `loaduvm`. No file is long enough for the `uint` `i` to wrap. -/
def loadLoop (file : List UInt8) (pgdir addr offset sz : ℕ) : ℕ → ℕ → X Bool
  | 0, _ => return true
  | n + 1, i => do
    match ← onMem (walkpgdir pgdir (addr + i) false) with
    -- `panic("loaduvm: address should exist")`
    | none => throw (.panic .loaduvmAddress)
    | some (t, j) =>
      let pa := ((← get).mem.table t j).frame
      match readi file ((offset + i) % 2 ^ 32) (chunk sz i) with
      | none => return false
      | some bytes =>
        load pgdir (addr + i) pa bytes
        -- `readi` returned less than it was asked for
        if bytes.length = chunk sz i then loadLoop file pgdir addr offset sz n (i + PGSIZE) else return false

/-- `loaduvm`, with its `uint`s `offset` and `sz`. -/
def loadPages (file : List UInt8) (pgdir addr offset sz : ℕ) : X Bool := do
  if addr % PGSIZE ≠ 0 then throw .loaduvmAligned
  loadLoop file pgdir addr offset sz (pageCount 0 sz) 0

variable (K : Kernel)

/-- The body of the loop over the program headers; `none` stands for `goto bad`. -/
def loadSegment (file : List UInt8) (pgdir sz : ℕ) (ph : Segment) : X (Option ℕ) := do
  if !ph.load then return some sz
  if ph.memsz < ph.filesz then return none
  if ph.vaddr + ph.memsz < ph.vaddr then return none
  let sz ← onMem (allocuvm K pgdir sz (ph.vaddr + ph.memsz).toNat)
  if sz = 0 then return none
  if ph.vaddr.toNat % PGSIZE ≠ 0 then return none
  if ← loadPages file pgdir ph.vaddr.toNat (ph.off.toNat % 2 ^ 32) (ph.filesz.toNat % 2 ^ 32) then
    return some sz
  else return none

/-- The loop over the program headers, of which there are `n` left. -/
def loadSegments (file : List UInt8) (pgdir : ℕ) : ℕ → ℕ → ℕ → X (Option ℕ)
  | 0, _, sz => return some sz
  | n + 1, off, sz => do
    match readSegment file off with
    | none => return none
    | some ph =>
      match ← loadSegment K file pgdir sz ph with
      | none => return none
      | some sz => loadSegments file pgdir n ((off + Segment.size) % 2 ^ 32) sz

/-- `exec` behind the loop over the program headers. -/
def stackOrBad (entry pgdir : ℕ) : Option ℕ → X (Option (ℕ × ℕ × ℕ))
  | none => do
    onMem (freevm K (some pgdir))
    return none
  | some sz => do
    match ← onMem (orBad K pgdir (execStack K pgdir sz)) with
    | none => return none
    | some sz => return some (entry, pgdir, sz)

/-- `exec` up to the arguments: the entry, the new page table and its size. -/
def execImage (file : List UInt8) : X (Option (ℕ × ℕ × ℕ)) := do
  match readElfhdr file with
  | none => return none
  | some elf =>
    match ← onMem (setupkvm K) with
    | none => return none
    | some pgdir =>
      let sz ← loadSegments K file pgdir elf.phnum (elf.phoff % 2 ^ 32) PGSIZE
      stackOrBad K elf.entry pgdir sz

/-! ## The arguments -/

/-- The page of a user address. -/
def uva2ka (pgdir uva : ℕ) : X (Option ℕ) := do
  match ← onMem (walkpgdir pgdir uva false) with
  -- the null result of `walkpgdir` is dereferenced
  | none => throw .nullEntry
  | some (t, j) =>
    let e := (← get).mem.table t j
    if !e.p then return none
    if !e.u then return none
    return some e.frame

/-- `memmove` to the page at `pa`, for address `va`. -/
def put (pgdir va pa : ℕ) (bytes : List UInt8) : X Unit :=
  modify fun s => { s with args := s.args ++ [⟨pgdir, va, pa, bytes, s.mem⟩] }

/-- Each round of `copyout` copies something. -/
lemma length_drop_lt {va : ℕ} {buf : List UInt8} (h : buf ≠ []) :
    (buf.drop (min (PGSIZE - (va - PGROUNDDOWN va)) buf.length)).length < buf.length := by
  have hpos := List.length_pos_iff.mpr h
  rw [List.length_drop]
  unfold PGROUNDDOWN PGSIZE
  omega

/-- `false` stands for `-1`. -/
def copyout (pgdir va : ℕ) (buf : List UInt8) : X Bool :=
  if h : buf = [] then return true
  else do
    let va0 := PGROUNDDOWN va
    match ← uva2ka pgdir va0 with
    -- a page without PTE_P or PTE_U
    | none => return false
    | some pa0 =>
      let n := min (PGSIZE - (va - va0)) buf.length
      put pgdir va pa0 (buf.take n)
      copyout pgdir ((va0 + PGSIZE) % 2 ^ 64) (buf.drop n)
termination_by buf.length
decreasing_by exact length_drop_lt h

/-- `sp - n`, as 64-bit numbers. -/
def lower (sp n : ℕ) : ℕ := (sp + (2 ^ 64 - n % 2 ^ 64)) % 2 ^ 64

/-- Where `exec` puts a string of `len` bytes. -/
def stringAt (sp len : ℕ) : ℕ := lower sp (len + 1) / 8 * 8

/-- The loop over the arguments: the stack pointer and the addresses of the strings. -/
def pushArgs (pgdir : ℕ) : ℕ → ℕ → List (List UInt8) → X (Option (ℕ × List ℕ))
  | _, sp, [] => return some (sp, [])
  | argc, sp, arg :: argv => do
    -- `argc >= MAXARG`: `goto bad`
    if MAXARG ≤ argc then return none
    let sp := stringAt sp arg.length
    if ← copyout pgdir sp (arg ++ [0]) then
      match ← pushArgs pgdir (argc + 1) sp argv with
      | none => return none
      | some (sp', ustack) => return some (sp', sp :: ustack)
    else return none

/-- The bytes of an array of `addr_t`. -/
def addrBytes (a : List ℕ) : List UInt8 := a.flatMap fun v => (List.range 8).map (Bytes.leByte v)

/-- What `exec` commits to: `proc->pgdir`, `proc->sz` and the registers of the trap frame. -/
structure Committed where
  pgdir : ℕ
  sz : ℕ
  rip : ℕ
  rsp : ℕ
  rdi : ℕ
  rsi : ℕ

/-- `exec` with the stack of the new program: the arguments, and the commit. `none` stands for `-1`. -/
def pushOrBad (oldpgdir entry pgdir sz : ℕ) (argv : List (List UInt8)) : X (Option Committed) := do
  match ← pushArgs pgdir 0 sz argv with
  | none =>
    onMem (freevm K (some pgdir))
    return none
  | some (sp, ustack) =>
    let argc := argv.length
    -- `argv` lies behind the fake return address, which comes first
    let rsi := lower sp ((argc + 1) * 8)
    let sp := lower sp ((1 + argc + 1) * 8)
    if ← copyout pgdir sp (addrBytes (0xffffffffffffffff :: ustack ++ [0])) then
      -- committed to the new image
      onMem (freevm K (some oldpgdir))
      return some ⟨pgdir, sz, entry, sp, argc, rsi⟩
    else
      onMem (freevm K (some pgdir))
      return none

/-- `exec`, from the open file to the commit; `none` stands for `-1`. -/
def exec (oldpgdir : ℕ) (file : List UInt8) (argv : List (List UInt8)) : X (Option Committed) := do
  match ← execImage K file with
  | none => return none
  | some (entry, pgdir, sz) => pushOrBad K oldpgdir entry pgdir sz argv

end Vm
end OhMyXv6
