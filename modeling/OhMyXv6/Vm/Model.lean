import OhMyXv6.Lib.Fallible
import OhMyXv6.Param
import Mathlib.Algebra.Group.Int.Defs
import Mathlib.Algebra.Group.Nat.Defs
import Mathlib.Logic.Function.Basic

/-!
# `kalloc.c` and `vm.c`

Physical pages are known by their frame number. `table f i` is entry `i` of page `f`, read as a page of
a page table, and `data f i` is byte `i`, where it is a user page. Of the bytes only whole pages that are
cleared, copied or freed are followed. Sizes and virtual addresses are 64-bit numbers.
-/

namespace OhMyXv6
namespace Vm

/-- `memlayout.h`: start of extended memory. -/
def EXTMEM : ℕ := 0x100000

/-- `memlayout.h`: top of physical memory. -/
def PHYSTOP : ℕ := 0xE000000

/-- `memlayout.h`: first kernel virtual address. -/
def KERNBASE : ℕ := 0xFFFF800000000000

/-- `mmu.h`: entries of a page of the page table. -/
def NPDENTRIES : ℕ := 512

/-- The first frame behind physical memory. -/
def topFrame : ℕ := PHYSTOP / PGSIZE

/-- Page map level 4 index. -/
def PMX (va : ℕ) : ℕ := va / 2 ^ 39 % 512

/-- Page directory pointer index. -/
def PDPX (va : ℕ) : ℕ := va / 2 ^ 30 % 512

/-- Page directory index. -/
def PDX (va : ℕ) : ℕ := va / 2 ^ 21 % 512

/-- Page table index. -/
def PTX (va : ℕ) : ℕ := va / 2 ^ 12 % 512

/-- `mmu.h`: the next boundary of a page. -/
def PGROUNDUP (sz : ℕ) : ℕ := (sz + (PGSIZE - 1)) % 2 ^ 64 / PGSIZE * PGSIZE

/-- `mmu.h`: the boundary of the page. -/
def PGROUNDDOWN (a : ℕ) : ℕ := a / PGSIZE * PGSIZE

/-- How often a loop `for (; a < b; a += PGSIZE)` is run. -/
def pageCount (a b : ℕ) : ℕ := (b - a + (PGSIZE - 1)) / PGSIZE

/-- An entry of a page table, with the flags `PTE_P`, `PTE_W` and `PTE_U`. -/
structure Pte where
  frame : ℕ
  p : Bool
  w : Bool
  u : Bool
deriving DecidableEq

/-- An entry of a cleared page. -/
def Pte.zero : Pte := ⟨0, false, false, false⟩

/-- Eight bytes of a page that `kfree` has filled with ones. -/
def Pte.junk : Pte := ⟨0x0101010101010101 / PGSIZE, true, false, false⟩

/-- The calls of `panic`. -/
inductive Panic where
  | outOfMemory
  | kfree
  | remap
  | inituvmTooBig
  | loaduvmAddress
  | freevmNoPgdir
  | clearpteu
  | copyuvmNoPte
  | copyuvmNotPresent
deriving DecidableEq

/-- The free list, and the pages by their frames. -/
structure Mem where
  /-- `kmem.freelist`. -/
  freelist : List ℕ
  table : ℕ → ℕ → Pte
  data : ℕ → ℕ → UInt8

/-- What is fixed when the system has booted. -/
structure Kernel where
  /-- The first frame behind `end`. -/
  first : ℕ
  /-- The kernel is linked at `EXTMEM`. -/
  loaded : EXTMEM / PGSIZE ≤ first
  /-- The page that holds the kernel half of all page tables. -/
  kpdpt : ℕ
  /-- The pages that the kernel has taken for itself: `kpml4`, `kpdpt`, the IDT, what belongs to a CPU. -/
  kept : List ℕ
  kpdpt_mem : kpdpt ∈ kept

/-- A function of `vm.c` or `kalloc.c`. -/
abbrev V := Fallible Mem Panic

/-- An entry is written. -/
def Mem.setEntry (m : Mem) (t i : ℕ) (e : Pte) : Mem :=
  { m with table := Function.update m.table t (Function.update (m.table t) i e) }

/-- A page is filled. -/
def Mem.fill (m : Mem) (f : ℕ) (page : ℕ → Pte) (bytes : ℕ → UInt8) : Mem :=
  { m with table := Function.update m.table f page, data := Function.update m.data f bytes }

/-- `memset(f, 0, PGSIZE)`. -/
def zeroPage (f : ℕ) : V Unit := modify fun m => m.fill f (fun _ => .zero) fun _ => 0

/-- `*pte = e`. -/
def setPte (t i : ℕ) (e : Pte) : V Unit := modify fun m => m.setEntry t i e

/-- It stops where its comment says that it returns 0. -/
def kalloc : V (Option ℕ) := do
  match (← get).freelist with
  | [] => throw .outOfMemory
  | r :: next =>
    modify fun m => { m with freelist := next }
    return some r

variable (K : Kernel)

/-- `kfree`, which fills the page with ones. -/
def kfree (f : ℕ) : V Unit := do
  if f < K.first ∨ topFrame ≤ f then throw .kfree
  modify fun m => m.fill f (fun _ => .junk) fun _ => 1
  modify fun m => { m with freelist := f :: m.freelist }

/-- `setupkvm`. -/
def setupkvm : V (Option ℕ) := do
  match ← kalloc with
  | none => return none
  | some pml4 =>
    zeroPage pml4
    setPte pml4 256 ⟨K.kpdpt, true, true, false⟩
    return some pml4

/-- One level of `walkpgdir`: the page that an entry refers to, or a new one. -/
def walkLevel (alloc : Bool) (t i : ℕ) : V (Option ℕ) := do
  let e := (← get).table t i
  if e.p then
    return some e.frame
  else if !alloc then
    return none
  else
    match ← kalloc with
    | none => return none
    | some f =>
      -- all those entries are zero before the page is linked
      zeroPage f
      setPte t i ⟨f, true, true, true⟩
      return some f

/-- The levels of `walkpgdir`. -/
def walkLevels (alloc : Bool) (t : ℕ) : List ℕ → V (Option ℕ)
  | [] => return some t
  | i :: is => do
    match ← walkLevel alloc t i with
    | none => return none
    | some f => walkLevels alloc f is

/-- The place of an entry: its page and its index. -/
def walkpgdir (pml4 va : ℕ) (alloc : Bool) : V (Option (ℕ × ℕ)) := do
  match ← walkLevels alloc pml4 [PMX va, PDPX va, PDX va] with
  | none => return none
  | some pgtab => return some (pgtab, PTX va)

/-- The loop of `mappages`, from `a` on, with `n` pages behind the one at `a`. -/
def mappagesLoop (pgdir : ℕ) (w u : Bool) : ℕ → ℕ → ℕ → V Bool
  | n, a, pa => do
    match ← walkpgdir pgdir a true with
    | none => return false
    | some (t, i) =>
      -- `panic("remap")`
      if ((← get).table t i).p then throw .remap
      setPte t i ⟨pa, true, w, u⟩
      match n with
      | 0 => return true
      | n + 1 => mappagesLoop pgdir w u n (a + PGSIZE) (pa + 1)

/-- `false` stands for `-1`. `pa` is a frame. -/
def mappages (pgdir va size pa : ℕ) (w u : Bool) : V Bool :=
  let a := PGROUNDDOWN va
  let last := PGROUNDDOWN (va + size - 1)
  mappagesLoop pgdir w u ((last - a) / PGSIZE) a pa

/-- `inituvm`; the bytes of `initcode` are not followed. -/
def inituvm (pgdir sz : ℕ) : V Unit := do
  if PGSIZE ≤ sz then throw .inituvmTooBig
  match ← kalloc with
  | none => return
  | some mem =>
    zeroPage mem
    let _ ← mappages pgdir PGSIZE PGSIZE mem true true

/-- The loop of `loaduvm`; `ok i` says whether `readi` reads the page at `addr + i` in full. -/
def loaduvmLoop (pgdir addr : ℕ) (ok : ℕ → Bool) : ℕ → ℕ → V Bool
  | 0, _ => return true
  | n + 1, i => do
    match ← walkpgdir pgdir (addr + i) false with
    | none => throw .loaduvmAddress
    | some _ => if ok i then loaduvmLoop pgdir addr ok n (i + PGSIZE) else return false

/-- `loaduvm`, of an address that its caller has found aligned. -/
def loaduvm (pgdir addr sz : ℕ) (ok : ℕ → Bool) : V Bool :=
  loaduvmLoop pgdir addr ok (pageCount 0 (sz % 2 ^ 32)) 0

/-- The loop of `deallocuvm`. -/
def deallocuvmLoop (pgdir : ℕ) : ℕ → ℕ → V Unit
  | 0, _ => return
  | n + 1, a => do
    match ← walkpgdir pgdir a false with
    -- no table here: the page is skipped
    | none => pure ()
    | some (t, i) =>
      let e := (← get).table t i
      if e.p then
        if e.frame = 0 then throw .kfree
        kfree K e.frame
        setPte t i .zero
    deallocuvmLoop pgdir n (a + PGSIZE)

/-- `deallocuvm`. -/
def deallocuvm (pgdir oldsz newsz : ℕ) : V ℕ := do
  if oldsz ≤ newsz then return oldsz
  let a := PGROUNDUP newsz
  deallocuvmLoop K pgdir (pageCount a oldsz) a
  return newsz

/-- The loop of `allocuvm`. -/
def allocuvmLoop (pgdir oldsz newsz : ℕ) : ℕ → ℕ → V ℕ
  | 0, _ => return newsz
  | n + 1, a => do
    match ← kalloc with
    -- out of memory: what was allocated is given back
    | none =>
      let _ ← deallocuvm K pgdir newsz oldsz
      return 0
    | some mem =>
      zeroPage mem
      if ← mappages pgdir a PGSIZE mem true true then
        allocuvmLoop pgdir oldsz newsz n (a + PGSIZE)
      else
        let _ ← deallocuvm K pgdir newsz oldsz
        kfree K mem
        return 0

/-- `allocuvm`. -/
def allocuvm (pgdir oldsz newsz : ℕ) : V ℕ :=
  if KERNBASE ≤ newsz then return 0
  else if newsz < oldsz then return oldsz
  else
    let a := PGROUNDUP oldsz
    allocuvmLoop K pgdir oldsz newsz (pageCount a newsz) a

/-- How many entries `freevm` looks at in a table with `n` levels below it: the half of the `pml4` that
is not the kernel's, and all of the others. -/
def entries (n : ℕ) : ℕ := if n = 3 then NPDENTRIES / 2 else NPDENTRIES

/-- The nested loops of `freevm`: free what a table refers to and then the table. At level zero there is
a user page. -/
def freeLevel : ℕ → ℕ → V Unit
  | 0, f => kfree K f
  | n + 1, f => do
    (List.range (entries n)).forM fun i => do
      let e := (← get).table f i
      if e.p then freeLevel n e.frame
    kfree K f

/-- `freevm`. -/
def freevm : Option ℕ → V Unit
  | none => throw .freevmNoPgdir
  | some pml4 => freeLevel K 4 pml4

/-- `clearpteu`. -/
def clearpteu (pgdir uva : ℕ) : V Unit := do
  match ← walkpgdir pgdir uva false with
  | none => throw .clearpteu
  | some (t, i) => setPte t i { (← get).table t i with u := false }

/-- The loop of `copyuvm`. -/
def copyuvmLoop (pgdir d : ℕ) : ℕ → ℕ → V (Option ℕ)
  | 0, _ => return some d
  | n + 1, i => do
    match ← walkpgdir pgdir i false with
    -- `panic("copyuvm: pte should exist")`
    | none => throw .copyuvmNoPte
    | some (t, j) =>
      let e := (← get).table t j
      -- `panic("copyuvm: page not present")`
      if !e.p then throw .copyuvmNotPresent
      match ← kalloc with
      | none =>
        -- the copy made so far is freed
        freevm K (some d)
        return none
      | some mem =>
        modify fun m => m.fill mem (m.table e.frame) (m.data e.frame)
        if ← mappages d i PGSIZE mem e.w e.u then
          copyuvmLoop pgdir d n (i + PGSIZE)
        else
          freevm K (some d)
          return none

/-- `sz` is a `uint`. -/
def copyuvm (pgdir sz : ℕ) : V (Option ℕ) := do
  match ← setupkvm K with
  | none => return none
  | some d => copyuvmLoop K pgdir d (pageCount PGSIZE (sz % 2 ^ 32)) PGSIZE

/-- `growproc`: whether it returns 0, and `proc->sz` afterwards. -/
def growproc (pgdir sz : ℕ) (n : Int64) : V (Bool × ℕ) := do
  let newsz := ((sz + n.toInt) % 2 ^ 64).toNat
  if 0 < n.toInt then
    let sz' ← allocuvm K pgdir sz newsz
    -- zero is taken for a failure
    if sz' = 0 then return (false, sz) else return (true, sz')
  else if n.toInt < 0 then
    let sz' ← deallocuvm K pgdir sz newsz
    if sz' = 0 then return (false, sz) else return (true, sz')
  else
    return (true, sz)

end Vm
end OhMyXv6
