import OhMyXv6.Lib.Radix
import OhMyXv6.Vm.Model
import Mathlib.Data.Nat.Bitwise

/-!
# Page tables as words in memory

`Vm.Model` knows an entry of a page table by its parts. Here it is the 64-bit word that it is in memory,
and a table is 512 of them at an address of the kernel half. A walk returns the address of an entry, its
slot.
-/

namespace OhMyXv6
namespace Paging

open Vm

/-- Present. -/
def PTE_P : ℕ := 0x001

/-- Writeable. -/
def PTE_W : ℕ := 0x002

/-- User. -/
def PTE_U : ℕ := 0x004

/-- Address in page table or page directory entry. -/
def PTE_ADDR (pte : ℕ) : ℕ := pte &&& 0xFFFFFFFFFFFFF000

/-- `memlayout.h`: the physical address. -/
def V2P (a : ℕ) : ℕ := (a + 2 ^ 64 - KERNBASE) % 2 ^ 64

/-- `memlayout.h`: the address in the kernel half. -/
def P2V (a : ℕ) : ℕ := (a + KERNBASE) % 2 ^ 64

/-- A call of `walkpgdir` that has returned a slot. -/
structure Walk where
  va : ℕ
  alloc : Bool
  pte : ℕ

/-- The words of memory and the free list. -/
structure Memory where
  /-- The 64-bit word at an address. -/
  word : ℕ → ℕ
  /-- `kmem.freelist`: the addresses of the pages that `kalloc` is going to return. -/
  freelist : List ℕ
  /-- History: the slots that have been returned. -/
  walks : List Walk

/-- A function of `vm.c` on the words. -/
abbrev W := Fallible Memory Panic

/-- `&p[i]`. -/
def slot (p i : ℕ) : ℕ := p + 8 * i

/-- A word is stored. -/
def Memory.store (s : Memory) (a e : ℕ) : Memory := { s with word := Function.update s.word a e }

/-- `memset` of a page, with words that are all `e`. -/
def Memory.fill (s : Memory) (p e : ℕ) : Memory :=
  { s with word := fun a => if p ≤ a ∧ a < p + PGSIZE then e else s.word a }

/-- A walk is remembered. -/
def Memory.log (s : Memory) (va : ℕ) (alloc : Bool) (pte : ℕ) : Memory :=
  { s with walks := ⟨va, alloc, pte⟩ :: s.walks }

/-- `*pte = e`. -/
def setEntry (a e : ℕ) : W Unit := modify fun s => s.store a e

/-- `memset(p, 0, PGSIZE)`. -/
def zeroPage (p : ℕ) : W Unit := modify fun s => s.fill p 0

/-- It stops where its comment says that it returns 0. -/
def kalloc : W (Option ℕ) := do
  match (← get).freelist with
  | [] => throw .outOfMemory
  | r :: next =>
    modify fun s => { s with freelist := next }
    return some r

variable (K : Kernel)

/-- It fills the page with ones. -/
def kfree (v : ℕ) : W Unit := do
  if v % PGSIZE ≠ 0 ∨ v < P2V (K.first * PGSIZE) ∨ PHYSTOP ≤ V2P v then throw .kfree
  modify fun s => s.fill v 0x0101010101010101
  modify fun s => { s with freelist := v :: s.freelist }

/-- `setupkvm`. -/
def setupkvm : W (Option ℕ) := do
  match ← kalloc with
  | none => return none
  | some pml4 =>
    zeroPage pml4
    setEntry (slot pml4 256) (K.kpdpt * PGSIZE ||| PTE_P ||| PTE_W)
    return some pml4

/-- One level of `walkpgdir`: the table that an entry refers to, or a new one. -/
def walkLevel (alloc : Bool) (p i : ℕ) : W (Option ℕ) := do
  let e := (← get).word (slot p i)
  if e &&& PTE_P ≠ 0 then
    return some (P2V (PTE_ADDR e))
  else if !alloc then
    return none
  else
    match ← kalloc with
    | none => return none
    | some q =>
      -- all those entries are zero before the page is linked
      zeroPage q
      setEntry (slot p i) (V2P q ||| PTE_P ||| PTE_W ||| PTE_U)
      return some q

/-- The levels of `walkpgdir`. -/
def walkLevels (alloc : Bool) (p : ℕ) : List ℕ → W (Option ℕ)
  | [] => return some p
  | i :: is => do
    match ← walkLevel alloc p i with
    | none => return none
    | some q => walkLevels alloc q is

/-- `walkpgdir`; `none` stands for a null pointer. -/
def walkpgdir (pml4 va : ℕ) (alloc : Bool) : W (Option ℕ) := do
  match ← walkLevels alloc pml4 [PMX va, PDPX va, PDX va] with
  | none => return none
  | some pgtab =>
    modify fun s => s.log va alloc (slot pgtab (PTX va))
    return some (slot pgtab (PTX va))

/-- The loop of `mappages`, from `a` on, with `n` pages behind the one at `a`. -/
def mappagesLoop (pgdir perm : ℕ) : ℕ → ℕ → ℕ → W Bool
  | n, a, pa => do
    match ← walkpgdir pgdir a true with
    | none => return false
    | some pte =>
      if (← get).word pte &&& PTE_P ≠ 0 then throw .remap
      setEntry pte (pa ||| perm ||| PTE_P)
      match n with
      | 0 => return true
      | n + 1 => mappagesLoop pgdir perm n ((a + PGSIZE) % 2 ^ 64) ((pa + PGSIZE) % 2 ^ 64)

/-- How often the loop of `mappages` goes on, which is until `a == last`. -/
def mappagesMore (va size : ℕ) : ℕ :=
  let last := PGROUNDDOWN ((va + size + 2 ^ 64 - 1) % 2 ^ 64)
  (last + 2 ^ 64 - PGROUNDDOWN va) % 2 ^ 64 / PGSIZE

/-- `false` stands for `-1`. -/
def mappages (pgdir va size pa perm : ℕ) : W Bool :=
  mappagesLoop pgdir perm (mappagesMore va size) (PGROUNDDOWN va) pa

/-- The loop of `deallocuvm`. -/
def deallocuvmLoop (pgdir : ℕ) : ℕ → ℕ → W Unit
  | 0, _ => return
  | n + 1, a => do
    match ← walkpgdir pgdir a false with
    -- no table there: the loop goes on page by page all the same
    | none => pure ()
    | some pte =>
      let e := (← get).word pte
      if e &&& PTE_P ≠ 0 then
        if PTE_ADDR e = 0 then throw .kfree
        kfree K (P2V (PTE_ADDR e))
        setEntry pte 0
    deallocuvmLoop pgdir n (a + PGSIZE)

/-- `deallocuvm`. -/
def deallocuvm (pgdir oldsz newsz : ℕ) : W ℕ := do
  if oldsz ≤ newsz then return oldsz
  let a := PGROUNDUP newsz
  deallocuvmLoop K pgdir (pageCount a oldsz) a
  return newsz

end Paging
end OhMyXv6
