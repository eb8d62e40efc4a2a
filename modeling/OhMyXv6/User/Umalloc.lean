import Mathlib.Algebra.GroupWithZero.Nat
import Mathlib.Algebra.Order.BigOperators.Group.Finset
import OhMyXv6.Lib.Circular

/-!
# `umalloc.c`: the allocator of the user programs

A block begins with a header, which has the size of the block in units of a header and, while the block
is free, the address of the next free one. An address here is a number of bytes, so `p + 1` for a
`Header *p` of the source is `p + sizeofHeader`.

`sbrk` is not part of it: a call of `malloc` comes with the answers that `sbrk` is going to give.
-/

namespace OhMyXv6
namespace Umalloc

/-- `sizeof(Header)`. -/
def sizeofHeader : ℕ := 16

/-- The headers in memory, and the start of the free list. -/
structure Heap where
  ptr : ℕ → ℕ
  size : ℕ → ℕ
  /-- The null pointer at first. -/
  freep : ℕ
  /-- History: the memory that `sbrk` has given, each region as its address and its size in units. -/
  obtained : List (ℕ × ℕ)

namespace Heap

/-- `p + p->s.size`. -/
def stop (h : Heap) (p : ℕ) : ℕ := p + h.size p * sizeofHeader

/-- `s.ptr` of a header is changed. -/
def setPtr (h : Heap) (p q : ℕ) : Heap := { h with ptr := Function.update h.ptr p q }

/-- The size is a `uint`. -/
def setSize (h : Heap) (p n : ℕ) : Heap := { h with size := Function.update h.size p (n % 2 ^ 32) }

/-! ## `free` -/

/-- The loop of `free`, for `n` turns at most. -/
def findPlace (h : Heap) (bp : ℕ) : ℕ → ℕ → Option ℕ
  | 0, _ => none
  | n + 1, p =>
    if p < bp ∧ bp < h.ptr p then some p
    else if h.ptr p ≤ p ∧ (p < bp ∨ bp < h.ptr p) then some p
    else h.findPlace bp n (h.ptr p)

/-- The block is joined to the free block behind it, or linked to it. -/
def joinNext (h : Heap) (p bp : ℕ) : Heap :=
  if h.stop bp = h.ptr p then
    (h.setSize bp (h.size bp + h.size (h.ptr p))).setPtr bp (h.ptr (h.ptr p))
  else h.setPtr bp (h.ptr p)

/-- The free block in front is joined to the block, or linked to it. -/
def joinPrev (h : Heap) (p bp : ℕ) : Heap :=
  if h.stop p = bp then (h.setSize p (h.size p + h.size bp)).setPtr p (h.ptr bp)
  else h.setPtr p bp

/-- `free`. -/
def free (n : ℕ) (h : Heap) (ap : ℕ) : Option Heap :=
  let bp := ap - sizeofHeader
  (h.findPlace bp n h.freep).map fun p => { (h.joinNext p bp).joinPrev p bp with freep := p }

/-! ## `malloc` -/

/-- The least number of units that `morecore` asks for. -/
def NALLOC : ℕ := 4096

/-- The units that `morecore(nu)` asks for. -/
def coreUnits (nu : ℕ) : ℕ := if nu < NALLOC then NALLOC else nu

/-- `morecore(nu)`; `sbrk` answers with the address of the memory, or not at all if there is none. -/
def morecore (n : ℕ) (h : Heap) (nu : ℕ) (answer : Option ℕ) : Option (Heap × ℕ) :=
  let nu := coreUnits nu
  match answer with
  | none => some (h, 0)
  | some p =>
    let h := { h with obtained := h.obtained ++ [(p, nu)] }
    ((h.setSize p nu).free n (p + sizeofHeader)).map fun h => (h, h.freep)

/-- The units for `nbytes` bytes and a header. -/
def unitsFor (nbytes : ℕ) : ℕ := ((nbytes + sizeofHeader - 1) / sizeofHeader + 1) % 2 ^ 32

/-- The block at `p` is large enough: all of it is taken, or its end. -/
def take (h : Heap) (prevp p nunits : ℕ) : Heap × ℕ :=
  if h.size p = nunits then
    ({ h.setPtr prevp (h.ptr p) with freep := prevp }, p + sizeofHeader)
  else
    let h := h.setSize p (h.size p - nunits)
    let p := h.stop p
    ({ h.setSize p nunits with freep := prevp }, p + sizeofHeader)

/-- The loop of `malloc`, for `k` turns at most and with `n` turns for `free`. -/
def search (n nunits : ℕ) : ℕ → Heap → List (Option ℕ) → ℕ → ℕ → Option (Heap × ℕ)
  | 0, _, _, _, _ => none
  | k + 1, h, answers, prevp, p =>
    if nunits ≤ h.size p then some (h.take prevp p nunits)
    -- once round without success
    else if p = h.freep then
      match answers with
      | [] => none
      | answer :: answers =>
        (h.morecore n nunits answer).bind fun (h, p) =>
          -- `sbrk` failed: `malloc` returns 0
          if p = 0 then some (h, 0) else search n nunits k h answers p (h.ptr p)
    else search n nunits k h answers p (h.ptr p)

/-- The free list at the first call, of `base` alone. -/
def start (base : ℕ) (h : Heap) : Heap :=
  if h.freep = 0 then { (h.setPtr base base).setSize base 0 with freep := base } else h

/-- `malloc(nbytes)`, the block or the null pointer. -/
def malloc (base n : ℕ) (h : Heap) (nbytes : ℕ) (answers : List (Option ℕ)) : Option (Heap × ℕ) :=
  let h := h.start base
  search n (unitsFor nbytes) n h answers h.freep (h.ptr h.freep)

/-- The units obtained. -/
def units (h : Heap) : ℕ := (h.obtained.map Prod.snd).sum

end Heap

/-! ## Programs -/

/-- A program, with the address that `base` has in its data. -/
structure Program where
  base : ℕ
  base_pos : 0 < base

/-- A program at work. -/
structure State where
  heap : Heap
  /-- The headers of the blocks that the program has. -/
  live : Finset ℕ
  /-- What it has asked for them. -/
  asked : ℕ → ℕ

/-- A call of the program. -/
inductive Act where
  /-- The call, and what `sbrk` answers if it is called. -/
  | malloc (nbytes : ℕ) (answer : Option ℕ)
  /-- The call with the block of this header. -/
  | free (b : ℕ)
  /-- Some bytes of a block are written, and with them what would be a header at `x`. -/
  | write (b x ptr size : ℕ)

/-- Memory that `sbrk` may give. It is new, and it is above the data of the program; what matters of this is
that it neither overlaps `base` nor ends there. All the memory of the machine is less than 2^32 units. -/
structure Fresh (P : Program) (h : Heap) (r : ℕ × ℕ) : Prop where
  pos : 0 < r.1
  top : r.1 + r.2 * sizeofHeader < 2 ^ 64
  off : r.1 + r.2 * sizeofHeader < P.base ∨ P.base + sizeofHeader ≤ r.1
  apart : ∀ q ∈ h.obtained, r.1 + r.2 * sizeofHeader ≤ q.1 ∨ q.1 + q.2 * sizeofHeader ≤ r.1
  small : h.units + r.2 < 2 ^ 32

instance (P : Program) (h : Heap) (r : ℕ × ℕ) : Decidable (Fresh P h r) :=
  decidable_of_iff (0 < r.1 ∧ r.1 + r.2 * sizeofHeader < 2 ^ 64 ∧
    (r.1 + r.2 * sizeofHeader < P.base ∨ P.base + sizeofHeader ≤ r.1) ∧
    (∀ q ∈ h.obtained, r.1 + r.2 * sizeofHeader ≤ q.1 ∨ q.1 + q.2 * sizeofHeader ≤ r.1) ∧
    h.units + r.2 < 2 ^ 32)
    ⟨fun ⟨h₁, h₂, h₃, h₄, h₅⟩ => ⟨h₁, h₂, h₃, h₄, h₅⟩, fun ⟨h₁, h₂, h₃, h₄, h₅⟩ => ⟨h₁, h₂, h₃, h₄, h₅⟩⟩

/-- What is asked of a program: it frees only blocks that it has, and writes only behind their headers. -/
def Allowed (P : Program) (s : State) : Act → Prop
  | .malloc nbytes answer =>
    nbytes < 2 ^ 32 ∧ ∀ p ∈ answer, Fresh P s.heap (p, Heap.coreUnits (Heap.unitsFor nbytes))
  | .free b => b ∈ s.live
  | .write b x _ _ => b ∈ s.live ∧ b < x ∧ x < s.heap.stop b

instance (P : Program) (s : State) : ∀ a, Decidable (Allowed P s a)
  | .malloc nbytes answer => inferInstanceAs (Decidable (nbytes < 2 ^ 32 ∧
      ∀ p ∈ answer, Fresh P s.heap (p, Heap.coreUnits (Heap.unitsFor nbytes))))
  | .free b => inferInstanceAs (Decidable (b ∈ s.live))
  | .write b x _ _ => inferInstanceAs (Decidable (b ∈ s.live ∧ b < x ∧ x < s.heap.stop b))

/-- Turns that are enough for each of the loops. -/
def State.turns (s : State) : ℕ := 2 * s.heap.units + 4

/-- What a call does; `none` if a loop does not end in `turns` rounds. -/
def exec (P : Program) (s : State) : Act → Option State
  | .malloc nbytes answer =>
    (s.heap.malloc P.base s.turns nbytes [answer]).map fun (h, ap) =>
      if ap = 0 then { s with heap := h }
      else
        { heap := h
          live := insert (ap - sizeofHeader) s.live
          asked := Function.update s.asked (ap - sizeofHeader) nbytes }
  | .free b =>
    (s.heap.free s.turns (b + sizeofHeader)).map fun h => { s with heap := h, live := s.live.erase b }
  | .write _ x ptr size => some { s with heap := (s.heap.setPtr x ptr).setSize x size }

/-- One step of a program that does what is asked of it. -/
def step (P : Program) (s : State) (a : Act) : Option State :=
  if Allowed P s a then exec P s a else none

/-- The start of a program: whatever is in memory, `freep` is null. -/
def boot (ptr size : ℕ → ℕ) : State where
  heap := { ptr, size, freep := 0, obtained := [] }
  live := ∅
  asked := fun _ => 0

/-! ## What the allocator promises -/

namespace Heap

/-- The block is of memory that `sbrk` has given. -/
def Inside (h : Heap) (b : ℕ) : Prop :=
  ∀ x, b ≤ x → x < h.stop b → ∃ r ∈ h.obtained, r.1 ≤ x ∧ x < r.1 + r.2 * sizeofHeader

/-- One free block ends where another one begins. -/
def Adjacent (h : Heap) (F : Finset ℕ) (a b : ℕ) : Prop := a ∈ F ∧ b ∈ F ∧ a ≠ b ∧ h.stop a = b

/-- `F` are the free blocks, with `base` among them. -/
structure FreeList (P : Program) (h : Heap) (F : Finset ℕ) : Prop where
  base : P.base ∈ F ∧ h.size P.base = 0
  freep : h.freep ∈ F
  /-- Each links to the next one by address, and the last one to the first. -/
  sorted : Circular.Sorted h.ptr F
  circular : ∀ a ∈ F, ∀ b ∈ F, ∃ k, h.ptr^[k] a = b
  merged : ∀ a b, ¬ h.Adjacent F a b

end Heap

/-- The blocks do not overlap, and are all the memory that there is. -/
structure Sound (P : Program) (s : State) (F : Finset ℕ) : Prop where
  free : s.heap.FreeList P F
  room : ∀ b ∈ s.live, s.asked b + sizeofHeader ≤ s.heap.size b * sizeofHeader
  inside : ∀ b ∈ F.erase P.base ∪ s.live, s.heap.Inside b
  apart : ∀ a ∈ F.erase P.base ∪ s.live, ∀ b ∈ F.erase P.base ∪ s.live, a ≠ b →
    s.heap.stop a ≤ b ∨ s.heap.stop b ≤ a
  base : ∀ b ∈ F.erase P.base ∪ s.live, s.heap.stop b ≤ P.base ∨ P.base + sizeofHeader ≤ b
  disjoint : Disjoint F s.live
  total : ∑ b ∈ F, s.heap.size b + ∑ b ∈ s.live, s.heap.size b = s.heap.units

/-- Before the first call of `malloc` there is nothing. -/
def Unused (s : State) : Prop := s.heap.freep = 0 ∧ s.live = ∅ ∧ s.heap.obtained = []

/-- What the call has given: nothing, or a new block for the bytes that were asked for. -/
def Gives (s : State) (t : State) : Act → Prop
  | .malloc nbytes _ => t.live = s.live ∨ ∃ b ∉ s.live, t.live = insert b s.live ∧ t.asked b = nbytes
  | .free b => t.live = s.live.erase b
  | .write .. => t.live = s.live

end Umalloc
end OhMyXv6
