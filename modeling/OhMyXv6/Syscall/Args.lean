import Mathlib.Algebra.Group.Int.Defs
import Mathlib.Algebra.Group.Nat.Defs
import Mathlib.Tactic.Common
import OhMyXv6.Param

/-!
# `syscall.c`: fetching and checking system-call arguments

Registers and addresses are 64-bit words, `int` and `uint` are 32-bit words, and every
conversion the C code makes is written out: `(uint)i` keeps the low half of a register, the
comparison with `proc->sz` extends it with zeros, and an `int` that becomes an address is
extended with its sign. These conversions are what the results here are about.

`argptr` tests the low half of its argument and hands out the whole of it; `argstr` takes its
argument through an `int` and hands out the sign extension of the low half. `argptr_argstr_iff`
says exactly for which registers, sizes and memories the pointers the kernel goes on to use
are the caller's own.
-/

namespace OhMyXv6
namespace Syscall

/-- The argument registers of `struct trapframe`. -/
structure Trapframe where
  rdi : BitVec 64
  rsi : BitVec 64
  rdx : BitVec 64
  r10 : BitVec 64
  r8 : BitVec 64
  r9 : BitVec 64

/-- The calling process, as far as argument checking reads it. -/
structure Proc where
  sz : BitVec 64
  tf : Trapframe
  /-- The byte at a user address. -/
  mem : ℕ → BitVec 8

/-- How a fetch function ends. -/
inductive Fetch (α : Type)
  | panic
  /-- The call returned `-1`. -/
  | fail
  | ok (a : α)
deriving DecidableEq

variable {α : Type}

/-- `fetcharg`; the missing `default` of the `switch` is `panic("failed fetch")`. -/
def fetcharg (p : Proc) : ℕ → Option (BitVec 64)
  | 0 => some p.tf.rdi
  | 1 => some p.tf.rsi
  | 2 => some p.tf.rdx
  | 3 => some p.tf.r10
  | 4 => some p.tf.r8
  | 5 => some p.tf.r9
  | _ => none

/-- The loop of `fetchstr`: the first NUL among the `n` bytes from address `s` on. -/
def findNul (mem : ℕ → BitVec 8) (s : ℕ) : ℕ → Option ℕ
  | 0 => none
  | n + 1 => if mem s = 0 then some s else findNul mem (s + 1) n

/-- `fetchstr`: the length of the string, as the `int` that is returned, and the pointer. -/
def fetchstr (p : Proc) (addr : BitVec 64) : Fetch (BitVec 32 × BitVec 64) :=
  if addr.toNat < PGSIZE ∨ p.sz ≤ addr then .fail
  else
    match findNul p.mem addr.toNat (p.sz.toNat - addr.toNat) with
    | some s => .ok (BitVec.ofNat 32 (s - addr.toNat), addr)
    | none => .fail

/-- `argint`: the register is cut down to an `int`. -/
def argint (p : Proc) (n : ℕ) : Fetch (BitVec 32) :=
  match fetcharg p n with
  | some i => .ok (i.setWidth 32)
  | none => .panic

/-- `argptr(n, &pp, size)`: the pointer stored in `pp` when the call returns 0. -/
def argptr (p : Proc) (n : ℕ) (size : BitVec 32) : Fetch (BitVec 64) :=
  match fetcharg p n with
  | none => .panic
  | some i =>
    if size.toInt < 0 ∨ p.sz ≤ (i.setWidth 32).setWidth 64 ∨
        p.sz < (i.setWidth 32 + size).setWidth 64 then .fail
    else .ok i

/-- `argstr(n, &pp)`: the `int` becomes an address by sign extension. -/
def argstr (p : Proc) (n : ℕ) : Fetch (BitVec 32 × BitVec 64) :=
  match argint p n with
  | .panic => .panic
  | .fail => .fail
  | .ok addr => fetchstr p (addr.signExtend 64)

/-! ## What the callers rely on -/

/-- All of `[ptr, ptr + size)` lies in the user range `[PGSIZE, sz)`. -/
def InUser (p : Proc) (ptr : BitVec 64) (size : ℕ) : Prop :=
  ∀ a, ptr.toNat ≤ a → a < ptr.toNat + size → PGSIZE ≤ a ∧ a < p.sz.toNat

/-- At `ptr` starts a string of `len` bytes that is ended by a NUL. -/
def StringAt (p : Proc) (ptr : BitVec 64) (len : ℕ) : Prop :=
  p.mem (ptr.toNat + len) = 0 ∧ ∀ k < len, p.mem (ptr.toNat + k) ≠ 0

/-- A successful `argptr` gives a pointer to a block of the caller's memory. -/
def PtrChecked (p : Proc) (n : ℕ) (size : BitVec 32) : Prop :=
  ∀ ptr, argptr p n size = .ok ptr → InUser p ptr size.toNat

/-- A successful `fetchstr` gives the pointer it was given, to a string that lies with its NUL
in the caller's memory. The callers take a negative return value for a failure. -/
def StrFetched (p : Proc) (addr : BitVec 64) : Prop :=
  ∀ ret ptr, fetchstr p addr = .ok (ret, ptr) → 0 ≤ ret.toInt →
    ptr = addr ∧ ∃ len, StringAt p ptr len ∧ InUser p ptr (len + 1)

/-- A successful `argstr` gives the caller's register, and a string in its memory. -/
def StrChecked (p : Proc) (n : ℕ) (reg : BitVec 64) : Prop :=
  ∀ ret ptr, argstr p n = .ok (ret, ptr) → 0 ≤ ret.toInt →
    ptr = reg ∧ ∃ len, StringAt p ptr len ∧ InUser p ptr (len + 1)

/-! ## When it holds -/

/-- The register and size for which `argptr` is right: it refuses them, there is nothing to
access, or the whole register passes the test that is made on its low half, the lower bound
included. -/
def PtrFits (p : Proc) (reg : BitVec 64) (size : BitVec 32) : Prop :=
  size.toInt ≤ 0 ∨ p.sz.toNat ≤ reg.toNat % 2 ^ 32 ∨
    p.sz.toNat < (reg.toNat + size.toNat) % 2 ^ 32 ∨
    PGSIZE ≤ reg.toNat ∧ reg.toNat + size.toNat ≤ p.sz.toNat

/-- The registers for which `argstr` is right: the register is the sign extension of its low
half, or no string with a length that is positive as an `int` starts in the user range at that
extension. -/
def StrFits (p : Proc) (reg : BitVec 64) : Prop :=
  (reg.setWidth 32).signExtend 64 = reg ∨
    ∀ len, PGSIZE ≤ ((reg.setWidth 32).signExtend 64).toNat →
      ((reg.setWidth 32).signExtend 64).toNat + len < p.sz.toNat →
      StringAt p ((reg.setWidth 32).signExtend 64) len → 2 ^ 31 ≤ len % 2 ^ 32

/-! ## Strings -/

/-- The first NUL below the bound. -/
lemma findNul_eq_some {mem : ℕ → BitVec 8} {s n e : ℕ} :
    findNul mem s n = some e ↔ s ≤ e ∧ e < s + n ∧ mem e = 0 ∧ ∀ k, s ≤ k → k < e → mem k ≠ 0 := by
  induction n generalizing s with
  | zero =>
    simp only [findNul, reduceCtorEq, false_iff]
    intro h
    omega
  | succ n ih =>
    rw [findNul]
    split
    · next hz =>
      rw [Option.some.injEq]
      constructor
      · rintro rfl
        exact ⟨Nat.le_refl _, by omega, hz, fun k h1 h2 => absurd h2 (by omega)⟩
      · rintro ⟨hse, -, -, hno⟩
        by_contra hne
        exact hno s (Nat.le_refl _) (by omega) hz
    · next hz =>
      rw [ih]
      constructor
      · rintro ⟨h1, h2, h3, h4⟩
        refine ⟨by omega, by omega, h3, fun k hk1 hk2 => ?_⟩
        by_cases hks : k = s
        · rw [hks]; exact hz
        · exact h4 k (by omega) hk2
      · rintro ⟨h1, h2, h3, h4⟩
        have hne : s ≠ e := by
          rintro rfl
          exact hz h3
        exact ⟨by omega, by omega, h3, fun k hk1 hk2 => h4 k (by omega) hk2⟩

/-- `fetchstr` succeeds where a whole string is in the process. -/
lemma fetchstr_eq_ok {p : Proc} {addr ptr : BitVec 64} {ret : BitVec 32} :
    fetchstr p addr = .ok (ret, ptr) ↔ ptr = addr ∧ PGSIZE ≤ addr.toNat ∧
      ∃ len, StringAt p addr len ∧ addr.toNat + len < p.sz.toNat ∧ ret = BitVec.ofNat 32 len := by
  unfold fetchstr
  by_cases hout : addr.toNat < PGSIZE ∨ p.sz ≤ addr
  · rw [if_pos hout]
    simp only [reduceCtorEq, false_iff]
    rintro ⟨-, hlo, len, -, hlen, -⟩
    rcases hout with hout | hout
    · omega
    · have hle := BitVec.le_def.mp hout
      omega
  · rw [if_neg hout]
    have hlo : PGSIZE ≤ addr.toNat := by omega
    have hhi : addr.toNat < p.sz.toNat := by
      have : ¬ p.sz ≤ addr := fun h => hout (.inr h)
      rwa [BitVec.not_le, BitVec.lt_def] at this
    cases hfind : findNul p.mem addr.toNat (p.sz.toNat - addr.toNat) with
    | none =>
      simp only [reduceCtorEq, false_iff]
      rintro ⟨-, -, len, ⟨hnul, hno⟩, hlen, -⟩
      have hsome : findNul p.mem addr.toNat (p.sz.toNat - addr.toNat) = some (addr.toNat + len) := by
        rw [findNul_eq_some]
        refine ⟨by omega, by omega, hnul, fun k h1 h2 => ?_⟩
        have := hno (k - addr.toNat) (by omega)
        rwa [Nat.add_sub_cancel' h1] at this
      rw [hfind] at hsome
      cases hsome
    | some e =>
      obtain ⟨h1, h2, hnul, hno⟩ := findNul_eq_some.mp hfind
      simp only [Fetch.ok.injEq, Prod.mk.injEq]
      constructor
      · rintro ⟨hret, rfl⟩
        refine ⟨rfl, hlo, e - addr.toNat, ⟨?_, ?_⟩, by omega, hret.symm⟩
        · rwa [Nat.add_sub_cancel' h1]
        · exact fun k hk => hno _ (by omega) (by omega)
      · rintro ⟨rfl, -, len, ⟨hnul', hno'⟩, hlen, rfl⟩
        -- both are the first NUL
        have heq : e - ptr.toNat = len := by
          rcases Nat.lt_trichotomy (e - ptr.toNat) len with hlt | heq | hgt
          · have := hno' _ hlt
            rw [Nat.add_sub_cancel' h1] at this
            exact absurd hnul this
          · exact heq
          · exact absurd hnul' (hno _ (by omega) (by omega))
        exact ⟨by rw [heq], rfl⟩

/-- A string and its NUL lie in the user range when the first byte is not below it and the NUL
is below its end. -/
theorem inUser_string {p : Proc} {ptr : BitVec 64} {len : ℕ} (hlo : PGSIZE ≤ ptr.toNat)
    (hhi : ptr.toNat + len < p.sz.toNat) : InUser p ptr (len + 1) :=
  fun a h1 h2 => ⟨by omega, by omega⟩

/-- `fetchstr` itself is right for every address. -/
lemma strFetched (p : Proc) (addr : BitVec 64) : StrFetched p addr := by
  intro ret ptr h _
  obtain ⟨rfl, hlo, len, hstr, hlen, -⟩ := fetchstr_eq_ok.mp h
  exact ⟨rfl, len, hstr, inUser_string hlo hlen⟩

/-- Whether the `int` that `fetchstr` returns counts as a success. -/
theorem toInt_ofNat_nonneg (len : ℕ) :
    0 ≤ (BitVec.ofNat 32 len).toInt ↔ len % 2 ^ 32 < 2 ^ 31 := by
  rw [BitVec.toInt_eq_toNat_cond, BitVec.toNat_ofNat]
  have hlt : len % 2 ^ 32 < 2 ^ 32 := Nat.mod_lt _ (by decide)
  split <;> omega

variable {p : Proc} {n : ℕ} {reg : BitVec 64}

lemma strChecked_iff (hreg : fetcharg p n = some reg) : StrChecked p n reg ↔ StrFits p reg := by
  have harg : argstr p n = fetchstr p ((reg.setWidth 32).signExtend 64) := by
    rw [argstr, argint, hreg]
  constructor
  · intro h
    by_cases heq : (reg.setWidth 32).signExtend 64 = reg
    · exact .inl heq
    · refine .inr fun len hlo hlen hstr => ?_
      by_contra hpos
      -- the call succeeds with the extension, which is not the register
      have hok := fetchstr_eq_ok.mpr ⟨rfl, hlo, len, hstr, hlen, rfl⟩
      refine heq (h _ _ (harg.trans hok) ?_).1
      rw [toInt_ofNat_nonneg]
      omega
  · intro h ret ptr hok hret
    rw [harg] at hok
    obtain ⟨rfl, hlo, len, hstr, hlen, rfl⟩ := fetchstr_eq_ok.mp hok
    refine ⟨?_, len, hstr, inUser_string hlo hlen⟩
    rcases h with heq | hnone
    · exact heq
    · have hbig := hnone len hlo hlen hstr
      rw [toInt_ofNat_nonneg] at hret
      omega

/-! ## Blocks of memory -/

/-- `argptr` succeeds by the low half of the pointer. -/
lemma argptr_eq_ok (hreg : fetcharg p n = some reg) {size : BitVec 32} {ptr : BitVec 64} :
    argptr p n size = .ok ptr ↔ ptr = reg ∧ 0 ≤ size.toInt ∧
      reg.toNat % 2 ^ 32 < p.sz.toNat ∧ (reg.toNat + size.toNat) % 2 ^ 32 ≤ p.sz.toNat := by
  have hlow : ((reg.setWidth 32).setWidth 64).toNat = reg.toNat % 2 ^ 32 := by
    simp only [BitVec.toNat_setWidth]
    omega
  have hsum : ((reg.setWidth 32 + size).setWidth 64).toNat
      = (reg.toNat + size.toNat) % 2 ^ 32 := by
    simp only [BitVec.toNat_setWidth, BitVec.toNat_add]
    omega
  unfold argptr
  rw [hreg]
  simp only [BitVec.le_def, BitVec.lt_def, hlow, hsum]
  split
  · next hbad =>
    simp only [reduceCtorEq, false_iff]
    rintro ⟨-, h1, h2, h3⟩
    omega
  · next hgood =>
    rw [Fetch.ok.injEq]
    constructor
    · rintro rfl
      exact ⟨rfl, by omega, by omega, by omega⟩
    · rintro ⟨rfl, -⟩
      rfl

/-- A nonempty range lies in the user range when its two ends do. -/
theorem inUser_iff {ptr : BitVec 64} {size : ℕ} (hsize : 0 < size) :
    InUser p ptr size ↔ PGSIZE ≤ ptr.toNat ∧ ptr.toNat + size ≤ p.sz.toNat := by
  constructor
  · intro h
    have hfirst := h ptr.toNat (Nat.le_refl _) (by omega)
    have hlast := h (ptr.toNat + size - 1) (by omega) (by omega)
    omega
  · intro h a h1 h2
    omega

lemma ptrChecked_iff (hreg : fetcharg p n = some reg) (size : BitVec 32) :
    PtrChecked p n size ↔ PtrFits p reg size := by
  have hsign : 0 ≤ size.toInt → size.toInt = size.toNat := by
    rw [BitVec.toInt_eq_toNat_cond]
    have := size.isLt
    split <;> omega
  constructor
  · intro h
    by_cases hpos : 0 < size.toInt
    · by_cases hacc : reg.toNat % 2 ^ 32 < p.sz.toNat ∧
          (reg.toNat + size.toNat) % 2 ^ 32 ≤ p.sz.toNat
      · have hok := h reg ((argptr_eq_ok hreg).mpr ⟨rfl, by omega, hacc⟩)
        have hnat := hsign (by omega)
        rw [inUser_iff (by omega)] at hok
        exact .inr (.inr (.inr hok))
      · unfold PtrFits
        omega
    · exact .inl (by omega)
  · intro h ptr hok
    obtain ⟨rfl, hnn, hlo, hhi⟩ := (argptr_eq_ok hreg).mp hok
    have hnat := hsign hnn
    rcases h with h | h | h | h
    · intro a h1 h2
      omega
    · omega
    · omega
    · exact fun a h1 h2 => ⟨by omega, by omega⟩

/-- **Argument checking, exactly.** For every process, every register and every size: the
pointers that `argptr`, `argstr` and `fetchstr` hand out on success are the caller's, and what
the kernel accesses through them lies in the caller's memory, if and only if the register and
the size meet `PtrFits` and `StrFits`. -/
theorem argptr_argstr_iff (hreg : fetcharg p n = some reg) (size : BitVec 32) :
    (PtrChecked p n size ∧ StrChecked p n reg ∧ ∀ addr, StrFetched p addr) ↔
      PtrFits p reg size ∧ StrFits p reg := by
  rw [ptrChecked_iff hreg size, strChecked_iff hreg]
  exact ⟨fun h => ⟨h.1, h.2.1⟩, fun h => ⟨h.1, h.2, strFetched p⟩⟩

/-- A process of four pages whose memory is all zero, and whose first argument is `reg`. -/
def demoProc (reg : BitVec 64) : Proc :=
  ⟨0x4000, ⟨reg, 0, 0, 0, 0, 0⟩, fun _ => 0⟩

/-- A register that points into the second page, with 16 bytes to access. -/
theorem argptr_argstr_demo :
    PtrChecked (demoProc 0x2000) 0 16 ∧ StrChecked (demoProc 0x2000) 0 0x2000 := by
  have hfits : PtrFits (demoProc 0x2000) 0x2000 16 ∧ StrFits (demoProc 0x2000) 0x2000 :=
    ⟨.inr (.inr (.inr (by decide))), .inl (by decide)⟩
  have h := (argptr_argstr_iff (p := demoProc 0x2000) (n := 0) rfl 16).mpr hfits
  exact ⟨h.1, h.2.1⟩

/-- A register whose low half is a user address passes the test although it points into the
kernel's half of the address space. -/
theorem argptr_kernel_pointer :
    ∃ ptr, argptr (demoProc 0xFFFF800000002000) 0 16 = .ok ptr ∧
      ¬ InUser (demoProc 0xFFFF800000002000) ptr (16#32).toNat := by
  refine ⟨0xFFFF800000002000, by decide, fun h => ?_⟩
  have := (h 0xFFFF800000002000 (by decide) (by decide)).2
  exact absurd this (by decide)

end Syscall
end OhMyXv6
