import OhMyXv6.Vm.Address
import OhMyXv6.Vm.Loading

/-!
# The arguments of a program

`exec` lowers the stack pointer by the length of each argument. While a string still fits into the page of
the stack, `copyout` puts it there. The first one that does not begins under that page: `copyout` meets the
page that is not accessible and returns -1, unless the string is longer than the stack pointer is high. Then
the address wraps around to the half of the kernel, where `walkpgdir` returns no entry, and `uva2ka` reads
it nevertheless.
-/

namespace OhMyXv6
namespace Vm

open Fallible

variable {K : Kernel} {m m₀ : Mem} {d v sz old oldsz : ℕ} {F : Multiset ℕ} {file : List UInt8}
  {argv : List (List UInt8)} {s : Loader}

-- `KERNBASE` is not to be counted down to when two programs are compared
attribute [local irreducible] allocuvm

/-! ## `copyout` -/

/-- A copy to the page of the stack. -/
def OnStack (d sz : ℕ) (c : Stored) : Prop :=
  c.pgdir = d ∧ sz - PGSIZE ≤ c.va ∧ c.va + c.bytes.length ≤ sz ∧ c.Mapped

/-- The boundary of a page, as a product. -/
lemma pgrounddown_eq {va : ℕ} : PGROUNDDOWN va = va / PGSIZE * PGSIZE := rfl

/-- `uva2ka` reads the entry for the page, which has to be somewhere. -/
theorem uva2ka_ends {va : ℕ} : Ends (fun _ => find s.mem d (tables (va / PGSIZE)) = none)
    (uva2ka d (PGROUNDDOWN va)) (fun o t => t = s ∧ ∃ t, find s.mem d (tables (va / PGSIZE)) = some t ∧
      o = if (s.mem.table t (va / PGSIZE % 512)).p ∧ (s.mem.table t (va / PGSIZE % 512)).u then
        some (s.mem.table t (va / PGSIZE % 512)).frame else none) s := by
  unfold uva2ka
  rw [pgrounddown_eq, ends_bind]
  apply onMem_returns walkpgdir_false_ends
  rintro o m' ⟨rfl, rfl⟩
  cases ht : find s.mem d (tables (va / PGSIZE)) with
  | none => exact rfl
  | some t =>
    simp only [Option.map_some]
    rw [ends_bind, ends_get]
    simp only
    by_cases hp : (s.mem.table t (va / PGSIZE % 512)).p
    · by_cases hu : (s.mem.table t (va / PGSIZE % 512)).u
      · simp [hp, hu]
      · simp [hp, hu]
    · simp [hp]

/-- What is copied within the page of the stack. -/
lemma copyout_stack {va : ℕ} {buf : List UInt8} (hflag : Flagged s.mem d v true true) (hbuf : buf ≠ [])
    (hva : va / PGSIZE = v) (hlen : va + buf.length ≤ (v + 1) * PGSIZE) :
    Ends (fun _ => False) (copyout d va buf) (fun b t => b = true ∧ t.mem = s.mem ∧ t.loads = s.loads ∧
      ∃ f, find s.mem d (path v) = some f ∧ t.args = s.args ++ [⟨d, va, f, buf, s.mem⟩] ∧
        OnStack d ((v + 1) * PGSIZE) ⟨d, va, f, buf, s.mem⟩) s := by
  obtain ⟨t, f, ht, hf⟩ := hflag
  have hfind : find s.mem d (path v) = some f := by
    rw [path_eq, find_concat ht, child, hf]
    rfl
  rw [copyout, dif_neg hbuf, ends_bind]
  apply uva2ka_ends.mono
  · intro _ hnone
    rw [hva, ht] at hnone
    cases hnone
  rintro o _ ⟨rfl, t', ht', rfl⟩
  rw [hva, ht] at ht'
  obtain rfl := Option.some.inj ht'
  rw [hva, hf, if_pos ⟨rfl, rfl⟩]
  have hn : min (PGSIZE - (va - PGROUNDDOWN va)) buf.length = buf.length := by
    rw [pgrounddown_eq, hva]
    unfold PGSIZE at hva hlen ⊢
    omega
  simp only [hn, List.take_length, List.drop_length]
  rw [ends_bind, put, ends_modify, copyout, dif_pos rfl, ends_pure]
  refine ⟨rfl, rfl, rfl, f, hfind, rfl, rfl, ?_, hlen, ?_⟩
  · unfold PGSIZE at hva ⊢
    simp only
    omega
  · unfold Stored.Mapped
    simp only [hva]
    exact hfind

/-- Copying stops at the latest at a page that is not accessible. -/
theorem copyout_guard {va g t : ℕ} {buf : List UInt8} (htables : ∀ u ≤ g, (find s.mem d (tables u)).isSome)
    (hg : find s.mem d (tables g) = some t) (hu : (s.mem.table t (g % 512)).u = false) (hva : va / PGSIZE ≤ g)
    (hlen : g * PGSIZE < va + buf.length) (hbuf : buf ≠ []) (hsmall : g < 2 ^ 51) :
    Ends (fun _ => False) (copyout d va buf) (fun b t => b = false ∧ t.mem = s.mem ∧ t.loads = s.loads) s := by
  induction hn : buf.length using Nat.strong_induction_on generalizing va buf s with
  | _ n ih =>
  rw [copyout, dif_neg hbuf, ends_bind]
  apply uva2ka_ends.mono
  · intro _ hnone
    have := htables _ hva
    rw [hnone] at this
    cases this
  rintro o s' ⟨hs, t', ht', rfl⟩
  rw [hs]
  split
  · exact ⟨rfl, rfl, rfl⟩
  · next pa0 hpa =>
    -- the page is not the one that is not accessible, so it is before it
    have hne : va / PGSIZE ≠ g := by
      rintro rfl
      rw [hg] at ht'
      obtain rfl := Option.some.inj ht'
      rw [hu] at hpa
      simp at hpa
    have hlt : va / PGSIZE < g := lt_of_le_of_ne hva hne
    have hnlen : min (PGSIZE - (va - PGROUNDDOWN va)) buf.length = PGSIZE - (va - va / PGSIZE * PGSIZE) := by
      rw [pgrounddown_eq]
      unfold PGSIZE at hlt hlen ⊢
      omega
    have hnext : (PGROUNDDOWN va + PGSIZE) % 2 ^ 64 = (va / PGSIZE + 1) * PGSIZE := by
      rw [pgrounddown_eq]
      unfold PGSIZE at hlt ⊢
      omega
    simp only [hnlen, hnext]
    rw [ends_bind, put, ends_modify]
    have hlen' := @length_drop_lt va buf hbuf
    rw [hnlen, hn] at hlen'
    have hrest : (buf.drop (PGSIZE - (va - va / PGSIZE * PGSIZE))).length
        = buf.length - (PGSIZE - (va - va / PGSIZE * PGSIZE)) := List.length_drop
    refine ih _ hlen' (s := { s with args := _ }) htables hg hu ?_ ?_ ?_ rfl
    · rw [Nat.mul_div_cancel _ (by decide)]
      omega
    · rw [hrest]
      unfold PGSIZE at hlt hlen ⊢
      omega
    · rw [← List.length_pos_iff, hrest]
      unfold PGSIZE at hlt hlen ⊢
      omega

/-- Where there is no page table, `uva2ka` reads through a null pointer. -/
theorem copyout_null {va : ℕ} {buf : List UInt8} (hbuf : buf ≠ [])
    (hnone : find s.mem d (tables (va / PGSIZE)) = none) :
    Ends (fun _ => True) (copyout d va buf) (fun _ _ => False) s := by
  rw [copyout, dif_neg hbuf, ends_bind]
  apply uva2ka_ends.mono fun _ _ => trivial
  rintro o _ ⟨-, t, ht, -⟩
  rw [hnone] at ht
  cases ht

/-! ## The stack pointer -/

lemma lower_of_le {sp n : ℕ} (h : n ≤ sp) (hsp : sp < 2 ^ 64) : lower sp n = sp - n := by
  unfold lower
  omega

lemma lower_of_lt {sp n : ℕ} (h : sp < n) (hn : n < 2 ^ 64) : lower sp n = 2 ^ 64 - (n - sp) := by
  unfold lower
  omega

/-- The strings go below each other as long as they fit into the page of the stack; the first one that does
not is not longer than the stack pointer is high. -/
def Pushable (sz : ℕ) : ℕ → List (List UInt8) → Prop
  | _, [] => True
  | sp, arg :: argv => arg.length + 1 ≤ sp ∧
      (sz - PGSIZE ≤ stringAt sp arg.length → Pushable sz (stringAt sp arg.length) argv)

instance (sz sp : ℕ) (argv : List (List UInt8)) : Decidable (Pushable sz sp argv) := by
  induction argv generalizing sp with
  | nil => exact isTrue trivial
  | cons arg argv ih =>
    have := ih (stringAt sp arg.length)
    unfold Pushable
    infer_instance

/-- The stack pointer below the strings, if all of them fit into the page of the stack. -/
def belowStrings (sz : ℕ) : ℕ → List (List UInt8) → Option ℕ
  | sp, [] => some sp
  | sp, arg :: argv =>
    if sz - PGSIZE ≤ stringAt sp arg.length then belowStrings sz (stringAt sp arg.length) argv else none

/-- The memory of the program is `sz` bytes, with the page of the stack as the last one and a page under it
that is not accessible. -/
structure Stacked (m : Mem) (d sz v : ℕ) : Prop where
  size : sz = (v + 2) * PGSIZE
  small : sz < 2 ^ 28
  stack : Flagged m d (v + 1) true true
  found : ∀ u ≤ v + 1, (find m d (tables u)).isSome
  guard : ∃ t, find m d (tables v) = some t ∧ (m.table t (v % 512)).u = false
  /-- There is nothing at the end of the address space. -/
  top : child m d 511 = none

/-- The last page of an image with a guard page is its stack. -/
lemma Laid.stacked (h : Laid K m₀ m d sz F) (hg : Guarded m d sz) : ∃ v, Stacked m d sz v := by
  obtain ⟨v, hsz, hstack, hguard⟩ := hg
  have hpages : pages sz = v + 2 := by
    rw [hsz]
    unfold pages PGSIZE
    omega
  refine ⟨v, hsz, h.space.size_lt h.owns, hstack, fun u hu => ?_, hguard, ?_⟩
  · have huser := h.pages_le_userPages
    have hpos : ∀ w, 1 ≤ w → w ≤ v + 1 → (find m d (tables w)).isSome := by
      intro w hw hwv
      have hsome := (h.space.found w (by omega)).mpr ⟨hw, by omega⟩
      obtain ⟨t, ht, -⟩ := find_tables (Option.isSome_iff_exists.mp hsome).choose_spec
      rw [ht]
      rfl
    obtain rfl | hu0 := Nat.eq_zero_or_pos u
    · exact hpos 1 le_rfl (by omega)
    · exact hpos u hu0 hu
  · unfold child
    rw [h.top 511 (by decide) (by decide)]
    rfl

lemma Stacked.congr (h : Stacked m d sz v) {m' : Mem} (hm : m' = m) : Stacked m' d sz v := hm ▸ h

/-- Behind the end of the address space, from below. -/
lemma Stacked.find_none (h : Stacked m d sz v) {va : ℕ} (hva : 2 ^ 64 - 2 ^ 28 ≤ va) (hlt : va < 2 ^ 64) :
    find m d (tables (va / PGSIZE)) = none := by
  have hfirst : va / PGSIZE / 2 ^ 27 % 512 = 511 := by
    unfold PGSIZE
    omega
  unfold find tables
  rw [Radix.reach_cons, hfirst, h.top]
  rfl

/-- A string or an array that begins in the page of the stack. -/
lemma Stacked.copyout_high (h : Stacked s.mem d sz v) {va : ℕ} {buf : List UInt8} (hbuf : buf ≠ [])
    (hva : sz - PGSIZE ≤ va) (hlen : va + buf.length ≤ sz) :
    Ends (fun _ => False) (copyout d va buf) (fun b t => b = true ∧ t.mem = s.mem ∧ t.loads = s.loads ∧
      ∃ f, find s.mem d (path (v + 1)) = some f ∧ t.args = s.args ++ [⟨d, va, f, buf, s.mem⟩] ∧
        OnStack d sz ⟨d, va, f, buf, s.mem⟩) s := by
  have hpos := List.length_pos_iff.mpr hbuf
  have hsize := h.size
  have hpage : va / PGSIZE = v + 1 := by
    unfold PGSIZE at hva hsize ⊢
    omega
  rw [hsize] at hlen ⊢
  exact copyout_stack h.stack hbuf hpage hlen

/-- One that begins under it. -/
lemma Stacked.copyout_low (h : Stacked s.mem d sz v) {va : ℕ} {buf : List UInt8} (hbuf : buf ≠ [])
    (hva : va < sz - PGSIZE) (hlen : sz - 2 * PGSIZE < va + buf.length) :
    Ends (fun _ => False) (copyout d va buf) (fun b t => b = false ∧ t.mem = s.mem ∧ t.loads = s.loads) s := by
  have hsize := h.size
  have hsmall := h.small
  obtain ⟨t, ht, hu⟩ := h.guard
  refine copyout_guard (fun u hu => h.found u (by omega)) ht hu ?_ ?_ hbuf ?_
  · unfold PGSIZE at hva hsize ⊢
    omega
  · unfold PGSIZE at hlen hsize ⊢
    omega
  · unfold PGSIZE at hsize
    omega

/-- The copies of the strings in the page `f` of the stack, which has the bytes `b` under them, each of them
below the one before it. -/
inductive Pushes (b : ℕ → UInt8) (f sz : ℕ) : ℕ → List (List UInt8) → List ℕ → List Stored → ℕ → Prop where
  | nil (sp : ℕ) : Pushes b f sz sp [] [] [] sp
  | cons {sp sp' : ℕ} {arg : List UInt8} {argv : List (List UInt8)} {ustack : List ℕ} {c : Stored}
    {cs : List Stored} (hframe : c.frame = f) (hmem : c.mem.data f = b) (hbytes : c.bytes = arg ++ [0])
    (hva : 8 ∣ c.va) (hlow : sz - PGSIZE ≤ c.va) (hsp : c.va + c.bytes.length ≤ sp)
    (h : Pushes b f sz c.va argv ustack cs sp') :
    Pushes b f sz sp (arg :: argv) (c.va :: ustack) (c :: cs) sp'

/-- **The loop over the arguments**: it stops the system if and only if the arguments are not pushable, and
what it copies it copies to the stack. -/
theorem pushArgs_ends {sp argc f : ℕ} (h : Stacked s.mem d sz v)
    (hf : find s.mem d (path (v + 1)) = some f) (hlow : sz - PGSIZE ≤ sp) (hsp : sp ≤ sz)
    (hcount : argc + argv.length ≤ MAXARG) (hargs : ∀ arg ∈ argv, arg.length < 2 ^ 28)
    (hstack : ∀ c ∈ s.args, OnStack d sz c) :
    Ends (fun _ => ¬ Pushable sz sp argv) (pushArgs d argc sp argv) (fun o t => Pushable sz sp argv ∧
      t.mem = s.mem ∧ t.loads = s.loads ∧ o.map Prod.fst = belowStrings sz sp argv ∧
      ∀ sp' ustack, o = some (sp', ustack) → sz - PGSIZE ≤ sp' ∧ sp' ≤ sz ∧
        ustack.length = argv.length ∧ (∀ c ∈ t.args, OnStack d sz c) ∧
        ∃ cs, t.args = s.args ++ cs ∧ Pushes (s.mem.data f) f sz sp argv ustack cs sp') s := by
  induction argv generalizing argc sp s with
  | nil =>
    rw [pushArgs, ends_pure]
    refine ⟨trivial, rfl, rfl, rfl, fun sp' ustack ho => ?_⟩
    obtain ⟨rfl, rfl⟩ := Prod.mk.inj (Option.some.inj ho)
    exact ⟨hlow, hsp, rfl, hstack, [], (List.append_nil _).symm, .nil sp⟩
  | cons arg argv ih =>
    have hsize := h.size
    have hsmall := h.small
    have harg := hargs arg List.mem_cons_self
    have hbuf : arg ++ [0] ≠ [] := by simp
    have hlen : (arg ++ [0]).length = arg.length + 1 := by simp
    rw [List.length_cons] at hcount
    rw [pushArgs, Pushable, if_neg (by omega), ends_bind]
    by_cases hfit : arg.length + 1 ≤ sp
    · have hat : stringAt sp arg.length = (sp - (arg.length + 1)) / 8 * 8 := by
        unfold stringAt
        rw [lower_of_le hfit (by omega)]
      by_cases hpage : sz - PGSIZE ≤ stringAt sp arg.length
      · -- the string goes to the stack
        apply (h.copyout_high hbuf hpage (by rw [hlen, hat]; omega)).mono fun _ he => he.elim
        rintro b t ⟨rfl, hmem, hloads, f', hf', hc, hon⟩
        obtain rfl := Option.some.inj (hf.symm.trans hf')
        rw [if_pos rfl, ends_bind]
        apply (ih (h.congr hmem) (hmem ▸ hf) hpage (by rw [hat]; omega) (by omega)
          (fun a ha => hargs a (List.mem_cons_of_mem _ ha)) (by
            intro c' hc'
            rw [hc] at hc'
            obtain hc' | hc' := List.mem_append.mp hc'
            · exact hstack c' hc'
            · obtain rfl := List.mem_singleton.mp hc'
              exact hon)).mono
        · exact fun _ hnot hall => hnot (hall.2 hpage)
        rintro o u ⟨hpush, hmem', hloads', hbelow, ho⟩
        rw [belowStrings, if_pos hpage, ← hbelow]
        have hall : arg.length + 1 ≤ sp ∧
            (sz - PGSIZE ≤ stringAt sp arg.length → Pushable sz (stringAt sp arg.length) argv) :=
          ⟨hfit, fun _ => hpush⟩
        cases o with
        | none => exact ⟨hall, hmem'.trans hmem, hloads'.trans hloads, rfl, fun _ _ h => by cases h⟩
        | some r =>
          obtain ⟨sp', ustack⟩ := r
          obtain ⟨hlow', hle', hlen', hon', cs, hcs, hpushes⟩ := ho sp' ustack rfl
          refine ⟨hall, hmem'.trans hmem, hloads'.trans hloads, rfl, fun sp'' ustack' h => ?_⟩
          obtain ⟨rfl, rfl⟩ := Prod.mk.inj (Option.some.inj h)
          have hfits : stringAt sp arg.length + (arg ++ [0]).length ≤ sp := by
            rw [hlen, hat]
            omega
          have hpushed := Pushes.cons (c := ⟨d, stringAt sp arg.length, f, arg ++ [0], s.mem⟩) rfl rfl rfl
            (Nat.dvd_mul_left 8 _) hpage hfits (hmem ▸ hpushes)
          refine ⟨hlow', hle', by rw [List.length_cons, List.length_cons, hlen'], hon', _, ?_, hpushed⟩
          rw [hcs, hc, List.append_assoc]
          rfl
      · -- it begins under the stack
        apply (h.copyout_low hbuf (by omega) (by
          rw [hlen, hat]
          unfold PGSIZE at hlow hsize ⊢
          omega)).mono fun _ he => he.elim
        rintro b t ⟨rfl, hmem, hloads⟩
        rw [if_neg Bool.false_ne_true, ends_pure, belowStrings, if_neg hpage]
        exact ⟨⟨hfit, fun hp => (hpage hp).elim⟩, hmem, hloads, rfl, fun _ _ h => by cases h⟩
    · -- the address wraps around
      have hat : stringAt sp arg.length = (2 ^ 64 - (arg.length + 1 - sp)) / 8 * 8 := by
        unfold stringAt
        rw [lower_of_lt (by omega) (by omega)]
      have hnone : find s.mem d (tables (stringAt sp arg.length / PGSIZE)) = none := by
        apply h.find_none
        · rw [hat]
          omega
        · rw [hat]
          omega
      apply (copyout_null hbuf hnone).mono
      · exact fun _ _ hall => hfit hall.1
      · exact fun _ _ h => h.elim

/-! ## All of `exec` -/

lemma length_addrBytes {a : List ℕ} : (addrBytes a).length = 8 * a.length := by
  unfold addrBytes
  induction a with
  | nil => rfl
  | cons v a ih =>
    rw [List.flatMap_cons, List.length_append, ih, List.length_map, List.length_range, List.length_cons]
    ring

/-- What was loaded is all that counts. -/
lemma stray_congr {t : Loader} (h : t.loads = s.loads) : t.Stray ↔ s.Stray := by
  unfold Loader.Stray
  rw [h]

/-- The page `v + 1` of the program, which is the page of the stack, is at `f` and has the strings, with the
stack pointer at `sp` behind them, and the vector below. -/
structure Filled (t : Loader) (img : Committed) (argv : List (List UInt8)) (v f sp : ℕ) (ustack : List ℕ)
    (cs : List Stored) (c : Stored) : Prop where
  size : img.sz = (v + 2) * PGSIZE
  found : find t.mem img.pgdir (path (v + 1)) = some f
  flags : Flagged t.mem img.pgdir (v + 1) true true
  strings : Pushes (t.mem.data f) f img.sz img.sz argv ustack cs sp
  args : t.args = cs ++ [c]
  frame : c.frame = f
  mem : c.mem.data f = t.mem.data f
  va : c.va = img.rsp
  bytes : c.bytes = addrBytes (0xffffffffffffffff :: ustack ++ [0])
  rdi : img.rdi = argv.length
  rsi : img.rsi = img.rsp + 8
  rsp : img.rsp + (argv.length + 2) * 8 = sp
  low : img.sz - PGSIZE ≤ img.rsp

/-- How `exec` ends: what it has copied on success. -/
structure Pushed (s : Loader) (argv : List (List UInt8)) (o : Option Committed) (t : Loader) : Prop where
  loads : t.loads = s.loads
  args : ∀ img, o = some img → ∀ c ∈ t.args, OnStack img.pgdir img.sz c
  stack : ∀ img, o = some img → ∃ v f sp ustack cs c, Filled t img argv v f sp ustack cs c

/-- `exec` with the new stack: the arguments are on it, or there was no room for them. -/
lemma pushOrBad_ends {entry : ℕ} (h : Laid K m₀ s.mem d sz (Tree m₀ old + F)) (hguard : Guarded s.mem d sz)
    (hcount : argv.length < MAXARG) (hargs : ∀ arg ∈ argv, arg.length < 2 ^ 28) (hempty : s.args = []) :
    Ends (fun _ => ¬ Pushable sz sz argv) (pushOrBad K old entry d sz argv)
      (fun o t => Pushable sz sz argv ∧ Pushed s argv o t) s := by
  obtain ⟨v, hstacked⟩ := h.stacked hguard
  obtain ⟨tstack, f, htstack, hfstack⟩ := hstacked.stack
  have hf : find s.mem d (path (v + 1)) = some f := by
    rw [path_eq, find_concat htstack, child, hfstack]
    rfl
  have hsize := hstacked.size
  have hsmall := hstacked.small
  -- both failures free the new table
  have hnone : ∀ t : Loader, t.mem = s.mem → t.loads = s.loads → Pushable sz sz argv →
      Ends (fun _ => ¬ Pushable sz sz argv) (do onMem (freevm K (some d)); return none)
        (fun o t => Pushable sz sz argv ∧ Pushed s argv o t) t := by
    intro t hmem hloads hpush
    rw [ends_bind]
    apply onMem_returns (freevm_ends (hmem ▸ h.owns))
    intro _ _ _
    refine ⟨hpush, hloads, ?_, ?_⟩
    all_goals
      intro img hnone
      cases hnone
  unfold pushOrBad
  rw [ends_bind]
  apply (pushArgs_ends hstacked hf (Nat.sub_le _ _) le_rfl (by omega) hargs (by rw [hempty]; simp)).mono
    fun _ he => he
  rintro o t ⟨hpush, hmem, hloads, -, ho⟩
  cases o with
  | none => exact hnone t hmem hloads hpush
  | some r =>
    obtain ⟨sp, ustack⟩ := r
    obtain ⟨hlow, hle, hlen, hon, cs, hcs, hpushes⟩ := ho sp ustack rfl
    have hcount' : argv.length < 32 := hcount
    have hroom : (1 + argv.length + 1) * 8 ≤ sp := by
      unfold PGSIZE at hlow hsize
      omega
    have hat : lower sp ((1 + argv.length + 1) * 8) = sp - (1 + argv.length + 1) * 8 :=
      lower_of_le hroom (by omega)
    -- the last block: the return address, the pointers and a zero
    obtain ⟨buf, hbuf⟩ : ∃ buf, buf = addrBytes (0xffffffffffffffff :: ustack ++ [0]) := ⟨_, rfl⟩
    have hbuflen : buf.length = (1 + argv.length + 1) * 8 := by
      rw [hbuf, length_addrBytes]
      simp only [List.cons_append, List.length_cons, List.length_append, List.length_nil, hlen]
      ring
    have hne : buf ≠ [] := by
      rw [← List.length_pos_iff, hbuflen]
      omega
    simp only [hat, ← hbuf]
    rw [ends_bind]
    -- it fits into the stack page, or it reaches the guard page below
    by_cases hpage : sz - PGSIZE ≤ sp - (1 + argv.length + 1) * 8
    · apply ((hstacked.congr hmem).copyout_high hne hpage (by rw [hbuflen]; omega)).mono fun _ he => he.elim
      rintro b u ⟨rfl, hmem', hloads', f', hf', hc, honc⟩
      rw [hmem, hf] at hf'
      obtain rfl := Option.some.inj hf'
      rw [if_pos rfl, ends_bind]
      have hold : ∀ g ∈ Tree m₀ old, u.mem.table g = m₀.table g := by
        intro g hg
        rw [hmem', hmem]
        exact h.frame g (Multiset.mem_add.mpr (.inl hg))
      have hown : Owns K u.mem (Tree u.mem old + (Tree u.mem d + F)) := by
        rw [tree_congr hold, hmem', hmem, add_left_comm]
        exact h.owns
      apply onMem_returns (freevm_ends hown)
      intro _ m' hfreed
      rw [ends_pure]
      -- freeing the old table changes nothing in the new one
      have hkept : ∀ g ∈ Tree s.mem d, m'.table g = s.mem.table g := by
        intro g hg
        rw [hfreed.frame g (Multiset.mem_add.mpr (.inl (by rwa [hmem', hmem]))), hmem', hmem]
      have huser : v + 1 < userPages := by
        have := h.pages_le_userPages
        rw [hsize] at this
        unfold pages PGSIZE at this
        omega
      have hpath := fits_path huser
      have hdata : m'.data f = s.mem.data f := by
        rw [hfreed.data f (Multiset.mem_add.mpr (.inl (by
          rw [hmem', hmem]
          exact find_mem_tree hpath hf))), hmem', hmem]
      refine ⟨hpush, hloads'.trans hloads, ?_, ?_⟩
      · rintro img himg c' hc'
        obtain rfl := Option.some.inj himg
        simp only [hc] at hc'
        obtain hc' | hc' := List.mem_append.mp hc'
        · exact hon c' hc'
        · obtain rfl := List.mem_singleton.mp hc'
          exact honc
      · intro img himg
        obtain rfl := Option.some.inj himg
        refine ⟨v, f, sp, ustack, cs, ⟨d, sp - (1 + argv.length + 1) * 8, f, buf, t.mem⟩, hsize, ?_, ?_,
          ?_, ?_, rfl, ?_, rfl, hbuf, rfl, ?_, ?_, hpage⟩
        · exact (find_congr hpath hkept).trans hf
        · rw [path_eq] at hpath
          refine ⟨tstack, f, (find_congr hpath.of_append hkept).trans htstack, ?_⟩
          rw [hkept tstack (find_mem_tree hpath.of_append htstack)]
          exact hfstack
        · simp only [hdata]
          exact hpushes
        · rw [hc, hcs, hempty, List.nil_append]
        · simp only [hdata, hmem]
        · simp only
          rw [lower_of_le (by omega) (by omega)]
          omega
        · simp only
          omega
    · apply ((hstacked.congr hmem).copyout_low hne (by omega) (by
        rw [hbuflen]
        unfold PGSIZE at hlow hsize ⊢
        omega)).mono fun _ he => he.elim
      rintro b u ⟨rfl, hmem', hloads'⟩
      rw [if_neg Bool.false_ne_true]
      exact hnone u (hmem'.trans hmem) (hloads'.trans hloads) hpush

/-- `exec` returns, and what it has loaded went to pages that were mapped for it. -/
def Survives (K : Kernel) (m : Mem) (old : ℕ) (file : List UInt8) (argv : List (List UInt8)) : Prop :=
  ∃ o t, (exec K old file argv).run m.loader = .ok (o, t) ∧ ¬ t.Stray

/-- `exec` returns, and if it succeeds, what it has copied of the arguments went to the stack. -/
def CopesWith (K : Kernel) (m : Mem) (old : ℕ) (file : List UInt8) (argv : List (List UInt8)) : Prop :=
  ∃ o t, (exec K old file argv).run m.loader = .ok (o, t) ∧
    ∀ img, o = some img → ∀ c ∈ t.args, OnStack img.pgdir img.sz c

/-- The whole of `exec`, for each file and all arguments. -/
lemma exec_ends (hown : Owns K m (Tree m old + F)) (hcount : argv.length < MAXARG)
    (hargs : ∀ arg ∈ argv, arg.length < 2 ^ 28) :
    Ends (fun _ => ¬ (Loadable file m.freelist.length ∧ ∀ sz, imageSize file = some sz → Pushable sz sz argv))
      (exec K old file argv) (fun _ t => Loadable file m.freelist.length ∧
        (∀ sz, imageSize file = some sz → Pushable sz sz argv) ∧ (t.Stray ↔ LoadsLow file)) m.loader := by
  unfold exec
  rw [ends_bind]
  apply (execImage_ends hown).mono fun _ hnot hall => hnot hall.1
  rintro o t ⟨hload, hprep⟩
  cases o with
  | none =>
    refine ⟨hload, fun sz hsz => ?_, hprep.stray⟩
    rw [← hprep.size] at hsz
    cases hsz
  | some image =>
    obtain ⟨entry, d, sz⟩ := image
    obtain ⟨hlaid, hguard⟩ := hprep.some entry d sz rfl
    have hpush : (∀ sz', imageSize file = some sz' → Pushable sz' sz' argv) ↔ Pushable sz sz argv := by
      rw [← hprep.size]
      exact ⟨fun h => h sz rfl, fun h _ he => Option.some.inj he ▸ h⟩
    apply (pushOrBad_ends hlaid hguard hcount hargs hprep.args).mono
    · exact fun _ hnot hall => hnot (hpush.mp hall.2)
    rintro o u ⟨hok, hloads, -⟩
    exact ⟨hload, hpush.mpr hok, (stray_congr hloads).trans hprep.stray⟩

/-- `exec` ends without a panic exactly on these conditions. -/
lemma survives_iff (hown : Owns K m (Tree m old + F)) (hcount : argv.length < MAXARG)
    (hargs : ∀ arg ∈ argv, arg.length < 2 ^ 28) : Survives K m old file argv ↔
      Loadable file m.freelist.length ∧ ¬ LoadsLow file ∧
        ∀ sz, imageSize file = some sz → Pushable sz sz argv := by
  have hends : Ends _ (exec K old file argv) _ m.loader := exec_ends hown hcount hargs
  constructor
  · rintro ⟨o, t, hrun, hstray⟩
    obtain ⟨hload, hpush, hlow⟩ := hends.of_ok hrun
    exact ⟨hload, fun h => hstray (hlow.mpr h), hpush⟩
  · rintro ⟨hload, hlow, hpush⟩
    obtain ⟨o, t, hrun, -, -, hstray⟩ := hends.returns fun _ hnot => hnot ⟨hload, hpush⟩
    exact ⟨o, t, hrun, fun h => hlow (hstray.mp h)⟩

/-- The arguments are copied exactly if there is room for them. -/
lemma copesWith_iff {entry : ℕ} (hown : Owns K m (Tree m old + F)) (hcount : argv.length < MAXARG)
    (hargs : ∀ arg ∈ argv, arg.length < 2 ^ 28)
    (himage : (execImage K file).run m.loader = .ok (some (entry, d, sz), s)) :
    CopesWith K m old file argv ↔ Pushable sz sz argv := by
  obtain ⟨-, hprep⟩ := (execImage_ends hown).of_ok himage
  obtain ⟨hlaid, hguard⟩ := hprep.some entry d sz rfl
  have hends : Ends _ (pushOrBad K old entry d sz argv) _ s :=
    pushOrBad_ends hlaid hguard hcount hargs hprep.args
  have hrun : (exec K old file argv).run m.loader = (pushOrBad K old entry d sz argv).run s := by
    unfold exec
    rw [StateT.run_bind, himage]
    rfl
  constructor
  · rintro ⟨o, t, ho, -⟩
    rw [hrun] at ho
    exact (hends.of_ok ho).1
  · intro hpush
    obtain ⟨o, t, ho, -, -, hon⟩ := hends.returns fun _ hnot => hnot hpush
    rw [← hrun] at ho
    exact ⟨o, t, ho, hon⟩

variable {s₀ s' : Sys} {p : Slot} {acts : List Act}

/-- What `exec` finds when a process calls it. -/
lemma caller (hs : Started K s₀) (hrun : Runs.run (machine K) s₀ acts = some s')
    (hlive : (s'.proc p).status = .live) (huser : (s'.proc p).pc = .user) {rip : ℕ}
    (hfetch : fetches s' p rip) (hold : (s'.proc p).pgdir = some old) :
    ∃ F, Owns K s'.mem (Tree s'.mem old + F) ∧ (s'.proc p).sz < 2 ^ 28 := by
  have hinv := machine_run hs hrun
  obtain ⟨r, hruns⟩ := hinv.runs hlive fun _ => hinv.hasSpace_of_fetches (.inl hlive) hfetch
  have hr := hruns.pgdir
  rw [hold] at hr
  obtain rfl := Option.some.inj hr
  have hown := hruns.owns
  rw [huser] at hown
  simp only [Pc.pages, zero_add] at hown
  exact ⟨_, hown, hruns.space.size_lt hown⟩

/-! ## Two programs, and a system to run them on -/

/-- `n` as a field of a header. -/
def field (w n : ℕ) : List UInt8 := (List.range w).map (Bytes.leByte n)

/-- The header of a program with `phnum` segments. -/
def elfBytes (phnum : ℕ) : List UInt8 :=
  field 4 ELF_MAGIC ++ field 20 0 ++ field 8 PGSIZE ++ field 8 Elfhdr.size ++ field 16 0 ++ field 2 phnum ++
    field 6 0

/-- The header of a segment that is at the start of the file. -/
def segmentBytes (vaddr filesz memsz : ℕ) : List UInt8 :=
  field 8 ELF_PROG_LOAD ++ field 8 0 ++ field 8 vaddr ++ field 8 vaddr ++ field 8 filesz ++ field 8 memsz ++
    field 8 PGSIZE

/-- What a program returns. -/
def resultX {α : Type} (x : X α) (s : Loader) : Option α :=
  match x.run s with
  | .ok (a, _) => some a
  | .error _ => none

/-- How it stops the system. -/
def errorOf {α : Type} (x : X α) (s : Loader) : Option Fault :=
  match x.run s with
  | .ok _ => none
  | .error e => some e

/-- A result that was computed is what the function returns. -/
lemma run_of_resultX {α : Type} {x : X α} {a : α} (h : resultX x s = some a) : ∃ t, x.run s = .ok (a, t) := by
  unfold resultX at h
  cases hx : x.run s with
  | ok r =>
    rw [hx] at h
    obtain ⟨b, t⟩ := r
    obtain rfl := Option.some.inj h
    exact ⟨t, rfl⟩
  | error e =>
    rw [hx] at h
    cases h

/-- A program with one segment for its first page, of 20 bytes from the file and 4 that are 0. -/
def oneSegment : List UInt8 := elfBytes 1 ++ segmentBytes PGSIZE 20 24

/-- Three arguments of different lengths. -/
def threeArgs : List (List UInt8) := [[97, 98], [], [99, 100, 101, 102, 103]]

/-- The first process asks for 100 bytes. -/
def sbrkActs : List Act := [.call initproc PGSIZE (.sbrk 100)]

/-- Seven pages are left. -/
lemma run_sbrkActs : ∃ s, Runs.run (machine smallKernel) smallSys sbrkActs = some s ∧
    (s.proc initproc).status = .live ∧ (s.proc initproc).pc = .user ∧ (s.proc initproc).pgdir = some 57340 ∧
    (s.proc initproc).sz = 8292 ∧ fetches s initproc PGSIZE := by
  have hrun : (Runs.run (machine smallKernel) smallSys sbrkActs).map (fun s =>
      ((s.proc initproc).status, (s.proc initproc).pc, (s.proc initproc).pgdir, (s.proc initproc).sz,
        decide (fetches s initproc PGSIZE)))
      = some (.live, .user, some 57340, 8292, true) := by
    decide +kernel
  obtain ⟨s, hs, hvals⟩ := Option.map_eq_some_iff.mp hrun
  simp only [Prod.mk.injEq, decide_eq_true_eq] at hvals
  exact ⟨s, hs, hvals⟩

/-- `fetchstr` takes them from a process with 8292 bytes. -/
lemma threeArgs_fit : ∀ arg ∈ threeArgs, PGSIZE + arg.length < 8292 := by
  decide

/-- The first process asks for 4200 bytes. -/
def grownActs : List Act := [.call initproc PGSIZE (.sbrk 4200)]

/-- Six pages are left, and a program without segments can be loaded to them: its memory is the first page,
which is not there, and the stack. -/
theorem run_grownActs : ∃ s t, Runs.run (machine smallKernel) smallSys grownActs = some s ∧
    (s.proc initproc).status = .live ∧ (s.proc initproc).pc = .user ∧ (s.proc initproc).pgdir = some 57340 ∧
    (s.proc initproc).sz = 12392 ∧ fetches s initproc PGSIZE ∧
    (execImage smallKernel (elfBytes 0)).run s.mem.loader = .ok (some (PGSIZE, 57333, 12288), t) := by
  have hrun : (Runs.run (machine smallKernel) smallSys grownActs).map (fun s =>
      ((s.proc initproc).status, (s.proc initproc).pc, (s.proc initproc).pgdir, (s.proc initproc).sz,
        decide (fetches s initproc PGSIZE)))
      = some (.live, .user, some 57340, 12392, true) := by
    decide +kernel
  obtain ⟨s, hs, hvals⟩ := Option.map_eq_some_iff.mp hrun
  simp only [Prod.mk.injEq, decide_eq_true_eq] at hvals
  obtain ⟨hlive, huser, hold, hsz, hfetch⟩ := hvals
  have himage : (Runs.run (machine smallKernel) smallSys grownActs).bind (fun s =>
      resultX (execImage smallKernel (elfBytes 0)) s.mem.loader) = some (some (PGSIZE, 57333, 12288)) := by
    decide +kernel
  rw [hs, Option.bind_some] at himage
  obtain ⟨t, ht⟩ := run_of_resultX himage
  exact ⟨s, t, hs, hlive, huser, hold, hsz, hfetch, ht⟩

/-! ## Results -/

/-- A string that `fetchstr` takes begins behind the first page and ends below the size of the process. -/
theorem length_lt_of_fetched {argv : List (List UInt8)} {size : ℕ}
    (hargs : ∀ arg ∈ argv, PGSIZE + arg.length < size) (hsize : size < 2 ^ 28) :
    ∀ arg ∈ argv, arg.length < 2 ^ 28 := by
  intro arg harg
  have hfits := hargs arg harg
  omega

/-- **`exec` survives a file if and only if** the pages that it asks for are there, none of its segments is
for the first page, and the arguments do not wrap around; in every state that the machine reaches and for
every process that can make a call there. -/
theorem exec_survives_iff (rip : ℕ) (file : List UInt8) (hs : Started K s₀)
    (hrun : Runs.run (machine K) s₀ acts = some s') (hlive : (s'.proc p).status = .live)
    (huser : (s'.proc p).pc = .user) (hfetch : fetches s' p rip) (hold : (s'.proc p).pgdir = some old)
    (hcount : argv.length < MAXARG) (hargs : ∀ arg ∈ argv, PGSIZE + arg.length < (s'.proc p).sz) :
    Survives K s'.mem old file argv ↔ Loadable file s'.mem.freelist.length ∧ ¬ LoadsLow file ∧
      ∀ sz, imageSize file = some sz → Pushable sz sz argv := by
  obtain ⟨F, hown, hsz⟩ := caller hs hrun hlive huser hfetch hold
  exact survives_iff hown hcount (length_lt_of_fetched hargs hsz)

/-- A program with a segment, and three arguments. -/
theorem exec_survives_sbrkActs : ∃ s, Runs.run (machine smallKernel) smallSys sbrkActs = some s ∧
    (Survives smallKernel s.mem 57340 oneSegment threeArgs ↔
      Loadable oneSegment s.mem.freelist.length ∧ ¬ LoadsLow oneSegment ∧
        ∀ sz, imageSize oneSegment = some sz → Pushable sz sz threeArgs) := by
  obtain ⟨s, hrun, hlive, huser, hold, hsz, hfetch⟩ := run_sbrkActs
  exact ⟨s, hrun, exec_survives_iff PGSIZE oneSegment started_smallSys hrun hlive huser hfetch hold
    (by decide) (hsz ▸ threeArgs_fit)⟩

/-- A program with a segment of 16 bytes at address 0 stops the system. -/
theorem not_survives_low : Started smallKernel smallSys ∧ fetches smallSys initproc PGSIZE ∧
    errorOf (exec smallKernel 57340 (elfBytes 1 ++ segmentBytes 0 16 16) []) smallSys.mem.loader
      = some (.panic .loaduvmAddress) ∧
    ¬ Survives smallKernel smallSys.mem 57340 (elfBytes 1 ++ segmentBytes 0 16 16) [] := by
  have herror : errorOf (exec smallKernel 57340 (elfBytes 1 ++ segmentBytes 0 16 16) []) smallSys.mem.loader
      = some (.panic .loaduvmAddress) := by
    decide +kernel
  refine ⟨started_smallSys, by decide +kernel, herror, ?_⟩
  rintro ⟨o, t, hrun, -⟩
  unfold errorOf at herror
  rw [hrun] at herror
  cases herror

/-- **The arguments are copied to the stack, or `exec` returns -1, if and only if** the first string that
does not fit into the page of the stack is not longer than the stack pointer is high. -/
theorem exec_copes_iff {entry : ℕ} (rip : ℕ) (hs : Started K s₀) (hrun : Runs.run (machine K) s₀ acts = some s')
    (hlive : (s'.proc p).status = .live) (huser : (s'.proc p).pc = .user) (hfetch : fetches s' p rip)
    (hold : (s'.proc p).pgdir = some old) (hcount : argv.length < MAXARG)
    (hargs : ∀ arg ∈ argv, PGSIZE + arg.length < (s'.proc p).sz)
    (himage : (execImage K file).run s'.mem.loader = .ok (some (entry, d, sz), s)) :
    CopesWith K s'.mem old file argv ↔ Pushable sz sz argv := by
  obtain ⟨F, hown, hsz⟩ := caller hs hrun hlive huser hfetch hold
  exact copesWith_iff hown hcount (length_lt_of_fetched hargs hsz) himage

/-- Three arguments for a larger process. -/
theorem exec_copes_grownActs : ∃ s, Runs.run (machine smallKernel) smallSys grownActs = some s ∧
    (CopesWith smallKernel s.mem 57340 (elfBytes 0) threeArgs ↔ Pushable 12288 12288 threeArgs) := by
  obtain ⟨s, t, hrun, hlive, huser, hold, hsz, hfetch, himage⟩ := run_grownActs
  refine ⟨s, hrun, exec_copes_iff PGSIZE started_smallSys hrun hlive huser hfetch hold (by decide)
    (fun arg harg => ?_) himage⟩
  have hfits := threeArgs_fit arg harg
  omega

/-- A string that fits into the page of the stack, and a second one that is longer than the rest of the
memory of the program. -/
def longArgs : List (List UInt8) := [List.replicate 4095 97, List.replicate 8192 97]

/-- `fetchstr` takes both from a process with 12392 bytes, where they may overlap. -/
theorem longArgs_fit : ∀ arg ∈ longArgs, PGSIZE + arg.length < 12392 := by
  intro arg harg
  rcases List.mem_pair.mp harg with rfl | rfl
  · rw [List.length_replicate]
    decide
  · rw [List.length_replicate]
    decide

/-- The stack pointer is at 8192 after the first string, and wraps around with the second. -/
theorem not_copes_long : ∃ s t, Runs.run (machine smallKernel) smallSys grownActs = some s ∧
    (∀ arg ∈ longArgs, PGSIZE + arg.length < (s.proc initproc).sz) ∧
    (execImage smallKernel (elfBytes 0)).run s.mem.loader = .ok (some (PGSIZE, 57333, 12288), t) ∧
    ¬ CopesWith smallKernel s.mem 57340 (elfBytes 0) longArgs := by
  obtain ⟨s, t, hrun, hlive, huser, hold, hsz, hfetch, himage⟩ := run_grownActs
  obtain ⟨F, hown, hsmall⟩ := caller started_smallSys hrun hlive huser hfetch hold
  have hfit : ∀ arg ∈ longArgs, PGSIZE + arg.length < (s.proc initproc).sz := hsz ▸ longArgs_fit
  refine ⟨s, t, hrun, hfit, himage, ?_⟩
  rw [copesWith_iff hown (by decide) (length_lt_of_fetched hfit hsmall) himage]
  rintro ⟨-, hnext⟩
  have hat : stringAt 12288 (List.replicate 4095 (97 : UInt8)).length = 8192 := by
    rw [List.length_replicate]
    decide
  obtain ⟨hle, -⟩ := hnext (by rw [hat]; decide)
  rw [hat, List.length_replicate] at hle
  omega

end Vm
end OhMyXv6
