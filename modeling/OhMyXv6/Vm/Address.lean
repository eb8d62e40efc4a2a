import OhMyXv6.Vm.Reach

/-!
# The address space of a process

The user pages of a process are those of `[PGSIZE, PGROUNDUP(sz))`, whatever it does with `sbrk`, `fork`
and `exec`, as long as `sbrk` is not asked to shrink to a size of 0. There `deallocuvm` frees all pages
and returns the new size, which `growproc` takes for an error.
-/

namespace OhMyXv6
namespace Vm

open Radix Fallible

variable {K : Kernel} {m m' : Mem} {r va : ℕ} {s s₀ : Sys} {p : Slot} {acts : List Act}

/-- There is a page at a virtual address. -/
def Present (m : Mem) (r va : ℕ) : Prop := (find m r [PMX va, PDPX va, PDX va, PTX va]).isSome

instance : Decidable (Present m r va) := inferInstanceAs (Decidable (_ = true))

/-- The indices of an address are those of its page. -/
lemma path_div : [PMX va, PDPX va, PDX va, PTX va] = path (va / PGSIZE) := by
  unfold path PMX PDPX PDX PTX PGSIZE
  simp only [Nat.div_div_eq_div_mul]
  rfl

/-- The addresses with a page are those from the second page up to the size. -/
lemma Space.present {sz : ℕ} (h : Space m r sz) (hsz : sz < 2 ^ 28) (hva : va < 2 ^ 47) :
    Present m r va ↔ PGSIZE ≤ va ∧ va < PGROUNDUP sz := by
  unfold Present
  rw [path_div, h.found _ (by unfold userPages PGSIZE; omega), PGROUNDUP_eq (by unfold KERNBASE; omega)]
  unfold PGSIZE
  omega

/-- The panics that are left are those of a full memory. -/
lemma Outcome.fatal {R : Sys → Prop} {e : Panic} (h : Outcome R (.error e)) : Fatal e := by
  cases h with
  | error h => exact h

/-- **Address spaces are exact**, `growproc` changes nothing where it fails, and `copyuvm` finds all pages
that it looks for. -/
theorem address_space (hs : Started K s₀) (hok : Runs.Along (step K) (fun s a => ¬ AsksZero s a) s₀ acts)
    (hrun : Runs.run (step K) s₀ acts = some s) :
    (∀ p r, (s.proc p).status = .live ∨ (s.proc p).status = .zombie → (s.proc p).pgdir = some r →
      ∀ va < 2 ^ 47, Present s.mem r va ↔ PGSIZE ≤ va ∧ va < PGROUNDUP (s.proc p).sz) ∧
    (∀ p r rip n sz' m', (s.proc p).status = .live → (s.proc p).pc = .user → (s.proc p).pgdir = some r →
      ¬ AsksZero s (.call p rip (.sbrk n)) →
      (growproc K r (s.proc p).sz n).run s.mem = .ok ((false, sz'), m') →
      sz' = (s.proc p).sz ∧ m' = s.mem) ∧
    ∀ a, trans K s a ≠ some (.error .copyuvmNoPte) ∧ trans K s a ≠ some (.error .copyuvmNotPresent) := by
  have hinv := strong_run hs hok hrun
  refine ⟨?_, ?_, ?_⟩
  · intro p r hst hr va hva
    have hspace := hinv.hasSpace hst r hr
    have hown := hinv.owns
    rw [used_eq p, pages_of_space hst, hr] at hown
    simp only [optTree, Option.elim_some] at hown
    rw [add_assoc, add_left_comm, add_assoc] at hown
    exact hspace.present (hspace.size_lt hown) hva
  · intro p r rip n sz' m' hlive huser hr hzero hgrow
    obtain ⟨r', hruns⟩ := hinv.runs hlive fun _ => hinv.hasSpace (.inl hlive)
    have hown := hruns.owns
    have hr' := hruns.pgdir
    rw [hr] at hr'
    obtain rfl := Option.some.inj hr'
    rw [huser] at hown
    simp only [Pc.pages, zero_add] at hown
    obtain ⟨-, hres⟩ := (growproc_ends (n := n) hown hruns.space hruns.pos).of_ok hgrow
    -- `growproc` succeeds, fails without a trace, or was asked for size 0
    obtain ⟨hok, -⟩ | ⟨-, hsz, hm⟩ | ⟨-, -, hneg, hask, -⟩ := hres
    · cases hok
    · exact ⟨hsz, hm⟩
    · exact (hzero ⟨hneg, hask⟩).elim
  · intro a
    have hfatal : ∀ e, trans K s a = some (.error e) → Fatal e := by
      intro e he
      exact (trans_outcome (hinv.weaken True) (hinv.ready he) (fun _ => trivial) he).fatal
    constructor
    · intro he
      obtain h | h := hfatal _ he <;> cases h
    · intro he
      obtain h | h := hfatal _ he <;> cases h

/-! ## A small machine -/

/-- A machine with sixteen pages, two of which the kernel keeps. -/
def smallKernel : Kernel := ⟨57328, by decide, 57342, [57343, 57342], by decide⟩

/-- Nothing was taken yet. -/
def smallMem : Mem := ⟨[57341, 57340, 57339, 57338, 57337, 57336, 57335, 57334, 57333, 57332, 57331, 57330,
  57329, 57328], fun _ _ => .zero, fun _ _ => 0⟩

/-- What a program returns, and the memory that it leaves. -/
def result {α : Type} (x : V α) (m : Mem) : Option α :=
  match x.run m with
  | .ok (a, _) => some a
  | .error _ => none

/-- The memory when a function has returned. -/
def runMem {α : Type} (x : V α) (m : Mem) : Mem :=
  match x.run m with
  | .ok (_, m) => m
  | .error _ => m

/-- A result that was computed is what the function returns. -/
lemma run_of_result {α : Type} {x : V α} {a : α} (h : result x m = some a) :
    x.run m = .ok (a, runMem x m) := by
  unfold result at h
  unfold runMem
  cases hx : x.run m with
  | ok o =>
    rw [hx] at h
    obtain rfl := Option.some.inj h
    rfl
  | error e =>
    rw [hx] at h
    cases h

/-- The system when `userinit` has returned. -/
def smallSys : Sys where
  mem := runMem (userinit smallKernel 100) smallMem
  proc := Function.update (fun _ => emptyProc) initproc
    ⟨.live, none, some 57341, some 57340, 2 * PGSIZE, .user⟩
  pipes := []

/-- The small memory has all its pages. -/
lemma owns_smallMem : Owns smallKernel smallMem smallKernel.kept := by
  unfold Owns allPages
  decide +kernel

lemma started_smallSys : Started smallKernel smallSys := by
  refine ⟨⟨smallMem, 100, 57341, 57340, owns_smallMem, ?_, rfl⟩, rfl⟩
  exact run_of_result (by decide +kernel)

/-- The panic that a step ends in. -/
def panicOf : Option (Except Panic Sys) → Option Panic
  | some (.error e) => some e
  | _ => none

/-- A panic that was computed is how the step ends. -/
lemma eq_of_panicOf {o : Option (Except Panic Sys)} {e : Panic} (h : panicOf o = some e) :
    o = some (.error e) := by
  unfold panicOf at h
  split at h
  · next e' =>
    obtain rfl := Option.some.inj h
    rfl
  · cases h

/-- The first process grows, shrinks to less than a page, and forks. -/
def smallActs : List Act := [.call initproc PGSIZE (.sbrk 100), .call initproc PGSIZE (.sbrk (-4200)),
  .call initproc PGSIZE .fork, .go initproc .copy]

/-- The first process grows and shrinks. -/
theorem address_space_smallActs : ∃ s, Runs.run (step smallKernel) smallSys smallActs = some s ∧
    (s.proc initproc).sz = 4092 ∧ ∀ p r, (s.proc p).status = .live ∨ (s.proc p).status = .zombie →
      (s.proc p).pgdir = some r →
      ∀ va < 2 ^ 47, Present s.mem r va ↔ PGSIZE ≤ va ∧ va < PGROUNDUP (s.proc p).sz := by
  have hsz : (Runs.run (step smallKernel) smallSys smallActs).map (fun s => (s.proc initproc).sz)
      = some 4092 := by
    decide +kernel
  obtain ⟨s, hrun, hs⟩ := Option.map_eq_some_iff.mp hsz
  exact ⟨s, hrun, hs, (address_space started_smallSys (by decide +kernel) hrun).1⟩

/-- The first process asks for a size of 0: `growproc` returns -1 and leaves the size, but the page is
gone, and `fork` panics. -/
theorem not_address_space_shrink : Present smallSys.mem 57340 PGSIZE ∧
    result (growproc smallKernel 57340 (2 * PGSIZE) (-8192)) smallSys.mem = some (false, 2 * PGSIZE) ∧
    ∃ s t, Runs.run (step smallKernel) smallSys [.call initproc PGSIZE (.sbrk (-8192))] = some s ∧
      (s.proc initproc).sz = 2 * PGSIZE ∧ ¬ Present s.mem 57340 PGSIZE ∧
      step smallKernel s (.call initproc PGSIZE .fork) = some t ∧
      trans smallKernel t (.go initproc .copy) = some (.error .copyuvmNotPresent) := by
  refine ⟨by decide +kernel, by decide +kernel, ?_⟩
  have hview : (Runs.run (step smallKernel) smallSys [.call initproc PGSIZE (.sbrk (-8192))]).map
      (fun s => ((s.proc initproc).sz, decide (Present s.mem 57340 PGSIZE),
        (step smallKernel s (.call initproc PGSIZE .fork)).map fun t =>
          panicOf (trans smallKernel t (.go initproc .copy))))
      = some (2 * PGSIZE, false, some (some .copyuvmNotPresent)) := by
    decide +kernel
  obtain ⟨s, hrun, hs⟩ := Option.map_eq_some_iff.mp hview
  obtain ⟨hsz, hpresent, hfork⟩ : (s.proc initproc).sz = 2 * PGSIZE ∧
      decide (Present s.mem 57340 PGSIZE) = false ∧
      ((step smallKernel s (.call initproc PGSIZE .fork)).map fun t =>
          panicOf (trans smallKernel t (.go initproc .copy))) = some (some .copyuvmNotPresent) := by
    simpa only [Prod.mk.injEq] using hs
  obtain ⟨t, ht, hpanic⟩ := Option.map_eq_some_iff.mp hfork
  exact ⟨s, t, hrun, hsz, of_decide_eq_false hpresent, ht, eq_of_panicOf hpanic⟩

end Vm
end OhMyXv6
