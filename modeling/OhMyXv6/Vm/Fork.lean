import OhMyXv6.Vm.Arguments

/-!
# The memory of a child

`fork` gives the child a page table of its own, in which the pages of the parent stand with the flags that they
have there. What they hold has been copied to pages that were free.
-/

namespace OhMyXv6
namespace Vm

open Radix Fallible

variable {K : Kernel} {m m' : Mem} {r d sz u v f : ℕ} {F : Multiset ℕ} {e : Pte}

/-- In `m'`, the page table `d` is a copy of `r` of size `sz`, and shares no page with it. -/
structure Forked (m m' : Mem) (r d sz : ℕ) : Prop where
  cloned : ∀ v, 1 ≤ v → v < pages sz → Cloned m m' r d v
  /-- Nothing else is mapped in the user half. -/
  found : ∀ v < userPages, (find m' d (path v)).isSome ↔ 1 ≤ v ∧ v < pages sz
  distinct : ∀ u < userPages, ∀ v < userPages, ∀ f,
    find m' d (path u) = some f → find m' d (path v) = some f → u = v
  own : ∀ v < userPages, ∀ f, find m' d (path v) = some f → f ∉ Tree m r
  parent : ∀ g ∈ Tree m r, m'.table g = m.table g ∧ m'.data g = m.data g

/-- A page is found at one place of a page table only. -/
lemma Owns.find_inj (hown : Owns K m (Tree m r + F)) (hu : u < userPages) (hv : v < userPages)
    (hfu : find m r (path u) = some f) (hfv : find m r (path v) = some f) : u = v := by
  have hnodup := hown.nodup_left
  unfold Tree at hnodup
  exact path_inj hu hv (reach_inj hnodup (fits_path hu) (fits_path hv) hfu hfv)

/-- What `copyuvm` leaves is what the claim says of parent and child. -/
lemma Copied.forked (h : Copied K m m' r d sz F) (hown : Owns K m (Tree m r + F)) :
    Forked m m' r d sz := by
  refine ⟨h.cloned, h.space.found, fun u hu v hv f hfu hfv => h.owns.find_inj hu hv hfu hfv,
    fun v hv f hf hmem => ?_, fun g hg => ⟨?_, ?_⟩⟩
  · -- what the child owns is not the parent's
    have hchild : f ∈ Tree m' d := find_mem_tree (fits_path hv) hf
    exact h.owns.disjoint hchild (Multiset.mem_add.mpr (.inl hmem))
  · exact h.frame g (Multiset.mem_add.mpr (.inl hg))
  · exact h.adds.data (hown.not_mem_free (Multiset.mem_add.mpr (.inl hg)))

/-- **`copyuvm` makes a copy of its own**, of every page table that has the pages of `[PGSIZE, sz)`. -/
theorem copyuvm_forked (hown : Owns K m (Tree m r + F)) (hsz : sz < 2 ^ 32)
    (hpresent : ∀ va, PGSIZE ≤ va → va < sz → Present m r va) :
    Ends (fun _ => True) (copyuvm K r sz) (fun o m' => ∀ d, o = some d → Forked m m' r d sz) m := by
  have hpages : ∀ v, 1 ≤ v → v < pages sz → (find m r (path v)).isSome := by
    intro v hv hvp
    have hva : v * PGSIZE < sz := by
      unfold pages PGSIZE at hvp
      unfold PGSIZE
      omega
    have hfound := hpresent (v * PGSIZE) (Nat.le_mul_of_pos_left _ hv) hva
    unfold Present at hfound
    rwa [path_div, Nat.mul_div_cancel _ (by decide)] at hfound
  refine (copyuvm_present hown hsz hpages).mono (fun _ _ => trivial) ?_
  rintro o m' ⟨d, rfl, hcopied⟩ d' hd
  obtain rfl := Option.some.inj hd
  exact hcopied.forked hown

/-! ## A process with a program, a guard page and a stack -/

/-- A machine with 24 pages, two of which the kernel keeps. -/
def roomyKernel : Kernel := ⟨57320, by decide, 57342, [57343, 57342], smallKernel.kpdpt_mem⟩

/-- Nothing was taken yet. -/
def roomyMem : Mem := ⟨(List.range 22).map (57341 - ·), fun _ _ => .zero, fun _ _ => 0⟩

/-- The system when `userinit` has returned. -/
def roomySys : Sys where
  mem := runMem (userinit roomyKernel 100) roomyMem
  proc := Function.update (fun _ => emptyProc) initproc
    ⟨.live, none, some 57341, some 57340, 2 * PGSIZE, .user⟩
  pipes := []

/-- This memory has all its pages. -/
lemma owns_roomyMem : Owns roomyKernel roomyMem roomyKernel.kept := by
  unfold Owns allPages
  decide +kernel

lemma started_roomySys : Started roomyKernel roomySys := by
  refine ⟨⟨roomyMem, 100, 57341, 57340, owns_roomyMem, ?_, rfl⟩, rfl⟩
  exact run_of_result (by decide +kernel)

/-- The first process loads a program of one page. -/
def loadActs : List Act := [.call initproc PGSIZE .exec,
  .go initproc (.segment ⟨true, 4096, 20, 24⟩ fun _ => true), .go initproc .stack, .go initproc .commit,
  .go initproc .freeOld]

/-- Its pages are the program, the guard page and the stack. -/
lemma run_loadActs : ∃ s, Runs.run (machine roomyKernel) roomySys loadActs = some s ∧
    (s.proc initproc).status = .live ∧ (s.proc initproc).pc = .user ∧ (s.proc initproc).pgdir = some 57335 ∧
    fetches s initproc PGSIZE ∧ ([1, 2, 3].all fun v => (find s.mem 57335 (path v)).isSome) ∧
    (find s.mem 57335 (tables 2)).map (fun t => (s.mem.table t 2).u) = some false ∧
    result (copyuvm roomyKernel 57335 (4 * PGSIZE)) s.mem = some (some 57340) := by
  have hrun : (Runs.run (machine roomyKernel) roomySys loadActs).map (fun s =>
      ((s.proc initproc).status, (s.proc initproc).pc, (s.proc initproc).pgdir,
        decide (fetches s initproc PGSIZE)))
      = some (.live, .user, some 57335, true) := by
    decide +kernel
  obtain ⟨s, hs, hvals⟩ := Option.map_eq_some_iff.mp hrun
  simp only [Prod.mk.injEq, decide_eq_true_eq] at hvals
  obtain ⟨hlive, huser, hold, hfetch⟩ := hvals
  have hmem : (Runs.run (machine roomyKernel) roomySys loadActs).map (fun s =>
      ([1, 2, 3].all fun v => (find s.mem 57335 (path v)).isSome,
        (find s.mem 57335 (tables 2)).map fun t => (s.mem.table t 2).u,
        result (copyuvm roomyKernel 57335 (4 * PGSIZE)) s.mem))
      = some (true, some false, some (some 57340)) := by
    decide +kernel
  rw [hs, Option.map_some, Option.some.injEq] at hmem
  simp only [Prod.mk.injEq] at hmem
  exact ⟨s, hs, hlive, huser, hold, hfetch, hmem⟩

/-- The child of that process, whose guard page is not accessible either. -/
theorem copyuvm_forked_loadActs : ∃ s m', Runs.run (machine roomyKernel) roomySys loadActs = some s ∧
    (find s.mem 57335 (tables 2)).map (fun t => (s.mem.table t 2).u) = some false ∧
    (copyuvm roomyKernel 57335 (4 * PGSIZE)).run s.mem = .ok (some 57340, m') ∧
      Forked s.mem m' 57335 57340 (4 * PGSIZE) := by
  obtain ⟨s, hrun, hlive, huser, hold, hfetch, hfound, hguard, hcopy⟩ := run_loadActs
  obtain ⟨F, hown, -⟩ := caller started_roomySys hrun hlive huser hfetch hold
  have hpresent : ∀ va, PGSIZE ≤ va → va < 4 * PGSIZE → Present s.mem 57335 va := by
    intro va hlow hhigh
    unfold Present
    rw [path_div]
    unfold PGSIZE at hlow hhigh ⊢
    have hpage : va / 4096 = 1 ∨ va / 4096 = 2 ∨ va / 4096 = 3 := by omega
    exact List.all_eq_true.mp hfound _ (by simpa using hpage)
  have hcopied := run_of_result hcopy
  exact ⟨s, _, hrun, hguard, hcopied, (copyuvm_forked hown (by decide) hpresent).of_ok hcopied 57340 rfl⟩

end Vm
end OhMyXv6
