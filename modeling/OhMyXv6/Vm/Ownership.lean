import OhMyXv6.Vm.Address

/-!
# Each page is in one place

`places` lists what is on the free list and what is in use, so a page that is counted once in it is either
free or is one page of one page table, one kernel stack, one pipe or one page that the kernel keeps.
-/

namespace OhMyXv6
namespace Vm

open Radix Fallible

variable {K : Kernel} {r f : ℕ} {s s₀ : Sys} {p : Slot} {acts : List Act} {k : ℕ → Pte} {weak : Prop}

/-- All that pages are used for. -/
def places (K : Kernel) (s : Sys) : Multiset ℕ := (s.mem.freelist : Multiset ℕ) + s.used K

/-- The page table that `exec` has at hand. -/
def Pc.root : Pc → Option ℕ
  | .exec d _ => some d
  | .args d _ => some d
  | .free d => some d
  | _ => none

/-- A page table of a process, or one that it makes or frees in `exec`. -/
def HasRoot (P : Proc) (r : ℕ) : Prop :=
  ((P.status = .live ∨ P.status = .zombie) ∧ P.pgdir = some r) ∨ P.pc.root = some r

/-- A call that builds a page table holds that tree. -/
lemma pcPages_of_root {m : Mem} {pc : Pc} (h : pc.root = some r) : pc.pages m = Tree m r := by
  cases pc with
  | user => cases h
  | fork np => cases h
  | exec d sz =>
    obtain rfl := Option.some.inj h
    simp only [Pc.pages]
  | args d sz =>
    obtain rfl := Option.some.inj h
    simp only [Pc.pages]
  | free d =>
    obtain rfl := Option.some.inj h
    simp only [Pc.pages]

/-- The pages of a page table are some of those in use, and none of those that the kernel keeps. -/
theorem Inv.owns_root (h : Inv K k weak s) (hr : HasRoot (s.proc p) r) :
    ∃ F, Owns K s.mem (Tree s.mem r + F) ∧ K.kpdpt ∈ F := by
  have hown := h.owns
  rw [used_eq p] at hown
  obtain ⟨hst, hr⟩ | hr := hr
  · rw [pages_of_space hst, hr] at hown
    simp only [optTree, Option.elim_some] at hown
    rw [add_assoc, add_left_comm, add_assoc] at hown
    refine ⟨_, hown, ?_⟩
    exact Multiset.mem_add.mpr (.inr (Multiset.mem_add.mpr (.inr Inv.kpdpt_mem_rest)))
  · have hlive : (s.proc p).status = .live := by
      by_contra hne
      rw [(h.good p).idle hne] at hr
      cases hr
    rw [pages_of_space (.inl hlive), pcPages_of_root hr, add_assoc] at hown
    exact ⟨_, hown, Multiset.mem_add.mpr (.inr Inv.kpdpt_mem_rest)⟩

/-- **Page ownership.** In every state that the machine reaches, every page of the allocator is in one
place; `freevm` would put the pages of any page table back on the free list, each once; and the kernel half
of all page tables is the one that there was at the start. -/
theorem page_in_one_place (hs : Started K s₀) (hrun : Runs.run (machine K) s₀ acts = some s) :
    (∀ f, K.first ≤ f → f < topFrame → (places K s).count f = 1) ∧
    (∀ p r, HasRoot (s.proc p) r → ∃ m', (freevm K (some r)).run s.mem = .ok ((), m') ∧
      (m'.freelist : Multiset ℕ) = s.mem.freelist + Tree s.mem r ∧
      m'.table K.kpdpt = s.mem.table K.kpdpt) ∧
    (∀ p r, (s.proc p).status = .live ∨ (s.proc p).status = .zombie → (s.proc p).pgdir = some r →
      s.mem.table r 256 = ⟨K.kpdpt, true, true, false⟩) ∧
    s.mem.table K.kpdpt = s₀.mem.table K.kpdpt := by
  have hinv := machine_run hs hrun
  refine ⟨?_, ?_, ?_, hinv.kernel⟩
  · intro f hfirst htop
    have hall : places K s = allPages K := hinv.owns
    rw [hall]
    exact Multiset.count_eq_one_of_mem (Finset.Ico K.first topFrame).nodup (Finset.mem_Ico.mpr ⟨hfirst, htop⟩)
  · intro p r hr
    obtain ⟨F, hown, hk⟩ := hinv.owns_root hr
    obtain ⟨_, m', hfree, hfreed⟩ := (freevm_ends hown).returns fun _ he => he
    exact ⟨m', hfree, hfreed.free, hfreed.frame _ hk⟩
  · intro p r hst hr
    obtain ⟨r', hr', -, hhalf, -⟩ := (hinv.good p).space hst
    rw [hr] at hr'
    obtain rfl := Option.some.inj hr'
    exact hhalf

/-- The first process forks, and waits for the child to exit. -/
def waitActs : List Act := [.call initproc PGSIZE .fork, .go initproc .copy, .exit ⟨1, one_lt_NPROC⟩,
  .call initproc PGSIZE .wait]

/-- A child that exits and is waited for: still one place for every page. -/
theorem page_in_one_place_waitActs : ∃ s, Runs.run (machine smallKernel) smallSys waitActs = some s ∧
    ∀ f, 57328 ≤ f → f < topFrame → (places smallKernel s).count f = 1 := by
  have hsome : (Runs.run (machine smallKernel) smallSys waitActs).isSome := by
    decide +kernel
  obtain ⟨s, hrun⟩ := Option.isSome_iff_exists.mp hsome
  exact ⟨s, hrun, (page_in_one_place started_smallSys hrun).1⟩

end Vm
end OhMyXv6
