import OhMyXv6.Vm.Copy
import OhMyXv6.Vm.System
import Mathlib.Data.Fintype.Basic

/-!
# Who has which page

`Sys.used` lists the pages that are in use: for each process its kernel stack, its page table and a page
table that `exec` is making or about to free, then the pipes and what the kernel keeps. The invariant says
that this and the free list are all pages, each once, and that the user pages of a process are those below
its size. With `weak` it allows for processes that have lost their memory: the size is still there but the
pages are not.
-/

namespace OhMyXv6
namespace Vm

open Radix Fallible

variable {K : Kernel} {m m' : Mem} {r f : ℕ} {F X : Multiset ℕ} {s t : Sys} {p q np : Slot} {P P' : Proc}
  {weak : Prop} {k : ℕ → Pte}

/-- The page, if there is one. -/
def optPage (o : Option ℕ) : Multiset ℕ := o.elim 0 fun f => {f}

/-- The pages of the page table, if there is one. -/
def optTree (m : Mem) (o : Option ℕ) : Multiset ℕ := o.elim 0 (Tree m)

/-- The page table that a call of `exec` is at work on. -/
def Pc.pages (m : Mem) : Pc → Multiset ℕ
  | .exec d _ => Tree m d
  | .args d _ => Tree m d
  | .free d => Tree m d
  | _ => 0

/-- The pages of a process. -/
def Proc.pages (m : Mem) (P : Proc) : Multiset ℕ :=
  match P.status with
  | .unused => 0
  | .embryo => optPage P.kstack
  | _ => P.pc.pages m + (optTree m P.pgdir + optPage P.kstack)

/-- All pages in use but for those of one process. -/
def Sys.rest (K : Kernel) (s : Sys) (p : Slot) : Multiset ℕ :=
  ∑ q ∈ Finset.univ.erase p, (s.proc q).pages s.mem + (s.pipes + K.kept)

/-- The pages that somebody has, each as often as it is had. -/
def Sys.used (K : Kernel) (s : Sys) : Multiset ℕ := ∑ q, (s.proc q).pages s.mem + (s.pipes + K.kept)

/-- The kernel half is the shared one. -/
def Half (K : Kernel) (m : Mem) (r : ℕ) : Prop := m.table r 256 = ⟨K.kpdpt, true, true, false⟩

/-- A page table that `exec` makes has the pages of its size. -/
def Pc.Good (K : Kernel) (m : Mem) : Pc → Prop
  | .exec d sz => Space m d sz ∧ 0 < sz ∧ Half K m d
  | .args d sz => Space m d sz ∧ 0 < sz ∧ Half K m d
  | _ => True

/-- What holds of a process: it has the pages that its status says. -/
structure Proc.Good (K : Kernel) (weak : Prop) (m : Mem) (P : Proc) : Prop where
  idle : P.status ≠ .live → P.pc = .user
  stack : P.status ≠ .unused → P.kstack.isSome
  space : P.status = .live ∨ P.status = .zombie → ∃ r, P.pgdir = some r ∧ 0 < P.sz ∧ Half K m r ∧
    (Space m r P.sz ∨ weak ∧ P.pc = .user ∧ Space m r 0)
  pc : P.pc.Good K m

/-- What holds between any two steps. -/
structure Inv (K : Kernel) (k : ℕ → Pte) (weak : Prop) (s : Sys) : Prop where
  owns : Owns K s.mem (s.used K)
  good : ∀ p, (s.proc p).Good K weak s.mem
  fork : ∀ p np, (s.proc p).pc = .fork np → (s.proc np).status = .embryo
  fork_inj : ∀ p q np, (s.proc p).pc = .fork np → (s.proc q).pc = .fork np → p = q
  kernel : s.mem.table K.kpdpt = k

/-! ## Pages that do not change -/

/-- The pages in use are those of one process and the rest. -/
lemma used_eq (p : Slot) : s.used K = (s.proc p).pages s.mem + s.rest K p := by
  unfold Sys.used Sys.rest
  rw [← Finset.add_sum_erase _ _ (Finset.mem_univ p), add_assoc]

/-- The pages a call holds depend on the tables among them only. -/
lemma pcPages_congr {pc : Pc} (h : ∀ g ∈ pc.pages m, m'.table g = m.table g) :
    pc.pages m' = pc.pages m := by
  cases pc with
  | user => simp only [Pc.pages]
  | fork np => simp only [Pc.pages]
  | exec d sz =>
    simp only [Pc.pages] at h ⊢
    exact tree_congr h
  | args d sz =>
    simp only [Pc.pages] at h ⊢
    exact tree_congr h
  | free d =>
    simp only [Pc.pages] at h ⊢
    exact tree_congr h

/-- The same for a page table that may be missing. -/
lemma optTree_congr {o : Option ℕ} (h : ∀ g ∈ optTree m o, m'.table g = m.table g) :
    optTree m' o = optTree m o := by
  cases o with
  | none => simp only [optTree, Option.elim_none]
  | some r =>
    simp only [optTree, Option.elim_some] at h ⊢
    exact tree_congr h

/-- The pages of a process depend on the tables among them only. -/
lemma pages_congr (h : ∀ g ∈ P.pages m, m'.table g = m.table g) : P.pages m' = P.pages m := by
  unfold Proc.pages at h ⊢
  have hbig : (∀ g ∈ P.pc.pages m + (optTree m P.pgdir + optPage P.kstack), m'.table g = m.table g) →
      P.pc.pages m' + (optTree m' P.pgdir + optPage P.kstack)
        = P.pc.pages m + (optTree m P.pgdir + optPage P.kstack) := by
    intro h
    rw [pcPages_congr fun g hg => h g (Multiset.mem_add.mpr (.inl hg)),
      optTree_congr fun g hg => h g (Multiset.mem_add.mpr (.inr (Multiset.mem_add.mpr (.inl hg))))]
  cases hs : P.status with
  | unused => simp only
  | embryo => simp only
  | live =>
    rw [hs] at h
    exact hbig h
  | zombie =>
    rw [hs] at h
    exact hbig h

/-- What another process has is in the rest. -/
lemma pages_mem_rest (hqp : q ≠ p) (hf : f ∈ (s.proc q).pages s.mem) : f ∈ s.rest K p := by
  unfold Sys.rest
  rw [Multiset.mem_add, Multiset.mem_sum]
  exact .inl ⟨q, Finset.mem_erase.mpr ⟨hqp, Finset.mem_univ q⟩, hf⟩

/-- The other processes have the pages that they had. -/
lemma rest_congr (hproc : ∀ q, q ≠ p → t.proc q = s.proc q) (hpipes : t.pipes = s.pipes)
    (hframe : ∀ g ∈ s.rest K p, t.mem.table g = s.mem.table g) : t.rest K p = s.rest K p := by
  unfold Sys.rest at hframe ⊢
  rw [hpipes]
  congr 1
  apply Finset.sum_congr rfl
  intro q hq
  have hqp := (Finset.mem_erase.mp hq).1
  rw [hproc q hqp]
  apply pages_congr
  intro g hg
  exact hframe g (pages_mem_rest (K := K) hqp hg)

/-- An address space is the same where its own tables are. -/
lemma space_congr {sz : ℕ} (h : ∀ g ∈ Tree m r, m'.table g = m.table g) (hs : Space m r sz) :
    Space m' r sz := by
  refine ⟨fun v hv => ?_, ?_⟩
  · rw [find_congr (fits_path hv) h]
    exact hs.found v hv
  · rw [tree_congr h]
    exact hs.card

/-- The kernel half is the same where the root is. -/
lemma half_congr (h : ∀ g ∈ Tree m r, m'.table g = m.table g) (hr : Half K m r) : Half K m' r := by
  unfold Half at hr ⊢
  rw [h r root_mem_tree, hr]

/-- A live process and a zombie have a page table and a kernel stack. -/
lemma pages_of_space (h : P.status = .live ∨ P.status = .zombie) :
    P.pages m = P.pc.pages m + (optTree m P.pgdir + optPage P.kstack) := by
  unfold Proc.pages
  obtain h | h := h <;> rw [h]

/-- A process stays good while its own tables stay. -/
lemma good_congr (hg : P.Good K weak m) (h : ∀ g ∈ P.pages m, m'.table g = m.table g) :
    P.Good K weak m' := by
  refine ⟨hg.idle, hg.stack, fun hst => ?_, ?_⟩
  · obtain ⟨r, hr, hpos, hhalf, hspace⟩ := hg.space hst
    have htree : ∀ g ∈ Tree m r, m'.table g = m.table g := by
      intro g hmem
      apply h g
      rw [pages_of_space hst, hr]
      exact Multiset.mem_add.mpr (.inr (Multiset.mem_add.mpr (.inl hmem)))
    refine ⟨r, hr, hpos, half_congr htree hhalf, ?_⟩
    obtain hspace | ⟨hweak, huser, hspace⟩ := hspace
    · exact .inl (space_congr htree hspace)
    · exact .inr ⟨hweak, huser, space_congr htree hspace⟩
  · have hlive : P.pc ≠ .user → P.status = .live := by
      intro hpc
      by_contra hne
      exact hpc (hg.idle hne)
    have hpc := hg.pc
    have hmem : ∀ g ∈ P.pc.pages m, P.pc ≠ .user → m'.table g = m.table g := by
      intro g hmem hne
      apply h g
      rw [pages_of_space (.inl (hlive hne))]
      exact Multiset.mem_add.mpr (.inl hmem)
    cases hP : P.pc with
    | user => trivial
    | fork np => trivial
    | free d => trivial
    | exec d sz =>
      rw [hP] at hpc hmem
      have htree : ∀ g ∈ Tree m d, m'.table g = m.table g := fun g hg => hmem g hg (by simp)
      exact ⟨space_congr htree hpc.1, hpc.2.1, half_congr htree hpc.2.2⟩
    | args d sz =>
      rw [hP] at hpc hmem
      have htree : ∀ g ∈ Tree m d, m'.table g = m.table g := fun g hg => hmem g hg (by simp)
      exact ⟨space_congr htree hpc.1, hpc.2.1, half_congr htree hpc.2.2⟩

/-- The kernel's own directory belongs to no process. -/
lemma Inv.kpdpt_mem_rest : K.kpdpt ∈ s.rest K p := by
  unfold Sys.rest
  exact Multiset.mem_add.mpr (.inr (Multiset.mem_add.mpr (.inr (Multiset.mem_coe.mpr K.kpdpt_mem))))

/-- **A step of one process.** What it has afterwards, and that it left the pages of the others alone, is
all there is to say. -/
theorem Inv.update (h : Inv K k weak s) (p : Slot) (m' : Mem) (P' : Proc)
    (hown : Owns K m' (P'.pages m' + s.rest K p))
    (hframe : ∀ g ∈ s.rest K p, m'.table g = s.mem.table g) (hgood : P'.Good K weak m')
    (hpc : ∀ np, P'.pc = .fork np → (s.proc p).pc = .fork np)
    (hemb : ∀ q, (s.proc q).pc = .fork p → P'.status = .embryo) :
    Inv K k weak (Sys.setProc { s with mem := m' } p P') := by
  have hself : (Sys.setProc { s with mem := m' } p P').proc p = P' := Function.update_self _ _ _
  have hother : ∀ q, q ≠ p → (Sys.setProc { s with mem := m' } p P').proc q = s.proc q :=
    fun q hq => Function.update_of_ne hq _ _
  have hfork : ∀ q np, ((Sys.setProc { s with mem := m' } p P').proc q).pc = .fork np →
      (s.proc q).pc = .fork np := by
    intro q np hq
    -- only the slot that was set has changed
    by_cases hqp : q = p
    · subst hqp
      rw [hself] at hq
      exact hpc np hq
    · rwa [hother q hqp] at hq
  constructor
  · rw [used_eq p, hself]
    have hrest : (Sys.setProc { s with mem := m' } p P').rest K p = s.rest K p :=
      rest_congr hother rfl hframe
    rw [hrest]
    exact hown
  · intro q
    by_cases hqp : q = p
    · subst hqp
      rw [hself]
      exact hgood
    · rw [hother q hqp]
      apply good_congr (h.good q)
      exact fun g hg => hframe g (pages_mem_rest hqp hg)
  · intro q np hq
    have hold := hfork q np hq
    by_cases hnp : np = p
    · subst hnp
      rw [hself]
      exact hemb q hold
    · rw [hother np hnp]
      exact h.fork q np hold
  · intro q q' np hq hq'
    exact h.fork_inj q q' np (hfork q np hq) (hfork q' np hq')
  · show m'.table K.kpdpt = k
    rw [hframe _ kpdpt_mem_rest]
    exact h.kernel

end Vm
end OhMyXv6
