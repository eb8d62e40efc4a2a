import OhMyXv6.Lib.Runs
import OhMyXv6.Vm.Mapping

/-!
# The page table as a map

A page table that `setupkvm` has built, and any sequence of calls of `walkpgdir`, `mappages` and
`deallocuvm` for addresses of the user half. What `kalloc` returns during a call comes with the call; it
has to be fresh. The pages that `mappages` is asked to map are not those that the tables are in.
-/

namespace OhMyXv6
namespace Paging

open Vm Radix Fallible

variable {K : Kernel} {s s₀ t : Memory} {r va vb : ℕ} {acts : List Act} {a : Act}

/-- A call on a page table. -/
inductive Call where
  | walkpgdir (va : ℕ) (alloc : Bool)
  | mappages (va size pa perm : ℕ)
  | deallocuvm (oldsz newsz : ℕ)

/-- A call, and the pages that `kalloc` would return in it. -/
structure Act where
  call : Call
  pages : List ℕ

/-- What the call does. -/
def Call.run (K : Kernel) (r : ℕ) : Call → W Unit
  | .walkpgdir va alloc => do let _ ← Paging.walkpgdir r va alloc
  | .mappages va size pa perm => do let _ ← Paging.mappages r va size pa perm
  | .deallocuvm oldsz newsz => do let _ ← Paging.deallocuvm K r oldsz newsz

/-- A call that panics is not a step. -/
def step (K : Kernel) (r : ℕ) (s : Memory) (a : Act) : Option Memory :=
  match (a.call.run K r).run { s with freelist := a.pages } with
  | .ok (_, t) => some t
  | .error _ => none

/-- The addresses are below `2 ^ 47`. With nothing to map at the beginning of a page, `mappages` would not
stop before it has gone through all addresses. -/
def Call.Below : Call → Prop
  | .walkpgdir va _ => va < 2 ^ 47
  | .mappages va size pa _ => PGROUNDDOWN va < va + size ∧ va + size ≤ 2 ^ 47 ∧ pa < 2 ^ 64
  | .deallocuvm oldsz _ => oldsz ≤ 2 ^ 47

/-- The page numbers that a call is about. -/
def Call.pages : Call → ℕ → Prop
  | .walkpgdir _ _, _ => False
  | .mappages va size _ _, v => va / PGSIZE ≤ v ∧ v * PGSIZE < va + size
  | .deallocuvm oldsz newsz, v => newsz ≤ v * PGSIZE ∧ v * PGSIZE < oldsz

/-- The pages that a call is asked to map are none of `fs`. -/
def Call.Avoids (fs : ℕ → Prop) : Call → Prop
  | .mappages va size pa perm => ∀ v, (Call.mappages va size pa perm).pages v →
      ¬ fs (frame (pageEntry pa perm (v - va / PGSIZE)))
  | _ => True

/-- What a caller may do. -/
structure Allowed (r : ℕ) (s : Memory) (a : Act) : Prop where
  below : a.call.Below
  fresh : Fresh s r a.pages
  avoids : a.call.Avoids fun f => f ∈ tables s r ∨ f ∈ a.pages

/-- The page table is new. -/
def Built (K : Kernel) (s : Memory) (r : ℕ) : Prop :=
  ∃ m : Memory, (∀ p ∈ m.freelist, Page p) ∧ m.walks = [] ∧ (setupkvm K).run m = .ok (some r, s)

/-- A slot belongs to a page, it stays where it is, and a walk without `alloc` finds it exactly if a walk with
`alloc` has made it. -/
structure IsMap (s : Memory) (r : ℕ) : Prop where
  slot : ∀ va < 2 ^ 47, ∀ vb < 2 ^ 47, ∀ pte, lookup s r va = some pte →
    (lookup s r vb = some pte ↔ va / PGSIZE = vb / PGSIZE)
  returned : ∀ w ∈ s.walks, lookup s r w.va = some w.pte
  found : ∀ va < 2 ^ 47, (lookup s r va).isSome ↔
    ∃ w ∈ s.walks, w.alloc = true ∧ w.va / 2 ^ 21 = va / 2 ^ 21

/-- What a call is for. -/
def Call.Effect (t : Memory) (r : ℕ) : Call → Prop
  | .walkpgdir va alloc => alloc = true → (lookup t r va).isSome
  | .mappages va size pa perm => ∀ vb < 2 ^ 47, (Call.mappages va size pa perm).pages (vb / PGSIZE) →
      translation t r vb = some (pageEntry pa perm (vb / PGSIZE - va / PGSIZE))
  | .deallocuvm oldsz newsz => ∀ vb < 2 ^ 47, (Call.deallocuvm oldsz newsz).pages (vb / PGSIZE) →
      translation t r vb = none

/-- No slot moves, and no page is mapped differently but those that the call is about. -/
structure Does (r : ℕ) (s : Memory) (c : Call) (t : Memory) : Prop where
  kept : ∀ va < 2 ^ 47, ∀ pte, lookup s r va = some pte → lookup t r va = some pte
  other : ∀ va < 2 ^ 47, ¬ c.pages (va / PGSIZE) → translation t r va = translation s r va
  effect : c.Effect t r

/-! ## The calls -/

/-- The loop of `mappages` goes through the pages that the range meets. -/
theorem mappagesMore_iff {size k : ℕ} (h : PGROUNDDOWN va < va + size) (hlt : va + size ≤ 2 ^ 47) :
    k ≤ mappagesMore va size ↔ (va / PGSIZE + k) * PGSIZE < va + size := by
  simp only [mappagesMore, PGROUNDDOWN, PGSIZE] at *
  omega

/-- The pages that `deallocuvm` visits are those between the sizes. -/
lemma deallocuvm_pages {oldsz newsz v : ℕ} (h : oldsz ≤ 2 ^ 47) (hlt : newsz < oldsz) :
    PGROUNDUP newsz / PGSIZE ≤ v ∧ v < PGROUNDUP newsz / PGSIZE + pageCount (PGROUNDUP newsz) oldsz ↔
      newsz ≤ v * PGSIZE ∧ v * PGSIZE < oldsz := by
  unfold PGROUNDUP pageCount PGSIZE
  omega

/-- Addresses on the same page are mapped alike. -/
lemma mapped_of_page (ha : va < 2 ^ 47) (hb : vb < 2 ^ 47) (h : va / PGSIZE = vb / PGSIZE) :
    mapped s r va = mapped s r vb := by
  rw [mapped, mapped, pgtab_of_page ha hb h, (page_eq_iff.mp h).2]

/-- Page `k` of the range that `mappages` goes through. -/
lemma mappages_page (va k : ℕ) : PGROUNDDOWN va + k * PGSIZE = (va / PGSIZE + k) * PGSIZE :=
  (Nat.add_mul _ _ _).symm

/-- All pages of the range are mapped and no other page is changed. -/
lemma mappages_ends {size pa perm : ℕ} (hs : Shape s r) (hf : Fresh s r s.freelist)
    (hbelow : (Call.mappages va size pa perm).Below)
    (havoid : (Call.mappages va size pa perm).Avoids fun f => f ∈ tables s r ∨ f ∈ s.freelist) :
    Ends (fun _ => True) (mappages r va size pa perm) (fun _ s' =>
      Changed r (Call.mappages va size pa perm).pages s s' ∧
      ∀ vb < 2 ^ 47, (Call.mappages va size pa perm).pages (vb / PGSIZE) →
        mapped s' r vb = some (pageEntry pa perm (vb / PGSIZE - va / PGSIZE))) s := by
  obtain ⟨hsome, hlt, hpa⟩ := hbelow
  have hfirst : PGROUNDDOWN va / PGSIZE = va / PGSIZE := by
    unfold PGROUNDDOWN PGSIZE
    omega
  -- the loop visits just the pages that the range touches
  have hmore : ∀ k, k ≤ mappagesMore va size ↔
      (Call.mappages va size pa perm).pages (va / PGSIZE + k) := by
    intro k
    rw [mappagesMore_iff hsome hlt]
    exact ⟨fun h => ⟨Nat.le_add_right _ _, h⟩, And.right⟩
  have hlast := (hmore (mappagesMore va size)).mp le_rfl
  have hapart : ∀ k ≤ mappagesMore va size, Apart s r (frame (pageEntry pa perm k)) := by
    intro k hk
    have hnot := havoid _ ((hmore k).mp hk)
    rwa [Nat.add_sub_cancel_left, not_or] at hnot
  unfold mappages
  apply (mappagesLoop_ends hs hf ?_ ?_ hpa hapart).mono (fun _ => id)
  · rintro _ s' ⟨hch, hentry⟩
    rw [hfirst] at hch
    constructor
    · apply hch.mono
      intro v hv
      have hpage := (hmore (v - va / PGSIZE)).mp (by omega)
      rwa [Nat.add_sub_cancel' hv.1] at hpage
    · intro vb hb hpage
      have hk : vb / PGSIZE - va / PGSIZE ≤ mappagesMore va size := by
        rw [hmore, Nat.add_sub_cancel' hpage.1]
        exact hpage
      have haddr : PGROUNDDOWN va + (vb / PGSIZE - va / PGSIZE) * PGSIZE = vb / PGSIZE * PGSIZE := by
        rw [mappages_page, Nat.add_sub_cancel' hpage.1]
      rw [← hentry _ hk, haddr]
      apply mapped_of_page hb
      · exact (Nat.div_mul_le_self _ _).trans_lt hb
      · rw [Nat.mul_div_cancel _ (by decide)]
  · exact Nat.mul_mod_left _ _
  · rw [mappages_page]
    exact hlast.2.trans_le hlt

/-- `deallocuvm` takes away the pages behind the new size, and no others. -/
lemma deallocuvm_ends {oldsz newsz : ℕ} (hs : Shape s r) (hbelow : oldsz ≤ 2 ^ 47) :
    Ends (fun _ => True) (deallocuvm K r oldsz newsz) (fun _ s' =>
      Changed r (Call.deallocuvm oldsz newsz).pages s s' ∧
      ∀ vb < 2 ^ 47, (Call.deallocuvm oldsz newsz).pages (vb / PGSIZE) → mapped s' r vb = none) s := by
  unfold deallocuvm
  by_cases hle : oldsz ≤ newsz
  · rw [if_pos hle, ends_pure]
    refine ⟨(Changed.refl hs).mono fun _ h => h.elim, ?_⟩
    intro vb _ ⟨hnew, hold⟩
    omega
  · rw [if_neg hle]
    have hpages := fun v => deallocuvm_pages (v := v) hbelow (Nat.lt_of_not_le hle)
    have hround : ∀ k, PGROUNDUP newsz + k * PGSIZE = (PGROUNDUP newsz / PGSIZE + k) * PGSIZE := by
      intro k
      unfold PGROUNDUP PGSIZE
      omega
    have hlt : ∀ k < pageCount (PGROUNDUP newsz) oldsz, PGROUNDUP newsz + k * PGSIZE < 2 ^ 47 := by
      intro k hk
      have hpage := ((hpages (PGROUNDUP newsz / PGSIZE + k)).mp (by omega)).2
      rw [hround k]
      exact hpage.trans_le hbelow
    simp only
    apply (deallocuvmLoop_ends hs hlt).seq
    rintro _ s' ⟨hch, hnone⟩
    refine ⟨hch.mono fun v hv => (hpages v).mp hv, ?_⟩
    intro vb hb hpage
    obtain ⟨hfirst, hlast⟩ := (hpages _).mpr hpage
    have haddr : PGROUNDUP newsz + (vb / PGSIZE - PGROUNDUP newsz / PGSIZE) * PGSIZE
        = vb / PGSIZE * PGSIZE := by
      rw [hround, Nat.add_sub_cancel' hfirst]
    rw [← hnone (vb / PGSIZE - PGROUNDUP newsz / PGSIZE) (by omega), haddr]
    apply mapped_of_page hb
    · exact (Nat.div_mul_le_self _ _).trans_lt hb
    · rw [Nat.mul_div_cancel _ (by decide)]

/-- **What a call does.** -/
theorem call_ends {c : Call} (hs : Shape s r) (hf : Fresh s r s.freelist) (hbelow : c.Below)
    (havoid : c.Avoids fun f => f ∈ tables s r ∨ f ∈ s.freelist) :
    Ends (fun _ => True) (c.run K r)
      (fun _ s' => Changed r c.pages s s' ∧ (Shape s' r → c.Effect s' r)) s := by
  cases c with
  | walkpgdir va alloc =>
    unfold Call.run
    cases alloc with
    | false =>
      apply (walkpgdir_false hs.root).seq
      rintro o s' (⟨-, rfl, rfl⟩ | ⟨p, hp, rfl, rfl⟩)
      · exact ⟨Changed.refl hs, fun _ h => by cases h⟩
      · exact ⟨changed_log hs hbelow hp, fun _ h => by cases h⟩
    | true =>
      apply (walkpgdir_true hs hf hbelow).seq
      rintro o s' ⟨p, rfl, hp, hch, -⟩
      refine ⟨hch, fun hs' _ => ?_⟩
      rw [lookup_eq hs'.root, hp]
      rfl
  | mappages va size pa perm =>
    apply (mappages_ends hs hf hbelow havoid).seq
    rintro _ s' ⟨hch, hentry⟩
    refine ⟨hch, fun hs' vb hb hpage => ?_⟩
    rw [translation_eq hs'.root]
    exact hentry vb hb hpage
  | deallocuvm oldsz newsz =>
    apply (deallocuvm_ends hs hbelow).seq
    rintro _ s' ⟨hch, hnone⟩
    refine ⟨hch, fun hs' vb hb hpage => ?_⟩
    rw [translation_eq hs'.root]
    exact hnone vb hb hpage

/-! ## Runs -/

/-- What holds between any two calls. -/
structure Inv (s : Memory) (r : ℕ) : Prop where
  shape : Shape s r
  logged : Logged s r

/-- A new page table has nothing in its user half. -/
lemma setupkvm_ends (hpage : ∀ p ∈ s.freelist, Page p) : Ends (fun _ => True) (setupkvm K)
    (fun o s' => ∃ g, o = some g ∧ Page g ∧ s'.walks = s.walks ∧
      ∀ i < width 2, s'.word (slot g i) = 0) s := by
  unfold setupkvm
  apply kalloc_ends.seq
  rintro o s₁ ⟨g, next, rfl, hfree, rfl⟩
  have hg := hpage g (by rw [hfree]; exact List.mem_cons_self)
  refine ⟨g, rfl, hg, rfl, ?_⟩
  intro i hi
  have hlt : i < NPDENTRIES := hi.trans_le (width_le 2)
  have hne : slot g i ≠ slot g 256 := by
    intro heq
    have hhalf : i < 256 := hi
    have := (slot_inj hg hg hlt (by decide) heq).2
    omega
  exact (word_store_of_ne hne).trans (word_fill_self hg hlt)

/-- A page table that is new has no tables but the root. -/
lemma built_spec (h : Built K s r) :
    Page r ∧ s.walks = [] ∧ tables s r = {r} ∧ ∀ va < 2 ^ 47, pgtab s r va = none := by
  obtain ⟨m, hpage, hwalks, hrun⟩ := h
  obtain ⟨g, hg, hpage, hlog, hzero⟩ := (setupkvm_ends hpage).of_ok hrun
  obtain rfl := Option.some.inj hg
  have hchild : ∀ i < width 2, child s r i = none := by
    intro i hi
    apply child_of_not_present
    rw [hzero i hi]
    decide
  refine ⟨hpage, hlog.trans hwalks, nodes_of_none hchild, ?_⟩
  intro va hva
  rw [pgtab, indices, reach_cons, hchild _ (fits_indices hva).1]
  rfl

/-- What `setupkvm` has made keeps the invariant. -/
lemma inv_built (h : Built K s r) : Inv s r := by
  obtain ⟨hpage, hwalks, htables, hpgtab⟩ := built_spec h
  refine ⟨⟨hpage, ?_, ?_⟩, ?_, ?_⟩
  · rw [htables]
    exact Multiset.nodup_singleton r
  · intro va hva e he
    rw [mapped_of_none (hpgtab va hva)] at he
    cases he
  · intro w hw
    rw [hwalks] at hw
    cases hw
  · intro va hva
    rw [hpgtab va hva, hwalks]
    simp

/-- What a call may change, and what it does. -/
lemma step_spec (hinv : Inv s r) (hok : Allowed r s a) (h : step K r s a = some t) :
    Changed r a.call.pages s t ∧ a.call.Effect t r := by
  obtain ⟨hbelow, hfresh, havoid⟩ := hok
  have hs : Shape { s with freelist := a.pages } r := ⟨hinv.shape.root, hinv.shape.nodup, hinv.shape.frame⟩
  have hf : Fresh { s with freelist := a.pages } r a.pages :=
    ⟨hfresh.nodup, hfresh.page, hfresh.table, hfresh.frame⟩
  unfold step at h
  split at h
  · next t' hrun =>
    obtain rfl := Option.some.inj h
    obtain ⟨hch, heffect⟩ := (call_ends hs hf hbelow havoid).of_ok hrun
    refine ⟨⟨hch.shape, hch.kept, hch.other, ?_⟩, heffect hch.shape⟩
    intro hl
    exact hch.logged ⟨hl.kept, hl.found⟩
  · cases h

lemma Inv.step (hinv : Inv s r) (hok : Allowed r s a) (h : step K r s a = some t) : Inv t r := by
  have hch := (step_spec hinv hok h).1
  exact ⟨hch.shape, hch.logged hinv.logged⟩

lemma Inv.isMap (hinv : Inv s r) : IsMap s r := by
  obtain ⟨hs, hkept, hfound⟩ := hinv
  constructor
  · intro va ha vb hb pte hva
    rw [lookup_eq hs.root] at hva ⊢
    obtain ⟨p, hp, rfl⟩ := Option.map_eq_some_iff.mp hva
    constructor
    · intro hvb
      obtain ⟨q, hq, hslot⟩ := Option.map_eq_some_iff.mp hvb
      exact (slot_eq_iff hs ha hb hp hq).mp hslot.symm
    · intro hpage
      rw [← pgtab_of_page ha hb hpage, hp, (page_eq_iff.mp hpage).2]
      rfl
  · intro w hw
    obtain ⟨-, p, hp, hslot⟩ := hkept w hw
    rw [lookup_eq hs.root, hp, hslot]
    rfl
  · intro va hva
    rw [lookup_eq hs.root, Option.isSome_map]
    exact hfound va hva

/-- A call does what is said of it, and nothing else. -/
lemma Inv.does (hinv : Inv s r) (hok : Allowed r s a) (h : Paging.step K r s a = some t) :
    Does r s a.call t := by
  obtain ⟨hch, heffect⟩ := step_spec hinv hok h
  have hr := hinv.shape.root
  refine ⟨?_, ?_, heffect⟩
  · intro va hva pte hpte
    rw [lookup_eq hr] at hpte ⊢
    obtain ⟨p, hp, rfl⟩ := Option.map_eq_some_iff.mp hpte
    rw [hch.kept va hva p hp]
    rfl
  · intro va hva hne
    rw [translation_eq hr, translation_eq hr]
    exact hch.other va hva hne

/-- **The page table is a map on virtual pages.** -/
theorem page_map (hbuilt : Built K s₀ r) (hok : Runs.Along (step K r) (Allowed r) s₀ acts)
    (hrun : Runs.run (step K r) s₀ acts = some s) :
    IsMap s r ∧ ∀ a t, Allowed r s a → step K r s a = some t → Does r s a.call t := by
  have hkeep : ∀ s a t, Inv s r → Allowed r s a → step K r s a = some t → Inv t r :=
    fun _ _ _ hinv hok h => hinv.step hok h
  have hinv : Inv s r := hok.invariant hkeep (inv_built hbuilt) hrun
  exact ⟨hinv.isMap, fun _ _ hok h => hinv.does hok h⟩

/-! ## A small run -/

/-- The kernel ends where the memory below it does, and keeps one page. -/
def tinyKernel : Kernel := ⟨256, by decide, 256, [256], by decide⟩

/-- The page that the page table begins with. -/
def tinyRoot : ℕ := 0xFFFF800000200000

/-- One page is free. -/
def tinyMemory : Memory := ⟨fun _ => 0, [tinyRoot], []⟩

/-- The page table that `setupkvm` has made of it. -/
def tinyTable : Memory :=
  (Memory.fill { tinyMemory with freelist := [] } tinyRoot 0).store (slot tinyRoot 256)
    (tinyKernel.kpdpt * PGSIZE ||| PTE_P ||| PTE_W)

/-- A page is mapped and given back, and a walk finds the table. -/
def tinyActs : List Act :=
  [⟨.mappages 0x1000 0x1000 0x300000 (PTE_W ||| PTE_U),
      [0xFFFF800000201000, 0xFFFF800000202000, 0xFFFF800000203000]⟩,
    ⟨.deallocuvm 0x2000 0x1000, []⟩, ⟨.walkpgdir 0x5000 true, []⟩]

/-- The table of the example is one that `setupkvm` has made. -/
lemma built_tinyTable : Built tinyKernel tinyTable tinyRoot := by
  refine ⟨tinyMemory, ?_, rfl, rfl⟩
  intro p hp
  obtain rfl := List.mem_singleton.mp hp
  decide

lemma fresh_nil : Fresh s r [] := by
  constructor <;> simp

/-- The calls of the example are allowed. -/
lemma allowed_tinyActs : Runs.Along (step tinyKernel tinyRoot) (Allowed tinyRoot) tinyTable tinyActs := by
  obtain ⟨-, -, htables, hpgtab⟩ := built_spec built_tinyTable
  refine ⟨⟨?_, ?_, ?_⟩, fun t _ => ⟨⟨?_, fresh_nil, trivial⟩, fun u _ => ⟨⟨?_, fresh_nil, trivial⟩, ?_⟩⟩⟩
  · refine ⟨?_, ?_, ?_⟩ <;> decide
  · refine ⟨by decide, by decide, ?_, ?_⟩
    · rw [htables]
      decide
    · intro p _ va hva e he
      rw [mapped_of_none (hpgtab va hva)] at he
      cases he
  · intro v ⟨hfirst, hlast⟩
    -- there is one page to map
    obtain rfl : v = 1 := by
      unfold PGSIZE at hfirst hlast
      omega
    rw [htables]
    decide
  · show 0x2000 ≤ 2 ^ 47
    decide
  · show 0x5000 < 2 ^ 47
    decide
  · exact fun _ _ => trivial

/-- Pages are mapped and one is taken away. -/
theorem page_map_tinyActs : ∃ s, Runs.run (step tinyKernel tinyRoot) tinyTable tinyActs = some s ∧
    IsMap s tinyRoot ∧ (lookup s tinyRoot 0x5000).isSome := by
  have hsome : (Runs.run (step tinyKernel tinyRoot) tinyTable tinyActs).map
      (fun s => (lookup s tinyRoot 0x5000).isSome) = some true := by
    decide +kernel
  obtain ⟨s, hrun, hlookup⟩ := Option.map_eq_some_iff.mp hsome
  exact ⟨s, hrun, (page_map built_tinyTable allowed_tinyActs hrun).1, hlookup⟩

end Paging
end OhMyXv6
