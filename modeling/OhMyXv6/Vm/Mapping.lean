import OhMyXv6.Vm.Slots
import Mathlib.Tactic.Ring

/-!
# What `walkpgdir`, `mappages` and `deallocuvm` change

`Changed r P s s'` says that the tables are still a tree, that no slot has moved, and that only pages in `P`
are mapped differently. Each function is taken apart into steps of this kind.
-/

namespace OhMyXv6
namespace Paging

open Vm Radix Fallible

variable {K : Kernel} {s s' t : Memory} {r p q i va vb e n a pa perm : ℕ} {is path : List ℕ} {P P' : ℕ → Prop}
  {E : Panic → Prop}

/-! ## Walks without `alloc` -/

/-- An entry that is present leads to a table. -/
lemma child_of_present (hp : Page p) (hi : i < NPDENTRIES) (h : s.word (slot p i) &&& PTE_P ≠ 0) :
    child s p i = some (P2V (PTE_ADDR (s.word (slot p i)))) := if_pos ⟨hp, hi, present_iff.mp h⟩

/-- One that is not leads nowhere. -/
lemma child_of_not_present (h : ¬ s.word (slot p i) &&& PTE_P ≠ 0) : child s p i = none :=
  if_neg fun hchild => h (present_iff.mpr hchild.2.2)

lemma walkLevel_false (hp : Page p) (hi : i < NPDENTRIES) :
    Ends E (walkLevel false p i) (fun o s' => s' = s ∧ o = child s p i) s := by
  unfold walkLevel
  rw [ends_bind, ends_get]
  by_cases he : s.word (slot p i) &&& PTE_P ≠ 0
  · rw [if_pos he, child_of_present hp hi he]
    exact ⟨rfl, rfl⟩
  · rw [if_neg he, child_of_not_present he]
    exact ⟨rfl, rfl⟩

lemma walkLevels_false (hp : Page p) (his : ∀ i ∈ is, i < NPDENTRIES) :
    Ends E (walkLevels false p is) (fun o s' => s' = s ∧ o = reach (child s) p is) s := by
  induction is generalizing p with
  | nil => exact ⟨rfl, rfl⟩
  | cons i is ih =>
    rw [walkLevels, reach_cons]
    apply (walkLevel_false hp (his i List.mem_cons_self)).seq
    rintro o s₁ ⟨rfl, rfl⟩
    cases hc : child s₁ p i with
    | none => exact ⟨rfl, rfl⟩
    | some q => exact ih (page_of_child hc) fun j hj => his j (List.mem_cons_of_mem i hj)

lemma indices_lt (va : ℕ) : ∀ i ∈ indices va, i < NPDENTRIES := by
  intro i hi
  simp only [indices, List.mem_cons, List.not_mem_nil, or_false] at hi
  obtain rfl | rfl | rfl := hi <;> exact Nat.mod_lt _ (by omega)

/-- The walk finds the slot in the table at the end of the path, and changes nothing but the history. -/
theorem walkpgdir_false (hr : Page r) : Ends E (walkpgdir r va false)
    (fun o s' => pgtab s r va = none ∧ o = none ∧ s' = s ∨ ∃ p, pgtab s r va = some p ∧
      o = some (slot p (PTX va)) ∧ s' = s.log va false (slot p (PTX va))) s := by
  unfold walkpgdir
  apply (walkLevels_false hr (indices_lt va)).seq
  rintro o s₁ ⟨rfl, rfl⟩
  rw [show reach (child s₁) r (indices va) = pgtab s₁ r va from rfl]
  cases pgtab s₁ r va with
  | none => exact .inl ⟨rfl, rfl, rfl⟩
  | some p => exact .inr ⟨p, rfl, rfl, rfl⟩

/-- What `walkpgdir` returns for an address, without `alloc`. -/
def lookup (s : Memory) (r va : ℕ) : Option ℕ :=
  match (walkpgdir r va false).run s with
  | .ok (pte, _) => pte
  | .error _ => none

/-- The entry that an address is translated with, if it is present. -/
def translation (s : Memory) (r va : ℕ) : Option ℕ :=
  (lookup s r va).bind fun pte => if s.word pte &&& PTE_P ≠ 0 then some (s.word pte) else none

/-- What `walkpgdir` returns, in terms of the tree. -/
lemma lookup_eq (hr : Page r) : lookup s r va = (pgtab s r va).map fun p => slot p (PTX va) := by
  have hwalk : Ends (fun _ => False) (walkpgdir r va false) _ s := walkpgdir_false hr
  obtain ⟨o, s', hrun, hres⟩ := hwalk.returns fun _ => id
  unfold lookup
  rw [hrun]
  obtain ⟨hnone, rfl, -⟩ | ⟨p, hp, rfl, -⟩ := hres
  · rw [hnone]
    rfl
  · rw [hp]
    rfl

/-- What an address is translated with, in terms of the tree. -/
lemma translation_eq (hr : Page r) : translation s r va = mapped s r va := by
  unfold translation mapped
  rw [lookup_eq hr, Option.bind_map]
  congr 1
  funext p
  simp only [Function.comp_apply, present_iff]
  rfl

/-! ## Walks with `alloc` -/

/-- `kalloc` takes the first free page, or panics. -/
lemma kalloc_ends : Ends (fun _ => True) kalloc
    (fun o s' => ∃ g next, o = some g ∧ s.freelist = g :: next ∧ s' = { s with freelist := next }) s := by
  unfold kalloc
  rw [ends_bind, ends_get]
  cases hfree : s.freelist with
  | nil => trivial
  | cons g next =>
    simp only [ends_bind, ends_modify, ends_pure]
    exact ⟨g, next, rfl, rfl, rfl⟩

lemma ends_setEntry {Q : Unit → Memory → Prop} :
    Ends E (setEntry a e) Q s ↔ Q () (s.store a e) := Iff.rfl

lemma reach_concat (hq : reach (child s) r is = some p) : reach (child s) r (is ++ [i]) = child s p i := by
  rw [reach_append, hq]
  exact Option.bind_fun_some _

/-- One level with `alloc` finds a table or links a new one. -/
lemma walkLevel_true (hs : Shape s r) (hf : Fresh s r s.freelist) (hq : reach (child s) r is = some p)
    (hfits : Fits width 3 (is ++ [i])) (hi : i < NPDENTRIES) : Ends (fun _ => True) (walkLevel true p i)
    (fun o s' => ∃ g, o = some g ∧ reach (child s') r (is ++ [i]) = some g ∧ Grown r (is ++ [i]) s s') s := by
  unfold walkLevel
  rw [ends_bind, ends_get]
  by_cases he : s.word (slot p i) &&& PTE_P ≠ 0
  · -- the table is there already
    rw [if_pos he, ends_pure]
    refine ⟨_, rfl, ?_, Grown.refl hs hf⟩
    rw [reach_concat hq, child_of_present (page_of_reach hs.root hq) hi he]
  · have hnone := child_of_not_present he
    simp only [if_neg he, Bool.not_true, Bool.false_eq_true, if_false]
    apply kalloc_ends.seq
    rintro o s₁ ⟨g, next, rfl, hfree, rfl⟩
    have hhead : g ∈ s.freelist := by
      rw [hfree]
      exact List.mem_cons_self
    have hs' : Shape { s with freelist := next } r := ⟨hs.root, hs.nodup, hs.frame⟩
    have hlink := link hs' (hf.page g hhead) (hf.table g hhead) hq hfits hnone hi
    refine ⟨g, rfl, ?_, ?_⟩
    · have hreach := hlink.reach _ hfits
      rwa [if_pos rfl] at hreach
    · have hlink' : Linked s (Memory.link { s with freelist := next } p i g) r (is ++ [i]) g :=
        ⟨hlink.tables, hlink.reach, hlink.mapped⟩
      exact hlink'.grown hs hf ((reach_concat hq).trans hnone) hfree rfl

lemma walkLevels_true (hs : Shape s r) (hf : Fresh s r s.freelist) (hq : reach (child s) r path = some p)
    (hfits : Fits width 3 (path ++ is)) (his : ∀ i ∈ is, i < NPDENTRIES) :
    Ends (fun _ => True) (walkLevels true p is)
      (fun o s' => ∃ g, o = some g ∧ reach (child s') r (path ++ is) = some g ∧
        Grown r (path ++ is) s s') s := by
  induction is generalizing path p s with
  | nil =>
    rw [List.append_nil]
    exact ⟨p, rfl, hq, Grown.refl hs hf⟩
  | cons i is ih =>
    have hsplit : path ++ i :: is = path ++ [i] ++ is := by simp
    rw [hsplit] at hfits ⊢
    rw [walkLevels]
    apply (walkLevel_true hs hf hq hfits.of_append (his i List.mem_cons_self)).seq
    rintro o s₁ ⟨g, rfl, hg, hgrown⟩
    apply (ih hgrown.shape hgrown.fresh hg hfits fun j hj => his j (List.mem_cons_of_mem i hj)).mono
    · exact fun _ => id
    · rintro o s₂ ⟨g', rfl, hg', hgrown'⟩
      exact ⟨g', rfl, hg', hgrown.trans hgrown' (List.prefix_append _ _)⟩

/-! ## Changes -/

/-- What the history says: the slots that walks have returned are still there, and there is a slot where a
walk with `alloc` has made the table. -/
structure Logged (s : Memory) (r : ℕ) : Prop where
  kept : ∀ w ∈ s.walks, w.va < 2 ^ 47 ∧ ∃ p, pgtab s r w.va = some p ∧ w.pte = slot p (PTX w.va)
  found : ∀ va < 2 ^ 47, (pgtab s r va).isSome ↔ ∃ w ∈ s.walks, w.alloc = true ∧ w.va / 2 ^ 21 = va / 2 ^ 21

/-- At most the pages in `P` are mapped differently. -/
structure Changed (r : ℕ) (P : ℕ → Prop) (s s' : Memory) : Prop where
  shape : Shape s' r
  kept : ∀ va < 2 ^ 47, ∀ p, pgtab s r va = some p → pgtab s' r va = some p
  other : ∀ va < 2 ^ 47, ¬ P (va / PGSIZE) → mapped s' r va = mapped s r va
  logged : Logged s r → Logged s' r

lemma Changed.trans (h : Changed r P s s') (h' : Changed r P' s' t) :
    Changed r (fun v => P v ∨ P' v) s t where
  shape := h'.shape
  kept va hva p hp := h'.kept va hva p (h.kept va hva p hp)
  other va hva hne := by
    rw [not_or] at hne
    exact (h'.other va hva hne.2).trans (h.other va hva hne.1)
  logged hl := h'.logged (h.logged hl)

lemma Changed.mono (h : Changed r P s s') (hP : ∀ v, P v → P' v) : Changed r P' s s' :=
  ⟨h.shape, h.kept, fun va hva hne => h.other va hva fun hv => hne (hP _ hv), h.logged⟩

/-- A memory with the same tables and the same entries. -/
lemma Changed.of_same (hs : Shape s r) (htables : tables s' r = tables s r)
    (hpgtab : ∀ va < 2 ^ 47, pgtab s' r va = pgtab s r va)
    (hmapped : ∀ va < 2 ^ 47, ¬ P (va / PGSIZE) → mapped s' r va = mapped s r va)
    (hP : ∀ va < 2 ^ 47, P (va / PGSIZE) → ∀ e, mapped s' r va = some e → frame e ∉ tables s r)
    (hwalks : s'.walks = s.walks) : Changed r P s s' where
  shape := by
    refine ⟨hs.root, ?_, ?_⟩
    · rw [htables]
      exact hs.nodup
    · intro va hva e he
      rw [htables]
      by_cases hv : P (va / PGSIZE)
      · exact hP va hva hv e he
      · rw [hmapped va hva hv] at he
        exact hs.frame va hva e he
  kept va hva p hp := (hpgtab va hva).trans hp
  other := hmapped
  logged hl := by
    obtain ⟨hkept, hfound⟩ := hl
    constructor
    · intro w hw
      rw [hwalks] at hw
      obtain ⟨hlt, p, hp, hslot⟩ := hkept w hw
      exact ⟨hlt, p, (hpgtab _ hlt).trans hp, hslot⟩
    · intro va hva
      rw [hpgtab va hva, hwalks]
      exact hfound va hva

lemma Changed.refl (hs : Shape s r) : Changed r (fun _ => False) s s :=
  .of_same hs rfl (fun _ _ => rfl) (fun _ _ _ => rfl) (fun _ _ h => h.elim) rfl

/-- An entry is stored in the slot of an address. -/
lemma changed_store (hs : Shape s r) (ha : va < 2 ^ 47) (hp : pgtab s r va = some p)
    (he : e % 2 = 1 → frame e ∉ tables s r) :
    Changed r (fun v => v = va / PGSIZE) s (s.store (slot p (PTX va)) e) := by
  apply Changed.of_same hs (tables_store hs ha hp)
  · exact fun vb hb => reach_store hs ha hp (fits_indices hb)
  · intro vb hb hne
    rw [mapped_store hs ha hp hb, if_neg hne]
  · intro vb hb hpage e' he'
    rw [mapped_store hs ha hp hb, if_pos hpage] at he'
    split at he'
    · next hodd =>
      obtain rfl := Option.some.inj he'
      exact he hodd
    · cases he'
  · rfl

/-- A page that is not a table is filled. -/
lemma changed_fill (hs : Shape s r) (hp : Page p) (hpt : p ∉ tables s r) :
    Changed r (fun _ => False) s (s.fill p e) :=
  .of_same hs (tables_clear hp hpt) (fun _ hva => reach_congr (fits_indices hva) (child_clear hp hpt))
    (fun _ hva _ => mapped_fill hs hp hpt hva) (fun _ _ h => h.elim) rfl

/-- The free list does not matter. -/
lemma changed_freelist (hs : Shape s r) {pages : List ℕ} :
    Changed r (fun _ => False) s { s with freelist := pages } :=
  .of_same hs rfl (fun _ _ => rfl) (fun _ _ _ => rfl) (fun _ _ h => h.elim) rfl

/-- A walk is put down in the history, for an address whose table was there before. -/
theorem changed_log (hs : Shape s r) (ha : va < 2 ^ 47) (hp : pgtab s r va = some p) {alloc : Bool} :
    Changed r (fun _ => False) s (s.log va alloc (slot p (PTX va))) where
  shape := ⟨hs.root, hs.nodup, hs.frame⟩
  kept _ _ _ h := h
  other _ _ _ := rfl
  logged hl := by
    obtain ⟨hkept, hfound⟩ := hl
    constructor
    · intro w hw
      obtain rfl | hw := List.mem_cons.mp hw
      · exact ⟨ha, p, hp, rfl⟩
      · exact hkept w hw
    · intro vb hb
      rw [show pgtab (s.log va alloc (slot p (PTX va))) r vb = pgtab s r vb from rfl, hfound vb hb]
      constructor
      · intro ⟨w, hw, h⟩
        exact ⟨w, List.mem_cons_of_mem _ hw, h⟩
      · intro ⟨w, hw, halloc, hregion⟩
        obtain rfl | hw := List.mem_cons.mp hw
        · -- the table was made before
          rw [← hfound vb hb, pgtab, ← (indices_inj ha hb).mpr hregion, ← pgtab, hp]
          rfl
        · exact ⟨w, hw, halloc, hregion⟩

/-- A walk with `alloc`: the tables that are missing are new, and it is put down in the history. -/
theorem Grown.changed (h : Grown r (indices va) s s') (ha : va < 2 ^ 47) (hp : pgtab s' r va = some p) :
    Changed r (fun _ => False) s (s'.log va true (slot p (PTX va))) where
  shape := ⟨h.shape.root, h.shape.nodup, h.shape.frame⟩
  kept vb hb q hq := h.kept _ (fits_indices hb) q hq
  other vb hb _ := h.mapped vb hb
  logged hl := by
    obtain ⟨hkept, hfound⟩ := hl
    constructor
    · intro w hw
      obtain rfl | hw := List.mem_cons.mp hw
      · exact ⟨ha, p, hp, rfl⟩
      · rw [h.walks] at hw
        obtain ⟨hlt, q, hq, hslot⟩ := hkept w hw
        exact ⟨hlt, q, h.kept _ (fits_indices hlt) q hq, hslot⟩
    · intro vb hb
      rw [show pgtab (s'.log va true (slot p (PTX va))) r vb = pgtab s' r vb from rfl]
      constructor
      · intro hsome
        obtain hold | hpre := h.new _ (fits_indices hb) hsome
        · obtain ⟨w, hw, hw'⟩ := (hfound vb hb).mp hold
          rw [← h.walks] at hw
          exact ⟨w, List.mem_cons_of_mem _ hw, hw'⟩
        · -- the table that the walk was for
          have heq : indices vb = indices va := hpre.eq_of_length rfl
          exact ⟨_, List.mem_cons_self, rfl, ((indices_inj hb ha).mp heq).symm⟩
      · intro ⟨w, hw, halloc, hregion⟩
        obtain rfl | hw := List.mem_cons.mp hw
        · rw [pgtab, ← (indices_inj ha hb).mpr hregion, ← pgtab, hp]
          rfl
        · rw [h.walks] at hw
          obtain ⟨q, hq⟩ := Option.isSome_iff_exists.mp ((hfound vb hb).mpr ⟨w, hw, halloc, hregion⟩)
          rw [pgtab, h.kept _ (fits_indices hb) q hq]
          rfl

/-! ## `mappages` -/

/-- Neither a table, nor what `kalloc` may return. -/
def Apart (s : Memory) (r f : ℕ) : Prop := f ∉ tables s r ∧ f ∉ s.freelist

/-- A walk with `alloc` returns the slot of the address. -/
lemma walkpgdir_true (hs : Shape s r) (hf : Fresh s r s.freelist) (ha : va < 2 ^ 47) :
    Ends (fun _ => True) (walkpgdir r va true) (fun o s' => ∃ p, o = some (slot p (PTX va)) ∧
      pgtab s' r va = some p ∧ Changed r (fun _ => False) s s' ∧ Fresh s' r s'.freelist ∧
      ∀ f, Apart s r f → Apart s' r f) s := by
  unfold walkpgdir
  have hroot : reach (child s) r [] = some r := rfl
  apply (walkLevels_true hs hf hroot (fits_indices ha) (indices_lt va)).seq
  rintro o s₁ ⟨p, rfl, hp, hgrown⟩
  refine ⟨p, rfl, hp, hgrown.changed ha hp, ?_, ?_⟩
  · obtain ⟨hnodup, hpage, htable, hframe⟩ := hgrown.fresh
    exact ⟨hnodup, hpage, htable, hframe⟩
  · intro f ⟨htable, hfree⟩
    refine ⟨?_, fun hmem => hfree (hgrown.free.subset hmem)⟩
    intro hmem
    obtain hold | hnew := hgrown.taken f hmem
    · exact htable hold
    · exact hfree hnew

/-- What `mappages` stores for page `k` of the range. -/
def pageEntry (pa perm k : ℕ) : ℕ := (pa + k * PGSIZE) % 2 ^ 64 ||| perm ||| PTE_P

lemma pageEntry_zero (hpa : pa < 2 ^ 64) : pageEntry pa perm 0 = pa ||| perm ||| PTE_P := by
  rw [pageEntry, Nat.zero_mul, Nat.add_zero, Nat.mod_eq_of_lt hpa]

/-- The entries of the pages behind it. -/
lemma pageEntry_succ (pa perm k : ℕ) :
    pageEntry ((pa + PGSIZE) % 2 ^ 64) perm k = pageEntry pa perm (k + 1) := by
  have hsum : ((pa + PGSIZE) % 2 ^ 64 + k * PGSIZE) % 2 ^ 64 = (pa + (k + 1) * PGSIZE) % 2 ^ 64 := by
    unfold PGSIZE
    omega
  rw [pageEntry, hsum, pageEntry]

/-- What a turn of the loop does: the page of `va` is mapped with the entry `e`. -/
structure MapsPage (r va e : ℕ) (s s' : Memory) : Prop where
  changed : Changed r (fun v => v = va / PGSIZE) s s'
  fresh : Fresh s' r s'.freelist
  apart : ∀ f, Apart s r f → Apart s' r f
  entry : mapped s' r va = some e

/-- A page is mapped when its entry is stored. -/
lemma mapsPage_store (hs : Shape s r) (hf : Fresh s r s.freelist) (ha : va < 2 ^ 47)
    (hp : pgtab s r va = some p) (he : Apart s r (frame e)) (hodd : e % 2 = 1) :
    MapsPage r va e s (s.store (slot p (PTX va)) e) where
  changed := changed_store hs ha hp fun _ => he.1
  fresh := by
    obtain ⟨hnodup, hpage, htable, hframe⟩ := hf
    refine ⟨hnodup, hpage, ?_, ?_⟩
    · intro q hq
      rw [tables_store hs ha hp]
      exact htable q hq
    · intro q hq vb hb e' he'
      rw [mapped_store hs ha hp hb, if_pos hodd] at he'
      split at he'
      · obtain rfl := Option.some.inj he'
        exact fun h => he.2 (h ▸ hq)
      · exact hframe q hq vb hb e' he'
  apart f hap := by
    rw [Apart, tables_store hs ha hp]
    exact hap
  entry := by rw [mapped_store hs ha hp ha, if_pos rfl, if_pos hodd]

/-- One turn of the loop, with what follows it. -/
lemma mapPage_ends {f : W Bool} {Q : Bool → Memory → Prop} (hs : Shape s r) (hf : Fresh s r s.freelist)
    (ha : va < 2 ^ 47) (he : Apart s r (frame e)) (hodd : e % 2 = 1)
    (hrest : ∀ s', MapsPage r va e s s' → Ends (fun _ => True) f Q s') :
    Ends (fun _ => True) (do
      match ← walkpgdir r va true with
      | none => return false
      | some pte =>
        if (← get).word pte &&& PTE_P ≠ 0 then throw .remap
        setEntry pte e
        f) Q s := by
  apply (walkpgdir_true hs hf ha).seq
  rintro o s₁ ⟨p, rfl, hp, hch, hf₁, hap⟩
  simp only [ends_bind, ends_get]
  by_cases hpresent : s₁.word (slot p (PTX va)) &&& PTE_P ≠ 0
  · rw [if_pos hpresent, ends_bind]
    trivial
  · rw [if_neg hpresent, ends_bind, ends_setEntry]
    obtain ⟨hch₂, hf₂, hap₂, hentry⟩ := mapsPage_store hch.shape hf₁ ha hp (hap _ he) hodd
    apply hrest
    refine ⟨(hch.trans hch₂).mono ?_, hf₂, fun f hf => hap₂ f (hap f hf), hentry⟩
    intro v hv
    exact hv.resolve_left id

/-- By induction on the pages left; the pages mapped so far are not visited again. -/
lemma mappagesLoop_ends (hs : Shape s r) (hf : Fresh s r s.freelist) (ha : a % PGSIZE = 0)
    (hlt : a + n * PGSIZE < 2 ^ 47) (hpa : pa < 2 ^ 64)
    (hframe : ∀ k ≤ n, Apart s r (frame (pageEntry pa perm k))) :
    Ends (fun _ => True) (mappagesLoop r perm n a pa) (fun _ s' =>
      Changed r (fun v => a / PGSIZE ≤ v ∧ v ≤ a / PGSIZE + n) s s' ∧
      ∀ k ≤ n, mapped s' r (a + k * PGSIZE) = some (pageEntry pa perm k)) s := by
  have hfirst := hframe 0 (Nat.zero_le n)
  rw [pageEntry_zero hpa] at hfirst
  induction n generalizing a pa s with
  | zero =>
    rw [mappagesLoop]
    apply mapPage_ends hs hf (by omega) hfirst (mapEntry_odd pa perm)
    intro s' hmap
    refine ⟨hmap.changed.mono fun v hv => by omega, ?_⟩
    intro k hk
    obtain rfl : k = 0 := by omega
    rw [pageEntry_zero hpa, Nat.zero_mul, Nat.add_zero]
    exact hmap.entry
  | succ n ih =>
    have hnext : (a + PGSIZE) % 2 ^ 64 = a + PGSIZE := by
      unfold PGSIZE at hlt ⊢
      omega
    rw [mappagesLoop]
    apply mapPage_ends hs hf (by omega) hfirst (mapEntry_odd pa perm)
    intro s₁ hmap
    rw [hnext]
    have hframe₁ : ∀ k ≤ n, Apart s₁ r (frame (pageEntry ((pa + PGSIZE) % 2 ^ 64) perm k)) := by
      intro k hk
      rw [pageEntry_succ]
      exact hmap.apart _ (hframe (k + 1) (by omega))
    have hfirst₁ := hframe₁ 0 (Nat.zero_le n)
    rw [pageEntry_zero (Nat.mod_lt _ (by decide))] at hfirst₁
    have hpage : (a + PGSIZE) / PGSIZE = a / PGSIZE + 1 := by
      unfold PGSIZE
      omega
    apply (ih hmap.changed.shape hmap.fresh ?_ ?_ (Nat.mod_lt _ (by decide)) hframe₁ hfirst₁).mono
    · exact fun _ => id
    · intro _ s' ⟨hch, hentry⟩
      rw [hpage] at hch
      refine ⟨(hmap.changed.trans hch).mono fun v hv => by omega, ?_⟩
      intro k hk
      cases k with
      | zero =>
        -- the rest of the loop is about later pages
        rw [Nat.zero_mul, Nat.add_zero, pageEntry_zero hpa, hch.other a (by omega) (by omega)]
        exact hmap.entry
      | succ k =>
        have hadd : a + (k + 1) * PGSIZE = a + PGSIZE + k * PGSIZE := by ring
        rw [hadd, hentry k (by omega), pageEntry_succ]
    · unfold PGSIZE at ha ⊢
      omega
    · unfold PGSIZE at hlt ⊢
      omega

/-! ## `deallocuvm` -/

/-- The memory after `kfree`. -/
def Memory.freed (s : Memory) (v : ℕ) : Memory :=
  { s.fill v 0x0101010101010101 with freelist := v :: s.freelist }

/-- A page that is no table of the tree may be freed. -/
lemma changed_freed (hs : Shape s r) (hp : Page p) (hpt : p ∉ tables s r) :
    Changed r (fun _ => False) s (s.freed p) := by
  have hfill : Changed r (fun _ => False) s (s.fill p 0x0101010101010101) := changed_fill hs hp hpt
  exact (hfill.trans (changed_freelist hfill.shape)).mono fun _ h => h.elim id id

/-- `kfree` frees the page, or panics at an address that is none. -/
lemma kfree_ends (v : ℕ) : Ends (fun _ => True) (kfree K v) (fun _ s' => s' = s.freed v) s := by
  unfold kfree
  by_cases hpanic : v % PGSIZE ≠ 0 ∨ v < P2V (K.first * PGSIZE) ∨ PHYSTOP ≤ V2P v
  · rw [if_pos hpanic, ends_bind]
    trivial
  · rw [if_neg hpanic, ends_bind]
    rfl

/-- What a turn of the loop does: the page of `va` is not mapped any more. -/
structure UnmapsPage (r va : ℕ) (s s' : Memory) : Prop where
  changed : Changed r (fun v => v = va / PGSIZE) s s'
  entry : mapped s' r va = none

/-- One turn of the loop, with what follows it. -/
lemma unmapPage_ends {f : W Unit} {Q : Unit → Memory → Prop} (hs : Shape s r) (ha : va < 2 ^ 47)
    (hrest : ∀ s', UnmapsPage r va s s' → Ends (fun _ => True) f Q s') :
    Ends (fun _ => True) (do
      match ← walkpgdir r va false with
      | none => pure ()
      | some pte =>
        let e := (← get).word pte
        if e &&& PTE_P ≠ 0 then
          if PTE_ADDR e = 0 then throw .kfree
          kfree K (P2V (PTE_ADDR e))
          setEntry pte 0
      f) Q s := by
  apply (walkpgdir_false hs.root).seq
  rintro o s₁ (⟨hnone, rfl, rfl⟩ | ⟨p, hp, rfl, rfl⟩)
  · -- there is no slot
    apply hrest
    exact ⟨(Changed.refl hs).mono fun _ h => h.elim, mapped_of_none hnone⟩
  · have hlog : Changed r (fun _ => False) s (s.log va false (slot p (PTX va))) := changed_log hs ha hp
    have hp₁ := hlog.kept va ha p hp
    generalize s.log va false (slot p (PTX va)) = s₁ at hlog hp₁
    simp only [ends_bind, ends_get]
    by_cases hpresent : s₁.word (slot p (PTX va)) &&& PTE_P ≠ 0
    · rw [if_pos hpresent]
      split
      · trivial
      · have hmapped : mapped s₁ r va = some (s₁.word (slot p (PTX va))) := by
          rw [mapped_of_some hp₁]
          exact if_pos (present_iff.mp hpresent)
        have hpage := page_P2V (s₁.word (slot p (PTX va)))
        have hpt : P2V (PTE_ADDR (s₁.word (slot p (PTX va)))) ∉ tables s₁ r :=
          hlog.shape.frame va ha _ hmapped
        generalize P2V (PTE_ADDR (s₁.word (slot p (PTX va)))) = v at hpage hpt
        have hfreed := changed_freed hlog.shape hpage hpt
        have hp₂ := hfreed.kept va ha p hp₁
        refine (kfree_ends _).seq ?_
        rintro - s₂ rfl
        rw [ends_bind, ends_setEntry]
        have hstore := changed_store (e := 0) hfreed.shape ha hp₂ (by omega)
        apply hrest
        refine ⟨((hlog.trans hfreed).trans hstore).mono ?_, ?_⟩
        · intro v hv
          simpa using hv
        · rw [mapped_store hfreed.shape ha hp₂ ha, if_pos rfl]
          rfl
    · rw [if_neg hpresent]
      apply hrest
      refine ⟨hlog.mono fun _ h => h.elim, ?_⟩
      rw [mapped_of_some hp₁]
      exact if_neg fun hodd => hpresent (present_iff.mpr hodd)

/-- By induction on the pages left: none of them is mapped at the end. -/
lemma deallocuvmLoop_ends (hs : Shape s r) (hlt : ∀ k < n, a + k * PGSIZE < 2 ^ 47) :
    Ends (fun _ => True) (deallocuvmLoop K r n a) (fun _ s' =>
      Changed r (fun v => a / PGSIZE ≤ v ∧ v < a / PGSIZE + n) s s' ∧
      ∀ k < n, mapped s' r (a + k * PGSIZE) = none) s := by
  induction n generalizing a s with
  | zero => exact ⟨(Changed.refl hs).mono fun _ h => h.elim, fun k hk => by omega⟩
  | succ n ih =>
    have ha := hlt 0 (by omega)
    rw [Nat.zero_mul, Nat.add_zero] at ha
    have hpage : (a + PGSIZE) / PGSIZE = a / PGSIZE + 1 := by
      unfold PGSIZE
      omega
    have hadd : ∀ k, a + (k + 1) * PGSIZE = a + PGSIZE + k * PGSIZE := fun k => by ring
    rw [deallocuvmLoop]
    apply unmapPage_ends hs ha
    intro s₁ hunmap
    have hlt₁ : ∀ k < n, a + PGSIZE + k * PGSIZE < 2 ^ 47 := by
      intro k hk
      rw [← hadd]
      exact hlt (k + 1) (by omega)
    apply (ih hunmap.changed.shape hlt₁).mono (fun _ => id)
    intro _ s' ⟨hch, hnone⟩
    rw [hpage] at hch
    refine ⟨(hunmap.changed.trans hch).mono fun v hv => by omega, ?_⟩
    intro k hk
    cases k with
    | zero =>
      -- the rest of the loop is about later pages
      rw [Nat.zero_mul, Nat.add_zero, hch.other a ha (by omega)]
      exact hunmap.entry
    | succ k =>
      rw [hadd]
      exact hnone k (by omega)

end Paging
end OhMyXv6
