import OhMyXv6.Vm.Table

/-!
# What `walkpgdir`, `mappages` and `allocuvm` add to a page table

A page is found through the tables on its path, so mapping it takes a page for every part of the path that
is missing. `Grown` says that the paths in `P` have been added and that this took as many pages as were
missing; `Short` says that there are not that many. Both go along with the union of sets of paths, so that
what a loop needs is what its rounds need together.
-/

namespace OhMyXv6
namespace Vm

open Radix Fallible

variable {K : Kernel} {m m' m'' : Mem} {r t f i v n : ℕ} {F X : Multiset ℕ} {p q : List ℕ}
  {P P' : Finset (List ℕ)} {e : Pte}

/-- The paths at which nothing is found. -/
def missing (m : Mem) (r : ℕ) (P : Finset (List ℕ)) : Finset (List ℕ) :=
  P.filter fun p => find m r p = none

/-- The paths `P` were added to a page table, with pages from the free list. -/
structure Grown (K : Kernel) (m m' : Mem) (r : ℕ) (F : Multiset ℕ) (P : Finset (List ℕ)) : Prop where
  owns : Owns K m' (Tree m' r + F)
  frame : ∀ g ∈ F, m'.table g = m.table g
  found : ∀ s, Fits entries 4 s → ((find m' r s).isSome ↔ (find m r s).isSome ∨ s ∈ P)
  half : ∀ j, NPDENTRIES / 2 ≤ j → m'.table r j = m.table r j
  free : m'.freelist.length + (missing m r P).card = m.freelist.length

/-- There are fewer free pages than paths to add. -/
def Short (m : Mem) (r : ℕ) (P : Finset (List ℕ)) (e : Panic) : Prop :=
  e = .outOfMemory ∧ m.freelist.length < (missing m r P).card

lemma Grown.refl (h : Owns K m (Tree m r + F)) : Grown K m m r F ∅ where
  owns := h
  frame _ _ := rfl
  found s _ := by simp
  half _ _ := rfl
  free := rfl

/-- What is missing of two sets of paths is added one after the other. -/
lemma Grown.missing_union (h : Grown K m m' r F P) (hP' : ∀ s ∈ P', Fits entries 4 s) :
    (missing m r (P ∪ P')).card = (missing m r P).card + (missing m' r P').card := by
  have hdisj : Disjoint (missing m r P) (missing m' r P') := by
    rw [Finset.disjoint_left]
    intro s hs hs'
    obtain ⟨hsP, -⟩ := Finset.mem_filter.mp hs
    obtain ⟨hsP', hnone⟩ := Finset.mem_filter.mp hs'
    have hsome := (h.found s (hP' s hsP')).mpr (.inr hsP)
    rw [hnone] at hsome
    cases hsome
  rw [← Finset.card_union_of_disjoint hdisj]
  congr 1
  ext s
  simp only [missing, Finset.mem_filter, Finset.mem_union]
  constructor
  · rintro ⟨hs, hnone⟩
    by_cases hsP : s ∈ P
    · exact .inl ⟨hsP, hnone⟩
    · obtain hs | hs := hs
      · exact (hsP hs).elim
      · refine .inr ⟨hs, ?_⟩
        rw [← Option.not_isSome_iff_eq_none, h.found s (hP' s hs), hnone]
        simpa using hsP
  · rintro (⟨hs, hnone⟩ | ⟨hs, hnone⟩)
    · exact ⟨.inl hs, hnone⟩
    · refine ⟨.inr hs, ?_⟩
      rw [← Option.not_isSome_iff_eq_none] at hnone ⊢
      exact fun hsome => hnone ((h.found s (hP' s hs)).mpr (.inl hsome))

/-- Paths are added one after the other. -/
lemma Grown.trans (h : Grown K m m' r F P) (h' : Grown K m' m'' r F P')
    (hP' : ∀ s ∈ P', Fits entries 4 s) : Grown K m m'' r F (P ∪ P') where
  owns := h'.owns
  frame g hg := (h'.frame g hg).trans (h.frame g hg)
  found s hs := by rw [h'.found s hs, h.found s hs, Finset.mem_union, or_assoc]
  half j hj := (h'.half j hj).trans (h.half j hj)
  free := by
    have := h.free
    have := h'.free
    rw [h.missing_union hP']
    omega

/-- Too few pages for the rest are too few for the whole. -/
lemma Short.of_grown {e : Panic} (h : Short m' r P' e) (hg : Grown K m m' r F P)
    (hP' : ∀ s ∈ P', Fits entries 4 s) : Short m r (P ∪ P') e := by
  refine ⟨h.1, ?_⟩
  have := hg.free
  have := h.2
  rw [hg.missing_union hP']
  omega

/-- For more paths the memory is too small as well. -/
lemma Short.mono {e : Panic} (h : Short m r P e) (hle : P ⊆ P') : Short m r P' e :=
  ⟨h.1, h.2.trans_le (Finset.card_le_card (Finset.filter_subset_filter _ hle))⟩

/-! ## The allocator -/

/-- `kalloc` takes the first free page, or panics. -/
lemma kalloc_ends : Ends (fun e => e = .outOfMemory ∧ m.freelist = []) kalloc
    (fun o m' => ∃ f next, o = some f ∧ m.freelist = f :: next ∧ m' = { m with freelist := next }) m := by
  unfold kalloc
  rw [ends_bind, ends_get]
  cases hfree : m.freelist with
  | nil => exact ⟨rfl, rfl⟩
  | cons f next =>
    simp only [ends_bind, ends_modify, ends_pure]
    exact ⟨f, next, rfl, rfl, rfl⟩

/-- Without a free page it panics. -/
lemma kalloc_nil (hfree : m.freelist = []) : kalloc.run m = .error .outOfMemory := by
  unfold kalloc
  rw [StateT.run_bind, StateT.run_get, pure_bind, hfree]
  rfl

lemma kalloc_cons {next : List ℕ} (hfree : m.freelist = f :: next) :
    kalloc.run m = .ok (some f, { m with freelist := next }) := by
  unfold kalloc
  rw [StateT.run_bind, StateT.run_get, pure_bind, hfree]
  rfl

/-- A page of the allocator is freed. -/
lemma kfree_ends (hf : K.first ≤ f ∧ f < topFrame) : Ends (fun _ => False) (kfree K f)
    (fun _ m' => m' = { m.fill f (fun _ => .junk) (fun _ => 1) with freelist := f :: m.freelist }) m := by
  unfold kfree
  have hnot : ¬ (f < K.first ∨ topFrame ≤ f) := by omega
  rw [if_neg hnot]
  rfl

/-- A page is taken from the free list. -/
lemma Owns.take {next : List ℕ} (h : Owns K m X) (hfree : m.freelist = f :: next) :
    Owns K { m with freelist := next } (f ::ₘ X) := by
  unfold Owns at h ⊢
  rw [← h, hfree, ← Multiset.cons_coe, Multiset.add_cons, Multiset.cons_add]

/-- Another page has changed than those of the page table. -/
lemma tree_off (h : ∀ g, g ≠ f → m'.table g = m.table g) (hf : f ∉ Tree m r) : Tree m' r = Tree m r :=
  tree_congr fun g hg => h g fun heq => hf (heq ▸ hg)

/-- What is written outside of a page table does not change it. -/
lemma find_off (h : ∀ g, g ≠ f → m'.table g = m.table g) (hf : f ∉ Tree m r)
    (hp : Fits entries 4 p) : find m' r p = find m r p :=
  find_congr hp fun g hg => h g fun heq => hf (heq ▸ hg)

/-! ## `walkpgdir` -/

/-- The parts of a path `q ++ is` behind `q`. -/
def steps (q : List ℕ) : List ℕ → Finset (List ℕ)
  | [] => ∅
  | i :: is => {q ++ [i]} ∪ steps (q ++ [i]) is

/-- The tables on the way to an entry. -/
lemma isPrefix_of_mem_steps {is s : List ℕ} (h : s ∈ steps q is) : s <+: q ++ is := by
  induction is generalizing q with
  | nil => exact (Finset.notMem_empty s h).elim
  | cons i is ih =>
    rw [steps, Finset.mem_union, Finset.mem_singleton] at h
    have hsplit : q ++ i :: is = q ++ [i] ++ is := by simp
    rw [hsplit]
    obtain rfl | h := h
    · exact List.prefix_append _ _
    · exact ih h

lemma fits_of_mem_steps {is s : List ℕ} (hfits : Fits entries 4 (q ++ is)) (h : s ∈ steps q is) :
    Fits entries 4 s := by
  obtain ⟨z, hz⟩ := isPrefix_of_mem_steps h
  rw [← hz] at hfits
  exact hfits.of_append

/-- What a page that is linked adds. -/
lemma Grown.of_linked {next : List ℕ} {page : ℕ → Pte} {bytes : ℕ → UInt8} {m₁ m₂ : Mem}
    (hown : Owns K m (Tree m r + F)) (hfree : m.freelist = f :: next)
    (hm₁ : m₁ = { m with freelist := next }.fill f page bytes)
    (hnone : find m r p = none) (h : Linked K m₁ m₂ r F p f) : Grown K m m₂ r F {p} := by
  have hf : f ∈ m.freelist := by
    rw [hfree]
    exact List.mem_cons_self
  have hft : f ∉ Tree m r := fun hmem => hown.not_mem_free (Multiset.mem_add.mpr (.inl hmem)) hf
  have hfF : f ∉ F := fun hmem => hown.not_mem_free (Multiset.mem_add.mpr (.inr hmem)) hf
  have hsame : ∀ g, g ≠ f → m₁.table g = m.table g := by
    intro g hg
    rw [hm₁]
    exact Function.update_of_ne hg _ _
  constructor
  · exact h.owns
  · intro g hg
    rw [h.frame g hg]
    exact hsame g fun heq => hfF (heq ▸ hg)
  · intro s hs
    rw [h.found s hs, Finset.mem_singleton]
    by_cases hsp : s = p
    · rw [if_pos hsp]
      simp [hsp]
    · rw [if_neg hsp, find_off hsame hft hs]
      simp [hsp]
  · intro j hj
    rw [h.half j hj, hsame r fun heq => hft (heq ▸ root_mem_tree)]
  · have hmiss : missing m r {p} = {p} := by
      unfold missing
      rw [Finset.filter_singleton, if_pos hnone]
    rw [hmiss, h.free, hm₁, hfree]
    rfl

/-- One level of a walk finds a table or adds one. -/
lemma walkLevel_ends (hown : Owns K m (Tree m r + F)) (hq : find m r q = some t)
    (hfits : Fits entries 4 (q ++ [i])) :
    Ends (Short m r {q ++ [i]}) (walkLevel true t i) (fun o m' => ∃ f, o = some f ∧
      find m' r (q ++ [i]) = some f ∧ Grown K m m' r F {q ++ [i]}) m := by
  unfold walkLevel
  rw [ends_bind, ends_get]
  by_cases hp : (m.table t i).p
  · -- the table is there already
    have hfind : find m r (q ++ [i]) = some (m.table t i).frame := by
      rw [find_concat hq, child, if_pos hp]
    rw [if_pos hp, ends_pure]
    refine ⟨_, rfl, hfind, hown, fun _ _ => rfl, ?_, fun _ _ => rfl, ?_⟩
    · intro s hs
      rw [Finset.mem_singleton]
      constructor
      · exact .inl
      · rintro (h | rfl)
        · exact h
        · rw [hfind]
          rfl
    · have hmiss : missing m r {q ++ [i]} = ∅ := by
        unfold missing
        rw [Finset.filter_singleton, hfind, if_neg (by simp)]
      rw [hmiss]
      rfl
  · have hchild : child m t i = none := by
      unfold child
      rw [if_neg hp]
    have hnone : find m r (q ++ [i]) = none := by rw [find_concat hq, hchild]
    have hmiss : missing m r {q ++ [i]} = {q ++ [i]} := by
      unfold missing
      rw [Finset.filter_singleton, if_pos hnone]
    rw [if_neg hp]
    simp only [Bool.not_true, Bool.false_eq_true, if_false]
    apply Ends.seq (R := fun o m' => ∃ f next, o = some f ∧ m.freelist = f :: next ∧
      m' = { m with freelist := next })
    · apply kalloc_ends.mono
      · rintro e ⟨rfl, hempty⟩
        refine ⟨rfl, ?_⟩
        rw [hmiss, hempty]
        simp
      · exact fun _ _ h => h
    · rintro o m₀ ⟨f, next, rfl, hfree, rfl⟩
      simp only [zeroPage, setPte, ends_bind, ends_modify, ends_pure]
      have hf : f ∈ m.freelist := by
        rw [hfree]
        exact List.mem_cons_self
      have hft : f ∉ Tree m r := fun hmem => hown.not_mem_free (Multiset.mem_add.mpr (.inl hmem)) hf
      have htf : t ≠ f := fun h => hft (h ▸ find_mem_tree hfits.of_append hq)
      have htake := hown.take hfree
      obtain ⟨m₁, hm₁⟩ : ∃ m₁, m₁ = { m with freelist := next }.fill f (fun _ => Pte.zero) fun _ => 0 :=
        ⟨_, rfl⟩
      rw [← hm₁]
      have hsame : ∀ g, g ≠ f → m₁.table g = m.table g := by
        intro g hg
        rw [hm₁]
        exact Function.update_of_ne hg _ _
      have hlinked := link (m := m₁) (K := K) (F := F)
        (e := ⟨f, true, true, true⟩) (q := q) (i := i) (t := t) (r := r) (f := f)
        (by
          apply htake.congr (by rw [hm₁]; rfl)
          rw [tree_off hsame hft, Multiset.add_cons])
        (by rw [find_off hsame hft hfits.of_append, hq]) hfits
        (by rw [child_congr (hsame t htf), hchild])
        (.inr fun j => by unfold child; rw [hm₁, table_fill_self]; rfl) rfl rfl
      refine ⟨f, rfl, ?_, Grown.of_linked hown hfree hm₁ hnone hlinked⟩
      rw [hlinked.found _ hfits, if_pos rfl]

lemma walkLevels_ends (is : List ℕ) (hown : Owns K m (Tree m r + F)) (hq : find m r q = some t)
    (hfits : Fits entries 4 (q ++ is)) :
    Ends (Short m r (steps q is)) (walkLevels true t is) (fun o m' => ∃ f, o = some f ∧
      find m' r (q ++ is) = some f ∧ Grown K m m' r F (steps q is)) m := by
  induction is generalizing q t m with
  | nil =>
    rw [walkLevels, ends_pure, List.append_nil]
    exact ⟨t, rfl, hq, Grown.refl hown⟩
  | cons i is ih =>
    have hsplit : q ++ i :: is = q ++ [i] ++ is := by simp
    rw [hsplit] at hfits ⊢
    have hrest : ∀ s ∈ steps (q ++ [i]) is, Fits entries 4 s := fun s hs => fits_of_mem_steps hfits hs
    rw [walkLevels, steps]
    apply Ends.seq (R := fun o m' => ∃ f, o = some f ∧ find m' r (q ++ [i]) = some f ∧
      Grown K m m' r F {q ++ [i]})
    · exact (walkLevel_ends hown hq hfits.of_append).mono
        (fun e he => he.mono Finset.subset_union_left) fun _ _ h => h
    · rintro o m₁ ⟨f, rfl, hfind, hgrown⟩
      apply (ih hgrown.owns hfind hfits).mono
      · exact fun e he => he.of_grown hgrown hrest
      · rintro o m₂ ⟨g, rfl, hg, hgrown₂⟩
        exact ⟨g, rfl, hg, hgrown.trans hgrown₂ hrest⟩

/-- The walk that allocates nothing. -/
lemma walkLevels_false_ends {is : List ℕ} : Ends (fun _ => False) (walkLevels false t is)
    (fun o m' => m' = m ∧ o = reach (child m) t is) m := by
  induction is generalizing t with
  | nil => exact ⟨rfl, rfl⟩
  | cons i is ih =>
    have hlevel : Ends (fun _ => False) (walkLevel false t i)
        (fun o m' => m' = m ∧ o = child m t i) m := by
      unfold walkLevel child
      rw [ends_bind, ends_get]
      by_cases hp : (m.table t i).p
      · rw [if_pos hp, if_pos hp]
        exact ⟨rfl, rfl⟩
      · rw [if_neg hp, if_neg hp]
        exact ⟨rfl, rfl⟩
    rw [walkLevels, reach_cons]
    apply hlevel.seq
    rintro o m₁ ⟨rfl, rfl⟩
    cases hc : child m₁ t i with
    | none => exact ⟨rfl, rfl⟩
    | some g => exact ih

/-- The tables on the path of a page. -/
def tables (v : ℕ) : List ℕ := [v / 2 ^ 27 % 512, v / 2 ^ 18 % 512, v / 2 ^ 9 % 512]

/-- The last index leads from the last table to the page. -/
lemma path_eq : path v = tables v ++ [v % 512] := rfl

/-- A walk without `alloc` finds the table that there is. -/
lemma walkpgdir_false_ends : Ends (fun _ => False) (walkpgdir r (v * PGSIZE) false)
    (fun o m' => m' = m ∧ o = (find m r (tables v)).map fun t => (t, v % 512)) m := by
  unfold walkpgdir
  rw [PMX_page, PDPX_page, PDX_page, PTX_page]
  apply walkLevels_false_ends.seq
  rintro o m₁ ⟨rfl, rfl⟩
  unfold find tables
  cases reach (child m₁) r [v / 2 ^ 27 % 512, v / 2 ^ 18 % 512, v / 2 ^ 9 % 512] with
  | none => exact ⟨rfl, rfl⟩
  | some t => exact ⟨rfl, rfl⟩

/-! ## `mappages` -/

/-- What mapping a page adds to the page table: the tables on its path, and the page. -/
def prefixes (v : ℕ) : Finset (List ℕ) := steps [] (tables v) ∪ {path v}

/-- The tables on the way to a page are in the user half. -/
lemma fits_of_mem_prefixes {s : List ℕ} (hv : v < userPages) (h : s ∈ prefixes v) :
    Fits entries 4 s := by
  have hpath := fits_path hv
  rw [prefixes, Finset.mem_union, Finset.mem_singleton] at h
  obtain h | rfl := h
  · rw [path_eq] at hpath
    exact fits_of_mem_steps (q := []) hpath.of_append h
  · exact hpath

/-- `mappages` of one page is one round. -/
lemma mappages_page {w u : Bool} :
    mappages r (v * PGSIZE) PGSIZE f w u = mappagesLoop r w u 0 (v * PGSIZE) f := by
  have hdown : PGROUNDDOWN (v * PGSIZE) = v * PGSIZE := by
    unfold PGROUNDDOWN PGSIZE
    omega
  have hlast : PGROUNDDOWN (v * PGSIZE + PGSIZE - 1) = v * PGSIZE := by
    unfold PGROUNDDOWN PGSIZE
    omega
  unfold mappages
  simp only [hdown, hlast, Nat.sub_self, Nat.zero_div]

/-- The entry for page number `v`. -/
def Leaf (m : Mem) (r v : ℕ) (e : Pte) : Prop :=
  ∃ t, find m r (tables v) = some t ∧ m.table t (v % 512) = e

/-- The entry for a page, which is there, with these flags. -/
def Flagged (m : Mem) (r v : ℕ) (w u : Bool) : Prop :=
  ∃ t f, find m r (tables v) = some t ∧ m.table t (v % 512) = ⟨f, true, w, u⟩

/-- The flags of an entry that was written. -/
lemma Leaf.flagged {w u : Bool} (h : Leaf m r v ⟨f, true, w, u⟩) : Flagged m r v w u :=
  ⟨h.choose, f, h.choose_spec⟩

/-- The page table has the table that the entry for a mapped page is in. -/
theorem find_tables {f : ℕ} (h : find m r (path v) = some f) :
    ∃ t, find m r (tables v) = some t ∧ (m.table t (v % 512)).p = true ∧ (m.table t (v % 512)).frame = f := by
  rw [path_eq] at h
  cases ht : find m r (tables v) with
  | none =>
    rw [find_of_none ht (List.prefix_append _ [v % 512])] at h
    cases h
  | some t =>
    rw [find_concat ht, child] at h
    split at h
    · next hp => exact ⟨t, rfl, hp, Option.some.inj h⟩
    · cases h

lemma Leaf.find (h : Leaf m r v e) (hp : e.p = true) : Vm.find m r (path v) = some e.frame := by
  obtain ⟨t, ht, rfl⟩ := h
  rw [path_eq, find_concat ht, child, if_pos hp]

/-- The page of an entry is one of the page table. -/
lemma Leaf.mem_tree (h : Leaf m r v e) (hv : v < userPages) (hp : e.p = true) : e.frame ∈ Tree m r :=
  find_mem_tree (fits_path hv) (h.find hp)

/-- The entry is the same where the page table is. -/
lemma Leaf.of_eq (h : Leaf m' r v e) (hv : v < userPages) (hsame : ∀ g ∈ Tree m r, m'.table g = m.table g) :
    Leaf m r v e := by
  obtain ⟨t, ht, rfl⟩ := h
  have hpath := fits_path hv
  rw [path_eq] at hpath
  rw [find_congr hpath.of_append hsame] at ht
  exact ⟨t, ht, by rw [hsame t (find_mem_tree hpath.of_append ht)]⟩

lemma table_setEntry_self : (m.setEntry t i e).table t i = e := by
  unfold Mem.setEntry
  simp only [Function.update_self]

/-- `mappages` of a page adds it, or the memory is full. -/
lemma mappages_ends {w u : Bool} (hown : Owns K m (Tree m r + (f ::ₘ F))) (hv : v < userPages)
    (hnone : find m r (path v) = none) :
    Ends (Short m r (steps [] (tables v))) (mappages r (v * PGSIZE) PGSIZE f w u)
      (fun ok m' => ok = true ∧ Leaf m' r v ⟨f, true, w, u⟩ ∧
        ∃ m₁, Grown K m m₁ r (f ::ₘ F) (steps [] (tables v)) ∧ Linked K m₁ m' r F (path v) f) m := by
  have hpath := fits_path hv
  rw [path_eq] at hpath hnone
  rw [mappages_page, mappagesLoop, walkpgdir, PMX_page, PDPX_page, PDX_page, PTX_page, ends_bind,
    ends_bind]
  apply (walkLevels_ends (tables v) hown find_nil (by exact hpath.of_append)).mono fun _ he => he
  rintro o m₁ ⟨t, rfl, ht, hgrown⟩
  rw [List.nil_append] at ht
  -- the entry is still free: the walk has added tables only
  have hnone₁ : find m₁ r (tables v ++ [v % 512]) = none := by
    rw [← Option.not_isSome_iff_eq_none, hgrown.found _ hpath, hnone]
    rintro (h | h)
    · cases h
    · have := (isPrefix_of_mem_steps h).length_le
      simp [tables] at this
  have hchild : child m₁ t (v % 512) = none := by rw [← find_concat ht, hnone₁]
  have hp : (m₁.table t (v % 512)).p = false := by
    unfold child at hchild
    split at hchild
    · cases hchild
    · next h => exact Bool.eq_false_iff.mpr h
  simp only [ends_pure, ends_bind, ends_get, hp, Bool.false_eq_true, if_false, setPte, ends_modify, true_and]
  have hlinked := link (e := ⟨f, true, w, u⟩) hgrown.owns ht hpath hchild (.inl rfl) rfl rfl
  have hne : tables v ≠ tables v ++ [v % 512] := by simp
  refine ⟨⟨t, ?_, table_setEntry_self⟩, m₁, hgrown, hlinked⟩
  rw [hlinked.found _ hpath.of_append, if_neg hne, ht]

/-! ## What stays as it is -/

/-- Pages are taken from the free list, and of the others only entries change that were empty. -/
def Adds (m m' : Mem) : Prop :=
  ∃ taken, m.freelist = taken ++ m'.freelist ∧ ∀ g ∉ taken,
    m'.data g = m.data g ∧ ∀ i, (m.table g i).p = true → m'.table g i = m.table g i

lemma Adds.refl : Adds m m := ⟨[], rfl, fun _ _ => ⟨rfl, fun _ _ => rfl⟩⟩

/-- Entries are added one after the other. -/
lemma Adds.trans (h : Adds m m') (h' : Adds m' m'') : Adds m m'' := by
  obtain ⟨taken, hfree, hkeep⟩ := h
  obtain ⟨taken', hfree', hkeep'⟩ := h'
  refine ⟨taken ++ taken', by rw [hfree, hfree', List.append_assoc], fun g hg => ?_⟩
  rw [List.mem_append, not_or] at hg
  obtain ⟨hdata, htable⟩ := hkeep g hg.1
  obtain ⟨hdata', htable'⟩ := hkeep' g hg.2
  refine ⟨hdata'.trans hdata, fun i hp => ?_⟩
  have hentry := htable i hp
  exact (htable' i (hentry ▸ hp)).trans hentry

/-- A page that is taken and filled. -/
lemma Adds.fill {next : List ℕ} {page : ℕ → Pte} {bytes : ℕ → UInt8} (h : m.freelist = f :: next) :
    Adds m ({ m with freelist := next }.fill f page bytes) := by
  refine ⟨[f], h, fun g hg => ?_⟩
  have hgf : g ≠ f := fun heq => hg (List.mem_singleton.mpr heq)
  refine ⟨Function.update_of_ne hgf _ _, fun i _ => ?_⟩
  exact congrFun (Function.update_of_ne hgf _ _) i

/-- An entry that was not present is written. -/
lemma Adds.setEntry (h : (m.table t i).p = false) : Adds m (m.setEntry t i e) := by
  refine ⟨[], rfl, fun g _ => ⟨rfl, fun j hp => ?_⟩⟩
  by_cases hg : g = t
  · subst hg
    have hji : j ≠ i := by
      rintro rfl
      rw [h] at hp
      exact nomatch hp
    unfold Mem.setEntry
    simp only [Function.update_self, Function.update_of_ne hji]
  · rw [table_setEntry_of_ne hg]

/-- A page that was not free holds what it held. -/
lemma Adds.data (h : Adds m m') (hg : f ∉ m.freelist) : m'.data f = m.data f := by
  obtain ⟨taken, hfree, hkeep⟩ := h
  exact (hkeep f fun hmem => hg (hfree ▸ List.mem_append_left _ hmem)).1

/-- An entry that was present is as it was. -/
lemma Adds.entry (h : Adds m m') (hg : f ∉ m.freelist) (hp : (m.table f i).p = true) :
    m'.table f i = m.table f i := by
  obtain ⟨taken, hfree, hkeep⟩ := h
  exact (hkeep f fun hmem => hg (hfree ▸ List.mem_append_left _ hmem)).2 i hp

/-- What is found stays there, when no page on the way is free. -/
lemma Adds.find (h : Adds m m') (hfree : ∀ g ∈ Tree m r, g ∉ m.freelist) (hp : Fits entries 4 p)
    (hfind : find m r p = some f) : find m' r p = some f := by
  unfold Tree at hfree
  refine reach_mono hp (fun g hg i x hx => ?_) hfind
  have hentry := h.entry (i := i) (hfree g hg)
  unfold child at hx ⊢
  by_cases hpresent : (m.table g i).p
  · rw [hentry hpresent]
    exact hx
  · rw [if_neg hpresent] at hx
    exact nomatch hx

/-- So does the entry of a page. -/
lemma Adds.leaf (h : Adds m m') (hfree : ∀ g ∈ Tree m r, g ∉ m.freelist) (hv : v < userPages)
    (hleaf : Leaf m r v e) (hp : e.p = true) : Leaf m' r v e := by
  obtain ⟨t, ht, he⟩ := hleaf
  have hpath := fits_path hv
  rw [path_eq] at hpath
  refine ⟨t, h.find hfree hpath.of_append ht, ?_⟩
  rw [h.entry (hfree t (find_mem_tree hpath.of_append ht)) (by rw [he]; exact hp), he]

lemma walkLevel_adds : Ends (fun _ => True) (walkLevel true t i) (fun _ m' => Adds m m') m := by
  unfold walkLevel
  rw [ends_bind, ends_get]
  by_cases hp : (m.table t i).p
  · rw [if_pos hp]
    exact .refl
  rw [if_neg hp]
  simp only [Bool.not_true, Bool.false_eq_true, if_false]
  refine Ends.seq (kalloc_ends.mono (fun _ _ => trivial) fun _ _ h => h) ?_
  rintro o m₀ ⟨f, next, rfl, hfree, rfl⟩
  simp only [zeroPage, setPte, ends_bind, ends_modify, ends_pure]
  refine (Adds.fill hfree).trans (Adds.setEntry ?_)
  by_cases htf : t = f
  · rw [htf, table_fill_self]
    rfl
  · rw [table_fill_of_ne htf]
    exact Bool.eq_false_iff.mpr hp

lemma walkLevels_adds (is : List ℕ) :
    Ends (fun _ => True) (walkLevels true t is) (fun _ m' => Adds m m') m := by
  induction is generalizing t m with
  | nil => exact .refl
  | cons i is ih =>
    rw [walkLevels]
    refine walkLevel_adds.seq fun o m₁ hadds => ?_
    cases o with
    | none => exact hadds
    | some f => exact ih.mono (fun _ he => he) fun _ m₂ hadds₂ => hadds.trans hadds₂

lemma walkpgdir_adds {a : ℕ} :
    Ends (fun _ => True) (walkpgdir r a true) (fun _ m' => Adds m m') m := by
  unfold walkpgdir
  refine (walkLevels_adds _).seq fun o m₁ hadds => ?_
  cases o with
  | none => exact hadds
  | some t => exact hadds

/-- One round of the loop, and what follows it. -/
lemma mapRound_adds {w u : Bool} {a pa : ℕ} {next : V Bool}
    (hnext : ∀ m', Ends (fun _ => True) next (fun _ m'' => Adds m' m'') m') :
    Ends (fun _ => True) (do
      match ← walkpgdir r a true with
      | none => return false
      | some (t, i) =>
        if ((← get).table t i).p then throw .remap
        setPte t i ⟨pa, true, w, u⟩
        next) (fun _ m' => Adds m m') m := by
  refine walkpgdir_adds.seq fun o m₁ hadds => ?_
  cases o with
  | none => exact hadds
  | some place =>
    obtain ⟨t, i⟩ := place
    dsimp only
    rw [ends_bind, ends_get]
    by_cases hp : (m₁.table t i).p
    · rw [if_pos hp]
      trivial
    rw [if_neg hp, setPte, ends_bind, ends_modify]
    refine (hnext _).mono (fun _ he => he) fun _ m₂ hadds₂ => hadds.trans (.trans ?_ hadds₂)
    exact Adds.setEntry (Bool.eq_false_iff.mpr hp)

lemma mappagesLoop_adds {w u : Bool} {a pa : ℕ} :
    Ends (fun _ => True) (mappagesLoop r w u n a pa) (fun _ m' => Adds m m') m := by
  induction n generalizing m a pa with
  | zero =>
    rw [mappagesLoop]
    exact mapRound_adds fun m' => Adds.refl
  | succ n ih =>
    rw [mappagesLoop]
    exact mapRound_adds fun m' => ih

/-- A page has been mapped with these flags, and holds `bytes`. -/
structure Mapped (m m' : Mem) (r v : ℕ) (w u : Bool) (bytes : ℕ → UInt8) : Prop where
  adds : Adds m m'
  leaf : ∃ f, Leaf m' r v ⟨f, true, w, u⟩ ∧ m'.data f = bytes

/-- The flags of a page that was mapped. -/
lemma Mapped.flagged {w u : Bool} {bytes : ℕ → UInt8} (h : Mapped m m' r v w u bytes) :
    Flagged m' r v w u := h.leaf.choose_spec.1.flagged

/-- **A page is taken, filled and mapped**, as in `allocuvm` and `copyuvm`. -/
theorem mapPage_ends {α : Type} {w u : Bool} (page : Mem → ℕ → Pte) (bytes : Mem → ℕ → UInt8)
    {bad : ℕ → V α} {none' next : V α} {E : Panic → Prop} {Q : α → Mem → Prop}
    (hown : Owns K m (Tree m r + F)) (hv : v < userPages)
    (hnone : find m r (path v) = none) (hE : ∀ e, Short m r (prefixes v) e → E e)
    (hnext : ∀ m', Grown K m m' r F (prefixes v) →
      (∃ next, Mapped m m' r v w u (bytes { m with freelist := next })) → Ends E next Q m') :
    Ends E (do
      match ← kalloc with
      | none => none'
      | some mem =>
        modify fun m => m.fill mem (page m) (bytes m)
        if ← mappages r (v * PGSIZE) PGSIZE mem w u then next else bad mem) Q m := by
  -- the page itself is one of the missing prefixes, behind its tables
  have hmiss : (missing m r (prefixes v)).card = (missing m r (steps [] (tables v))).card + 1 := by
    unfold missing prefixes
    rw [Finset.filter_union, Finset.filter_singleton, if_pos hnone, Finset.card_union_of_disjoint]
    · rfl
    · rw [Finset.disjoint_singleton_right, Finset.mem_filter]
      rintro ⟨h, -⟩
      have := (isPrefix_of_mem_steps h).length_le
      simp [tables, path] at this
  rw [ends_bind]
  apply kalloc_ends.mono
  · rintro e ⟨rfl, hempty⟩
    apply hE
    refine ⟨rfl, ?_⟩
    rw [hmiss, hempty]
    simp
  rintro o m₀ ⟨f, rest, rfl, hfree, rfl⟩
  simp only [ends_bind, ends_modify]
  have hf : f ∈ m.freelist := by
    rw [hfree]
    exact List.mem_cons_self
  -- a page off the free list is in no tree
  have hft : f ∉ Tree m r := fun hmem => hown.not_mem_free (Multiset.mem_add.mpr (.inl hmem)) hf
  have hfF : f ∉ F := fun hmem => hown.not_mem_free (Multiset.mem_add.mpr (.inr hmem)) hf
  -- the memory with the page filled and not yet mapped
  obtain ⟨m₁, hm₁⟩ : ∃ m₁, m₁ = { m with freelist := rest }.fill f (page { m with freelist := rest })
    (bytes { m with freelist := rest }) := ⟨_, rfl⟩
  have hfree₁ : m₁.freelist = rest := by rw [hm₁]; rfl
  rw [← hm₁]
  have hsame : ∀ g, g ≠ f → m₁.table g = m.table g := by
    intro g hg
    rw [hm₁]
    exact Function.update_of_ne hg _ _
  have hdata : m₁.data f = bytes { m with freelist := rest } := by
    rw [hm₁]
    exact data_fill_self
  have hadds₁ : Adds m m₁ := hm₁ ▸ Adds.fill hfree
  have hfind : ∀ s, Fits entries 4 s → find m₁ r s = find m r s := fun s hs => find_off hsame hft hs
  have hown₁ : Owns K m₁ (Tree m₁ r + (f ::ₘ F)) := by
    apply (hown.take hfree).congr hfree₁
    rw [tree_off hsame hft, Multiset.add_cons]
  have hsteps : missing m₁ r (steps [] (tables v)) = missing m r (steps [] (tables v)) := by
    apply Finset.filter_congr
    intro s hs
    rw [hfind s (fits_of_mem_prefixes hv (Finset.mem_union_left _ hs))]
  have hlen : m.freelist.length = m₁.freelist.length + 1 := by rw [hfree, hfree₁]; rfl
  have hadds₂ : Ends (fun _ => True) (mappages r (v * PGSIZE) PGSIZE f w u) (fun _ m' => Adds m₁ m') m₁ :=
    mappagesLoop_adds
  have hf₁ : f ∉ m₁.freelist := hown₁.not_mem_free (Multiset.mem_add.mpr (.inr (Multiset.mem_cons_self f F)))
  apply ((mappages_ends hown₁ hv (by rw [hfind _ (fits_path hv), hnone])).and hadds₂).mono
  · rintro e ⟨rfl, hshort⟩
    apply hE
    refine ⟨rfl, ?_⟩
    rw [hmiss, ← hsteps]
    omega
  rintro ok m₃ ⟨⟨rfl, hleaf, m₂, hgrown, hlinked⟩, hadds₃⟩
  rw [if_pos rfl]
  refine hnext m₃ ?_ ⟨rest, hadds₁.trans hadds₃, f, hleaf, (hadds₃.data hf₁).trans hdata⟩
  constructor
  · exact hlinked.owns
  · intro g hg
    rw [hlinked.frame g hg, hgrown.frame g (Multiset.mem_cons_of_mem hg)]
    exact hsame g fun heq => hfF (heq ▸ hg)
  · intro s hs
    rw [hlinked.found s hs, prefixes, Finset.mem_union, Finset.mem_singleton]
    by_cases hsp : s = path v
    · rw [if_pos hsp]
      simp [hsp]
    · rw [if_neg hsp, hgrown.found s hs, hfind s hs]
      simp [hsp]
  · intro j hj
    rw [hlinked.half j hj, hgrown.half j hj, hsame r fun heq => hft (heq ▸ root_mem_tree)]
  · have hgfree := hgrown.free
    rw [hsteps] at hgfree
    rw [hlinked.free, hmiss]
    omega

end Vm
end OhMyXv6
