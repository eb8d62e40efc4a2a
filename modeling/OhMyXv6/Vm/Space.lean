import OhMyXv6.Vm.Grow
import Mathlib.Algebra.Order.Interval.Finset.SuccPred
import Mathlib.Data.Nat.SuccPred

/-!
# Address spaces

`Space m r sz`: the user pages of page table `r` are those of `[PGSIZE, PGROUNDUP(sz))`. The page table
has at least as many pages as there are addresses of pages below `sz`, so the size of physical memory
bounds `sz`, and neither the address of a page nor the size itself gets near to a place where a number
wraps around or an index reaches the kernel half.
-/

namespace OhMyXv6
namespace Vm

open Radix Fallible

variable {K : Kernel} {m m' m'' : Mem} {r t f v n sz oldsz newsz : ℕ} {F X : Multiset ℕ}

/-- The number of pages up to `PGROUNDUP(sz)`. -/
def pages (sz : ℕ) : ℕ := (sz + (PGSIZE - 1)) / PGSIZE

/-- There is a page at each address from the second page up to the size, and at no other one. -/
structure Space (m : Mem) (r sz : ℕ) : Prop where
  found : ∀ v < userPages, (find m r (path v)).isSome ↔ 1 ≤ v ∧ v < pages sz
  card : pages sz ≤ Multiset.card (Tree m r)

/-- A page table has no more pages than there are. -/
lemma Owns.card_tree_le (h : Owns K m (Tree m r + F)) : Multiset.card (Tree m r) ≤ topFrame := by
  have hcard := h.card
  rw [Multiset.card_add] at hcard
  omega

lemma topFrame_eq : topFrame = 57344 := rfl

/-- Sizes are bounded by the memory that there is. -/
lemma Space.pages_le (hown : Owns K m (Tree m r + F)) (h : Space m r sz) : pages sz ≤ topFrame :=
  h.card.trans hown.card_tree_le

/-- So no process is larger than the memory. -/
lemma Space.size_lt (hown : Owns K m (Tree m r + F)) (h : Space m r sz) : sz < 2 ^ 28 := by
  have hle := h.pages_le hown
  rw [topFrame_eq] at hle
  unfold pages PGSIZE at hle
  omega

/-- The next boundary of a page, counted in pages. -/
lemma PGROUNDUP_eq (h : sz < KERNBASE) : PGROUNDUP sz = pages sz * PGSIZE := by
  unfold KERNBASE at h
  unfold PGROUNDUP pages PGSIZE
  omega

/-- The rounds of a loop over the pages between two sizes. -/
lemma pageCount_eq (h : oldsz ≤ newsz) :
    pageCount (pages oldsz * PGSIZE) newsz = pages newsz - pages oldsz := by
  unfold pageCount pages PGSIZE
  omega

lemma pages_mono (h : oldsz ≤ newsz) : pages oldsz ≤ pages newsz := by
  unfold pages PGSIZE
  omega

/-! ## `allocuvm` -/

/-- What mapping the pages from number `a` to number `b` adds to the page table. -/
def pathsOf (a b : ℕ) : Finset (List ℕ) := (Finset.Ico a (min b userPages)).biUnion prefixes

/-- The tables on the way to these pages are in the user half. -/
lemma fits_of_mem_pathsOf {a b : ℕ} {s : List ℕ} (h : s ∈ pathsOf a b) : Fits entries 4 s := by
  obtain ⟨v, hv, hs⟩ := Finset.mem_biUnion.mp h
  have := (Finset.mem_Ico.mp hv).2
  exact fits_of_mem_prefixes (by omega) hs

lemma pathsOf_succ {a b : ℕ} (hab : a < b) (ha : a < userPages) :
    pathsOf a b = prefixes a ∪ pathsOf (a + 1) b := by
  have hlt : a < min b userPages := lt_min hab ha
  unfold pathsOf
  rw [← Finset.insert_Ico_add_one_left_eq_Ico hlt, Finset.biUnion_insert]

lemma pathsOf_self {a : ℕ} : pathsOf a a = ∅ := by
  unfold pathsOf
  rw [Finset.Ico_eq_empty (by omega), Finset.biUnion_empty]

/-- The path of a page is added only with the page. -/
lemma path_mem_prefixes {u : ℕ} (hu : u < userPages) (hv : v < userPages) :
    path u ∈ prefixes v ↔ u = v := by
  rw [prefixes, Finset.mem_union, Finset.mem_singleton]
  constructor
  · rintro (h | h)
    · have := (isPrefix_of_mem_steps h).length_le
      simp [tables, path] at this
    · exact path_inj hu hv h
  · rintro rfl
    exact .inr rfl

lemma path_mem_pathsOf {a b u : ℕ} (hu : u < userPages) : path u ∈ pathsOf a b ↔ a ≤ u ∧ u < b := by
  unfold pathsOf
  rw [Finset.mem_biUnion]
  constructor
  · rintro ⟨v, hv, hmem⟩
    obtain ⟨hav, hvb⟩ := Finset.mem_Ico.mp hv
    obtain rfl := (path_mem_prefixes hu (by omega)).mp hmem
    omega
  · rintro ⟨hau, hub⟩
    exact ⟨u, Finset.mem_Ico.mpr (by omega), (path_mem_prefixes hu hu).mpr rfl⟩

/-- The page table has as many pages more as the free list has less. -/
theorem Grown.card {P : Finset (List ℕ)} (hown : Owns K m (Tree m r + F)) (h : Grown K m m' r F P) :
    Multiset.card (Tree m' r) = Multiset.card (Tree m r) + (missing m r P).card := by
  have hold := hown.card
  have hnew := h.owns.card
  have hfree := h.free
  rw [Multiset.card_add] at hold hnew
  omega

/-- A page that is not there is missing. -/
lemma missing_prefixes_pos (hnone : find m r (path v) = none) : 0 < (missing m r (prefixes v)).card := by
  rw [Finset.card_pos]
  refine ⟨path v, Finset.mem_filter.mpr ⟨?_, hnone⟩⟩
  exact Finset.mem_union_right _ (Finset.mem_singleton_self _)

/-- By induction on the pages that are left. -/
lemma allocuvmLoop_ends (oldsz newsz n : ℕ) (hown : Owns K m (Tree m r + F)) (hv : v ≤ Multiset.card (Tree m r))
    (hnone : ∀ u, v ≤ u → u < userPages → find m r (path u) = none) :
    Ends (Short m r (pathsOf v (v + n))) (allocuvmLoop K r oldsz newsz n (v * PGSIZE))
      (fun o m' => o = newsz ∧ Grown K m m' r F (pathsOf v (v + n)) ∧
        v + n ≤ Multiset.card (Tree m' r) ∧ (n = 0 → m' = m) ∧
        (0 < n → Flagged m' r (v + n - 1) true true)) m := by
  induction n generalizing v m with
  | zero =>
    rw [allocuvmLoop, ends_pure, Nat.add_zero, pathsOf_self]
    exact ⟨rfl, Grown.refl hown, hv, fun _ => rfl, fun h => (Nat.lt_irrefl 0 h).elim⟩
  | succ n ih =>
    -- there are not enough pages for the loop to leave the user half
    have huser : v < userPages := by
      have := hown.card_tree_le
      rw [topFrame_eq] at this
      unfold userPages
      omega
    have hv1 : v + (n + 1) = v + 1 + n := by omega
    have hsplit : pathsOf v (v + (n + 1)) = prefixes v ∪ pathsOf (v + 1) (v + 1 + n) := by
      rw [pathsOf_succ (by omega) huser, hv1]
    have hnext : (v + 1) * PGSIZE = v * PGSIZE + PGSIZE := by rw [Nat.succ_mul]
    rw [allocuvmLoop, hsplit]
    apply mapPage_ends (fun _ _ => .zero) (fun _ _ => 0) hown huser (hnone v le_rfl huser)
    · exact fun e he => he.mono Finset.subset_union_left
    rintro m₁ hgrown ⟨_, hmapped⟩
    have hflagged := hmapped.flagged
    have hcard := hgrown.card hown
    have hpos := missing_prefixes_pos (hnone v le_rfl huser)
    have hnone₁ : ∀ u, v + 1 ≤ u → u < userPages → find m₁ r (path u) = none := by
      intro u hu huu
      rw [← Option.not_isSome_iff_eq_none, hgrown.found _ (fits_path huu), hnone u (by omega) huu,
        path_mem_prefixes huu huser]
      rintro (h | h)
      · cases h
      · omega
    rw [← hnext]
    have hrest : ∀ s ∈ pathsOf (v + 1) (v + 1 + n), Fits entries 4 s := fun s hs => fits_of_mem_pathsOf hs
    apply (ih hgrown.owns (by omega) hnone₁).mono
    · exact fun e he => he.of_grown hgrown hrest
    · rintro o m₂ ⟨rfl, hgrown₂, hle, hsame, hlast⟩
      refine ⟨rfl, hgrown.trans hgrown₂ hrest, by omega, fun h => (Nat.succ_ne_zero n h).elim, fun _ => ?_⟩
      -- the last page is the one mapped here, or the last one of the rest
      cases n with
      | zero =>
        rw [hsame rfl]
        exact hflagged
      | succ n =>
        rw [show v + (n + 1 + 1) - 1 = v + 1 + (n + 1) - 1 by omega]
        exact hlast (Nat.succ_pos n)

/-- What `allocuvm` adds to the page table. -/
def growth (oldsz newsz : ℕ) : Finset (List ℕ) :=
  if newsz < KERNBASE ∧ oldsz ≤ newsz then pathsOf (pages oldsz) (pages newsz) else ∅

lemma Space.grown (h : Space m r oldsz) (hle : oldsz ≤ newsz) (hpos : 1 ≤ pages oldsz)
    (hgrown : Grown K m m' r F (pathsOf (pages oldsz) (pages newsz)))
    (hcard : pages newsz ≤ Multiset.card (Tree m' r)) : Space m' r newsz := by
  refine ⟨fun v hv => ?_, hcard⟩
  rw [hgrown.found _ (fits_path hv), h.found v hv, path_mem_pathsOf hv]
  have := pages_mono hle
  omega

/-- `allocuvm`, with the flags of the last page. -/
lemma allocuvm_flagged (newsz : ℕ) (hown : Owns K m (Tree m r + F)) (hspace : Space m r oldsz)
    (hpos : 0 < oldsz) :
    Ends (Short m r (growth oldsz newsz)) (allocuvm K r oldsz newsz) (fun sz' m' =>
      (sz' = 0 ∧ KERNBASE ≤ newsz ∧ m' = m) ∨ (sz' = oldsz ∧ newsz < oldsz ∧ m' = m) ∨
      (sz' = newsz ∧ oldsz ≤ newsz ∧ newsz < KERNBASE ∧ Grown K m m' r F (growth oldsz newsz) ∧
        Space m' r newsz ∧ (pages oldsz < pages newsz → Flagged m' r (pages newsz - 1) true true))) m := by
  unfold allocuvm
  by_cases hk : KERNBASE ≤ newsz
  · rw [if_pos hk, ends_pure]
    exact .inl ⟨rfl, hk, rfl⟩
  · rw [if_neg hk]
    by_cases hlt : newsz < oldsz
    · rw [if_pos hlt, ends_pure]
      exact .inr (.inl ⟨rfl, hlt, rfl⟩)
    · have hle : oldsz ≤ newsz := Nat.le_of_not_lt hlt
      have hmono := pages_mono hle
      have hgrowth : growth oldsz newsz = pathsOf (pages oldsz) (pages newsz) :=
        if_pos ⟨Nat.lt_of_not_le hk, hle⟩
      have hcount : pages oldsz + (pages newsz - pages oldsz) = pages newsz := by omega
      rw [if_neg hlt, hgrowth]
      simp only [PGROUNDUP_eq (show oldsz < KERNBASE by omega), pageCount_eq hle]
      have hpages : 1 ≤ pages oldsz := by
        unfold pages PGSIZE
        omega
      have hloop := allocuvmLoop_ends oldsz newsz (pages newsz - pages oldsz)
        hown hspace.card (by
          intro u hu huu
          rw [← Option.not_isSome_iff_eq_none, hspace.found u huu]
          omega)
      rw [hcount] at hloop
      apply hloop.mono fun _ he => he
      rintro sz' m₁ ⟨rfl, hgrown, hcard, -, hlast⟩
      refine .inr (.inr ⟨rfl, hle, Nat.lt_of_not_le hk, hgrown, hspace.grown hle hpages hgrown hcard, ?_⟩)
      exact fun hlt => hlast (by omega)

/-- `allocuvm` adds the pages up to the new size, or the memory is full. -/
lemma allocuvm_ends (newsz : ℕ) (hown : Owns K m (Tree m r + F)) (hspace : Space m r oldsz) (hpos : 0 < oldsz) :
    Ends (Short m r (growth oldsz newsz)) (allocuvm K r oldsz newsz) (fun sz' m' =>
      (sz' = 0 ∧ KERNBASE ≤ newsz ∧ m' = m) ∨ (sz' = oldsz ∧ newsz < oldsz ∧ m' = m) ∨
      (sz' = newsz ∧ oldsz ≤ newsz ∧ newsz < KERNBASE ∧ Grown K m m' r F (growth oldsz newsz) ∧
        Space m' r newsz)) m := by
  apply (allocuvm_flagged newsz hown hspace hpos).mono fun _ he => he
  rintro sz' m' (h | h | ⟨hsz, hle, hk, hgrown, hspace', -⟩)
  · exact .inl h
  · exact .inr (.inl h)
  · exact .inr (.inr ⟨hsz, hle, hk, hgrown, hspace'⟩)

/-! ## `deallocuvm` -/

/-- The user pages from number `a` to number `b` are no longer there. -/
structure Shrunk (K : Kernel) (m m' : Mem) (r : ℕ) (F : Multiset ℕ) (a b : ℕ) : Prop where
  owns : Owns K m' (Tree m' r + F)
  frame : ∀ g ∈ F, m'.table g = m.table g
  found : ∀ u < userPages, (find m' r (path u)).isSome ↔ (find m r (path u)).isSome ∧ ¬ (a ≤ u ∧ u < b)
  half : ∀ j, NPDENTRIES / 2 ≤ j → m'.table r j = m.table r j
  card : Multiset.card (Tree m r) ≤ Multiset.card (Tree m' r) + (b - a)

lemma Shrunk.refl (h : Owns K m (Tree m r + F)) : Shrunk K m m r F v v where
  owns := h
  frame _ _ := rfl
  found u _ := by
    have : ¬ (v ≤ u ∧ u < v) := by omega
    simp [this]
  half _ _ := rfl
  card := by omega

/-- Pages are taken away one after the other. -/
lemma Shrunk.trans {a b c : ℕ} (hab : a ≤ b) (hbc : b ≤ c) (h : Shrunk K m m' r F a b)
    (h' : Shrunk K m' m'' r F b c) : Shrunk K m m'' r F a c where
  owns := h'.owns
  frame g hg := (h'.frame g hg).trans (h.frame g hg)
  found u hu := by
    rw [h'.found u hu, h.found u hu, and_assoc]
    apply and_congr_right
    intro _
    omega
  half j hj := (h'.half j hj).trans (h.half j hj)
  card := by
    have := h.card
    have := h'.card
    omega

/-- A page that is not there is left out. -/
lemma Shrunk.of_none (h : Owns K m (Tree m r + F)) (hnone : find m r (path v) = none) :
    Shrunk K m m r F v (v + 1) where
  owns := h
  frame _ _ := rfl
  found u hu := by
    constructor
    · intro hsome
      refine ⟨hsome, fun hrange => ?_⟩
      obtain rfl : u = v := by omega
      rw [hnone] at hsome
      cases hsome
    · exact And.left
  half _ _ := rfl
  card := by omega

lemma Shrunk.of_unlinked (hv : v < userPages) (h : Unlinked K m m' r F (path v)) :
    Shrunk K m m' r F v (v + 1) where
  owns := h.owns
  frame := h.frame
  found u hu := by
    rw [h.found _ (fits_path hu)]
    by_cases huv : u = v
    · subst huv
      rw [if_pos rfl]
      have : u ≤ u ∧ u < u + 1 := by omega
      simp [this]
    · have hne : path u ≠ path v := fun heq => huv (path_inj hu hv heq)
      have hout : ¬ (v ≤ u ∧ u < v + 1) := by omega
      rw [if_neg hne]
      exact (and_iff_left hout).symm
  half := h.half
  card := by
    have := h.card
    omega

/-- The kernel is at frame 0, and no page of the allocator. -/
lemma Owns.frame_pos (h : Owns K m X) (hf : f ∈ X) : f ≠ 0 := by
  have hrange := h.range hf
  have hloaded := K.loaded
  unfold EXTMEM PGSIZE at hloaded
  omega

/-- By induction on the pages that are left. -/
lemma deallocuvmLoop_ends (hown : Owns K m (Tree m r + F)) (hv : v + n ≤ userPages) :
    Ends (fun _ => False) (deallocuvmLoop K r n (v * PGSIZE))
      (fun _ m' => Shrunk K m m' r F v (v + n)) m := by
  induction n generalizing v m with
  | zero =>
    rw [deallocuvmLoop, ends_pure]
    exact Shrunk.refl hown
  | succ n ih =>
    have hpath := fits_path (v := v) (by omega)
    have hnext : (v + 1) * PGSIZE = v * PGSIZE + PGSIZE := by rw [Nat.succ_mul]
    have hv1 : v + (n + 1) = v + 1 + n := by omega
    -- what is left of the loop
    have hrest : ∀ m₁, Shrunk K m m₁ r F v (v + 1) →
        Ends (fun _ => False) (deallocuvmLoop K r n (v * PGSIZE + PGSIZE))
          (fun _ m' => Shrunk K m m' r F v (v + (n + 1))) m₁ := by
      intro m₁ hshrunk
      rw [← hnext, hv1]
      apply (ih hshrunk.owns (by omega)).mono fun _ he => he
      intro _ m₂ hshrunk₂
      exact hshrunk.trans (by omega) (by omega) hshrunk₂
    rw [deallocuvmLoop]
    apply walkpgdir_false_ends.seq
    rintro o m₀ ⟨rfl, rfl⟩
    cases ht : find m₀ r (tables v) with
    | none =>
      simp only [Option.map_none]
      exact hrest m₀ (Shrunk.of_none hown (find_of_none ht ⟨[v % 512], rfl⟩))
    | some t =>
      simp only [Option.map_some]
      rw [ends_bind, ends_get]
      by_cases hp : (m₀.table t (v % 512)).p
      · have hchild : child m₀ t (v % 512) = some (m₀.table t (v % 512)).frame := by
          unfold child
          rw [if_pos hp]
        have hfind : find m₀ r (path v) = some (m₀.table t (v % 512)).frame := by
          rw [path_eq, find_concat ht, hchild]
        have hmem := Multiset.mem_add.mpr (.inl (b := _ ∈ F) (find_mem_tree hpath hfind))
        rw [if_pos hp, if_neg (hown.frame_pos hmem)]
        apply (kfree_ends (hown.range hmem)).seq
        rintro _ m₁ rfl
        simp only [setPte]
        rw [ends_bind, ends_modify]
        apply hrest
        apply Shrunk.of_unlinked (by omega)
        rw [path_eq] at hpath ⊢
        exact unlink hown ht hpath rfl hchild rfl rfl
      · have hnone : find m₀ r (path v) = none := by
          rw [path_eq, find_concat ht, child, if_neg hp]
        rw [if_neg hp]
        exact hrest m₀ (Shrunk.of_none hown hnone)

/-- `deallocuvm` takes away the pages behind the new size. -/
lemma deallocuvm_ends (hown : Owns K m (Tree m r + F)) (hspace : Space m r oldsz) :
    Ends (fun _ => False) (deallocuvm K r oldsz newsz) (fun sz' m' =>
      (sz' = oldsz ∧ oldsz ≤ newsz ∧ m' = m) ∨ (sz' = newsz ∧ newsz < oldsz ∧
        Shrunk K m m' r F (pages newsz) (pages oldsz) ∧ Space m' r newsz)) m := by
  unfold deallocuvm
  by_cases hle : oldsz ≤ newsz
  · rw [if_pos hle]
    exact .inl ⟨rfl, hle, rfl⟩
  · have hlt : newsz < oldsz := Nat.lt_of_not_le hle
    have hsize := hspace.size_lt hown
    have hcount := pages_mono hlt.le
    have huser : pages oldsz ≤ userPages := by
      have := hspace.pages_le hown
      rw [topFrame_eq] at this
      unfold userPages
      omega
    rw [if_neg hle]
    simp only [PGROUNDUP_eq (show newsz < KERNBASE by unfold KERNBASE; omega), pageCount_eq hlt.le]
    have hloop := deallocuvmLoop_ends (n := pages oldsz - pages newsz) (v := pages newsz) hown (by omega)
    have hend : pages newsz + (pages oldsz - pages newsz) = pages oldsz := by omega
    rw [hend] at hloop
    apply hloop.seq
    intro _ m₁ hshrunk
    rw [ends_pure]
    refine .inr ⟨rfl, hlt, hshrunk, ?_, ?_⟩
    · intro v hv
      rw [hshrunk.found v hv, hspace.found v hv]
      omega
    · have := hshrunk.card
      have := hspace.card
      omega

end Vm
end OhMyXv6
