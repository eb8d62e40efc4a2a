import OhMyXv6.Vm.Space

/-!
# Page tables made and given back: `setupkvm`, `freevm`, `copyuvm`, `growproc`
-/

namespace OhMyXv6
namespace Vm

open Radix Fallible

variable {K : Kernel} {m m' m'' : Mem} {r t f v n sz oldsz newsz : ℕ} {F X : Multiset ℕ}

/-! ## `freevm` -/

/-- The pages in `X` have been given back. -/
structure Freed (K : Kernel) (m m' : Mem) (X F : Multiset ℕ) : Prop where
  owns : Owns K m' F
  frame : ∀ g ∈ F, m'.table g = m.table g
  data : ∀ g ∈ F, m'.data g = m.data g
  free : (m'.freelist : Multiset ℕ) = m.freelist + X

lemma Freed.refl (h : Owns K m F) : Freed K m m 0 F :=
  ⟨h, fun _ _ => rfl, fun _ _ => rfl, (add_zero _).symm⟩

/-- Pages are freed one after the other. -/
lemma Freed.trans {Y : Multiset ℕ} (h : Freed K m m' X (Y + F)) (h' : Freed K m' m'' Y F) :
    Freed K m m'' (X + Y) F where
  owns := h'.owns
  frame g hg := (h'.frame g hg).trans (h.frame g (Multiset.mem_add.mpr (.inr hg)))
  data g hg := (h'.data g hg).trans (h.data g (Multiset.mem_add.mpr (.inr hg)))
  free := by rw [h'.free, h.free, add_assoc]

lemma kfree_freed (hown : Owns K m (f ::ₘ F)) : Ends (fun _ => False) (kfree K f)
    (fun _ m' => Freed K m m' {f} F) m := by
  apply (kfree_ends (hown.range (Multiset.mem_cons_self f F))).mono fun _ he => he
  rintro _ m₁ rfl
  have hfF : f ∉ F := (Multiset.nodup_cons.mp hown.nodup).1
  have hfree : ((f :: m.freelist : List ℕ) : Multiset ℕ) = m.freelist + {f} := by
    rw [← Multiset.cons_coe, ← Multiset.singleton_add, add_comm]
  have hne : ∀ g ∈ F, g ≠ f := fun g hg heq => hfF (heq ▸ hg)
  refine ⟨?_, fun g hg => Function.update_of_ne (hne g hg) _ _,
    fun g hg => Function.update_of_ne (hne g hg) _ _, hfree⟩
  unfold Owns at hown ⊢
  rw [← hown]
  show ((f :: m.freelist : List ℕ) : Multiset ℕ) + F = _
  rw [hfree, add_assoc, Multiset.singleton_add]

/-- The nodes below the entries of a list. -/
def belowAll (m : Mem) (n f : ℕ) (is : List ℕ) : Multiset ℕ :=
  (is.map fun i => below (child m) entries n (child m f i)).sum

/-- A tree is its root and what is below its entries. -/
lemma nodes_eq_belowAll :
    nodes (child m) entries (n + 1) f = f ::ₘ belowAll m n f (List.range (entries n)) := rfl

/-- What is below does not change while nobody writes to it. -/
lemma belowAll_congr {is : List ℕ} (hf : m'.table f = m.table f)
    (h : ∀ g ∈ belowAll m n f is, m'.table g = m.table g) : belowAll m' n f is = belowAll m n f is := by
  induction is with
  | nil => rfl
  | cons i is ih =>
    unfold belowAll at h ih ⊢
    rw [List.map_cons, List.sum_cons] at h ⊢
    rw [List.map_cons, List.sum_cons, ih fun g hg => h g (Multiset.mem_add.mpr (.inr hg)), child_congr hf]
    congr 1
    cases hc : child m f i with
    | none => rfl
    | some g =>
      rw [below_some, below_some]
      apply nodes_congr
      intro e he
      apply child_congr
      apply h e
      rw [hc, below_some]
      exact Multiset.mem_add.mpr (.inl he)

/-- By induction on the levels: the whole tree is freed. -/
lemma freeLevel_ends (hown : Owns K m (nodes (child m) entries n f + F)) :
    Ends (fun _ => False) (freeLevel K n f)
      (fun _ m' => Freed K m m' (nodes (child m) entries n f) F) m := by
  induction n generalizing f F m with
  | zero =>
    rw [freeLevel]
    exact kfree_freed hown
  | succ n ih =>
    -- the loop over the entries, which keeps the table itself
    have hloop : ∀ (is : List ℕ) (m : Mem) (F : Multiset ℕ), f ∈ F → Owns K m (belowAll m n f is + F) →
        Ends (fun _ => False) (is.forM fun i => do
            let e := (← get).table f i
            if e.p then freeLevel K n e.frame)
          (fun _ m' => Freed K m m' (belowAll m n f is) F) m := by
      intro is
      induction is with
      | nil =>
        intro m F _ hown
        rw [List.forM, ends_pure]
        rw [show belowAll m n f [] = 0 from rfl, zero_add] at hown
        exact Freed.refl hown
      | cons i is ihis =>
        intro m F hf hown
        have hcons : belowAll m n f (i :: is)
            = below (child m) entries n (child m f i) + belowAll m n f is := by
          unfold belowAll
          rw [List.map_cons, List.sum_cons]
        rw [hcons, add_assoc] at hown
        have hhead : Ends (fun _ => False) (do
            let e := (← get).table f i
            if e.p then freeLevel K n e.frame)
          (fun _ m' => Freed K m m' (below (child m) entries n (child m f i)) (belowAll m n f is + F)) m := by
          rw [ends_bind, ends_get]
          unfold child at hown ⊢
          by_cases hp : (m.table f i).p
          · rw [if_pos hp, below_some] at hown
            rw [if_pos hp, if_pos hp, below_some]
            exact ih hown
          · rw [if_neg hp, below_none, zero_add] at hown
            rw [if_neg hp, if_neg hp, below_none, ends_pure]
            exact Freed.refl hown
        rw [List.forM, hcons]
        apply hhead.seq
        intro _ m₁ hfreed
        have hsame : belowAll m₁ n f is = belowAll m n f is := by
          apply belowAll_congr (hfreed.frame f (Multiset.mem_add.mpr (.inr hf)))
          exact fun g hg => hfreed.frame g (Multiset.mem_add.mpr (.inl hg))
        apply (ihis m₁ F hf (by rw [hsame]; exact hfreed.owns)).mono fun _ he => he
        intro _ m₂ hfreed₂
        rw [hsame] at hfreed₂
        exact hfreed.trans hfreed₂
    rw [nodes_eq_belowAll, Multiset.cons_add, ← Multiset.add_cons] at hown
    rw [freeLevel, nodes_eq_belowAll]
    apply (hloop _ m _ (Multiset.mem_cons_self f F) hown).seq
    intro _ m₁ hfreed
    apply (kfree_freed hfreed.owns).mono fun _ he => he
    intro _ m₂ hfreed₂
    have hall := hfreed.trans (Y := {f}) hfreed₂
    rwa [add_comm, Multiset.singleton_add] at hall

/-- **`freevm` gives back the pages of its page table, each once, and changes no other page.** -/
theorem freevm_ends (hown : Owns K m (Tree m r + F)) : Ends (fun _ => False) (freevm K (some r))
    (fun _ m' => Freed K m m' (Tree m r) F) m := by
  unfold Tree at hown ⊢
  exact freeLevel_ends hown

/-! ## `setupkvm` and `copyuvm` -/

/-- A page table that has nothing but the kernel half. -/
structure Fresh (K : Kernel) (m m' : Mem) (r : ℕ) (F : Multiset ℕ) : Prop where
  owns : Owns K m' (Tree m' r + F)
  frame : ∀ g ∈ F, m'.table g = m.table g
  found : ∀ i, i < NPDENTRIES / 2 → child m' r i = none
  half : m'.table r 256 = ⟨K.kpdpt, true, true, false⟩
  free : m.freelist = r :: m'.freelist
  adds : Adds m m'

/-- A new page table has one page and no user pages. -/
lemma setupkvm_ends (hown : Owns K m F) :
    Ends (fun e => e = .outOfMemory ∧ m.freelist = []) (setupkvm K)
      (fun o m' => ∃ d, o = some d ∧ Fresh K m m' d F) m := by
  unfold setupkvm
  apply kalloc_ends.seq
  rintro o m₀ ⟨d, next, rfl, hfree, rfl⟩
  simp only [zeroPage, setPte, ends_bind, ends_modify, ends_pure]
  refine ⟨d, rfl, ?_⟩
  have hd : d ∈ m.freelist := by
    rw [hfree]
    exact List.mem_cons_self
  have hdF : d ∉ F := fun hmem => hown.not_mem_free hmem hd
  set m' := ({ m with freelist := next }.fill d (fun _ => Pte.zero) fun _ => 0).setEntry d 256
    ⟨K.kpdpt, true, true, false⟩ with hm'
  -- the lower half of the new root is empty
  have hchild : ∀ i, i < NPDENTRIES / 2 → child m' d i = none := by
    intro i hi
    have hne : i ≠ 256 := by
      unfold NPDENTRIES at hi
      omega
    unfold child
    rw [hm']
    unfold Mem.setEntry Mem.fill
    simp only [Function.update_self, Function.update_of_ne hne]
    rfl
  constructor
  · apply (hown.take hfree).congr rfl
    have htree : Tree m' d = {d} := by
      unfold Tree
      rw [nodes_succ, Finset.sum_eq_zero]
      · rfl
      · intro i hi
        rw [hchild i (Finset.mem_range.mp hi)]
        rfl
    rw [htree, Multiset.singleton_add]
  · intro g hg
    have hgd : g ≠ d := fun h => hdF (h ▸ hg)
    rw [hm', table_setEntry_of_ne hgd, table_fill_of_ne hgd]
  · exact hchild
  · rw [hm', table_setEntry_self]
  · exact hfree
  · refine (Adds.fill hfree).trans (Adds.setEntry ?_)
    rw [table_fill_self]
    rfl

/-- In a new page table nothing is found. -/
lemma Fresh.found_none {p : List ℕ} (h : Fresh K m m' r F) (hp : Fits entries 4 p) (hne : p ≠ []) :
    find m' r p = none := by
  cases p with
  | nil => exact (hne rfl).elim
  | cons i p =>
    have hi : i < entries 3 := hp.1
    rw [entries_three] at hi
    unfold find
    rw [reach_cons, h.found i hi]
    rfl

lemma one_le_card_tree : 1 ≤ Multiset.card (Tree m r) :=
  Multiset.card_pos_iff_exists_mem.mpr ⟨r, root_mem_tree⟩

lemma path_ne_nil : path v ≠ [] := List.cons_ne_nil _ _

/-- A new page table has the pages of a process without any. -/
lemma Fresh.space (h : Fresh K m m' r F) (hsz : pages sz = 1) : Space m' r sz := by
  refine ⟨fun v hv => ?_, by rw [hsz]; exact one_le_card_tree⟩
  rw [h.found_none (fits_path hv) path_ne_nil, hsz]
  simp only [Option.isSome_none, Bool.false_eq_true, false_iff]
  omega

/-- Page number `v` of the page table `r` has been copied to a page of the page table `d`, which is mapped
with the same flags. -/
def Cloned (m m' : Mem) (r d v : ℕ) : Prop :=
  ∃ e f, Leaf m r v e ∧ e.p = true ∧ Leaf m' d v ⟨f, true, e.w, e.u⟩ ∧ m'.data f = m.data e.frame

/-- The loop of `copyuvm`, while the tables of the old page table do not change. -/
theorem copyuvmLoop_ends {d : ℕ} (hown : Owns K m (Tree m d + (Tree m r + F)))
    (hv : v ≤ Multiset.card (Tree m d))
    (hnone : ∀ u, v ≤ u → u < userPages → find m d (path u) = none)
    (hsrc : ∀ u, v ≤ u → u < v + n → u < userPages → (find m r (path u)).isSome) :
    Ends (Short m d (pathsOf v (v + n))) (copyuvmLoop K r d n (v * PGSIZE))
      (fun o m' => o = some d ∧ Grown K m m' d (Tree m r + F) (pathsOf v (v + n)) ∧
        v + n ≤ Multiset.card (Tree m' d) ∧ Adds m m' ∧ ∀ u, v ≤ u → u < v + n → Cloned m m' r d u) m := by
  induction n generalizing v m with
  | zero =>
    rw [copyuvmLoop, ends_pure, Nat.add_zero, pathsOf_self]
    exact ⟨rfl, Grown.refl hown, hv, .refl, fun u hu hlt => absurd hlt (by omega)⟩
  | succ n ih =>
    have huser : v < userPages := by
      have := hown.card_tree_le
      rw [topFrame_eq] at this
      unfold userPages
      omega
    have hv1 : v + (n + 1) = v + 1 + n := by omega
    have hsplit : pathsOf v (v + (n + 1)) = prefixes v ∪ pathsOf (v + 1) (v + 1 + n) := by
      rw [pathsOf_succ (by omega) huser, hv1]
    have hnext : (v + 1) * PGSIZE = v * PGSIZE + PGSIZE := by rw [Nat.succ_mul]
    rw [copyuvmLoop, hsplit]
    apply Ends.seq (walkpgdir_false_ends.mono (fun _ he => he.elim) fun _ _ h => h)
    rintro o m₀ ⟨rfl, rfl⟩
    -- the page is there in the old page table
    have hsome := hsrc v le_rfl (by omega) huser
    cases ht : find m₀ r (tables v) with
    | none =>
      rw [path_eq, find_of_none ht (List.prefix_append _ [v % 512])] at hsome
      cases hsome
    | some t =>
      have hp : (m₀.table t (v % 512)).p = true := by
        rw [path_eq, find_concat ht, child] at hsome
        split at hsome
        · assumption
        · cases hsome
      simp only [Option.map_some]
      rw [ends_bind, ends_get]
      simp only [hp, Bool.not_true, Bool.false_eq_true, if_false]
      apply mapPage_ends (fun m => m.table (m₀.table t (v % 512)).frame)
        (fun m => m.data (m₀.table t (v % 512)).frame) hown huser (hnone v le_rfl huser)
      · exact fun e he => he.mono Finset.subset_union_left
      rintro m₁ hgrown ⟨_, hmapped⟩
      have hcard := hgrown.card hown
      have hpos := missing_prefixes_pos (hnone v le_rfl huser)
      have hnone₁ : ∀ u, v + 1 ≤ u → u < userPages → find m₁ d (path u) = none := by
        intro u hu huu
        rw [← Option.not_isSome_iff_eq_none, hgrown.found _ (fits_path huu), hnone u (by omega) huu,
          path_mem_prefixes huu huser]
        rintro (h | h)
        · cases h
        · omega
      have hold : ∀ g ∈ Tree m₀ r, m₁.table g = m₀.table g :=
        fun g hg => hgrown.frame g (Multiset.mem_add.mpr (.inl hg))
      have hsrc₁ : ∀ u, v + 1 ≤ u → u < v + 1 + n → u < userPages → (find m₁ r (path u)).isSome := by
        intro u hu hun huu
        rw [find_congr (fits_path huu) hold]
        exact hsrc u (by omega) (by omega) huu
      have hrest : ∀ s ∈ pathsOf (v + 1) (v + 1 + n), Fits entries 4 s :=
        fun s hs => fits_of_mem_pathsOf hs
      have hrun := ih (by rw [tree_congr hold]; exact hgrown.owns) (by omega) hnone₁ hsrc₁
      rw [tree_congr hold, hnext] at hrun
      apply hrun.mono
      · exact fun e he => he.of_grown hgrown hrest
      rintro o m₂ ⟨rfl, hgrown₂, hle, hadds₂, hcloned⟩
      refine ⟨rfl, hgrown.trans hgrown₂ hrest, by omega, hmapped.adds.trans hadds₂, fun u hu hun => ?_⟩
      have huu : u < userPages := by
        have := hgrown₂.owns.card_tree_le
        rw [topFrame_eq] at this
        unfold userPages
        omega
      -- the pages of the old page table are not free, so they are as they were
      have holdfree : ∀ g ∈ Tree m₀ r, g ∉ m₀.freelist := fun g hg =>
        hown.not_mem_free (Multiset.mem_add.mpr (.inr (Multiset.mem_add.mpr (.inl hg))))
      have hnewfree : ∀ g ∈ Tree m₁ d, g ∉ m₁.freelist := fun g hg =>
        hgrown.owns.not_mem_free (Multiset.mem_add.mpr (.inl hg))
      by_cases huv : u = v
      · -- this page, which the rest of the loop leaves alone
        obtain ⟨f, hleaf, hbytes⟩ := hmapped.leaf
        rw [huv]
        refine ⟨_, f, ⟨t, ht, rfl⟩, hp, hadds₂.leaf hnewfree huser hleaf rfl, ?_⟩
        rw [hadds₂.data (hnewfree f (hleaf.mem_tree huser rfl)), hbytes]
      · obtain ⟨e, f, hsource, hpe, hleaf, hbytes⟩ := hcloned u (by omega) (by omega)
        have hsource₀ : Leaf m₀ r u e := hsource.of_eq huu hold
        refine ⟨e, f, hsource₀, hpe, hleaf, hbytes.trans ?_⟩
        exact hmapped.adds.data (holdfree _ (hsource₀.mem_tree huu hpe))

/-- The pages that `copyuvm` takes: one for the root, and those for the tables and the user pages. -/
def copyNeed (sz : ℕ) : ℕ := 1 + (pathsOf 1 (pages sz)).card

/-- The new page table has a copy of every page, and the old one is as it was. -/
structure Copied (K : Kernel) (m m' : Mem) (r d sz : ℕ) (F : Multiset ℕ) : Prop where
  owns : Owns K m' (Tree m' d + (Tree m r + F))
  frame : ∀ g ∈ Tree m r + F, m'.table g = m.table g
  space : Space m' d sz
  half : m'.table d 256 = ⟨K.kpdpt, true, true, false⟩
  free : m'.freelist.length + copyNeed sz = m.freelist.length
  adds : Adds m m'
  cloned : ∀ v, 1 ≤ v → v < pages sz → Cloned m m' r d v

/-- `copyuvm` of a page table that has the pages. -/
lemma copyuvm_present (hown : Owns K m (Tree m r + F)) (hsz : sz < 2 ^ 32)
    (hpresent : ∀ v, 1 ≤ v → v < pages sz → (find m r (path v)).isSome) :
    Ends (fun e => e = .outOfMemory ∧ m.freelist.length < copyNeed sz) (copyuvm K r sz)
      (fun o m' => ∃ d, o = some d ∧ Copied K m m' r d sz F) m := by
  -- the loop begins at the second page; the first is not mapped
  have hcount : pageCount PGSIZE (sz % 2 ^ 32) = pages sz - 1 := by
    rw [Nat.mod_eq_of_lt hsz]
    unfold pageCount pages PGSIZE
    omega
  have hend : pathsOf 1 (1 + (pages sz - 1)) = pathsOf 1 (pages sz) := by
    obtain h0 | hpos := Nat.eq_zero_or_pos (pages sz)
    · rw [h0]
      rfl
    · rw [Nat.add_sub_cancel' hpos]
  unfold copyuvm
  rw [hcount]
  apply Ends.seq (R := fun o m' => ∃ d, o = some d ∧ Fresh K m m' d (Tree m r + F))
  · apply (setupkvm_ends hown).mono
    · rintro e ⟨rfl, hempty⟩
      refine ⟨rfl, ?_⟩
      rw [hempty]
      exact Nat.lt_of_lt_of_le Nat.zero_lt_one (Nat.le_add_right 1 _)
    · exact fun _ _ h => h
  rintro o m₁ ⟨d, rfl, hfresh⟩
  have hold : ∀ g ∈ Tree m r, m₁.table g = m.table g :=
    fun g hg => hfresh.frame g (Multiset.mem_add.mpr (.inl hg))
  have hlen : m.freelist.length = m₁.freelist.length + 1 := by rw [hfresh.free]; rfl
  -- the new table has no user page yet
  have hmiss : missing m₁ d (pathsOf 1 (pages sz)) = pathsOf 1 (pages sz) := by
    apply Finset.filter_true_of_mem
    intro s hs
    apply hfresh.found_none (fits_of_mem_pathsOf hs)
    rintro rfl
    obtain ⟨v, -, hmem⟩ := Finset.mem_biUnion.mp hs
    simp [prefixes, steps, tables, path] at hmem
  -- by the loop's lemma, from page 1 on
  have hloop := copyuvmLoop_ends (K := K) (m := m₁) (r := r) (F := F) (d := d) (v := 1)
    (n := pages sz - 1) (by rw [tree_congr hold]; exact hfresh.owns) one_le_card_tree
    (fun u hu huu => hfresh.found_none (fits_path huu) path_ne_nil)
    (by
      intro u hu hun huu
      rw [find_congr (fits_path huu) hold]
      exact hpresent u hu (by omega))
  rw [hend, Nat.one_mul, tree_congr hold] at hloop
  apply hloop.mono
  · rintro e ⟨rfl, hshort⟩
    refine ⟨rfl, ?_⟩
    rw [hmiss] at hshort
    unfold copyNeed
    omega
  · rintro o m₂ ⟨rfl, hgrown, hcard, hadds, hcloned⟩
    have hgfree := hgrown.free
    rw [hmiss] at hgfree
    refine ⟨d, rfl, hgrown.owns, ?_, ⟨?_, by omega⟩, ?_, ?_, hfresh.adds.trans hadds, ?_⟩
    · exact fun g hg => (hgrown.frame g hg).trans (hfresh.frame g hg)
    · intro v hv
      rw [hgrown.found _ (fits_path hv), hfresh.found_none (fits_path hv) path_ne_nil,
        path_mem_pathsOf hv]
      simp
    · rw [hgrown.half 256 (by unfold NPDENTRIES; omega), hfresh.half]
    · unfold copyNeed
      omega
    · intro v hv hvp
      have huser : v < userPages := by
        unfold pages PGSIZE at hvp
        unfold userPages
        omega
      obtain ⟨e, f, hsource, hp, hleaf, hbytes⟩ := hcloned v hv (by omega)
      have hsource₀ : Leaf m r v e := hsource.of_eq huser hold
      refine ⟨e, f, hsource₀, hp, hleaf, hbytes.trans (hfresh.adds.data ?_)⟩
      exact hown.not_mem_free (Multiset.mem_add.mpr (.inl (hsource₀.mem_tree huser hp)))

/-- `copyuvm` copies all, or the memory is full. -/
lemma copyuvm_ends (hown : Owns K m (Tree m r + F)) (hspace : Space m r sz) :
    Ends (fun e => e = .outOfMemory ∧ m.freelist.length < copyNeed sz) (copyuvm K r sz)
      (fun o m' => ∃ d, o = some d ∧ Copied K m m' r d sz F) m := by
  have hsz := hspace.size_lt hown
  refine copyuvm_present hown (by omega) fun v hv hvp => ?_
  have huser : v < userPages := by
    unfold pages PGSIZE at hvp
    unfold userPages
    omega
  exact (hspace.found v huser).mpr ⟨hv, hvp⟩

/-! ## What `exec` does to its new page table -/

/-- A walk without `alloc` changes nothing. -/
lemma walkpgdir_false_same {va : ℕ} :
    Ends (fun _ => False) (walkpgdir r va false) (fun _ m' => m' = m) m := by
  unfold walkpgdir
  apply walkLevels_false_ends.seq
  rintro o m₁ ⟨rfl, -⟩
  cases o with
  | none => rfl
  | some t => rfl

/-- `loaduvm` changes no page table. -/
lemma loaduvm_ends {addr : ℕ} {ok : ℕ → Bool} :
    Ends (fun e => e = .loaduvmAddress) (loaduvm r addr sz ok) (fun _ m' => m' = m) m := by
  have hloop : ∀ n i, Ends (fun e => e = .loaduvmAddress) (loaduvmLoop r addr ok n i)
      (fun _ m' => m' = m) m := by
    intro n
    induction n with
    | zero => exact fun i => rfl
    | succ n ih =>
      intro i
      rw [loaduvmLoop]
      apply Ends.seq (walkpgdir_false_same.mono (fun _ he => he.elim) fun _ _ h => h)
      rintro o m₁ rfl
      cases o with
      | none => rfl
      | some t =>
        show Ends _ (if ok i = true then _ else _) _ _
        split
        · exact ih _
        · rfl
  exact hloop _ _

/-! ## `growproc` -/

/-- What a function may change that works on one page table. -/
structure Changed (K : Kernel) (m m' : Mem) (r : ℕ) (F : Multiset ℕ) : Prop where
  owns : Owns K m' (Tree m' r + F)
  frame : ∀ g ∈ F, m'.table g = m.table g
  half : ∀ j, NPDENTRIES / 2 ≤ j → m'.table r j = m.table r j

lemma Changed.refl (h : Owns K m (Tree m r + F)) : Changed K m m r F := ⟨h, fun _ _ => rfl, fun _ _ => rfl⟩

/-- Growing is one way to change a page table. -/
lemma Grown.changed {P : Finset (List ℕ)} (h : Grown K m m' r F P) : Changed K m m' r F :=
  ⟨h.owns, h.frame, h.half⟩

lemma Shrunk.changed {a b : ℕ} (h : Shrunk K m m' r F a b) : Changed K m m' r F :=
  ⟨h.owns, h.frame, h.half⟩

lemma Changed.trans (h : Changed K m m' r F) (h' : Changed K m' m'' r F) : Changed K m m'' r F :=
  ⟨h'.owns, fun g hg => (h'.frame g hg).trans (h.frame g hg), fun j hj => (h'.half j hj).trans (h.half j hj)⟩

/-- `clearpteu` leaves the shape of the page table as it is. -/
lemma clearpteu_ends (hown : Owns K m (Tree m r + F)) (hv : v < userPages)
    (hfound : (find m r (path v)).isSome) : Ends (fun _ => False) (clearpteu r (v * PGSIZE))
      (fun _ m' => Changed K m m' r F ∧ child m' = child m) m := by
  unfold clearpteu
  apply walkpgdir_false_ends.seq
  rintro o m₀ ⟨rfl, rfl⟩
  have hpath := fits_path hv
  rw [path_eq] at hpath
  cases ht : find m₀ r (tables v) with
  | none =>
    rw [path_eq, find_of_none ht (List.prefix_append _ [v % 512])] at hfound
    cases hfound
  | some t =>
    simp only [Option.map_some, setPte]
    rw [ends_bind, ends_get, ends_modify]
    have hchild : child (m₀.setEntry t (v % 512) { m₀.table t (v % 512) with u := false }) = child m₀ := by
      rw [child_setEntry]
      show Radix.set (child m₀) t (v % 512) (child m₀ t (v % 512)) = child m₀
      unfold Radix.set
      rw [Function.update_eq_self, Function.update_eq_self]
    have htree : t ∈ Tree m₀ r := find_mem_tree hpath.of_append ht
    refine ⟨⟨?_, ?_, ?_⟩, hchild⟩
    · apply hown.congr rfl
      unfold Tree
      rw [hchild]
    · intro g hg
      exact table_setEntry_of_ne fun h => hown.disjoint htree (h ▸ hg)
    · intro j hj
      exact table_setEntry_half hown.nodup_left ht hpath hj

/-- Only what the entries refer to matters. -/
lemma Space.of_child (h : Space m r sz) (hchild : child m' = child m) : Space m' r sz := by
  refine ⟨fun v hv => ?_, ?_⟩
  · unfold find
    rw [hchild]
    exact h.found v hv
  · unfold Tree
    rw [hchild]
    have := h.card
    unfold Tree at this
    exact this

/-- The size that `growproc` asks for. -/
def askedSize (sz : ℕ) (n : Int64) : ℕ := ((sz + n.toInt) % 2 ^ 64).toNat

/-- How `growproc` ends: it has changed the size, or nothing, or it was asked to shrink to 0. -/
def GrowResult (m m' : Mem) (r sz : ℕ) (n : Int64) (ok : Bool) (sz' : ℕ) : Prop :=
  (ok = true ∧ Space m' r sz' ∧ 0 < sz') ∨ (ok = false ∧ sz' = sz ∧ m' = m) ∨
    (ok = false ∧ sz' = sz ∧ n.toInt < 0 ∧ askedSize sz n = 0 ∧ Space m' r 0)

/-- `growproc` grows, shrinks or fails, and its answer says which. -/
lemma growproc_ends {n : Int64} (hown : Owns K m (Tree m r + F)) (hspace : Space m r sz) (hpos : 0 < sz) :
    Ends (fun e => 0 < n.toInt ∧ Short m r (growth sz (askedSize sz n)) e) (growproc K r sz n)
      (fun o m' => Changed K m m' r F ∧ GrowResult m m' r sz n o.1 o.2) m := by
  unfold growproc
  change Ends _ (if 0 < n.toInt then
    allocuvm K r sz (askedSize sz n) >>= fun sz' =>
      if sz' = 0 then pure (false, sz) else pure (true, sz')
    else if n.toInt < 0 then deallocuvm K r sz (askedSize sz n) >>= fun sz' =>
      if sz' = 0 then pure (false, sz) else pure (true, sz')
    else pure (true, sz)) _ m
  by_cases hn : 0 < n.toInt
  · rw [if_pos hn]
    apply Ends.seq ((allocuvm_ends _ hown hspace hpos).mono (fun _ he => ⟨hn, he⟩) fun _ _ h => h)
    rintro sz' m₁ (⟨rfl, -, rfl⟩ | ⟨rfl, -, rfl⟩ | ⟨rfl, hle, -, hgrown, hspace₁⟩)
    · rw [if_pos rfl, ends_pure]
      exact ⟨Changed.refl hown, .inr (.inl ⟨rfl, rfl, rfl⟩)⟩
    · rw [if_neg (by omega), ends_pure]
      exact ⟨Changed.refl hown, .inl ⟨rfl, hspace, hpos⟩⟩
    · rw [if_neg (by omega), ends_pure]
      exact ⟨hgrown.changed, .inl ⟨rfl, hspace₁, by show 0 < askedSize sz n; omega⟩⟩
  · rw [if_neg hn]
    by_cases hneg : n.toInt < 0
    · rw [if_pos hneg]
      apply Ends.seq ((deallocuvm_ends hown hspace).mono (fun _ he => he.elim) fun _ _ h => h)
      rintro sz' m₁ (⟨rfl, -, rfl⟩ | ⟨hsz', -, hshrunk, hspace₁⟩)
      · rw [if_neg (by omega), ends_pure]
        exact ⟨Changed.refl hown, .inl ⟨rfl, hspace, hpos⟩⟩
      · by_cases h0 : sz' = 0
        · rw [if_pos h0, ends_pure]
          rw [h0] at hsz'
          rw [← hsz'] at hspace₁
          exact ⟨hshrunk.changed, .inr (.inr ⟨rfl, rfl, hneg, hsz'.symm, hspace₁⟩)⟩
        · rw [if_neg h0, ends_pure]
          rw [← hsz'] at hspace₁
          exact ⟨hshrunk.changed, .inl ⟨rfl, hspace₁, Nat.pos_of_ne_zero h0⟩⟩
    · rw [if_neg hneg, ends_pure]
      exact ⟨Changed.refl hown, .inl ⟨rfl, hspace, hpos⟩⟩

end Vm
end OhMyXv6
