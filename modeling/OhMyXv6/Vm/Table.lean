import OhMyXv6.Lib.Radix
import OhMyXv6.Vm.Model
import Mathlib.Order.Interval.Finset.Nat

/-!
# Page tables as radix trees

`Tree m r` lists the pages of the page table with root `r`: its tables and the user pages, without the
kernel half. `Owns K m X` says that the free list and `X` are all the pages that there are, each once, so
it also says that no page of `X` is there twice or free.

`Grown` is what functions that add to a page table do to it: they add the paths `P` that are not there
yet, and take as many pages from the free list. `Short` is the only way for them to fail.
-/

namespace OhMyXv6
namespace Vm

open Radix Fallible

variable {K : Kernel} {m m' m'' : Mem} {r t f i v k : ℕ} {F X : Multiset ℕ} {p q : List ℕ}
  {P P' : Finset (List ℕ)} {e : Pte}

/-- The page that an entry refers to. -/
def child (m : Mem) (t i : ℕ) : Option ℕ :=
  if (m.table t i).p then some (m.table t i).frame else none

/-- The pages of a page table, less the kernel half. -/
def Tree (m : Mem) (r : ℕ) : Multiset ℕ := nodes (child m) entries 4 r

/-- What is found at the end of a path of indices. -/
def find (m : Mem) (r : ℕ) (p : List ℕ) : Option ℕ := reach (child m) r p

/-- All pages of the allocator. -/
def allPages (K : Kernel) : Multiset ℕ := (Finset.Ico K.first topFrame).val

/-- What is not on the free list is `X`. -/
def Owns (K : Kernel) (m : Mem) (X : Multiset ℕ) : Prop := (m.freelist : Multiset ℕ) + X = allPages K

/-- The indices of page number `v`. -/
def path (v : ℕ) : List ℕ := [v / 2 ^ 27 % 512, v / 2 ^ 18 % 512, v / 2 ^ 9 % 512, v % 512]

/-- The pages of the user half. -/
def userPages : ℕ := 2 ^ 35

/-! ## Indices -/

lemma PMX_page : PMX (v * PGSIZE) = v / 2 ^ 27 % 512 := by
  unfold PMX PGSIZE
  omega

lemma PDPX_page : PDPX (v * PGSIZE) = v / 2 ^ 18 % 512 := by
  unfold PDPX PGSIZE
  omega

lemma PDX_page : PDX (v * PGSIZE) = v / 2 ^ 9 % 512 := by
  unfold PDX PGSIZE
  omega

lemma PTX_page : PTX (v * PGSIZE) = v % 512 := by
  unfold PTX PGSIZE
  omega

/-- Half of the root is the user's. -/
lemma entries_three : entries 3 = NPDENTRIES / 2 := rfl

lemma fits_path (hv : v < userPages) : Fits entries 4 (path v) := by
  unfold userPages at hv
  refine ⟨?_, ?_, ?_, ?_, trivial⟩ <;> simp only [entries, NPDENTRIES, Nat.reduceEqDiff, if_true, if_false] <;>
    omega

/-- Different pages have different indices. -/
lemma path_inj {u v : ℕ} (hu : u < userPages) (hv : v < userPages) (h : path u = path v) : u = v := by
  unfold userPages at hu hv
  simp only [path, List.cons.injEq, and_true] at h
  omega

/-! ## Ownership -/

lemma Owns.nodup (h : Owns K m X) : X.Nodup := by
  apply Multiset.nodup_of_le _ (Finset.Ico K.first topFrame).nodup
  rw [← show _ = (Finset.Ico K.first topFrame).val from h]
  exact Multiset.le_add_left _ _

/-- A page that somebody has is not free. -/
lemma Owns.not_mem_free (h : Owns K m X) (hf : f ∈ X) : f ∉ m.freelist := by
  intro hfree
  have hnodup : ((m.freelist : Multiset ℕ) + X).Nodup := by
    rw [show _ = allPages K from h]
    exact (Finset.Ico K.first topFrame).nodup
  exact Multiset.disjoint_left.mp (Multiset.nodup_add.mp hnodup).2.2 (Multiset.mem_coe.mpr hfree) hf

lemma Owns.range (h : Owns K m X) (hf : f ∈ X) : K.first ≤ f ∧ f < topFrame := by
  have hmem : f ∈ allPages K := by
    rw [← show _ = allPages K from h]
    exact Multiset.mem_add.mpr (.inr hf)
  exact Finset.mem_Ico.mp hmem

lemma Owns.card (h : Owns K m X) : m.freelist.length + Multiset.card X = topFrame - K.first := by
  have hcard := congrArg Multiset.card (show _ = allPages K from h)
  rw [Multiset.card_add, Multiset.coe_card] at hcard
  rw [hcard]
  exact Nat.card_Ico _ _

/-- Two parts of what is owned have no page in common. -/
lemma Owns.disjoint (h : Owns K m (X + F)) (hf : f ∈ X) : f ∉ F :=
  Multiset.disjoint_left.mp (Multiset.nodup_add.mp h.nodup).2.2 hf

/-- No page is there twice in a part. -/
lemma Owns.nodup_left (h : Owns K m (X + F)) : X.Nodup := (Multiset.nodup_add.mp h.nodup).1

/-- With the same free list, the same pages are owned. -/
lemma Owns.congr (h : Owns K m X) (hfree : m'.freelist = m.freelist) (hX : X = F) : Owns K m' F := by
  unfold Owns
  rw [hfree, ← hX]
  exact h

/-! ## What does not change -/

lemma child_congr (h : m'.table t = m.table t) : child m' t = child m t := by
  funext i
  unfold child
  rw [h]

/-- Only the entries of its own pages matter for a page table. -/
lemma tree_congr (h : ∀ g ∈ Tree m r, m'.table g = m.table g) : Tree m' r = Tree m r :=
  nodes_congr fun g hg => child_congr (h g hg)

/-- Neither does anything else matter for what is found. -/
lemma find_congr (hp : Fits entries 4 p) (h : ∀ g ∈ Tree m r, m'.table g = m.table g) :
    find m' r p = find m r p :=
  reach_congr hp fun g hg => child_congr (h g hg)

/-- The root is a page of the page table. -/
lemma root_mem_tree : r ∈ Tree m r := self_mem_nodes

/-- So is everything that is found. -/
lemma find_mem_tree (hp : Fits entries 4 p) (h : find m r p = some f) : f ∈ Tree m r :=
  mem_of_reach hp h

lemma find_nil : find m r [] = some r := rfl

lemma find_concat (hq : find m r q = some t) : find m r (q ++ [i]) = child m t i := by
  unfold find at hq ⊢
  rw [reach_append, hq]
  exact Option.bind_fun_some _

/-- Where nothing is found at a path, nothing is found behind it. -/
theorem find_of_none (h : find m r p = none) (hpq : p <+: q) : find m r q = none := by
  obtain ⟨s, rfl⟩ := hpq
  unfold find at h ⊢
  rw [reach_append, h]
  rfl

@[simp] lemma freelist_setEntry : (m.setEntry t i e).freelist = m.freelist := rfl

@[simp] lemma freelist_fill {page : ℕ → Pte} {bytes : ℕ → UInt8} :
    (m.fill f page bytes).freelist = m.freelist := rfl

lemma table_setEntry_of_ne {g : ℕ} (h : g ≠ t) : (m.setEntry t i e).table g = m.table g :=
  Function.update_of_ne h _ _

lemma table_fill_of_ne {page : ℕ → Pte} {bytes : ℕ → UInt8} {g : ℕ} (h : g ≠ f) :
    (m.fill f page bytes).table g = m.table g := Function.update_of_ne h _ _

/-- The page that was filled, as a table. -/
lemma table_fill_self {page : ℕ → Pte} {bytes : ℕ → UInt8} : (m.fill f page bytes).table f = page :=
  Function.update_self _ _ _

/-- The page that was filled, as bytes. -/
lemma data_fill_self {page : ℕ → Pte} {bytes : ℕ → UInt8} : (m.fill f page bytes).data f = bytes :=
  Function.update_self _ _ _

/-- A written entry leads where it says. -/
lemma child_setEntry :
    child (m.setEntry t i e) = Radix.set (child m) t i (if e.p then some e.frame else none) := by
  funext g j
  by_cases hg : g = t
  · subst hg
    by_cases hj : j = i
    · subst hj
      rw [set_self]
      unfold child Mem.setEntry
      simp only [Function.update_self]
    · rw [set_self_of_ne hj]
      unfold child Mem.setEntry
      simp only [Function.update_self, Function.update_of_ne hj]
  · rw [set_of_ne hg, child_congr (table_setEntry_of_ne hg)]

/-- An entry on a path of the user half is not one of the kernel half. -/
theorem table_setEntry_half {j : ℕ} (hnodup : (Tree m r).Nodup) (hq : find m r q = some t)
    (hfits : Fits entries 4 (q ++ [i])) (hj : NPDENTRIES / 2 ≤ j) :
    (m.setEntry t i e).table r j = m.table r j := by
  by_cases htr : t = r
  · subst htr
    obtain rfl := eq_nil_of_reach_root hnodup hfits.of_append hq
    have hi : i < entries 3 := hfits.1
    rw [entries_three] at hi
    have hji : j ≠ i := by omega
    unfold Mem.setEntry
    simp only [Function.update_self, Function.update_of_ne hji]
  · rw [table_setEntry_of_ne (Ne.symm htr)]

/-! ## Pages that come and go -/

/-- A page that nothing refers to becomes what entry `i` of table `t` refers to. -/
structure Linked (K : Kernel) (m m' : Mem) (r : ℕ) (F : Multiset ℕ) (p : List ℕ) (f : ℕ) : Prop where
  owns : Owns K m' (Tree m' r + F)
  frame : ∀ g ∈ F, m'.table g = m.table g
  found : ∀ s, Fits entries 4 s → find m' r s = if s = p then some f else find m r s
  half : ∀ j, NPDENTRIES / 2 ≤ j → m'.table r j = m.table r j
  free : m'.freelist = m.freelist

/-- A page is linked: it belongs to the tree, and everything else is found as before. -/
lemma link (hown : Owns K m (Tree m r + (f ::ₘ F))) (hq : find m r q = some t)
    (hfits : Fits entries 4 (q ++ [i])) (hnone : child m t i = none)
    (hempty : q.length = 3 ∨ ∀ j, child m f j = none) (hp : e.p = true) (hf : e.frame = f) :
    Linked K m (m.setEntry t i e) r F (q ++ [i]) f := by
  have hnodup := hown.nodup_left
  have htree : t ∈ Tree m r := find_mem_tree hfits.of_append hq
  have hft : f ∉ Tree m r := fun h => hown.disjoint h (Multiset.mem_cons_self f F)
  have hlen : q.length + 1 = 4 ∨ ∀ j, child m f j = none := by
    obtain h3 | hall := hempty
    · exact .inl (by omega)
    · exact .inr hall
  have hchild : child (m.setEntry t i e) = Radix.set (child m) t i (some f) := by
    rw [child_setEntry, if_pos hp, hf]
  have htree' : Tree (m.setEntry t i e) r = Tree m r + {f} := by
    unfold Tree
    rw [hchild]
    exact nodes_link hnodup hq hfits hnone hft hlen
  constructor
  · apply hown.congr rfl
    rw [htree', add_assoc, Multiset.singleton_add]
  · intro g hg
    apply table_setEntry_of_ne
    rintro rfl
    exact hown.disjoint htree (Multiset.mem_cons_of_mem hg)
  · intro s hs
    unfold find
    rw [hchild]
    exact reach_link hnodup hq hfits hnone hft hlen hs
  · intro j hj
    exact table_setEntry_half hnodup hq hfits hj
  · rfl

/-- A user page is given back: it goes to the free list, filled with ones, and its entry is cleared. -/
structure Unlinked (K : Kernel) (m m' : Mem) (r : ℕ) (F : Multiset ℕ) (p : List ℕ) : Prop where
  owns : Owns K m' (Tree m' r + F)
  frame : ∀ g ∈ F, m'.table g = m.table g
  found : ∀ s, Fits entries 4 s → find m' r s = if s = p then none else find m r s
  half : ∀ j, NPDENTRIES / 2 ≤ j → m'.table r j = m.table r j
  card : Multiset.card (Tree m' r) + 1 = Multiset.card (Tree m r)

/-- A page is unlinked: it belongs to nobody, and everything else is found as before. -/
lemma unlink {page : ℕ → Pte} {bytes : ℕ → UInt8} (hown : Owns K m (Tree m r + F)) (hq : find m r q = some t)
    (hfits : Fits entries 4 (q ++ [i])) (hlen : q.length = 3) (hf : child m t i = some f) (hp : e.p = false)
    (hm' : m' = { m.fill f page bytes with freelist := f :: m.freelist }.setEntry t i e) :
    Unlinked K m m' r F (q ++ [i]) := by
  have hnodup := hown.nodup_left
  have hfind : find m r (q ++ [i]) = some f := by rw [find_concat hq, hf]
  have htree : t ∈ Tree m r := find_mem_tree hfits.of_append hq
  have hftree : f ∈ Tree m r := find_mem_tree hfits hfind
  -- the entry is cleared first, which is the same
  have hchild : child (m.setEntry t i e) = Radix.set (child m) t i none := by
    rw [child_setEntry, hp]
    rfl
  have hsum : Tree (m.setEntry t i e) r + {f} = Tree m r := by
    unfold Tree at hnodup ⊢
    have h4 : 4 = q.length + (0 + 1) := by omega
    rw [h4] at hnodup hfits ⊢
    rw [hchild]
    have hset := nodes_set (x := none) hnodup hq hfits (by simp)
    rwa [hf, below_some, below_none, add_zero, nodes_zero] at hset
  have hout : f ∉ Tree (m.setEntry t i e) r := by
    rw [← hsum] at hnodup
    intro hmem
    exact Multiset.disjoint_left.mp (Multiset.nodup_add.mp hnodup).2.2 hmem (Multiset.mem_singleton_self f)
  have hft : f ≠ t := by
    rintro rfl
    have hmem : f ∈ Tree (m.setEntry f i e) r := by
      apply find_mem_tree hfits.of_append
      unfold find at hq ⊢
      rw [hchild, reach_set hnodup hq hfits hfits.of_append, hq]
      intro hle
      have := hle.length_le
      rw [List.length_append, List.length_singleton] at this
      omega
    exact hout hmem
  have htable : ∀ g, g ≠ f → m'.table g = (m.setEntry t i e).table g := by
    intro g hg
    subst hm'
    by_cases hgt : g = t
    · subst hgt
      unfold Mem.setEntry Mem.fill
      simp only [Function.update_self, Function.update_of_ne hg]
    · rw [table_setEntry_of_ne hgt, table_setEntry_of_ne hgt]
      exact Function.update_of_ne hg _ _
  have hsame : ∀ g ∈ Tree (m.setEntry t i e) r, m'.table g = (m.setEntry t i e).table g :=
    fun g hg => htable g fun h => hout (h ▸ hg)
  have hrf : r ≠ f := fun h => hout (h ▸ root_mem_tree)
  constructor
  · unfold Owns
    rw [tree_congr hsame, show m'.freelist = f :: m.freelist by rw [hm']; rfl, ← Multiset.cons_coe]
    have hall : (m.freelist : Multiset ℕ) + (Tree m r + F) = allPages K := hown
    rw [← hall, ← hsum, ← Multiset.singleton_add]
    ac_rfl
  · intro g hg
    have hgf : g ≠ f := fun h => hown.disjoint hftree (h ▸ hg)
    have hgt : g ≠ t := fun h => hown.disjoint htree (h ▸ hg)
    rw [htable g hgf, table_setEntry_of_ne hgt]
  · intro s hs
    rw [find_congr hs hsame]
    unfold find at hq ⊢
    rw [hchild]
    by_cases hsp : (q ++ [i]) <+: s
    · obtain rfl : q ++ [i] = s := by
        apply hsp.eq_of_length_le
        have := Fits.length_le hs
        rw [List.length_append, List.length_singleton]
        omega
      rw [if_pos rfl, reach_set_self hnodup hq hfits]
    · have hne : s ≠ q ++ [i] := fun h => hsp (h ▸ List.prefix_refl _)
      rw [if_neg hne]
      exact reach_set hnodup hq hfits hs hsp
  · intro j hj
    rw [htable r hrf]
    exact table_setEntry_half hnodup hq hfits hj
  · rw [tree_congr hsame, ← hsum, Multiset.card_add, Multiset.card_singleton]

-- from here on a page table is known by the lemmas above
attribute [irreducible] Tree

end Vm
end OhMyXv6
