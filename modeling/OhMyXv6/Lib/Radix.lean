import Mathlib.Algebra.BigOperators.Group.Finset.Basic
import Mathlib.Algebra.Order.BigOperators.Group.Finset
import Mathlib.Algebra.Order.Group.Multiset
import Mathlib.Data.Finset.Range
import Mathlib.Data.Multiset.Sum
import Mathlib.Logic.Function.Basic

/-!
# Radix trees in memory

A table has entries, and an entry refers to another table or to nothing: `c f i` is what entry `i` of
table `f` refers to. A tree of `n` levels is a table whose entries refer to trees of `n - 1` levels; at
level zero there is no table but only a leaf. `w n` is the number of entries that count in a table with
`n` levels below it.

`nodes` lists the tables and leaves of a tree, each as often as it is referred to. If none is listed
twice then a change of one entry changes what is found at the paths through that entry, and the list of
nodes by the subtree that the entry loses or gains, and nothing else.
-/

namespace Radix

variable {c c' : ℕ → ℕ → Option ℕ} {w : ℕ → ℕ} {n k f g i t : ℕ} {p q : List ℕ}

/-- The tables and leaves of a tree with `n` levels. -/
def nodes (c : ℕ → ℕ → Option ℕ) (w : ℕ → ℕ) : ℕ → ℕ → Multiset ℕ
  | 0, f => {f}
  | n + 1, f => f ::ₘ ∑ i ∈ Finset.range (w n), (c f i).elim 0 (nodes c w n)

/-- What is found at the end of a path. -/
def reach (c : ℕ → ℕ → Option ℕ) (f : ℕ) : List ℕ → Option ℕ
  | [] => some f
  | i :: p => (c f i).bind fun g => reach c g p

/-- The path stays inside a tree with `n` levels. -/
def Fits (w : ℕ → ℕ) : ℕ → List ℕ → Prop
  | _, [] => True
  | 0, _ :: _ => False
  | n + 1, i :: p => i < w n ∧ Fits w n p

/-- One entry changed. -/
def set (c : ℕ → ℕ → Option ℕ) (g i : ℕ) (x : Option ℕ) : ℕ → ℕ → Option ℕ :=
  Function.update c g (Function.update (c g) i x)

/-- The nodes of the tree that an entry refers to. -/
def below (c : ℕ → ℕ → Option ℕ) (w : ℕ → ℕ) (n : ℕ) (x : Option ℕ) : Multiset ℕ :=
  x.elim 0 (nodes c w n)

@[simp] lemma below_none : below c w n none = 0 := rfl

@[simp] lemma below_some : below c w n (some g) = nodes c w n g := rfl

lemma nodes_zero : nodes c w 0 f = {f} := rfl

lemma nodes_succ : nodes c w (n + 1) f
    = f ::ₘ ∑ i ∈ Finset.range (w n), below c w n (c f i) := rfl

lemma self_mem_nodes : f ∈ nodes c w n f := by
  cases n with
  | zero => exact Multiset.mem_singleton_self f
  | succ n => exact Multiset.mem_cons_self _ _

lemma set_of_ne {x : Option ℕ} (h : f ≠ g) : set c g i x f = c f := Function.update_of_ne h _ _

lemma set_self {x : Option ℕ} : set c g i x g i = x := by
  unfold set
  rw [Function.update_self, Function.update_self]

/-- The other slots of the node stay. -/
lemma set_self_of_ne {x : Option ℕ} {j : ℕ} (h : j ≠ i) : set c g i x g j = c g j := by
  unfold set
  rw [Function.update_self, Function.update_of_ne h]

/-- One step and the rest of the path. -/
lemma reach_cons : reach c f (i :: p) = (c f i).bind fun g => reach c g p := rfl

lemma reach_append : reach c f (p ++ q) = (reach c f p).bind fun g => reach c g q := by
  induction p generalizing f with
  | nil => rfl
  | cons i p ih =>
    rw [List.cons_append, reach_cons, reach_cons, Option.bind_assoc]
    congr 1
    funext h
    exact ih

lemma fits_nil : Fits w n [] := by
  cases n <;> trivial

lemma Fits.of_append (h : Fits w n (p ++ q)) : Fits w n p := by
  induction p generalizing n with
  | nil => exact fits_nil
  | cons i p ih =>
    cases n with
    | zero => exact h.elim
    | succ n => exact ⟨h.1, ih h.2⟩

/-- A path is no longer than the tree is high. -/
lemma Fits.length_le (h : Fits w n p) : p.length ≤ n := by
  induction p generalizing n with
  | nil => exact Nat.zero_le n
  | cons i p ih =>
    cases n with
    | zero => exact h.elim
    | succ n => exact Nat.succ_le_succ (ih h.2)

/-- The tree below an entry is a part of the tree. -/
lemma below_le (hi : i < w n) : below c w n (c f i) ≤ ∑ j ∈ Finset.range (w n), below c w n (c f j) :=
  Finset.single_le_sum (fun _ _ => Multiset.zero_le _) (Finset.mem_range.mpr hi)

/-- A child's tree and the node itself. -/
lemma nodes_le_of_child (hi : i < w n) (hg : c f i = some g) :
    f ::ₘ nodes c w n g ≤ nodes c w (n + 1) f := by
  have hle := below_le (c := c) (f := f) hi
  rw [hg, below_some] at hle
  rw [nodes_succ]
  exact Multiset.cons_le_cons f hle

/-- What is below a child is below the node. -/
lemma nodes_of_child (hi : i < w n) (hg : c f i = some g) {h : ℕ} (hh : h ∈ nodes c w n g) :
    h ∈ nodes c w (n + 1) f :=
  Multiset.mem_of_le (nodes_le_of_child hi hg) (Multiset.mem_cons_of_mem hh)

/-- What a path leads to is a node of the tree. -/
lemma mem_of_reach (hp : Fits w n p) (h : reach c f p = some g) : g ∈ nodes c w n f := by
  induction p generalizing n f with
  | nil =>
    obtain rfl := Option.some.inj h
    exact self_mem_nodes
  | cons i p ih =>
    cases n with
    | zero => exact hp.elim
    | succ n =>
      obtain ⟨e, he, hrest⟩ := Option.bind_eq_some_iff.mp h
      exact nodes_of_child hp.1 he (ih hp.2 hrest)

/-- Nothing is found below a table without entries. -/
lemma reach_empty (h : ∀ j, c f j = none) (hp : p ≠ []) :
    reach c f p = none := by
  cases p with
  | nil => exact (hp rfl).elim
  | cons j p =>
    rw [reach_cons, h j]
    rfl

/-- A table with no entry that counts. -/
lemma nodes_of_none (h : ∀ j < w n, c f j = none) : nodes c w (n + 1) f = {f} := by
  have hsum : ∑ j ∈ Finset.range (w n), below c w n (c f j) = 0 := by
    apply Finset.sum_eq_zero
    intro j hj
    rw [h j (Finset.mem_range.mp hj), below_none]
  rw [nodes_succ, hsum]
  rfl

lemma nodes_empty (h : n = 0 ∨ ∀ j, c f j = none) : nodes c w n f = {f} := by
  cases n with
  | zero => rfl
  | succ n =>
    obtain h | h := h
    · cases h
    · exact nodes_of_none fun j _ => h j

/-! ## What does not change -/

/-- The entries of its own tables decide what a tree is. -/
lemma nodes_congr (h : ∀ g ∈ nodes c w n f, c' g = c g) : nodes c' w n f = nodes c w n f := by
  induction n generalizing f with
  | zero => rfl
  | succ n ih =>
    rw [nodes_succ, nodes_succ, h f self_mem_nodes]
    congr 1
    apply Finset.sum_congr rfl
    intro i hi
    cases hg : c f i with
    | none => rfl
    | some g =>
      rw [below_some, below_some]
      apply ih
      intro e he
      exact h e (nodes_of_child (Finset.mem_range.mp hi) hg he)

/-- Only the nodes of the tree count. -/
lemma reach_congr (hp : Fits w n p) (h : ∀ g ∈ nodes c w n f, c' g = c g) :
    reach c' f p = reach c f p := by
  induction p generalizing n f with
  | nil => rfl
  | cons i p ih =>
    cases n with
    | zero => exact hp.elim
    | succ n =>
      rw [reach_cons, reach_cons, h f self_mem_nodes]
      cases hg : c f i with
      | none => rfl
      | some g =>
        exact ih hp.2 fun e he => h e (nodes_of_child hp.1 hg he)

/-- The entries on a path decide what it leads to. -/
lemma reach_congr_path (h : ∀ s i p' e, s ++ i :: p' = p → reach c f s = some e → c' e i = c e i) :
    reach c' f p = reach c f p := by
  induction p generalizing f with
  | nil => rfl
  | cons i p ih =>
    rw [reach_cons, reach_cons, h [] i p f rfl rfl]
    cases he : c f i with
    | none => rfl
    | some e =>
      apply ih
      intro s j p' x hp hs
      apply h (i :: s) j p' x (by rw [← hp]; rfl)
      rw [reach_cons, he]
      exact hs

/-- What is reached stays in reach when entries are only added. -/
lemma reach_mono (hp : Fits w n p)
    (hadd : ∀ e ∈ nodes c w n f, ∀ i x, c e i = some x → c' e i = some x) (h : reach c f p = some g) :
    reach c' f p = some g := by
  induction p generalizing n f with
  | nil => exact h
  | cons i p ih =>
    cases n with
    | zero => exact hp.elim
    | succ n =>
      obtain ⟨e, he, hrest⟩ := Option.bind_eq_some_iff.mp h
      rw [reach_cons, hadd f self_mem_nodes i e he]
      exact ih hp.2 (fun x hx => hadd x (nodes_of_child hp.1 he hx)) hrest

lemma set_congr {x : Option ℕ} (h : g ∉ nodes c w n f) :
    ∀ e ∈ nodes c w n f, set c g i x e = c e :=
  fun _ he => set_of_ne fun heq => h (heq ▸ he)

/-- The same below a slot that may be empty. -/
lemma below_set {x y : Option ℕ} (h : g ∉ below c w n y) :
    below (set c g i x) w n y = below c w n y := by
  cases y with
  | none => rfl
  | some f => exact nodes_congr (set_congr h)

/-! ## One entry changed -/

/-- A sum of which one term changes. -/
lemma sum_change {M : Type*} [AddCommMonoid M] {s : Finset ℕ} {F G : ℕ → M} (hi : i ∈ s)
    (h : ∀ j ∈ s, j ≠ i → G j = F j) : ∑ j ∈ s, G j + F i = ∑ j ∈ s, F j + G i := by
  have hrest : ∑ j ∈ s.erase i, G j = ∑ j ∈ s.erase i, F j :=
    Finset.sum_congr rfl fun j hj => h j (Finset.mem_of_mem_erase hj) (Finset.ne_of_mem_erase hj)
  rw [← Finset.add_sum_erase s G hi, ← Finset.add_sum_erase s F hi, hrest]
  ac_rfl

/-- A table that is a node of one subtree is not a node of another one, nor the root. -/
theorem not_mem_below (hnodup : (nodes c w (n + 1) f).Nodup) (hi : i < w n)
    (hg : g ∈ below c w n (c f i)) : g ≠ f ∧ ∀ j < w n, j ≠ i → g ∉ below c w n (c f j) := by
  rw [nodes_succ, Multiset.nodup_cons] at hnodup
  obtain ⟨hf, hsum⟩ := hnodup
  constructor
  · rintro rfl
    exact hf (Multiset.mem_of_le (below_le hi) hg)
  · intro j hj hji hgj
    have hle : below c w n (c f i) + below c w n (c f j)
        ≤ ∑ j ∈ Finset.range (w n), below c w n (c f j) := by
      rw [← Finset.add_sum_erase _ _ (Finset.mem_range.mpr hi)]
      apply add_le_add_right
      exact Finset.single_le_sum (f := fun j => below c w n (c f j))
        (fun _ _ => Multiset.zero_le _)
        (Finset.mem_erase.mpr ⟨hji, Finset.mem_range.mpr hj⟩)
    have hd := Multiset.nodup_add.mp (Multiset.nodup_of_le hle hsum)
    exact Multiset.disjoint_left.mp hd.2.2 hg hgj

/-- The root of a tree is in none of its subtrees. -/
lemma root_not_mem_below (hnodup : (nodes c w (n + 1) f).Nodup) (hi : i < w n) :
    f ∉ below c w n (c f i) := fun hmem => (not_mem_below hnodup hi hmem).1 rfl

/-- Only the empty path leads back to the root. -/
lemma eq_nil_of_reach_root (hnodup : (nodes c w (n + 1) f).Nodup) (hp : Fits w (n + 1) p)
    (h : reach c f p = some f) : p = [] := by
  cases p with
  | nil => rfl
  | cons i p =>
    obtain ⟨g, hg, hrest⟩ := Option.bind_eq_some_iff.mp h
    have hroot := root_not_mem_below hnodup hp.1
    rw [hg] at hroot
    exact (hroot (mem_of_reach hp.2 hrest)).elim

lemma nodup_child (hnodup : (nodes c w (n + 1) f).Nodup) (hi : i < w n) (hg : c f i = some g) :
    (nodes c w n g).Nodup :=
  (Multiset.nodup_cons.mp (Multiset.nodup_of_le (nodes_le_of_child hi hg) hnodup)).2

/-- A node is reached on one path only. -/
lemma reach_inj (hnodup : (nodes c w n f).Nodup) (hp : Fits w n p) (hq : Fits w n q)
    (h : reach c f p = some g) (h' : reach c f q = some g) : p = q := by
  induction p generalizing n f q with
  | nil =>
    obtain rfl := Option.some.inj h
    cases n with
    | zero =>
      cases q with
      | nil => rfl
      | cons j q => exact hq.elim
    | succ n => exact (eq_nil_of_reach_root hnodup hq h').symm
  | cons i p ih =>
    cases n with
    | zero => exact hp.elim
    | succ n =>
      cases q with
      | nil =>
        obtain rfl := Option.some.inj h'
        exact eq_nil_of_reach_root hnodup hp h
      | cons j q =>
        obtain ⟨e, he, hrest⟩ := Option.bind_eq_some_iff.mp h
        obtain ⟨e', he', hrest'⟩ := Option.bind_eq_some_iff.mp h'
        have hin : g ∈ below c w n (c f i) := by
          rw [he, below_some]
          exact mem_of_reach hp.2 hrest
        have hin' : g ∈ below c w n (c f j) := by
          rw [he', below_some]
          exact mem_of_reach hq.2 hrest'
        have hij : j = i := by
          by_contra hne
          exact (not_mem_below hnodup hp.1 hin).2 j hq.1 hne hin'
        subst hij
        obtain rfl := Option.some.inj (he.symm.trans he')
        rw [ih (nodup_child hnodup hp.1 he) hp.2 hq.2 hrest hrest']

/-- **The nodes after a change of the entry at the end of path `q ++ [i]`.** -/
theorem nodes_set {x : Option ℕ} (hnodup : (nodes c w (q.length + (k + 1)) f).Nodup)
    (hq : reach c f q = some g) (hfits : Fits w (q.length + (k + 1)) (q ++ [i]))
    (hx : g ∉ below c w k x) :
    nodes (set c g i x) w (q.length + (k + 1)) f + below c w k (c g i)
      = nodes c w (q.length + (k + 1)) f + below c w k x := by
  induction q generalizing f with
  | nil =>
    obtain rfl := Option.some.inj hq
    simp only [List.length_nil, Nat.zero_add] at hnodup hfits ⊢
    have hi : i < w k := hfits.1
    have hsum : ∑ j ∈ Finset.range (w k), below (set c f i x) w k (set c f i x f j)
        + below c w k (c f i) = ∑ j ∈ Finset.range (w k), below c w k (c f j) + below c w k x := by
      have hnew : below (set c f i x) w k (set c f i x f i) = below c w k x := by
        rw [set_self, below_set hx]
      rw [← hnew]
      apply sum_change (Finset.mem_range.mpr hi)
      intro j hj hji
      rw [set_self_of_ne hji, below_set (root_not_mem_below hnodup (Finset.mem_range.mp hj))]
    rw [nodes_succ, nodes_succ, Multiset.cons_add, Multiset.cons_add, hsum]
  | cons a q ih =>
    have hlen : (a :: q).length + (k + 1) = (q.length + (k + 1)) + 1 := by
      rw [List.length_cons]
      omega
    rw [hlen] at hnodup hfits ⊢
    obtain ⟨h, hh, hrest⟩ := Option.bind_eq_some_iff.mp hq
    have ha : a < w (q.length + (k + 1)) := hfits.1
    have hqfits : Fits w (q.length + (k + 1)) q := hfits.2.of_append
    have hmem : g ∈ below c w (q.length + (k + 1)) (c f a) := by
      rw [hh]
      exact mem_of_reach hqfits hrest
    obtain ⟨hgf, hother⟩ := not_mem_below hnodup ha hmem
    have hchild := ih (nodup_child hnodup ha hh) hrest hfits.2
    have hsum := sum_change (i := a)
      (F := fun j => below c w (q.length + (k + 1)) (c f j))
      (G := fun j => below (set c g i x) w (q.length + (k + 1)) (set c g i x f j))
      (Finset.mem_range.mpr ha) (by
        intro j hj hja
        rw [set_of_ne (Ne.symm hgf), below_set (hother j (Finset.mem_range.mp hj) hja)])
    rw [set_of_ne (Ne.symm hgf), hh, below_some, below_some] at hsum
    rw [nodes_succ, nodes_succ, Multiset.cons_add, Multiset.cons_add]
    congr 1
    rw [set_of_ne (Ne.symm hgf)]
    -- add the nodes of the child on both sides
    apply add_right_cancel (b := nodes c w (q.length + (k + 1)) h)
    calc _ = (∑ j ∈ Finset.range (w (q.length + (k + 1))),
          below (set c g i x) w (q.length + (k + 1)) (c f j)
            + nodes c w (q.length + (k + 1)) h) + below c w k (c g i) := by ac_rfl
      _ = (∑ j ∈ Finset.range (w (q.length + (k + 1))), below c w (q.length + (k + 1)) (c f j)
            + nodes (set c g i x) w (q.length + (k + 1)) h) + below c w k (c g i) := by rw [hsum]
      _ = ∑ j ∈ Finset.range (w (q.length + (k + 1))), below c w (q.length + (k + 1)) (c f j)
            + (nodes (set c g i x) w (q.length + (k + 1)) h + below c w k (c g i)) := by ac_rfl
      _ = ∑ j ∈ Finset.range (w (q.length + (k + 1))), below c w (q.length + (k + 1)) (c f j)
            + (nodes c w (q.length + (k + 1)) h + below c w k x) := by rw [hchild]
      _ = _ := by ac_rfl

/-- **What paths lead to after the change**: the same, unless they go through the entry. -/
theorem reach_set {x : Option ℕ} (hnodup : (nodes c w n f).Nodup) (hq : reach c f q = some g)
    (hfits : Fits w n (q ++ [i])) (hp : Fits w n p) (hnot : ¬ (q ++ [i]) <+: p) :
    reach (set c g i x) f p = reach c f p := by
  apply reach_congr_path
  intro s j p' e hs he
  by_cases heg : e = g
  · subst heg
    -- the table is on no other path
    obtain rfl : s = q := by
      subst hs
      exact reach_inj hnodup hp.of_append hfits.of_append he hq
    have hji : j ≠ i := by
      rintro rfl
      exact hnot ⟨p', by rw [← hs, List.append_assoc]; rfl⟩
    exact set_self_of_ne hji
  · rw [set_of_ne heg]

/-- The entry itself. -/
lemma reach_set_self {x : Option ℕ} (hnodup : (nodes c w n f).Nodup) (hq : reach c f q = some g)
    (hfits : Fits w n (q ++ [i])) : reach (set c g i x) f (q ++ [i]) = x := by
  have hsame : reach (set c g i x) f q = some g := by
    rw [reach_set hnodup hq hfits hfits.of_append, hq]
    intro hle
    have := hle.length_le
    rw [List.length_append, List.length_singleton] at this
    omega
  rw [reach_append, hsame]
  show ((set c g i x g i).bind fun e => reach (set c g i x) e []) = x
  rw [set_self]
  cases x <;> rfl

/-- A table on the last level has no subtrees, whatever its entries. -/
theorem nodes_set_last {x : Option ℕ} (hnodup : (nodes c w q.length f).Nodup) (hq : reach c f q = some g)
    (hfits : Fits w q.length q) : nodes (set c g i x) w q.length f = nodes c w q.length f := by
  induction q generalizing f with
  | nil => rfl
  | cons a q ih =>
    rw [List.length_cons] at hnodup hfits ⊢
    obtain ⟨h, hh, hrest⟩ := Option.bind_eq_some_iff.mp hq
    have hmem : g ∈ below c w q.length (c f a) := by
      rw [hh]
      exact mem_of_reach hfits.2 hrest
    obtain ⟨hgf, hother⟩ := not_mem_below hnodup hfits.1 hmem
    rw [nodes_succ, nodes_succ, set_of_ne (Ne.symm hgf)]
    congr 1
    apply Finset.sum_congr rfl
    intro j hj
    by_cases hja : j = a
    · subst hja
      rw [hh, below_some, below_some]
      exact ih (nodup_child hnodup hfits.1 hh) hrest hfits.2
    · exact below_set (hother j (Finset.mem_range.mp hj) hja)

/-- The last slot of a path is set. -/
lemma reach_set_last {x : Option ℕ} (hnodup : (nodes c w q.length f).Nodup) (hq : reach c f q = some g)
    (hfits : Fits w q.length q) (hp : Fits w q.length p) : reach (set c g i x) f p = reach c f p := by
  apply reach_congr_path
  intro s j p' e hs he
  have heg : e ≠ g := by
    rintro rfl
    have hlen := hp.length_le
    subst hs
    obtain rfl := reach_inj hnodup hp.of_append hfits he hq
    simp only [List.length_append, List.length_cons] at hlen
    omega
  rw [set_of_ne heg]

/-! ## A new table -/

section
variable (hnodup : (nodes c w n f).Nodup) (hq : reach c f q = some t) (hfits : Fits w n (q ++ [i]))
  (hnone : c t i = none) (hg : g ∉ nodes c w n f) (hempty : q.length + 1 = n ∨ ∀ j, c g j = none)
include hnodup hq hfits hnone hg hempty

lemma nodes_link : nodes (set c t i (some g)) w n f = nodes c w n f + {g} := by
  have hlen : q.length + 1 ≤ n := by
    have := hfits.length_le
    rwa [List.length_append] at this
  obtain ⟨k, rfl⟩ : ∃ k, n = q.length + (k + 1) := ⟨n - (q.length + 1), by omega⟩
  have hleaf : nodes c w k g = {g} := by
    apply nodes_empty
    obtain h | h := hempty
    · exact .inl (by omega)
    · exact .inr h
  have htg : t ≠ g := fun h => hg (h ▸ mem_of_reach hfits.of_append hq)
  have hset := nodes_set (x := some g) hnodup hq hfits (by
    rw [below_some, hleaf]
    exact fun h => htg (Multiset.mem_singleton.mp h))
  rwa [hnone, below_none, add_zero, below_some, hleaf] at hset

lemma reach_link (hp : Fits w n p) :
    reach (set c t i (some g)) f p = if p = q ++ [i] then some g else reach c f p := by
  have htg : t ≠ g := fun h => hg (h ▸ mem_of_reach hfits.of_append hq)
  by_cases hqp : (q ++ [i]) <+: p
  · obtain ⟨s, rfl⟩ := hqp
    have hself : reach (set c t i (some g)) f (q ++ [i]) = some g := reach_set_self hnodup hq hfits
    by_cases hs : s = []
    · subst hs
      rw [List.append_nil, if_pos rfl, hself]
    · have hlong : q ++ [i] ++ s ≠ q ++ [i] := fun h => hs (List.append_right_eq_self.mp h)
      have hold : reach c f (q ++ [i]) = none := by
        rw [reach_append, hq]
        show ((c t i).bind fun e => reach c e []) = none
        rw [hnone]
        rfl
      rw [if_neg hlong, reach_append, hself, reach_append, hold]
      apply reach_empty _ hs
      intro j
      rw [set_of_ne htg.symm]
      -- a leaf has no path below it
      obtain h | h := hempty
      · have := hp.length_le
        have hpos := List.length_pos_of_ne_nil hs
        simp only [List.length_append, List.length_singleton] at this
        omega
      · exact h j
  · have hne : p ≠ q ++ [i] := fun h => hqp (h ▸ List.prefix_refl _)
    rw [if_neg hne]
    exact reach_set hnodup hq hfits hp hqp

end

end Radix
