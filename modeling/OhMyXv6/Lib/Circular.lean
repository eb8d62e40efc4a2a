import Mathlib.Data.Finset.Max
import Mathlib.Dynamics.PeriodicPts.Defs

/-!
# Circular lists in increasing order

The nodes of the list are the elements of a finite set. Each node links to the next one in the order, and
the greatest one to the least.
-/

namespace Circular

variable {α : Type*} [LinearOrder α] {F : Finset α} {next next' : α → α} {a b c x : α}

/-- `b` comes after `a` in the circle of `F`. -/
def IsNext (F : Finset α) (a b : α) : Prop :=
  b ∈ F ∧ (a < b ∧ (∀ c ∈ F, c ≤ a ∨ b ≤ c) ∨ b ≤ a ∧ ∀ c ∈ F, b ≤ c ∧ c ≤ a)

/-- Every node of `F` links to the one that comes after it. -/
def Sorted (next : α → α) (F : Finset α) : Prop := ∀ a ∈ F, IsNext F a (next a)

/-- There is room for `x` between a node and the one after it. -/
def Between (a x b : α) : Prop := a < x ∧ x < b ∨ b ≤ a ∧ (a < x ∨ x < b)

lemma Sorted.mem (h : Sorted next F) (ha : a ∈ F) : next a ∈ F := (h a ha).1

lemma Sorted.iterate_mem (h : Sorted next F) (ha : a ∈ F) (k : ℕ) : next^[k] a ∈ F := by
  induction k with
  | zero => exact ha
  | succ k ih =>
    rw [Function.iterate_succ_apply']
    exact h.mem ih

/-- Only the successors on the ring count. -/
lemma Sorted.congr (h : Sorted next F) (heq : ∀ a ∈ F, next' a = next a) : Sorted next' F := by
  intro a ha
  rw [heq a ha]
  exact h a ha

lemma sorted_singleton (h : next a = a) : Sorted next {a} := by
  intro b hb
  rw [Finset.mem_singleton] at hb
  subst hb
  refine ⟨by simp [h], .inr ⟨h.le, ?_⟩⟩
  simp [h]

/-- One node links to each. -/
lemma IsNext.pred_unique (ha : a ∈ F) (hb : b ∈ F) (hac : IsNext F a c) (hbc : IsNext F b c) : a = b := by
  have hab := hac.2
  have hba := hbc.2
  grind

/-- A node is put between two. -/
lemma Sorted.insert (h : Sorted next F) (ha : a ∈ F) (hx : x ∉ F) (hbtw : Between a x (next a))
    (ha' : next' a = x) (hx' : next' x = next a) (heq : ∀ c ∈ F, c ≠ a → next' c = next c) :
    Sorted next' (insert x F) := by
  have hnext := h a ha
  have hax : a ≠ x := fun heq => hx (heq ▸ ha)
  intro c hc
  rcases Finset.mem_insert.mp hc with rfl | hcF
  · rw [hx']
    unfold IsNext Between at *
    grind
  · by_cases hca : c = a
    · subst hca
      rw [ha']
      unfold IsNext Between at *
      grind
    · rw [heq c hcF hca]
      have hcnext := h c hcF
      unfold IsNext Between at *
      grind

/-- The node after `a` is taken out. -/
lemma Sorted.erase (h : Sorted next F) (ha : a ∈ F) (hne : next a ≠ a) (ha' : next' a = next (next a))
    (heq : ∀ c ∈ F, c ≠ a → c ≠ next a → next' c = next c) : Sorted next' (F.erase (next a)) := by
  have hnext := h a ha
  have hnext' := h (next a) hnext.1
  intro c hc
  obtain ⟨hcn, hcF⟩ := Finset.mem_erase.mp hc
  by_cases hca : c = a
  · subst hca
    rw [ha']
    unfold IsNext at *
    grind
  · rw [heq c hcF hca hcn]
    have hcnext := h c hcF
    have hpred : next c ≠ next a := by
      intro heq
      exact hca (IsNext.pred_unique hcF ha (heq ▸ hcnext) hnext)
    unfold IsNext at *
    grind

/-- There is room somewhere for what is not in the circle. -/
lemma Sorted.exists_between (h : Sorted next F) (hF : F.Nonempty) (hx : x ∉ F) :
    ∃ a ∈ F, Between a x (next a) := by
  by_cases hlt : ∃ a ∈ F, a < x
  · -- After the greatest node below `x`.
    have hne : (F.filter (· < x)).Nonempty := by
      obtain ⟨a, ha, hax⟩ := hlt
      exact ⟨a, Finset.mem_filter.mpr ⟨ha, hax⟩⟩
    obtain ⟨a, hmem, hmax⟩ := Finset.exists_max_image _ id hne
    obtain ⟨ha, hax⟩ := Finset.mem_filter.mp hmem
    refine ⟨a, ha, ?_⟩
    have hnext := h a ha
    have hnx : next a ≠ x := fun heq => hx (heq ▸ hnext.1)
    have hle' : next a < x → next a ≤ a := fun hlt =>
      hmax _ (Finset.mem_filter.mpr ⟨hnext.1, hlt⟩)
    unfold IsNext at hnext
    unfold Between
    grind
  · -- After the greatest node of all.
    simp only [not_exists, not_and, not_lt] at hlt
    refine ⟨F.max' hF, F.max'_mem hF, ?_⟩
    have hnext := h (F.max' hF) (F.max'_mem hF)
    have hle := F.le_max' (next (F.max' hF)) hnext.1
    have hxn := hlt _ hnext.1
    have hnx : next (F.max' hF) ≠ x := fun heq => hx (heq ▸ hnext.1)
    exact .inr ⟨hle, .inr (lt_of_le_of_ne hxn hnx.symm)⟩

/-! ## Going round -/

/-- `c` is met on the way from `a`, which does not count, to `b`. -/
def OnWay (a b c : α) : Prop := a < c ∧ c ≤ b ∨ b < a ∧ (a < c ∨ c ≤ b)

instance (a b c : α) : Decidable (OnWay a b c) :=
  inferInstanceAs (Decidable (a < c ∧ c ≤ b ∨ b < a ∧ (a < c ∨ c ≤ b)))

/-- One step on the way from `a` to `b`. -/
lemma Sorted.onWay_next (h : Sorted next F) (ha : a ∈ F) (hb : b ∈ F) (hab : a ≠ b) :
    OnWay a b (next a) ∧ ¬ OnWay (next a) b (next a) ∧
      ∀ c ∈ F, OnWay (next a) b c → OnWay a b c := by
  have hnext := h a ha
  unfold IsNext OnWay at *
  grind

/-- Every node is reached from every other. -/
lemma Sorted.reach (h : Sorted next F) (ha : a ∈ F) (hb : b ∈ F) : ∃ k, next^[k] a = b := by
  induction hn : (F.filter (OnWay a b)).card using Nat.strong_induction_on generalizing a with
  | _ n ih =>
    by_cases hab : a = b
    · exact ⟨0, hab⟩
    obtain ⟨hway, hnot, hsub⟩ := h.onWay_next ha hb hab
    have hcard : (F.filter (OnWay (next a) b)).card < (F.filter (OnWay a b)).card := by
      apply Finset.card_lt_card
      refine Finset.ssubset_iff_of_subset ?_ |>.mpr ⟨next a, ?_, ?_⟩
      · exact fun c hc => Finset.mem_filter.mpr ⟨(Finset.mem_filter.mp hc).1,
          hsub c (Finset.mem_filter.mp hc).1 (Finset.mem_filter.mp hc).2⟩
      · exact Finset.mem_filter.mpr ⟨h.mem ha, hway⟩
      · exact fun hmem => hnot (Finset.mem_filter.mp hmem).2
    obtain ⟨k, hk⟩ := ih _ (hn ▸ hcard) (h.mem ha) rfl
    exact ⟨k + 1, hk⟩

/-- From a node all are met before it is met again, and it is met in the end. -/
theorem Sorted.round (h : Sorted next F) (ha : a ∈ F) :
    ∃ n, 0 < n ∧ n ≤ F.card ∧ next^[n] a = a ∧ (∀ i, 0 < i → i < n → next^[i] a ≠ a) ∧
      ∀ b ∈ F, ∃ i < n, next^[i + 1] a = b := by
  have hper : a ∈ Function.periodicPts next := by
    obtain ⟨k, hk⟩ := h.reach (h.mem ha) ha
    exact Function.mk_mem_periodicPts (Nat.succ_pos k) hk
  have hpos := Function.minimalPeriod_pos_of_mem_periodicPts hper
  refine ⟨Function.minimalPeriod next a, hpos, ?_, Function.iterate_minimalPeriod, ?_, ?_⟩
  · rw [← Finset.card_range (Function.minimalPeriod next a)]
    apply Finset.card_le_card_of_injOn (fun i => next^[i] a)
    · exact fun i _ => h.iterate_mem ha i
    · intro i hi j hj heq
      exact Function.iterate_injOn_Iio_minimalPeriod (by simpa using hi) (by simpa using hj) heq
  · intro i hi hlt heq
    exact Function.not_isPeriodicPt_of_pos_of_lt_minimalPeriod hi.ne' hlt heq
  · intro b hb
    obtain ⟨k, hk⟩ := h.reach (h.mem ha) hb
    refine ⟨k % Function.minimalPeriod next a, Nat.mod_lt k hpos, ?_⟩
    rw [Function.iterate_succ_apply', Function.iterate_mod_minimalPeriod_eq,
      ← Function.iterate_succ_apply' next k a, Function.iterate_succ_apply, hk]

end Circular
