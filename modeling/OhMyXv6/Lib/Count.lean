import Mathlib.Algebra.BigOperators.Group.Finset.Piecewise
import Mathlib.Data.Finset.Card

/-!
# Counting over a table

A table is a function, and what is counted is a sum of weights over some of its indices. When one
entry of the table is replaced the sum changes by the weight of that entry alone.
-/

namespace Count

variable {ι β : Type} [DecidableEq ι] {S : Finset ι} {g : ι → β} {a : ι} {x : β}

/-- One entry is replaced: the two weights change places. -/
lemma sum_update (w : β → ℕ) (ha : a ∈ S) :
    (∑ i ∈ S, w (Function.update g a x i)) + w (g a) = (∑ i ∈ S, w (g i)) + w x := by
  have hrest : ∑ i ∈ S.erase a, w (Function.update g a x i) = ∑ i ∈ S.erase a, w (g i) := by
    apply Finset.sum_congr rfl
    intro i hi
    rw [Function.update_of_ne (Finset.ne_of_mem_erase hi)]
  have hnew := Finset.add_sum_erase S (fun i => w (Function.update g a x i)) ha
  have hold := Finset.add_sum_erase S (fun i => w (g i)) ha
  simp only [Function.update_self] at hnew
  omega

/-- The replaced entry weighs the same. -/
lemma sum_update_of_eq (w : β → ℕ) (h : w x = w (g a)) :
    ∑ i ∈ S, w (Function.update g a x i) = ∑ i ∈ S, w (g i) := by
  apply Finset.sum_congr rfl
  intro i _
  by_cases hi : i = a
  · rw [hi, Function.update_self, h]
  · rw [Function.update_of_ne hi]

/-- How often a value occurs, when one entry is replaced. -/
lemma card_update [DecidableEq β] (y : β) (ha : a ∈ S) :
    (S.filter fun i => Function.update g a x i = y).card + (if g a = y then 1 else 0) =
      (S.filter fun i => g i = y).card + if x = y then 1 else 0 := by
  simp only [Finset.card_filter]
  exact sum_update (fun b => if b = y then 1 else 0) ha

end Count
