import Mathlib.Data.Nat.ModEq
import Mathlib.Logic.Function.Basic
import Mathlib.Tactic.Common

/-!
# Ring buffers

A buffer of `N` cells is a function of the cell's number, and a list lies in it from position `r`
on: its elements are in the cells `r % N`, `(r + 1) % N` and so on. Positions run freely. The lemmas
say what becomes of the list when a cell is written or when elements are moved by one cell.
-/

namespace Ring

variable {α : Type} {N r : ℕ} {b b' : ℕ → α} {L : List α}

/-- The list lies in the buffer from position `r` on. -/
def Holds (N : ℕ) (b : ℕ → α) (r : ℕ) (L : List α) : Prop :=
  ∀ i, i < L.length → L[i]? = some (b ((r + i) % N))

/-- Positions less than `N` apart are different cells. -/
lemma cell_ne {i j : ℕ} (hi : i < N) (hj : j < N) (hne : i ≠ j) : (r + i) % N ≠ (r + j) % N := by
  intro h
  have hmod : i ≡ j [MOD N] := Nat.ModEq.add_left_cancel' r h
  exact hne (hmod.eq_of_lt_of_lt hi hj)

lemma holds_nil : Holds N b r [] := fun _ hi => absurd hi (Nat.not_lt_zero _)

/-- Write the cell behind the list. -/
lemma Holds.snoc (h : Holds N b r L) (hlen : L.length < N) (c : α) :
    Holds N (Function.update b ((r + L.length) % N) c) r (L ++ [c]) := by
  intro i hi
  rw [List.length_append, List.length_singleton] at hi
  by_cases hlast : i = L.length
  · rw [hlast, Function.update_self, List.getElem?_concat_length]
  · have hlt : i < L.length := by omega
    rw [Function.update_of_ne (cell_ne (by omega) hlen hlast), List.getElem?_append_left hlt]
    exact h i hlt

/-- The first part of what is held. -/
lemma Holds.of_append_left {L' : List α} (h : Holds N b r (L ++ L')) : Holds N b r L := by
  intro i hi
  have := h i (by rw [List.length_append]; omega)
  rwa [List.getElem?_append_left hi] at this

/-- The rest of the list lies where the first elements end. -/
lemma Holds.of_append_right {L' : List α} (h : Holds N b r (L ++ L')) :
    Holds N b (r + L.length) L' := by
  intro i hi
  have := h (L.length + i) (by rw [List.length_append]; omega)
  rw [List.getElem?_append_right (by omega), Nat.add_sub_cancel_left] at this
  rw [this, Nat.add_assoc]

/-- The list is determined by its length. -/
lemma Holds.eq_map (h : Holds N b r L) :
    L = (List.range L.length).map fun i => b ((r + i) % N) := by
  apply List.ext_getElem?
  intro i
  by_cases hi : i < L.length
  · rw [h i hi, List.getElem?_map, List.getElem?_range hi]
    rfl
  · rw [List.getElem?_eq_none (by omega), List.getElem?_eq_none (by simpa using hi)]

/-- The elements from place `k` on move up by one cell, and `c` is written there. -/
theorem Holds.insertIdx (h : Holds N b r L) {k : ℕ} (hk : k ≤ L.length) (c : α)
    (hlow : ∀ i, i < k → b' ((r + i) % N) = b ((r + i) % N)) (hself : b' ((r + k) % N) = c)
    (hhigh : ∀ i, k < i → i ≤ L.length → b' ((r + i) % N) = b ((r + (i - 1)) % N)) :
    Holds N b' r (L.insertIdx k c) := by
  intro i hi
  rw [List.length_insertIdx_of_le_length hk] at hi
  rw [List.getElem?_insertIdx]
  by_cases hlt : i < k
  · rw [if_pos hlt, hlow i hlt]
    exact h i (by omega)
  · rw [if_neg hlt]
    by_cases heq : i = k
    · rw [if_pos heq, if_pos (by omega), heq, hself]
    · rw [if_neg heq, hhigh i (by omega) (by omega)]
      exact h (i - 1) (by omega)

/-- The elements behind place `k` move down by one cell. -/
lemma Holds.eraseIdx (h : Holds N b r L) {k : ℕ} (hk : k < L.length)
    (hlow : ∀ i, i < k → b' ((r + i) % N) = b ((r + i) % N))
    (hhigh : ∀ i, k ≤ i → i + 1 < L.length → b' ((r + i) % N) = b ((r + (i + 1)) % N)) :
    Holds N b' r (L.eraseIdx k) := by
  intro i hi
  rw [List.length_eraseIdx_of_lt hk] at hi
  rw [List.getElem?_eraseIdx]
  by_cases hlt : i < k
  · rw [if_pos hlt, hlow i hlt]
    exact h i (by omega)
  · rw [if_neg hlt, hhigh i (by omega) (by omega)]
    exact h (i + 1) (by omega)

end Ring
