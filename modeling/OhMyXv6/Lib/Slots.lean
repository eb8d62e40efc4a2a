import Mathlib.Data.Nat.Notation
import Mathlib.Logic.Function.Basic
import Mathlib.Tactic.Common

/-!
# Tables of slots

A finite map kept in an array: each slot is free or holds a key with its value, in no order. As long as
no key is in two slots the table is a map, and it stays one when a new key goes into a free slot or a
slot is cleared.
-/

namespace Slots

open Function

variable {κ ν : Type}

/-- Some slot has the key, with this value. -/
def Binds (f : ℕ → Option (κ × ν)) (a : κ) (v : ν) : Prop := ∃ k, f k = some (a, v)

/-- No key is in two slots. -/
def Unique (f : ℕ → Option (κ × ν)) : Prop :=
  ∀ j k a v w, f j = some (a, v) → f k = some (a, w) → j = k

variable {f : ℕ → Option (κ × ν)} {a b : κ} {v w : ν} {k : ℕ}

/-- What is in the slots after one of them has changed. -/
lemma update_eq_some {o : Option (κ × ν)} {j : ℕ} :
    update f k o j = some (b, w) ↔ j = k ∧ o = some (b, w) ∨ j ≠ k ∧ f j = some (b, w) := by
  by_cases hj : j = k
  · rw [hj, update_self]
    simp
  · rw [update_of_ne hj]
    simp [hj]

/-- A new key is put into a free slot. -/
lemma Unique.insert (h : Unique f) (hnew : ∀ w, ¬ Binds f a w) :
    Unique (update f k (some (a, v))) := by
  intro i j b w w' hi hj
  rcases update_eq_some.mp hi with ⟨rfl, hb⟩ | ⟨-, hi'⟩
  · rcases update_eq_some.mp hj with ⟨rfl, -⟩ | ⟨-, hj'⟩
    · rfl
    · obtain ⟨rfl, -⟩ := Prod.mk.inj (Option.some.inj hb)
      exact absurd ⟨j, hj'⟩ (hnew w')
  · rcases update_eq_some.mp hj with ⟨rfl, hb⟩ | ⟨-, hj'⟩
    · obtain ⟨rfl, -⟩ := Prod.mk.inj (Option.some.inj hb)
      exact absurd ⟨i, hi'⟩ (hnew w)
    · exact h i j b w w' hi' hj'

lemma binds_insert (hk : f k = none) (hnew : ∀ w, ¬ Binds f a w) :
    Binds (update f k (some (a, v))) b w ↔ b = a ∧ v = w ∨ b ≠ a ∧ Binds f b w := by
  constructor
  · rintro ⟨j, hj⟩
    rcases update_eq_some.mp hj with ⟨-, hb⟩ | ⟨-, hj'⟩
    · obtain ⟨rfl, rfl⟩ := Prod.mk.inj (Option.some.inj hb)
      exact .inl ⟨rfl, rfl⟩
    · refine .inr ⟨?_, j, hj'⟩
      rintro rfl
      exact hnew w ⟨j, hj'⟩
  · rintro (⟨rfl, rfl⟩ | ⟨-, j, hj⟩)
    · exact ⟨k, update_self k _ f⟩
    · refine ⟨j, update_eq_some.mpr (.inr ⟨?_, hj⟩)⟩
      rintro rfl
      exact nomatch hk.symm.trans hj

/-- A slot is cleared. -/
lemma Unique.remove (h : Unique f) : Unique (update f k none) := by
  intro i j b w w' hi hj
  rcases update_eq_some.mp hi with ⟨-, hb⟩ | ⟨-, hi'⟩
  · exact nomatch hb
  · rcases update_eq_some.mp hj with ⟨-, hb⟩ | ⟨-, hj'⟩
    · exact nomatch hb
    · exact h i j b w w' hi' hj'

lemma binds_remove (h : Unique f) (hk : f k = some (a, v)) :
    Binds (update f k none) b w ↔ b ≠ a ∧ Binds f b w := by
  constructor
  · rintro ⟨j, hj⟩
    rcases update_eq_some.mp hj with ⟨-, hb⟩ | ⟨hne, hj'⟩
    · exact nomatch hb
    · refine ⟨?_, j, hj'⟩
      rintro rfl
      exact hne (h j k b w v hj' hk)
  · rintro ⟨hne, j, hj⟩
    refine ⟨j, update_eq_some.mpr (.inr ⟨?_, hj⟩)⟩
    rintro rfl
    exact hne (Prod.mk.inj (Option.some.inj (hj.symm.trans hk))).1

end Slots
