import Mathlib.Logic.Function.Basic
import Mathlib.Tactic.Common

/-!
# Moves within a memory

A loop moves one value after another: in turn `k` what stands at `s k` is stored at `d k`. If the places
that it stores to are different, the only thing that can go wrong is that a turn reads what an earlier
one has stored.
-/

namespace Moves

variable {A β : Type*} {d s : ℕ → A} {m : A → β} {a : A} {n : ℕ}

/-- `m'` is `m` with what stood at `s k` stored at `d k`, for every `k < n`. -/
def Moved (m m' : A → β) (d s : ℕ → A) (n : ℕ) : Prop :=
  (∀ k < n, m' (d k) = m (s k)) ∧ ∀ a, (∀ k < n, a ≠ d k) → m' a = m a

/-- Where a turn reads a place that an earlier one has stored to, it finds there what it should. -/
def Consistent (m : A → β) (d s : ℕ → A) (n : ℕ) : Prop :=
  ∀ j k, j < k → k < n → s k = d j → m (s k) = m (s j)

/-- One more turn. -/
lemma consistent_succ :
    Consistent m d s (n + 1) ↔ Consistent m d s n ∧ ∀ j < n, s n = d j → m (s n) = m (s j) := by
  constructor
  · intro h
    exact ⟨fun j k hjk hk => h j k hjk (by omega), fun j hj => h j n hj (by omega)⟩
  · intro ⟨h, hlast⟩ j k hjk hk
    by_cases hkn : k = n
    · subst hkn
      exact hlast j hjk
    · exact h j k hjk (by omega)

/-- There is one memory to end with. -/
lemma Moved.unique {m₁ m₂ : A → β} (h₁ : Moved m m₁ d s n) (h₂ : Moved m m₂ d s n) : m₁ = m₂ := by
  funext a
  by_cases ha : ∃ k < n, a = d k
  · obtain ⟨k, hk, rfl⟩ := ha
    rw [h₁.1 k hk, h₂.1 k hk]
  · have hout : ∀ k < n, a ≠ d k := fun k hk hak => ha ⟨k, hk, hak⟩
    rw [h₁.2 a hout, h₂.2 a hout]

/-- The order of the turns does not matter for what is moved. -/
lemma moved_reverse {m' : A → β} :
    Moved m m' (fun k => d (n - 1 - k)) (fun k => s (n - 1 - k)) n ↔ Moved m m' d s n := by
  have hturn : ∀ k < n, n - 1 - k < n ∧ n - 1 - (n - 1 - k) = k := by
    intro k hk
    omega
  constructor
  · intro ⟨hin, hout⟩
    constructor
    · intro k hk
      have hmoved := hin (n - 1 - k) (hturn k hk).1
      simpa only [(hturn k hk).2] using hmoved
    · exact fun a ha => hout a fun k hk => ha _ (hturn k hk).1
  · intro ⟨hin, hout⟩
    constructor
    · exact fun k hk => hin _ (hturn k hk).1
    · intro a ha
      refine hout a fun k hk => ?_
      have hne := ha (n - 1 - k) (hturn k hk).1
      simpa only [(hturn k hk).2] using hne

variable [DecidableEq A]

/-- The memory after `n` turns. -/
def run (d s : ℕ → A) (m : A → β) : ℕ → A → β
  | 0 => m
  | n + 1 => Function.update (run d s m n) (d n) (run d s m n (s n))

/-- The first turn in front. -/
lemma run_front (d s : ℕ → A) (m : A → β) (n : ℕ) :
    run d s m (n + 1) =
      run (fun k => d (k + 1)) (fun k => s (k + 1)) (Function.update m (d 0) (m (s 0))) n := by
  induction n with
  | zero => rfl
  | succ n ih => rw [run, ih, run]

lemma run_of_ne (h : ∀ k < n, a ≠ d k) : run d s m n a = m a := by
  induction n with
  | zero => rfl
  | succ n ih =>
    have hlast : a ≠ d n := h n (by omega)
    rw [run, Function.update_of_ne hlast]
    exact ih fun k hk => h k (by omega)

/-- A memory that holds already what is moved stays the same. -/
lemma run_eq_self (h : ∀ k < n, m (d k) = m (s k)) : run d s m n = m := by
  induction n with
  | zero => rfl
  | succ n ih =>
    rw [run, ih fun k hk => h k (by omega), ← h n (by omega), Function.update_eq_self]

/-- What the next turn reads. -/
lemma run_read (h : ∀ k < n, run d s m n (d k) = m (s k)) (a : A) :
    run d s m n a = m a ∨ ∃ j < n, a = d j ∧ run d s m n a = m (s j) := by
  by_cases ha : ∃ j < n, a = d j
  · obtain ⟨j, hj, rfl⟩ := ha
    exact .inr ⟨j, hj, rfl, h j hj⟩
  · refine .inl (run_of_ne fun k hk hak => ?_)
    exact ha ⟨k, hk, hak⟩

/-- The loop moves everything exactly if no turn reads a value that an earlier one has spoilt. -/
theorem run_iff (hd : ∀ j < n, ∀ k < n, d j = d k → j = k) :
    (∀ k < n, run d s m n (d k) = m (s k)) ↔ Consistent m d s n := by
  induction n with
  | zero => simp [Consistent]
  | succ n ih =>
    have hd' : ∀ j < n, ∀ k < n, d j = d k → j = k :=
      fun j hj k hk => hd j (by omega) k (by omega)
    -- the last turn leaves alone what the others have stored
    have hkeep : ∀ k < n, run d s m (n + 1) (d k) = run d s m n (d k) := by
      intro k hk
      have hne : d k ≠ d n := fun heq => absurd (hd k (by omega) n (by omega) heq) (by omega)
      rw [run, Function.update_of_ne hne]
    have hlast : run d s m (n + 1) (d n) = run d s m n (s n) := by rw [run, Function.update_self]
    rw [consistent_succ, ← ih hd']
    constructor
    · intro h
      have hbefore : ∀ k < n, run d s m n (d k) = m (s k) := by
        intro k hk
        rw [← hkeep k hk]
        exact h k (by omega)
      refine ⟨hbefore, ?_⟩
      intro j hj heq
      calc m (s n) = run d s m n (s n) := by rw [← hlast, h n (by omega)]
        _ = run d s m n (d j) := by rw [heq]
        _ = m (s j) := hbefore j hj
    · intro ⟨hbefore, hread⟩ k hk
      by_cases hkn : k = n
      · subst hkn
        rw [hlast]
        obtain hm | ⟨j, hj, heq, hm⟩ := run_read hbefore (s k)
        · exact hm
        · rw [hm, hread j hj heq]
      · rw [hkeep k (by omega), hbefore k (by omega)]

/-- Every place is copied exactly if no turn reads what an earlier one has changed. -/
lemma moved_iff (hd : ∀ j < n, ∀ k < n, d j = d k → j = k) :
    Moved m (run d s m n) d s n ↔ Consistent m d s n := by
  rw [← run_iff hd]
  exact ⟨fun h => h.1, fun h => ⟨h, fun a => run_of_ne⟩⟩

end Moves
