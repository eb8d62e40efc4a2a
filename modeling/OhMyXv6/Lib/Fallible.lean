import Mathlib.Tactic.Common

/-!
# Programs that change a state and may fail

`Ends E x Q s`: the program `x`, run from state `s`, either returns and `Q` holds of the value and the
state, or it fails and `E` holds of the error. There is no third way for a program to end, so with an `E`
that is false in `s` this says that the program returns.
-/

/-- A program with state `σ` and errors `ε`. -/
abbrev Fallible (σ ε : Type) : Type → Type := StateT σ (Except ε)

namespace Fallible

variable {σ ε α β : Type} {E E' : ε → Prop} {Q R : α → σ → Prop} {s : σ}

/-- Run from `s`, the program returns with `Q`, or it fails with `E`. -/
def Ends (E : ε → Prop) (x : Fallible σ ε α) (Q : α → σ → Prop) (s : σ) : Prop :=
  match x.run s with
  | .ok (a, t) => Q a t
  | .error e => E e

instance decidableEnds [DecidablePred E] [∀ a, DecidablePred (Q a)] (x : Fallible σ ε α) (s : σ) :
    Decidable (Ends E x Q s) :=
  match h : x.run s with
  | .ok (a, t) => decidable_of_iff (Q a t) (by unfold Ends; rw [h])
  | .error e => decidable_of_iff (E e) (by unfold Ends; rw [h])

@[simp] lemma ends_pure {a : α} : Ends E (pure a : Fallible σ ε α) Q s ↔ Q a s := Iff.rfl

@[simp] lemma ends_throw {e : ε} : Ends E (throw e : Fallible σ ε α) Q s ↔ E e := Iff.rfl

lemma ends_get {Q : σ → σ → Prop} : Ends E (get : Fallible σ ε σ) Q s ↔ Q s s := Iff.rfl

lemma ends_modify {f : σ → σ} {Q : PUnit → σ → Prop} :
    Ends E (modify f : Fallible σ ε PUnit) Q s ↔ Q ⟨⟩ (f s) := Iff.rfl

lemma ends_bind {x : Fallible σ ε α} {f : α → Fallible σ ε β} {Q : β → σ → Prop} :
    Ends E (x >>= f) Q s ↔ Ends E x (fun a t => Ends E (f a) Q t) s := by
  unfold Ends
  rw [StateT.run_bind]
  cases x.run s with
  | ok r => exact Iff.rfl
  | error e => exact Iff.rfl

lemma Ends.mono {x : Fallible σ ε α} (h : Ends E x Q s) (hE : ∀ e, E e → E' e)
    (hQ : ∀ a t, Q a t → R a t) : Ends E' x R s := by
  unfold Ends at h ⊢
  cases hx : x.run s with
  | ok r =>
    rw [hx] at h
    exact hQ r.1 r.2 h
  | error e =>
    rw [hx] at h
    exact hE e h

/-- The rule for a sequence: what the first part leaves is what the second one starts from. -/
theorem Ends.seq {x : Fallible σ ε α} {f : α → Fallible σ ε β} {Q : β → σ → Prop} (h : Ends E x R s)
    (hf : ∀ a t, R a t → Ends E (f a) Q t) : Ends E (x >>= f) Q s :=
  ends_bind.mpr (h.mono (fun _ he => he) hf)

/-- What it says of a run that returns. -/
lemma Ends.of_ok {x : Fallible σ ε α} {a : α} {t : σ} (h : Ends E x Q s)
    (hx : x.run s = .ok (a, t)) : Q a t := by
  unfold Ends at h
  rw [hx] at h
  exact h

lemma Ends.of_error {x : Fallible σ ε α} {e : ε} (h : Ends E x Q s) (hx : x.run s = .error e) :
    E e := by
  unfold Ends at h
  rw [hx] at h
  exact h

lemma Ends.and {x : Fallible σ ε α} (h : Ends E x Q s) (h' : Ends E' x R s) :
    Ends E x (fun a t => Q a t ∧ R a t) s := by
  unfold Ends at h h' ⊢
  cases hx : x.run s with
  | ok r =>
    rw [hx] at h h'
    exact ⟨h, h'⟩
  | error e =>
    rw [hx] at h
    exact h

/-- A program that can not fail returns. -/
lemma Ends.returns {x : Fallible σ ε α} (h : Ends E x Q s) (hE : ∀ e, ¬ E e) :
    ∃ a t, x.run s = .ok (a, t) ∧ Q a t := by
  unfold Ends at h
  cases hx : x.run s with
  | ok r =>
    rw [hx] at h
    exact ⟨r.1, r.2, rfl, h⟩
  | error e =>
    rw [hx] at h
    exact (hE e h).elim

end Fallible
