import Mathlib.Tactic.Common

/-!
# Programs over a shared state

A program is a tree of atomic steps. A step reads and changes the shared state, and it ends in
one of three ways: it is done with a value, it has to wait, or the whole system stops with an
error. Each step carries a label, which says what kind of step it is to those who watch the
system.

A program has two readings. `exec` runs it alone, from its first step to its last, and `trace` lists
the steps on the way. A system runs many programs at once and lets them take their steps in any
order; nothing of that is here but the steps themselves.

`wp` is the weakest precondition of the first reading: what has to hold before the program for
`Q` to hold after it, if it gets there, and for `E` to hold of the error it stops with, if it
does. `Ends` says besides that the program does not wait. `Guarded` is a logic for the second
reading: it follows one program through all its steps, with a counter of its own and without knowing
what others do to the state between them.
-/

/-- How a step ends. -/
inductive Out (σ ε β : Type) where
  | done (b : β) (s : σ)
  | wait
  | stop (e : ε)

/-- A program with shared state `σ`, errors `ε`, labels `ℓ` and result `α`. -/
inductive Prog (σ ε ℓ : Type) (α : Type) : Type 1 where
  | ret (a : α)
  | step {β : Type} (l : ℓ) (f : σ → Out σ ε β) (k : β → Prog σ ε ℓ α)

namespace Out

variable {σ ε β γ : Type}

/-- Go on with the value and the state if there are any. -/
def andThen (o : Out σ ε β) (f : β → σ → Out σ ε γ) : Out σ ε γ :=
  match o with
  | done b s => f b s
  | wait => wait
  | stop e => stop e

/-- What comes after the step, if anything does. -/
def collect {γ : Type*} (o : Out σ ε β) (f : β → σ → List γ) : List γ :=
  match o with
  | done b s => f b s
  | wait => []
  | stop _ => []

/-- What a way to end has to meet: `Q` if it is done, `E` if the system stops. -/
def Meets (E : ε → Prop) (Q : β → σ → Prop) : Out σ ε β → Prop
  | done b s => Q b s
  | wait => True
  | stop e => E e

/-- The same for those that may not wait. -/
def Ends (E : ε → Prop) (Q : β → σ → Prop) : Out σ ε β → Prop
  | done b s => Q b s
  | wait => False
  | stop e => E e

instance decidableEnds {E : ε → Prop} {Q : β → σ → Prop} [DecidablePred E]
    [∀ b, DecidablePred (Q b)] : ∀ o : Out σ ε β, Decidable (o.Ends E Q)
  | .done b s => inferInstanceAs (Decidable (Q b s))
  | .wait => isFalse id
  | .stop e => inferInstanceAs (Decidable (E e))

end Out

namespace Prog

variable {σ ε ℓ α β : Type}

/-- One program after the other. -/
def bind : Prog σ ε ℓ α → (α → Prog σ ε ℓ β) → Prog σ ε ℓ β
  | ret a, f => f a
  | step l g k, f => step l g fun b => (k b).bind f

instance : Monad (Prog σ ε ℓ) where
  pure := ret
  bind := bind

/-- The brackets of a sequence do not matter. -/
lemma bind_bind {γ : Type} (x : Prog σ ε ℓ α) (f : α → Prog σ ε ℓ β) (g : β → Prog σ ε ℓ γ) :
    x >>= f >>= g = x >>= fun a => f a >>= g := by
  induction x with
  | ret a => rfl
  | step l e k ih =>
    show step l e (fun b => k b >>= f >>= g) = step l e fun b => k b >>= fun a => f a >>= g
    congr 1
    funext b
    exact ih b

/-- A single step. -/
def act (l : ℓ) (f : σ → Out σ ε α) : Prog σ ε ℓ α := step l f ret

/-- The state that the program leads to when it runs alone. -/
def exec : Prog σ ε ℓ α → σ → Out σ ε α
  | ret a, s => .done a s
  | step _ f k, s => (f s).andThen fun b t => exec (k b) t

/-- A sequence runs one after the other. -/
lemma exec_bind (x : Prog σ ε ℓ α) (f : α → Prog σ ε ℓ β) (s : σ) :
    exec (x >>= f) s = (exec x s).andThen fun a t => exec (f a) t := by
  induction x generalizing s with
  | ret a => rfl
  | step l g k ih =>
    show (g s).andThen (fun b t => exec (k b >>= f) t) = _
    rw [exec]
    cases g s with
    | done b t => exact ih b t
    | wait => rfl
    | stop e => rfl

lemma exec_act (l : ℓ) (f : σ → Out σ ε α) (s : σ) : exec (act l f) s = f s := by
  unfold act exec
  cases f s with
  | done a t => rfl
  | wait => rfl
  | stop e => rfl

/-- The steps that the program takes when it runs alone, each with the state that it finds. -/
def trace : Prog σ ε ℓ α → σ → List (ℓ × σ)
  | ret _, _ => []
  | step l f k, s => (l, s) :: (f s).collect fun b t => trace (k b) t

/-! ## Weakest preconditions -/

/-- If the program, run alone from `s`, gets to its end then `Q` holds there, and if it stops
with an error then `E` holds of the error. -/
def wp (E : ε → Prop) (x : Prog σ ε ℓ α) (Q : α → σ → Prop) (s : σ) : Prop :=
  (exec x s).Meets E Q

variable {E : ε → Prop} {Q R : α → σ → Prop} {s : σ}

lemma wp_bind {x : Prog σ ε ℓ α} {f : α → Prog σ ε ℓ β} {Q : β → σ → Prop} :
    wp E (x >>= f) Q s ↔ wp E x (fun a t => wp E (f a) Q t) s := by
  unfold wp
  rw [exec_bind]
  cases exec x s with
  | done a t => exact Iff.rfl
  | wait => exact Iff.rfl
  | stop e => exact Iff.rfl

@[simp] lemma wp_pure {a : α} : wp E (pure a : Prog σ ε ℓ α) Q s ↔ Q a s := Iff.rfl

lemma wp_act {l : ℓ} {f : σ → Out σ ε α} : wp E (act l f) Q s ↔ (f s).Meets E Q := by
  unfold wp act exec
  cases f s <;> exact Iff.rfl

lemma wp_mono {x : Prog σ ε ℓ α} (h : wp E x Q s) (himp : ∀ a t, Q a t → R a t) :
    wp E x R s := by
  unfold wp at h ⊢
  cases hx : exec x s with
  | done a t =>
    rw [hx] at h
    exact himp a t h
  | wait => trivial
  | stop e =>
    rw [hx] at h
    exact h

/-- The rule for a sequence: what the first part leaves is what the second one starts from. -/
theorem wp_seq {x : Prog σ ε ℓ α} {f : α → Prog σ ε ℓ β} {Q : β → σ → Prop} (h : wp E x R s)
    (hf : ∀ a t, R a t → wp E (f a) Q t) : wp E (x >>= f) Q s :=
  wp_bind.mpr (wp_mono h hf)

/-- What it says of a run that returns. -/
lemma wp_done {x : Prog σ ε ℓ α} {a : α} {t : σ} (h : wp E x Q s) (hx : exec x s = .done a t) :
    Q a t := by
  unfold wp at h
  rw [hx] at h
  exact h

lemma wp_stop {x : Prog σ ε ℓ α} {e : ε} (h : wp E x Q s) (hx : exec x s = .stop e) : E e := by
  unfold wp at h
  rw [hx] at h
  exact h

/-- Nothing is said of what comes after the program. -/
lemma wp_true (x : Prog σ ε ℓ α) : wp (fun _ => True) x (fun _ _ => True) s := by
  unfold wp
  cases exec x s with
  | done a t => trivial
  | wait => trivial
  | stop e => trivial

/-! ## Programs that do not wait -/

section
variable {E' : ε → Prop}

/-- The program, run alone from `s`, gets to its end and `Q` holds there, or it stops with an error
of which `E` holds. -/
def Ends (E : ε → Prop) (x : Prog σ ε ℓ α) (Q : α → σ → Prop) (s : σ) : Prop :=
  (exec x s).Ends E Q

lemma ends_bind {x : Prog σ ε ℓ α} {f : α → Prog σ ε ℓ β} {Q : β → σ → Prop} :
    Ends E (x >>= f) Q s ↔ Ends E x (fun a t => Ends E (f a) Q t) s := by
  unfold Ends
  rw [exec_bind]
  cases exec x s with
  | done a t => exact Iff.rfl
  | wait => exact Iff.rfl
  | stop e => exact Iff.rfl

@[simp] lemma ends_pure {a : α} : Ends E (pure a : Prog σ ε ℓ α) Q s ↔ Q a s := Iff.rfl

lemma ends_act {l : ℓ} {f : σ → Out σ ε α} : Ends E (act l f) Q s ↔ (f s).Ends E Q := by
  unfold Ends
  rw [exec_act]

lemma Ends.mono {x : Prog σ ε ℓ α} (h : Ends E x Q s) (hE : ∀ e, E e → E' e)
    (hQ : ∀ a t, Q a t → R a t) : Ends E' x R s := by
  unfold Ends at h ⊢
  cases hx : exec x s with
  | done a t =>
    rw [hx] at h
    exact hQ a t h
  | wait =>
    rw [hx] at h
    exact h
  | stop e =>
    rw [hx] at h
    exact hE e h

/-- A program that ends is correct if it ends. -/
lemma Ends.wp {x : Prog σ ε ℓ α} (h : Ends (fun _ => True) x Q s) :
    wp (fun _ => True) x Q s := by
  unfold Ends at h
  unfold Prog.wp
  cases hx : exec x s with
  | done a t =>
    rw [hx] at h
    exact h
  | wait => trivial
  | stop e => trivial

/-- A sequence with an assertion between. -/
lemma Ends.seq {x : Prog σ ε ℓ α} {f : α → Prog σ ε ℓ β} {Q : β → σ → Prop} (h : Ends E x R s)
    (hf : ∀ a t, R a t → Ends E (f a) Q t) : Ends E (x >>= f) Q s :=
  ends_bind.mpr (h.mono (fun _ he => he) hf)

/-- A first part that is known to be done. -/
lemma Ends.after {x : Prog σ ε ℓ α} {f : α → Prog σ ε ℓ β} {Q : β → σ → Prop} {a : α} {t : σ}
    (hx : exec x s = .done a t) (h : Ends E (f a) Q t) : Ends E (x >>= f) Q s := by
  rw [ends_bind]
  unfold Ends
  rw [hx]
  exact h

/-- What it says of a run that returns. -/
lemma Ends.of_done {x : Prog σ ε ℓ α} {a : α} {t : σ} (h : Ends E x Q s)
    (hx : exec x s = .done a t) : Q a t := by
  unfold Ends at h
  rw [hx] at h
  exact h

/-- A program that has no error to stop with is done. -/
lemma Ends.returns {x : Prog σ ε ℓ α} (h : Ends E x Q s) (hE : ∀ e, ¬ E e) :
    ∃ a t, exec x s = .done a t ∧ Q a t := by
  unfold Ends at h
  cases hx : exec x s with
  | done a t =>
    rw [hx] at h
    exact ⟨a, t, rfl, h⟩
  | wait =>
    rw [hx] at h
    exact h.elim
  | stop e =>
    rw [hx] at h
    exact (hE e h).elim

end

/-! ## Protocols -/

/-- A discipline on the labels of a program's steps. `γ` is what the program remembers. -/
structure Protocol (σ ε ℓ γ : Type) where
  /-- The steps that may come next. -/
  allow : γ → ℓ → Prop
  /-- What is assumed of the state in which a step is taken. -/
  assume : γ → ℓ → σ → Prop
  /-- What the program remembers after a step. -/
  next : ℓ → γ → γ
  /-- What a step may do to the state. -/
  change : ℓ → σ → σ → Prop
  /-- The errors that a step may stop with. -/
  error : ℓ → σ → ε → Prop

variable {γ : Type} {P : Protocol σ ε ℓ γ} {g : γ}

/-- The program keeps to the protocol whatever state its steps find, and ends with `Q`. -/
def Guarded (P : Protocol σ ε ℓ γ) : γ → Prog σ ε ℓ α → (γ → α → Prop) → Prop
  | g, ret a, Q => Q g a
  | g, step l f k, Q => P.allow g l ∧ ∀ s, (f s).Meets (P.error l s) fun b t =>
      P.assume g l s → P.change l s t ∧ Guarded P (P.next l g) (k b) Q

lemma Guarded.bind {x : Prog σ ε ℓ α} {f : α → Prog σ ε ℓ β} {Q : γ → α → Prop}
    {R : γ → β → Prop} (h : Guarded P g x Q) (hf : ∀ g' a, Q g' a → Guarded P g' (f a) R) :
    Guarded P g (x >>= f) R := by
  induction x generalizing g with
  | ret a => exact hf g a h
  | step l e k ih =>
    refine ⟨h.1, fun s => ?_⟩
    have hstep := h.2 s
    cases he : e s with
    | done b t =>
      rw [he] at hstep
      exact fun hs => ⟨(hstep hs).1, ih b (hstep hs).2⟩
    | wait => trivial
    | stop err =>
      rw [he] at hstep
      exact hstep

lemma guarded_act {l : ℓ} {f : σ → Out σ ε α} {Q : γ → α → Prop} (hallow : P.allow g l)
    (h : ∀ s, (f s).Meets (P.error l s) fun b t => P.change l s t ∧ Q (P.next l g) b) :
    Guarded P g (act l f) Q := by
  refine ⟨hallow, fun s => ?_⟩
  have hs := h s
  cases hf : f s with
  | done b t =>
    rw [hf] at hs
    exact fun _ => hs
  | wait => trivial
  | stop e =>
    rw [hf] at hs
    exact hs

/-- A test: what it found, and what is assumed of the state in which it is made, is known to what
follows. -/
theorem guarded_test {l : ℓ} {f : σ → Out σ ε α} {k : α → Prog σ ε ℓ β} {R : γ → β → Prop}
    (hallow : P.allow g l) (h : ∀ s, (f s).Meets (P.error l s) fun b t =>
      P.assume g l s → P.change l s t ∧ Guarded P (P.next l g) (k b) R) :
    Guarded P g (act l f >>= k) R := ⟨hallow, h⟩

end Prog
