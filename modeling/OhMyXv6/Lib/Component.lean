import OhMyXv6.Lib.Fallible

/-!
# Programs on a component of the state

A program for a component of a larger state runs on the whole of it. `Follows I C f x y` says that program
`x` of the whole does what `y` does to the component and nothing else, as long as it starts where `I` holds;
and `I` does not look at the component. So what is known of `y` is known of `x`.
-/

/-- A component `σ` of a state `τ`. -/
structure Component (τ σ : Type) where
  get : τ → σ
  put : τ → σ → τ
  get_put : ∀ t s, get (put t s) = s
  put_get : ∀ t, put t (get t) = t
  put_put : ∀ t s s', put (put t s) s' = put t s'

namespace Fallible

variable {σ τ ε ε' α β : Type}

/-- The program `x` for the component, with its errors as errors of the whole. -/
def on (C : Component τ σ) (f : ε → ε') (x : Fallible σ ε α) : Fallible τ ε' α := fun t =>
  match x.run (C.get t) with
  | .ok (a, s) => .ok (a, C.put t s)
  | .error e => .error (f e)

section
variable {C : Component τ σ} {f : ε → ε'} {t : τ} {E : ε' → Prop}

/-- A call on the component ends as it does there. -/
lemma ends_on {x : Fallible σ ε α} {Q : α → τ → Prop} :
    Ends E (on C f x) Q t ↔ Ends (fun e => E (f e)) x (fun a s => Q a (C.put t s)) (C.get t) := by
  unfold Ends
  show (match (match x.run (C.get t) with
    | .ok (a, s) => .ok (a, C.put t s)
    | .error e => .error (f e) : Except ε' (α × τ)) with
    | .ok (a, t) => Q a t
    | .error e => E e) ↔ _
  cases x.run (C.get t) with
  | ok r => exact Iff.rfl
  | error e => exact Iff.rfl

/-- A sequence on the component is a sequence. -/
lemma run_on_bind {x : Fallible σ ε α} {g : α → Fallible σ ε β} :
    (on C f (x >>= g)).run t = (on C f x >>= fun a => on C f (g a)).run t := by
  have hleft : (on C f (x >>= g)).run t = match (x >>= g).run (C.get t) with
    | .ok (a, s) => .ok (a, C.put t s)
    | .error e => .error (f e) := rfl
  have hright : (on C f x).run t = match x.run (C.get t) with
    | .ok (a, s) => .ok (a, C.put t s)
    | .error e => .error (f e) := rfl
  rw [hleft, StateT.run_bind, StateT.run_bind, hright]
  cases x.run (C.get t) with
  | ok r =>
    obtain ⟨a, s⟩ := r
    have hrest : (on C f (g a)).run (C.put t s) = match (g a).run (C.get (C.put t s)) with
      | .ok (b, s') => .ok (b, C.put (C.put t s) s')
      | .error e => .error (f e) := rfl
    show (match (g a).run s with
      | .ok (a, s) => .ok (a, C.put t s)
      | .error e => .error (f e) : Except ε' (β × τ)) = (on C f (g a)).run (C.put t s)
    rw [hrest, C.get_put]
    cases (g a).run s with
    | ok r' => simp only [C.put_put]
    | error e => rfl
  | error e => rfl

lemma run_on_pure {a : α} : (on C f (pure a : Fallible σ ε α)).run t = .ok (a, t) := by
  show Except.ok (a, C.put t (C.get t)) = Except.ok (a, t)
  rw [C.put_get]

end

/-- What is asked of `I`: it does not look at the component. -/
def Ignores (C : Component τ σ) (I : τ → Prop) : Prop := ∀ t s, I t → I (C.put t s)

/-- On the states with `I`, program `x` does what `y` does to the component. -/
def Follows (I : τ → Prop) (C : Component τ σ) (f : ε → ε') (x : Fallible τ ε' α) (y : Fallible σ ε α) :
    Prop :=
  ∀ t, I t → x.run t = (on C f y).run t

namespace Follows

variable {I : τ → Prop} {C : Component τ σ} {f : ε → ε'} {x : Fallible τ ε' α}
  {y : Fallible σ ε α}

/-- A call on the component follows itself. -/
lemma on : Follows I C f (on C f y) y := fun _ _ => rfl

lemma pure {a : α} : Follows I C f (pure a) (pure a : Fallible σ ε α) := fun _ _ => run_on_pure.symm

lemma throw {e : ε} : Follows I C f (throw (f e)) (throw e : Fallible σ ε α) := fun _ _ => rfl

/-- And a sequence, if each part does. -/
lemma bind (hI : Ignores C I) {g : α → Fallible τ ε' β} {h : α → Fallible σ ε β} (hx : Follows I C f x y)
    (hg : ∀ a, Follows I C f (g a) (h a)) : Follows I C f (x >>= g) (y >>= h) := by
  intro t ht
  have hon : (Fallible.on C f y).run t = match y.run (C.get t) with
    | .ok (a, s) => .ok (a, C.put t s)
    | .error e => .error (f e) := rfl
  rw [run_on_bind, StateT.run_bind, StateT.run_bind, hx t ht, hon]
  cases y.run (C.get t) with
  | ok r => exact hg r.1 (C.put t r.2) (hI t r.2 ht)
  | error e => rfl

/-- And a choice, if each branch does. -/
lemma ite {c : Prop} [Decidable c] {x' : Fallible τ ε' α} {y' : Fallible σ ε α} (hx : Follows I C f x y)
    (hx' : Follows I C f x' y') : Follows I C f (if c then x else x') (if c then y else y') := by
  split
  · exact hx
  · exact hx'

/-- A first step that changes nothing and whose value is known. -/
lemma known {a : α} {z : Fallible τ ε' α} {g : α → Fallible τ ε' β} {w : Fallible σ ε β}
    (hz : ∀ t, I t → z.run t = .ok (a, t)) (hg : Follows I C f (g a) w) : Follows I C f (z >>= g) w := by
  intro t ht
  rw [StateT.run_bind, hz t ht]
  exact hg t ht

/-- What `y` ensures, `x` ensures. -/
lemma ends {E : ε' → Prop} {Q : α → τ → Prop} {t : τ} (h : Follows I C f x y) (ht : I t)
    (hy : Ends (fun e => E (f e)) y (fun a s => Q a (C.put t s)) (C.get t)) : Ends E x Q t := by
  have hon : Ends E (Fallible.on C f y) Q t := ends_on.mpr hy
  unfold Ends at hon ⊢
  rwa [h t ht]

end Follows

end Fallible
