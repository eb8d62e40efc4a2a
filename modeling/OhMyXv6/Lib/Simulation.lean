import OhMyXv6.Lib.Fallible

/-!
# Two programs that do the same

`Simulates S j V x y s t`: run from `t`, the program `y` ends as `x` does from `s`. The values are related by
`V` and the states by `S`, and an error `e` of the one is the error `j e` of the other.
-/

namespace Fallible

variable {σ ε τ δ α β α' β' : Type} {S : σ → τ → Prop} {j : ε → δ} {V : α → α' → Prop} {W : β → β' → Prop}
  {s : σ} {t : τ} {x : Fallible σ ε α} {y : Fallible τ δ α'}

/-- Run from `t`, program `y` ends as `x` does from `s`. -/
def Simulates (S : σ → τ → Prop) (j : ε → δ) (V : α → α' → Prop) (x : Fallible σ ε α) (y : Fallible τ δ α')
    (s : σ) (t : τ) : Prop :=
  Ends (fun e => y.run t = .error (j e)) x (fun a s' => ∃ b t', y.run t = .ok (b, t') ∧ V a b ∧ S s' t') s

lemma simulates_pure {a : α} {b : α'} (hV : V a b) (hS : S s t) :
    Simulates S j V (pure a : Fallible σ ε α) (pure b : Fallible τ δ α') s t :=
  ⟨b, t, rfl, hV, hS⟩

lemma simulates_throw (e : ε) :
    Simulates S j V (throw e : Fallible σ ε α) (throw (j e) : Fallible τ δ α') s t := rfl

lemma simulates_modify {f : σ → σ} {g : τ → τ} (h : S (f s) (g t)) :
    Simulates S j (fun _ _ => True) (modify f : Fallible σ ε PUnit) (modify g : Fallible τ δ PUnit) s t :=
  ⟨⟨⟩, g t, rfl, trivial, h⟩

/-- A look at the state of the one program. -/
lemma simulates_get_left {f : σ → Fallible σ ε α} :
    Simulates S j V (get >>= f) y s t ↔ Simulates S j V (f s) y s t := Iff.rfl

/-- Only the second looks at its state. -/
lemma simulates_get_right {g : τ → Fallible τ δ α'} :
    Simulates S j V x (get >>= g) s t ↔ Simulates S j V x (g t) s t := Iff.rfl

/-- A step of the other program alone. -/
lemma simulates_modify_right {f : τ → τ} {g : PUnit → Fallible τ δ α'} :
    Simulates S j V x (modify f >>= g) s t ↔ Simulates S j V x (g ⟨⟩) s (f t) := Iff.rfl

/-- The rule for a sequence: related values and states are gone on with. -/
theorem Simulates.bind {f : α → Fallible σ ε β} {g : α' → Fallible τ δ β'} (h : Simulates S j V x y s t)
    (hf : ∀ a b s' t', V a b → S s' t' → Simulates S j W (f a) (g b) s' t') :
    Simulates S j W (x >>= f) (y >>= g) s t := by
  unfold Simulates at h hf ⊢
  rw [ends_bind]
  refine h.mono (fun e he => ?_) ?_
  · rw [StateT.run_bind, he]
    rfl
  · rintro a s' ⟨b, t', hy, hV, hS⟩
    refine (hf a b s' t' hV hS).mono (fun e he => ?_) ?_
    · rw [StateT.run_bind, hy]
      exact he
    · rintro c s'' ⟨d, t'', hg, hW, hS'⟩
      refine ⟨d, t'', ?_, hW, hS'⟩
      rw [StateT.run_bind, hy]
      exact hg

/-- The one program is looked at through the other: it ends as that one has ended. -/
theorem Simulates.runs (h : Simulates S j V x y s t) : Ends (fun d => ∃ e, d = j e ∧ x.run s = .error e) y
    (fun b t' => ∃ a s', V a b ∧ S s' t' ∧ x.run s = .ok (a, s')) t := by
  unfold Simulates Ends at h
  unfold Ends
  cases hx : x.run s with
  | ok r =>
    rw [hx] at h
    obtain ⟨b, t', hy, hV, hS⟩ := h
    rw [hy]
    exact ⟨r.1, r.2, hV, hS, rfl⟩
  | error e =>
    rw [hx] at h
    rw [h]
    exact ⟨e, rfl, rfl⟩

end Fallible
