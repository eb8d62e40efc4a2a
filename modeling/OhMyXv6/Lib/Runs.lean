import Mathlib.Tactic.Common

/-!
# Runs of a partial step function

A system is a state type, an action type and a step function `step s a`, which is `none`
when `a` is not enabled in `s`. Everything here is about the states that a list of actions
leads to: how runs compose, and the rule that an invariant kept by every single step holds
at the end of every run.

`Along ok` restricts the runs that are looked at: each action has to be taken in a state
that `ok` allows. The assumptions a system makes about its environment, and the conditions
under which one of its properties holds, are stated through it.
-/

namespace Runs

variable {σ α : Type*} (step : σ → α → Option σ)

/-- The state a list of actions leads to; `none` as soon as one of them is not enabled. -/
def run (s : σ) : List α → Option σ
  | [] => some s
  | a :: as => (step s a).bind fun t => run t as

/-- Every action of the list is taken in a state in which `ok` allows it. -/
def Along (ok : σ → α → Prop) (s : σ) : List α → Prop
  | [] => True
  | a :: as => ok s a ∧ ∀ t, step s a = some t → Along ok t as

@[simp] lemma run_nil (s : σ) : run step s [] = some s := rfl

lemma run_cons (s : σ) (a : α) (as : List α) :
    run step s (a :: as) = (step s a).bind fun t => run step t as := rfl

variable {step}

/-- The same, for a run that goes through. -/
lemma run_cons_eq_some {s t : σ} {a : α} {as : List α} :
    run step s (a :: as) = some t ↔ ∃ u, step s a = some u ∧ run step u as = some t := by
  rw [run_cons, Option.bind_eq_some_iff]

lemma run_append_eq_some {s t : σ} {as bs : List α} :
    run step s (as ++ bs) = some t ↔ ∃ u, run step s as = some u ∧ run step u bs = some t := by
  induction as generalizing s with
  | nil => simp
  | cons a as ih =>
    simp only [List.cons_append, run_cons_eq_some, ih]
    constructor
    · rintro ⟨u, hu, v, hv, ht⟩
      exact ⟨v, ⟨u, hu, hv⟩, ht⟩
    · rintro ⟨v, ⟨u, hu, hv⟩, ht⟩
      exact ⟨u, hu, v, hv, ht⟩

/-- A run splits before its last action. -/
lemma run_concat_eq_some {s t : σ} {as : List α} {a : α} :
    run step s (as ++ [a]) = some t ↔ ∃ u, run step s as = some u ∧ step u a = some t := by
  simp [run_append_eq_some, run_cons_eq_some]

/-- A run ends at a step that cannot be taken. -/
lemma along_cons_of_none {ok : σ → α → Prop} {s : σ} {a : α} {as : List α}
    (h : step s a = none) : Along step ok s (a :: as) ↔ ok s a := by
  refine ⟨And.left, fun hok => ⟨hok, fun t ht => ?_⟩⟩
  rw [h] at ht
  cases ht

lemma along_cons_of_some {ok : σ → α → Prop} {s t : σ} {a : α} {as : List α}
    (h : step s a = some t) : Along step ok s (a :: as) ↔ ok s a ∧ Along step ok t as := by
  refine and_congr_right fun _ => ⟨fun hall => hall t h, fun ht u hu => ?_⟩
  rw [h] at hu
  exact Option.some.inj hu ▸ ht

/-- Whether a given run meets a decidable condition can be computed. -/
instance decidableAlong (ok : σ → α → Prop) [∀ s a, Decidable (ok s a)] :
    ∀ (s : σ) (as : List α), Decidable (Along step ok s as)
  | _, [] => isTrue trivial
  | s, a :: as =>
    match h : step s a with
    | none => decidable_of_iff _ (along_cons_of_none h).symm
    | some t =>
      have := decidableAlong ok t as
      decidable_of_iff _ (along_cons_of_some h).symm

lemma Along.and {ok ok' : σ → α → Prop} {s : σ} {as : List α} (h : Along step ok s as)
    (h' : Along step ok' s as) : Along step (fun s a => ok s a ∧ ok' s a) s as := by
  induction as generalizing s with
  | nil => trivial
  | cons a as ih => exact ⟨⟨h.1, h'.1⟩, fun t ht => ih (h.2 t ht) (h'.2 t ht)⟩

lemma Along.mono {ok ok' : σ → α → Prop} (himp : ∀ s a, ok s a → ok' s a) {s : σ} {as : List α}
    (h : Along step ok s as) : Along step ok' s as := by
  induction as generalizing s with
  | nil => trivial
  | cons a as ih => exact ⟨himp s a h.1, fun t ht => ih (h.2 t ht)⟩

/-- A condition on the actions alone. -/
lemma along_of_forall {good : α → Prop} {s : σ} {as : List α} (h : ∀ a ∈ as, good a) :
    Along step (fun _ a => good a) s as := by
  induction as generalizing s with
  | nil => trivial
  | cons a as ih =>
    exact ⟨h a List.mem_cons_self, fun t _ => ih fun b hb => h b (List.mem_cons_of_mem _ hb)⟩

lemma Along.of_prefix {ok : σ → α → Prop} {s : σ} {as bs : List α} (h : Along step ok s as)
    (hbs : bs <+: as) : Along step ok s bs := by
  induction bs generalizing s as with
  | nil => trivial
  | cons b bs ih =>
    obtain ⟨as, rfl⟩ := hbs
    exact ⟨h.1, fun t ht => ih (h.2 t ht) (List.prefix_append bs as)⟩

/-- What holds after every part of a run holds after each of its steps. -/
theorem along_of_prefixes {I : σ → Prop} {s : σ} {as : List α}
    (h : ∀ bs t, bs <+: as → run step s bs = some t → I t) :
    Along step (fun s a => ∀ t, step s a = some t → I t) s as := by
  induction as generalizing s with
  | nil => trivial
  | cons a as ih =>
    refine ⟨fun t ht => h [a] t (List.prefix_append [a] as) (run_cons_eq_some.mpr ⟨t, ht, rfl⟩), ?_⟩
    intro t ht
    exact ih fun bs u hbs hu =>
      h (a :: bs) u (List.cons_prefix_cons.mpr ⟨rfl, hbs⟩) (run_cons_eq_some.mpr ⟨t, ht, hu⟩)

/-- Two conditions on the steps are the same along a run, if they are the same where an invariant holds
that the steps under one of them keep. -/
theorem along_congr {ok ok' : σ → α → Prop} {I : σ → Prop}
    (hiff : ∀ s a, I s → (ok s a ↔ ok' s a))
    (hstep : ∀ s a t, I s → ok' s a → step s a = some t → I t)
    {s : σ} (hI : I s) (as : List α) : Along step ok s as ↔ Along step ok' s as := by
  induction as generalizing s with
  | nil => exact Iff.rfl
  | cons a as ih =>
    constructor
    · intro h
      have hok := (hiff s a hI).mp h.1
      exact ⟨hok, fun t ht => (ih (hstep s a t hI hok ht)).mp (h.2 t ht)⟩
    · intro h
      exact ⟨(hiff s a hI).mpr h.1, fun t ht => (ih (hstep s a t hI h.1 ht)).mpr (h.2 t ht)⟩

/-- What holds of every step that is taken where an invariant holds, holds along every run. -/
theorem along_of_invariant {ok : σ → α → Prop} {I : σ → Prop} (hok : ∀ s a, I s → ok s a)
    (hstep : ∀ s a t, I s → step s a = some t → I t) {s : σ} (hI : I s) (as : List α) :
    Along step ok s as := by
  induction as generalizing s with
  | nil => trivial
  | cons a as ih => exact ⟨hok s a hI, fun t ht => ih (hstep s a t hI ht)⟩

/-- **Invariant rule.** What every allowed step keeps, every allowed run keeps. -/
theorem Along.invariant {ok : σ → α → Prop} {I : σ → Prop}
    (hstep : ∀ s a t, I s → ok s a → step s a = some t → I t)
    {s t : σ} {as : List α} (hI : I s) (hok : Along step ok s as)
    (hrun : run step s as = some t) : I t := by
  induction as generalizing s with
  | nil =>
    rw [run_nil, Option.some.injEq] at hrun
    exact hrun ▸ hI
  | cons a as ih =>
    obtain ⟨u, hu, hrun⟩ := run_cons_eq_some.mp hrun
    exact ih (hstep s a u hI hok.1 hu) (hok.2 u hu) hrun

/-- The invariant rule for all runs. -/
lemma invariant {I : σ → Prop} (hstep : ∀ s a t, I s → step s a = some t → I t)
    {s t : σ} {as : List α} (hI : I s) (hrun : run step s as = some t) : I t := by
  have hall : Along step (fun _ _ => True) s as := along_of_invariant (fun _ _ _ => trivial) hstep hI as
  exact hall.invariant (fun s a t hs _ => hstep s a t hs) hI hrun

end Runs
