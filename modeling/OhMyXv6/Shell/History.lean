import Mathlib.Data.List.TakeWhile
import OhMyXv6.Shell.Getcmd

/-!
# `sh.c`: the history

The commands before and after the one that is recalled are two linked lists, and those that have not
been needed yet are still in the history file. `F` is what `load_history` looks at, and `load` what it
does there: the commands it appends to `history.prev`, or `none` when `history.topped` is set and it is
not called any more.

`get_prev_command` calls itself when the list is empty. With fuel `n` it does so `n` times at most.
-/

namespace OhMyXv6
namespace Sh

/-- The bytes of a string in front of its NUL. -/
abbrev Str := List UInt8

/-- A string without a NUL is one up to its NUL. -/
lemma takeWhile_ne_zero {l : List UInt8} (h : (0 : UInt8) ∉ l) : l.takeWhile (· ≠ 0) = l := by
  rw [List.takeWhile_eq_self_iff]
  intro x hx
  simp only [decide_eq_true_eq]
  exact fun hzero => h (hzero ▸ hx)

/-- The struct `history`. -/
structure History (F : Type) where
  file : F
  prev : List Str
  curr : Option Str
  next : List Str

namespace History

variable {F : Type}

/-- `reset_command_position`: back behind the newest command. -/
def reset_command_position (h : History F) : History F :=
  { h with prev := h.next.reverse ++ (h.curr.toList ++ h.prev), curr := none, next := [] }

/-- `get_prev_command`, which loads more of the file where the list ends. -/
def get_prev_command (load : F → Option (F × List Str)) : ℕ → History F →
    Option (History F × Option Str)
  | 0, _ => none
  | n + 1, h =>
    match h.prev with
    | [] =>
      match load h.file with
      | none => some (h, none)
      -- one more chunk of the file, and the loop goes round
      | some (file, coms) => get_prev_command load n { h with file := file, prev := coms }
    | com :: prev =>
      some ({ h with prev := prev, curr := some com, next := h.curr.toList ++ h.next }, some com)

/-- `get_next_command`. -/
def get_next_command (h : History F) : History F × Option Str :=
  match h.next with
  | [] => ({ h with prev := h.curr.toList ++ h.prev, curr := none }, none)
  | com :: next =>
    ({ h with prev := h.curr.toList ++ h.prev, curr := some com, next := next }, some com)

end History

/-! ## A history that is given by its commands -/

/-- `load_history` has as many commands to add, each time it is called. -/
def loadNext : List (List Str) → Option (List (List Str) × List Str)
  | [] => none
  | coms :: file => some (file, coms)

/-- A history whose commands are known beforehand. -/
abbrev Commands := History (List (List Str))

namespace History

/-- All commands of the history, loaded or not. -/
def all (h : Commands) : List Str :=
  h.next ++ h.curr.toList ++ h.prev ++ h.file.flatten

/-- With as much fuel as there are parts to load, `get_prev_command` returns. -/
theorem get_prev_command_isSome (n : ℕ) (h : Commands) (hn : h.file.length < n) :
    (h.get_prev_command loadNext n).isSome := by
  induction n generalizing h with
  | zero => omega
  | succ n ih =>
    unfold get_prev_command
    split
    · split
      · rfl
      · next file coms hload =>
        apply ih
        cases hfile : h.file with
        | nil =>
          rw [hfile] at hload
          cases hload
        | cons c cs =>
          rw [hfile] at hload hn
          cases hload
          simp at hn ⊢
          omega
    · rfl

/-- The command it returns is one of the history, which keeps its commands. -/
theorem get_prev_command_mem (n : ℕ) (h : Commands) {h' : Commands} {com : Option Str}
    (hget : h.get_prev_command loadNext n = some (h', com)) :
    (∀ x ∈ h'.all, x ∈ h.all) ∧ ∀ x ∈ com, x ∈ h.all := by
  induction n generalizing h with
  | zero => cases hget
  | succ n ih =>
    unfold get_prev_command at hget
    cases hprev : h.prev with
    | nil =>
      rw [hprev] at hget
      cases hfile : h.file with
      | nil =>
        simp only [hfile, loadNext, Option.some.injEq, Prod.mk.injEq] at hget
        obtain ⟨rfl, rfl⟩ := hget
        simp
      | cons coms file =>
        simp only [hfile, loadNext] at hget
        have hsame : ∀ x, x ∈ all { h with file := file, prev := coms } ↔ x ∈ h.all := by
          intro x
          simp [all, hprev, hfile]
        obtain ⟨hall, hcom⟩ := ih _ hget
        exact ⟨fun x hx => (hsame x).mp (hall x hx), fun x hx => (hsame x).mp (hcom x hx)⟩
    | cons c prev =>
      simp only [hprev, Option.some.injEq, Prod.mk.injEq] at hget
      obtain ⟨rfl, rfl⟩ := hget
      constructor
      · intro x hx
        simp only [all, List.mem_append, Option.mem_toList, Option.toList_some, hprev,
          List.mem_cons] at hx ⊢
        tauto
      · intro x hx
        cases hx
        simp [all, hprev]

/-- What is recalled is in the list. -/
lemma get_next_command_mem (h : Commands) :
    (∀ x ∈ h.get_next_command.1.all, x ∈ h.all) ∧ ∀ x ∈ h.get_next_command.2, x ∈ h.all := by
  unfold get_next_command
  cases hnext : h.next with
  | nil =>
    refine ⟨fun x hx => ?_, fun x hx => by cases hx⟩
    simp only [all, List.mem_append, Option.mem_toList, Option.toList_none, hnext,
      List.not_mem_nil, false_or] at hx ⊢
    tauto
  | cons c next =>
    refine ⟨fun x hx => ?_, fun x hx => ?_⟩
    · simp only [all, List.mem_append, Option.mem_toList, Option.toList_some, hnext,
        List.mem_cons] at hx ⊢
      tauto
    · cases hx
      simp [all, hnext]

end History

/-- The shell with such a history. `A` is the state of the completion. -/
def commandsEnv {A : Type} (reset : A → A) (complete : A → List UInt8 → ℕ → A × List UInt8) :
    Env (Commands × A) where
  reset_autocomplete h := (h.1, reset h.2)
  get_prev_command h :=
    let x := (h.1.get_prev_command loadNext (h.1.file.length + 1)).getD (h.1, none)
    ((x.1, h.2), x.2)
  get_next_command h := ((h.1.get_next_command.1, h.2), h.1.get_next_command.2)
  curr h := h.1.curr
  autocomplete h buf nbuf :=
    let x := complete h.2 buf nbuf
    ((h.1, x.1), x.2)

end Sh
end OhMyXv6
