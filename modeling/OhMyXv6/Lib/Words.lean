import Mathlib.Data.List.TakeWhile
import Mathlib.Data.Nat.Notation
import Mathlib.Tactic.Common

/-!
# Words between separators

The words of a list are its pieces between runs of a separator. Runs may stand at the beginning and at
the end as well, and there is no empty word.
-/

namespace Words

variable {α : Type*} [DecidableEq α] {sep c : α} {l w : List α}

/-- The parts of a list between separators that are not empty. -/
def words (sep : α) (l : List α) : List (List α) := (l.splitOn sep).filter (· ≠ [])

@[simp] lemma words_nil : words sep ([] : List α) = [] := by
  unfold words
  rw [List.splitOn_nil]
  rfl

/-- A separator in front changes nothing. -/
@[simp] lemma words_sep_cons : words sep (sep :: l) = words sep l := by
  unfold words
  rw [← List.nil_append (sep :: l), List.splitOn_append_cons_self_of_not_mem List.not_mem_nil,
    List.filter_cons_of_neg]
  exact fun h => of_decide_eq_true h rfl

/-- A word up to the first separator. -/
lemma words_append (hw : w ≠ []) (hsep : sep ∉ w) : words sep (w ++ sep :: l) = w :: words sep l := by
  unfold words
  rw [List.splitOn_append_cons_self_of_not_mem hsep, List.filter_cons_of_pos]
  exact decide_eq_true hw

/-- A word that is all of the list. -/
lemma words_eq_singleton (hw : w ≠ []) (hsep : sep ∉ w) : words sep w = [w] := by
  unfold words
  rw [List.splitOn_eq_singleton hsep, List.filter_cons_of_pos, List.filter_nil]
  exact decide_eq_true hw

/-- Separators in front do not matter. -/
lemma words_dropWhile (l : List α) : words sep (l.dropWhile (· == sep)) = words sep l := by
  induction l with
  | nil => rfl
  | cons c l ih =>
    by_cases hc : c = sep
    · rw [hc, words_sep_cons, ← ih]
      simp
    · rw [List.dropWhile_cons_of_neg]
      exact fun heq => hc (eq_of_beq heq)

/-- The first word of a list that does not begin with a separator. -/
theorem words_cons (hc : c ≠ sep) : words sep (c :: l) = (c :: l).takeWhile (· != sep)
    :: words sep ((c :: l).dropWhile (· != sep)) := by
  have hsplit := List.takeWhile_append_dropWhile (p := (· != sep)) (l := c :: l)
  have hne : (c :: l).takeWhile (· != sep) ≠ [] := by
    simp [hc]
  have hsep : sep ∉ (c :: l).takeWhile (· != sep) := by
    intro hmem
    have hne := List.mem_takeWhile_imp hmem
    simp at hne
  cases hdrop : (c :: l).dropWhile (· != sep) with
  | nil =>
    rw [hdrop, List.append_nil] at hsplit
    rw [words_nil, ← words_eq_singleton hne hsep, hsplit]
  | cons d rest =>
    -- what comes behind the word begins with a separator
    have hd : d = sep := by
      have hhead := List.head_dropWhile_not (· != sep) (l := c :: l) (by
        rw [hdrop]
        exact List.cons_ne_nil _ _)
      simp only [hdrop, List.head_cons] at hhead
      simpa using hhead
    rw [hd] at hdrop ⊢
    rw [hdrop] at hsplit
    conv_lhs => rw [← hsplit]
    rw [words_append hne hsep, words_sep_cons]

/-- There is no word if there are separators only. -/
lemma words_eq_nil_iff : words sep l = [] ↔ l.dropWhile (· == sep) = [] := by
  rw [← words_dropWhile]
  cases hl : l.dropWhile (· == sep) with
  | nil => simp
  | cons c rest =>
    have hc : c ≠ sep := by
      have hhead := List.head_dropWhile_not (· == sep) (l := l) (by
        rw [hl]
        exact List.cons_ne_nil _ _)
      simp only [hl, List.head_cons] at hhead
      simpa using hhead
    rw [words_cons hc]
    simp

/-- The words are made of elements of the list. By induction on its length. -/
theorem mem_of_mem_words {d : α} (n : ℕ) : ∀ {l : List α}, l.length ≤ n → w ∈ words sep l → d ∈ w →
    d ∈ l := by
  induction n with
  | zero =>
    intro l hlen hw
    rw [List.eq_nil_of_length_eq_zero (Nat.le_zero.mp hlen), words_nil] at hw
    exact nomatch hw
  | succ n ih =>
    intro l hlen hw hd
    cases l with
    | nil =>
      rw [words_nil] at hw
      exact nomatch hw
    | cons c l =>
      rw [List.length_cons] at hlen
      by_cases hc : c = sep
      · rw [hc, words_sep_cons] at hw
        exact List.mem_cons_of_mem c (ih (by omega) hw hd)
      · rw [words_cons hc] at hw
        rcases List.mem_cons.mp hw with rfl | hw
        · exact (List.takeWhile_prefix _).subset hd
        · have hdrop : (c :: l).dropWhile (· != sep) = l.dropWhile (· != sep) :=
            List.dropWhile_cons_of_pos (by simpa using hc)
          rw [hdrop] at hw
          have hle := List.length_dropWhile_le (· != sep) l
          exact List.mem_cons_of_mem c ((List.dropWhile_suffix _).subset (ih (by omega) hw hd))

/-- Words that are written one after the other, each behind a separator, are read back. -/
theorem words_flatMap {W : List (List α)} (h : ∀ w ∈ W, w ≠ [] ∧ sep ∉ w) :
    words sep (W.flatMap (sep :: ·)) = W := by
  induction W with
  | nil => exact words_nil
  | cons w W ih =>
    obtain ⟨hw, hsep⟩ := h w (.head _)
    have hrest := ih fun v hv => h v (.tail _ hv)
    rw [List.flatMap_cons, List.cons_append, words_sep_cons]
    cases W with
    | nil => rw [List.flatMap_nil, List.append_nil, words_eq_singleton hw hsep]
    | cons v W =>
      rw [List.flatMap_cons, List.cons_append] at hrest ⊢
      rw [words_append hw hsep]
      rw [words_sep_cons] at hrest
      rw [hrest]

end Words
