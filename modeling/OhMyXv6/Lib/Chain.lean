import Mathlib.Data.List.Basic
import Mathlib.Logic.Function.Basic

/-!
# Singly linked lists

A pointer is a node or null. `Chain next p l` says that following `next` from the pointer `p` visits the
nodes of `l`, and ends at null.
-/

/-- The nodes of `l`, from `p` to null. -/
def Chain {α : Type*} (next : α → Option α) : Option α → List α → Prop
  | p, [] => p = none
  | p, a :: l => p = some a ∧ Chain next (next a) l

namespace Chain

variable {α : Type*} {next next' : α → Option α} {p : Option α} {a e : α} {l l' : List α}

lemma nil_iff : Chain next p [] ↔ p = none := Iff.rfl

/-- A chain and its first element. -/
lemma cons_iff : Chain next p (a :: l) ↔ p = some a ∧ Chain next (next a) l := Iff.rfl

/-- The list from null is empty. -/
lemma eq_nil (h : Chain next none l) : l = [] := by
  cases l with
  | nil => rfl
  | cons a l => cases h.1

/-- A chain from an element begins with it. -/
lemma of_some (h : Chain next (some a) l) : ∃ l', l = a :: l' ∧ Chain next (next a) l' := by
  cases l with
  | nil => cases h
  | cons b l' =>
    cases h.1
    exact ⟨l', rfl, h.2⟩

/-- There is one chain from a place. -/
lemma unique : ∀ {l l' : List α} {p : Option α}, Chain next p l → Chain next p l' → l = l'
  | [], l', p, h, h' => by
    cases h
    exact h'.eq_nil.symm
  | a :: l, l', p, h, h' => by
    obtain ⟨rfl, h⟩ := h
    obtain ⟨l'', rfl, h''⟩ := h'.of_some
    rw [unique h h'']

/-- A list depends on the pointers of its own nodes only. -/
lemma congr (h : Chain next p l) (heq : ∀ b ∈ l, next' b = next b) : Chain next' p l := by
  induction l generalizing p with
  | nil => exact h
  | cons b l ih =>
    refine ⟨h.1, ?_⟩
    rw [heq b List.mem_cons_self]
    exact ih h.2 fun c hc => heq c (List.mem_cons_of_mem b hc)

/-- Another list is put behind the last node. -/
lemma append (h : Chain next p (l ++ [e])) (heq : ∀ b ∈ l, next' b = next b)
    (h' : Chain next' (next' e) l') : Chain next' p (l ++ e :: l') := by
  induction l generalizing p with
  | nil => exact ⟨h.1, h'⟩
  | cons b l ih =>
    refine ⟨h.1, ?_⟩
    rw [heq b List.mem_cons_self]
    exact ih h.2 fun c hc => heq c (List.mem_cons_of_mem b hc)

/-- The node that a node of the list links to is one of the list. -/
theorem mem_of_next {b : α} (h : Chain next p l) (ha : a ∈ l) (hb : next a = some b) : b ∈ l := by
  induction l generalizing p with
  | nil => cases ha
  | cons c l ih =>
    rcases List.mem_cons.mp ha with rfl | ha
    · obtain ⟨l', rfl, -⟩ := (hb ▸ h.2).of_some
      exact List.mem_cons_of_mem _ List.mem_cons_self
    · exact List.mem_cons_of_mem c (ih h.2 ha)

/-- In a list without repetitions there is one link to each node, but for the first. -/
theorem next_ne_head (h : Chain next p l) (hl : l.Nodup) (ha : a ∈ l) (hp : p = some e) :
    next a ≠ some e := by
  subst hp
  obtain ⟨l', rfl, h'⟩ := h.of_some
  intro hnext
  rw [List.nodup_cons] at hl
  rcases List.mem_cons.mp ha with rfl | ha
  · rw [hnext] at h'
    obtain ⟨l'', rfl, -⟩ := h'.of_some
    exact hl.1 List.mem_cons_self
  · exact hl.1 (h'.mem_of_next ha hnext)

/-- Two elements of a chain have two successors. -/
lemma next_inj {b : α} (h : Chain next p l) (hl : l.Nodup) (ha : a ∈ l) (hb : b ∈ l)
    (he : next a = some e) (hnext : next b = some e) : a = b := by
  induction l generalizing p with
  | nil => cases ha
  | cons c l ih =>
    rw [List.nodup_cons] at hl
    rcases List.mem_cons.mp ha with hac | hac
    · rcases List.mem_cons.mp hb with hbc | hbc
      · rw [hac, hbc]
      · exact (h.2.next_ne_head hl.2 hbc (hac ▸ he) hnext).elim
    · rcases List.mem_cons.mp hb with hbc | hbc
      · exact (h.2.next_ne_head hl.2 hac (hbc ▸ hnext) he).elim
      · exact ih h.2 hl.2 hac hbc

end Chain
