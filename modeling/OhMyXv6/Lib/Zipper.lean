import Mathlib.Data.List.Basic

/-!
# A list with a place in it

A list is gone through from its new end to its old one and back. The entry at the place, if there is one,
stands between the newer entries, the nearest of them first, and the older ones. Without such an entry the
place is in front of the whole list.
-/

/-- A list with a place in it: at one of the elements, or behind the last one. -/
structure Zipper (α : Type*) where
  next : List α
  curr : Option α
  prev : List α
  next_nil : curr = none → next = []

namespace Zipper

variable {α β : Type*} {z : Zipper α}

/-- The whole list, its newest entry first. -/
def seq (z : Zipper α) : List α := z.next.reverse ++ z.curr.toList ++ z.prev

/-- The number of the entries that are not older than the one at the place. -/
def place (z : Zipper α) : ℕ := z.next.length + z.curr.toList.length

/-- Older entries are added. -/
def extend (z : Zipper α) (l : List α) : Zipper α := { z with prev := z.prev ++ l }

/-- One entry further to the old end. -/
def older (z : Zipper α) : Zipper α :=
  match z.prev with
  | [] => z
  | a :: prev => ⟨z.curr.toList ++ z.next, some a, prev, nofun⟩

/-- One entry further to the new end. -/
def newer (z : Zipper α) : Zipper α :=
  match z.next with
  | [] => ⟨[], none, z.curr.toList ++ z.prev, fun _ => rfl⟩
  | a :: next => ⟨next, some a, z.curr.toList ++ z.prev, nofun⟩

/-- In front of the list. -/
def reset (z : Zipper α) : Zipper α := ⟨[], none, z.seq, fun _ => rfl⟩

/-- A new entry, with the place in front of it. -/
def push (z : Zipper α) (a : α) : Zipper α := ⟨[], none, a :: z.seq, fun _ => rfl⟩

@[simp] lemma reverse_toList (a : Option α) : a.toList.reverse = a.toList := by
  cases a <;> rfl

lemma extend_nil : z.extend [] = z := by
  cases z
  simp [extend]

lemma extend_extend (l l' : List α) : (z.extend l).extend l' = z.extend (l ++ l') := by
  simp [extend]

@[simp] lemma seq_extend (l : List α) : (z.extend l).seq = z.seq ++ l := by
  simp [seq, extend]

@[simp] lemma place_extend (l : List α) : (z.extend l).place = z.place := rfl

@[simp] lemma seq_older : z.older.seq = z.seq := by
  unfold older
  split
  · rfl
  · next a prev hprev => simp [seq, hprev]

@[simp] lemma seq_newer : z.newer.seq = z.seq := by
  unfold newer
  split
  · next hnext => simp [seq, hnext]
  · next a next hnext =>
    simp [seq, hnext]

@[simp] lemma seq_reset : z.reset.seq = z.seq := by
  simp [seq, reset]

@[simp] lemma seq_push (a : α) : (z.push a).seq = a :: z.seq := by
  simp [seq, push]

/-- What is next on the way to the old end. -/
lemma head?_prev : z.prev.head? = z.seq[z.place]? := by
  have hlen : (z.next.reverse ++ z.curr.toList).length = z.place := by simp [place]
  rw [seq, ← hlen, List.getElem?_append_right (Nat.le_refl _), Nat.sub_self, List.head?_eq_getElem?]

/-- What is next on the way to the new end. -/
lemma head?_next : z.next.head? = if z.place < 2 then none else z.seq[z.place - 2]? := by
  unfold seq place
  cases hcurr : z.curr with
  | none => simp [z.next_nil hcurr]
  | some a =>
    cases hnext : z.next with
    | nil => simp
    | cons b next => simp

/-- One place further, if there is one. -/
lemma place_older : z.older.place = if z.place < z.seq.length then z.place + 1 else z.place := by
  have hlen : z.seq.length = z.place + z.prev.length := by
    simp only [seq, place, List.length_append, List.length_reverse]
  unfold older
  split
  · next hprev =>
    rw [hlen, hprev, List.length_nil, if_neg (by omega)]
  · next a prev hprev =>
    rw [hlen, hprev, List.length_cons, if_pos (by omega)]
    simp only [place, List.length_append, Option.toList_some, List.length_singleton]
    omega

/-- One place back, if there is one. -/
lemma place_newer : z.newer.place = z.place - 1 := by
  unfold newer
  split
  · next hnext => cases hcurr : z.curr <;> simp [place, hnext, hcurr]
  · next a next hnext =>
    cases hcurr : z.curr with
    | none =>
      rw [z.next_nil hcurr] at hnext
      cases hnext
    | some b => simp [place, hnext, hcurr]

end Zipper
