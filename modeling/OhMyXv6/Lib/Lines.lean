import Mathlib.Data.List.Destutter
import Mathlib.Data.Nat.Notation
import Mathlib.Tactic.Common

/-!
# Files of lines

A file of lines is written one line after the other, each with a separator behind it. It can be read
again from any place: what follows is the rest of a line, and then whole lines.
-/

namespace Lines

variable {α : Type*} {sep : α}

/-- The lines `W`, each with the separator behind it. -/
def join (sep : α) (W : List (List α)) : List α := W.flatMap (· ++ [sep])

@[simp] lemma join_nil : join sep [] = [] := rfl

@[simp] lemma join_cons (w : List α) (W : List (List α)) :
    join sep (w :: W) = w ++ sep :: join sep W := by
  simp [join]

lemma join_append (W V : List (List α)) : join sep (W ++ V) = join sep W ++ join sep V := by
  simp [join]

lemma join_concat (W : List (List α)) (w : List α) :
    join sep (W ++ [w]) = join sep W ++ (w ++ [sep]) := by
  simp [join]

/-- From any place of the file on, there is the rest of a line, and whole lines. -/
theorem exists_drop (W : List (List α)) : ∀ {n : ℕ}, n < (join sep W).length →
    ∃ U V rest, W = U ++ V ∧ (join sep W).drop n = rest ++ sep :: join sep V ∧
      (join sep U).length = n + rest.length + 1 ∧ ∃ w ∈ U, rest <:+ w := by
  induction W with
  | nil =>
    intro n hn
    simp at hn
  | cons w W ih =>
    intro n hn
    by_cases hle : n ≤ w.length
    · -- the place is in the first line
      refine ⟨[w], W, w.drop n, rfl, ?_, ?_, w, List.mem_singleton_self w, List.drop_suffix n w⟩
      · rw [join_cons, List.drop_append_of_le_length hle]
      · simp only [join_cons, join_nil, List.length_append, List.length_cons, List.length_nil,
          List.length_drop]
        omega
    · obtain ⟨m, hm⟩ : ∃ m, n = w.length + (m + 1) := ⟨n - w.length - 1, by omega⟩
      have hlt : m < (join sep W).length := by
        simp only [join_cons, List.length_append, List.length_cons] at hn
        omega
      obtain ⟨U, V, rest, hW, hdrop, hlen, u, hu, hsuf⟩ := ih hlt
      refine ⟨w :: U, V, rest, by rw [hW, List.cons_append], ?_, ?_, u,
        List.mem_cons_of_mem w hu, hsuf⟩
      · rw [join_cons, hm, ← List.drop_drop, List.drop_left, List.drop_succ_cons, hdrop]
      · simp only [join_cons, List.length_append, List.length_cons, hlen]
        omega

section
variable [DecidableEq α]

/-- A list that has grown by one element, without repetitions. -/
lemma destutter_concat (l : List α) (x : α) : (l ++ [x]).destutter (· ≠ ·) =
    if (l.destutter (· ≠ ·)).getLast? = some x then l.destutter (· ≠ ·)
    else l.destutter (· ≠ ·) ++ [x] := by
  have hchain : ∀ (l : List α) (a : α), (l ++ [x]).destutter' (· ≠ ·) a =
      if (l.destutter' (· ≠ ·) a).getLast? = some x then l.destutter' (· ≠ ·) a
      else l.destutter' (· ≠ ·) a ++ [x] := by
    intro l
    induction l with
    | nil =>
      intro a
      by_cases hax : a = x
      · simp [hax]
      · simp [hax]
    | cons b l ih =>
      intro a
      by_cases hab : a = b
      · simpa [List.destutter'_cons, hab] using ih b
      · have hne := List.destutter'_ne_nil (R := (· ≠ ·)) l (a := b)
        have hlast : (a :: l.destutter' (· ≠ ·) b).getLast? = (l.destutter' (· ≠ ·) b).getLast? := by
          rw [List.getLast?_cons]
          cases hc : l.destutter' (· ≠ ·) b with
          | nil => exact absurd hc hne
          | cons c cs => simp [List.getLast?_cons]
        simp only [List.cons_append, List.destutter'_cons, ne_eq, hab, not_false_eq_true, if_true, hlast,
          ih b]
        split
        · rfl
        · rfl
  cases l with
  | nil => simp
  | cons a l => exact hchain l a

end

/-! ## Taking lines apart -/

section
variable [DecidableEq α]

/-- The lines that end with the separator, and what is behind the last of them. -/
def split (sep : α) : List α → List (List α) × List α
  | [] => ([], [])
  | x :: xs =>
    -- a separator ends the line it follows
    if x = sep then ([] :: (split sep xs).1, (split sep xs).2)
    else
      match split sep xs with
      | ([], r) => ([], x :: r)
      | (w :: W, r) => ((x :: w) :: W, r)

variable {xs ys r w : List α} {W : List (List α)}

/-- In front of the first separator. -/
lemma split_append_left (h : sep ∉ r) (xs : List α) : split sep (r ++ xs) =
    match split sep xs with
    | ([], r') => ([], r ++ r')
    | (w :: W, r') => ((r ++ w) :: W, r') := by
  induction r with
  | nil =>
    rw [List.nil_append]
    rcases split sep xs with ⟨_ | ⟨w, W⟩, r'⟩
    · rfl
    · rfl
  | cons x r ih =>
    have hx : x ≠ sep := fun heq => h (heq ▸ List.mem_cons_self)
    rw [List.cons_append, split, if_neg hx, ih fun hr => h (List.mem_cons_of_mem x hr)]
    rcases split sep xs with ⟨_ | ⟨w, W⟩, r'⟩
    · rfl
    · rfl

lemma split_of_not_mem (h : sep ∉ r) : split sep r = ([], r) := by
  have hsplit := split_append_left h []
  rw [List.append_nil, split] at hsplit
  simpa using hsplit

lemma split_line (h : sep ∉ w) (xs : List α) :
    split sep (w ++ sep :: xs) = (w :: (split sep xs).1, (split sep xs).2) := by
  rw [split_append_left h, split, if_pos rfl]
  simp

/-- The lines are what was joined. -/
lemma split_join (h : ∀ w ∈ W, sep ∉ w) (xs : List α) :
    split sep (join sep W ++ xs) = (W ++ (split sep xs).1, (split sep xs).2) := by
  induction W with
  | nil => rfl
  | cons w W ih =>
    rw [join_cons, List.append_assoc, List.cons_append, split_line (h w List.mem_cons_self),
      ih fun v hv => h v (List.mem_cons_of_mem w hv)]
    rfl

/-- Nothing is lost. -/
lemma join_split (sep : α) (xs : List α) :
    join sep (split sep xs).1 ++ (split sep xs).2 = xs ∧
      (∀ w ∈ (split sep xs).1, sep ∉ w) ∧ sep ∉ (split sep xs).2 := by
  induction xs with
  | nil => exact ⟨rfl, nofun, List.not_mem_nil⟩
  | cons x xs ih =>
    obtain ⟨hjoin, hlines, hrest⟩ := ih
    rw [split]
    by_cases hx : x = sep
    · rw [if_pos hx]
      refine ⟨?_, List.forall_mem_cons.mpr ⟨List.not_mem_nil, hlines⟩, hrest⟩
      rw [join_cons, List.nil_append, List.cons_append, hjoin, hx]
    · rw [if_neg hx]
      have hne : ∀ v, sep ∉ v → sep ∉ x :: v := by
        intro v hv hmem
        rcases List.mem_cons.mp hmem with heq | hin
        · exact hx heq.symm
        · exact hv hin
      rcases hs : split sep xs with ⟨_ | ⟨w, W⟩, r⟩
      · rw [hs] at hjoin hrest
        exact ⟨congrArg (x :: ·) hjoin, nofun, hne r hrest⟩
      · rw [hs] at hjoin hlines hrest
        obtain ⟨hw, hW⟩ := List.forall_mem_cons.mp hlines
        refine ⟨?_, List.forall_mem_cons.mpr ⟨hne w hw, hW⟩, hrest⟩
        rw [← hjoin]
        simp

/-- The lines of a list that goes on. -/
lemma split_append (sep : α) (xs ys : List α) : split sep (xs ++ ys) =
    ((split sep xs).1 ++ (split sep ((split sep xs).2 ++ ys)).1,
      (split sep ((split sep xs).2 ++ ys)).2) := by
  obtain ⟨hjoin, hlines, -⟩ := join_split sep xs
  conv_lhs => rw [← hjoin]
  rw [List.append_assoc, split_join hlines]

/-- No line is whole without a separator. -/
lemma split_eq_nil_iff : (split sep xs).1 = [] ↔ sep ∉ xs := by
  obtain ⟨hjoin, -, hrest⟩ := join_split sep xs
  constructor
  · intro hnil
    rw [hnil, join_nil, List.nil_append] at hjoin
    rwa [hjoin] at hrest
  · intro hxs
    rw [split_of_not_mem hxs]

end

end Lines
