import Mathlib.Data.List.Nodup
import Mathlib.Logic.Function.Basic
import Mathlib.Logic.Function.Iterate

/-!
# Circular doubly linked lists

Two pointer maps `next` and `prev` over nodes of any type, and a node `h` at which the list begins
and ends. `Seg next prev x l y` says that following `next` from `x` visits `l` and then `y`, and
that `prev` leads the same way back; the whole list is a segment from `h` to `h`.

Cutting a node out and putting one in at the front are a few pointer updates. A segment only depends
on the pointers of its own nodes, so these updates are seen where they happen and nowhere else.
-/

namespace Dlist

variable {α : Type*} {next prev next' prev' : α → α} {x y z b h : α} {l l₁ l₂ : List α}

/-- `x`, then the nodes of `l`, then `y`, linked both ways. -/
def Seg (next prev : α → α) (x : α) : List α → α → Prop
  | [], y => next x = y ∧ prev y = x
  | a :: l, y => (next x = a ∧ prev a = x) ∧ Seg next prev a l y

lemma seg_append : Seg next prev x (l₁ ++ b :: l₂) y ↔
    Seg next prev x l₁ b ∧ Seg next prev b l₂ y := by
  induction l₁ generalizing x with
  | nil => exact Iff.rfl
  | cons a l₁ ih =>
    show _ ∧ Seg next prev a (l₁ ++ b :: l₂) y ↔ (_ ∧ Seg next prev a l₁ b) ∧ _
    rw [ih]
    exact and_assoc.symm

/-- The node before the end of a segment is one of its nodes. -/
lemma Seg.prev_mem (hseg : Seg next prev x l y) : prev y ∈ x :: l := by
  induction l generalizing x with
  | nil => exact hseg.2 ▸ List.mem_cons_self
  | cons a l ih => exact List.mem_cons_of_mem _ (ih hseg.2)

/-- The pointers that a segment is made of. -/
lemma Seg.congr (hseg : Seg next prev x l y) (hnext : ∀ z ∈ x :: l, next' z = next z)
    (hprev : ∀ z ∈ l ++ [y], prev' z = prev z) : Seg next' prev' x l y := by
  induction l generalizing x with
  | nil =>
    refine ⟨?_, ?_⟩
    · rw [hnext x List.mem_cons_self]
      exact hseg.1
    · rw [hprev y List.mem_cons_self]
      exact hseg.2
  | cons a l ih =>
    refine ⟨⟨?_, ?_⟩, ?_⟩
    · rw [hnext x List.mem_cons_self]
      exact hseg.1.1
    · rw [hprev a List.mem_cons_self]
      exact hseg.1.2
    · apply ih hseg.2
      · exact fun z hz => hnext z (List.mem_cons_of_mem _ hz)
      · exact fun z hz => hprev z (List.mem_cons_of_mem _ hz)

/-- The last pointer of a segment leads to another node. -/
lemma Seg.redirect (hseg : Seg next prev x l y) (hnodup : (x :: l).Nodup)
    (hnext : ∀ w ∈ x :: l, w ≠ prev y → next' w = next w) (hz : next' (prev y) = z)
    (hprev : ∀ w ∈ l, prev' w = prev w) (hback : prev' z = prev y) :
    Seg next' prev' x l z := by
  induction l generalizing x with
  | nil =>
    have hx : prev y = x := hseg.2
    rw [hx] at hz hback
    exact ⟨hz, hback⟩
  | cons a l ih =>
    -- the node before `y` is `a` or behind it, so it is not `x`
    have hne : x ≠ prev y := by
      intro heq
      have hmem := hseg.2.prev_mem
      rw [← heq] at hmem
      exact (List.nodup_cons.mp hnodup).1 hmem
    refine ⟨⟨?_, ?_⟩, ?_⟩
    · rw [hnext x List.mem_cons_self hne]
      exact hseg.1.1
    · rw [hprev a List.mem_cons_self]
      exact hseg.1.2
    · apply ih hseg.2 (List.nodup_cons.mp hnodup).2
      · exact fun w hw => hnext w (List.mem_cons_of_mem _ hw)
      · exact fun w hw => hprev w (List.mem_cons_of_mem _ hw)

/-- A circular list: the nodes `l` behind `h`, each of them once. -/
structure Linked (next prev : α → α) (h : α) (l : List α) : Prop where
  seg : Seg next prev h l h
  nodup : (h :: l).Nodup

section
variable [DecidableEq α]

/-- `b->next->prev = b->prev; b->prev->next = b->next;`. -/
def unlink (next prev : α → α) (b : α) : (α → α) × (α → α) :=
  let prev₁ := Function.update prev (next b) (prev b)
  (Function.update next (prev₁ b) (next b), prev₁)

/-- `b->next = h->next; b->prev = h; h->next->prev = b; h->next = b;`. -/
def pushFront (next prev : α → α) (h b : α) : (α → α) × (α → α) :=
  let next₁ := Function.update next b (next h)
  let prev₁ := Function.update prev b h
  (Function.update next₁ h b, Function.update prev₁ (next₁ h) b)

/-- Unlinking takes one element out. -/
lemma Linked.unlink (hl : Linked next prev h (l₁ ++ b :: l₂)) :
    Linked (unlink next prev b).1 (unlink next prev b).2 h (l₁ ++ l₂) := by
  obtain ⟨hseg, hnodup⟩ := hl
  obtain ⟨hfst, hsnd⟩ := seg_append.mp hseg
  have hsub : (h :: (l₁ ++ l₂)).Nodup := by
    refine List.Nodup.sublist ?_ hnodup
    exact ((List.sublist_cons_self b l₂).append_left l₁).cons_cons h
  have hh : h ∉ l₁ ++ b :: l₂ := (List.nodup_cons.mp hnodup).1
  have happ := List.nodup_append.mp (List.nodup_cons.mp hnodup).2
  have hb₁ : b ∉ l₁ := fun hb => happ.2.2 b hb b List.mem_cons_self rfl
  have hb₂ : b ∉ l₂ := (List.nodup_cons.mp happ.2.1).1
  have hbh : b ≠ h := fun heq => hh (heq ▸ List.mem_append_right _ List.mem_cons_self)
  have hdisj : ∀ w ∈ l₁, ∀ w' ∈ l₂, w ≠ w' := fun w hw w' hw' =>
    happ.2.2 w hw w' (List.mem_cons_of_mem _ hw')
  have hh₁ : h ∉ l₁ := fun hm => hh (List.mem_append_left _ hm)
  have hh₂ : h ∉ l₂ := fun hm => hh (List.mem_append_right _ (List.mem_cons_of_mem _ hm))
  have hnod₁ : (h :: l₁).Nodup := List.nodup_cons.mpr ⟨hh₁, happ.1⟩
  -- the node before `b` is `h` or in the first part
  have hpmem : prev b ∈ h :: l₁ := hfst.prev_mem
  refine ⟨?_, hsub⟩
  unfold Dlist.unlink
  dsimp only
  rcases l₂ with _ | ⟨a, l₂⟩
  · have hnb : next b = h := hsnd.1
    rw [hnb, Function.update_of_ne hbh, List.append_nil]
    apply hfst.redirect hnod₁
    · exact fun w _ hw => Function.update_of_ne hw _ _
    · exact Function.update_self _ _ _
    · intro w hw
      have hwh : w ≠ h := fun heq => hh₁ (heq ▸ hw)
      exact Function.update_of_ne hwh _ _
    · exact Function.update_self _ _ _
  · have hnb : next b = a := hsnd.1.1
    have hba : b ≠ a := fun heq => hb₂ (heq ▸ List.mem_cons_self)
    have hal₂ : a ∉ l₂ := (List.nodup_cons.mp (List.nodup_cons.mp happ.2.1).2).1
    have hah : a ≠ h := fun heq => hh₂ (heq ▸ List.mem_cons_self)
    rw [hnb, Function.update_of_ne hba, seg_append]
    constructor
    · apply hfst.redirect hnod₁
      · exact fun w _ hw => Function.update_of_ne hw _ _
      · exact Function.update_self _ _ _
      · exact fun w hw => Function.update_of_ne (hdisj w hw a List.mem_cons_self) _ _
      · exact Function.update_self _ _ _
    · apply hsnd.2.congr
      · intro w hw
        apply Function.update_of_ne
        intro heq
        rw [heq] at hw
        rcases List.mem_cons.mp hpmem with hp | hp
        · exact hh₂ (hp ▸ hw)
        · exact hdisj _ hp _ hw rfl
      · intro w hw
        apply Function.update_of_ne
        intro heq
        rw [heq] at hw
        rcases List.mem_append.mp hw with hw | hw
        · exact hal₂ hw
        · exact hah (List.mem_singleton.mp hw)

lemma Linked.pushFront (hl : Linked next prev h l) (hb : b ∉ h :: l) :
    Linked (pushFront next prev h b).1 (pushFront next prev h b).2 h (b :: l) := by
  obtain ⟨hseg, hnodup⟩ := hl
  have hbh : b ≠ h := fun heq => hb (heq ▸ List.mem_cons_self)
  have hbl : b ∉ l := fun hm => hb (List.mem_cons_of_mem _ hm)
  have hhl : h ∉ l := (List.nodup_cons.mp hnodup).1
  refine ⟨?_, ?_⟩
  · unfold Dlist.pushFront
    dsimp only
    rw [Function.update_of_ne hbh.symm]
    -- the old first node, or the head itself when the list is empty
    have hfirst : next h ≠ b := by
      rcases l with _ | ⟨a, l⟩
      · exact fun heq => hbh (heq.symm.trans hseg.1)
      · exact fun heq => hbl ((heq.symm.trans hseg.1.1) ▸ List.mem_cons_self)
    refine ⟨⟨Function.update_self _ _ _, ?_⟩, ?_⟩
    · rw [Function.update_of_ne hfirst.symm, Function.update_self]
    rcases l with _ | ⟨a, l⟩
    · have hnh : next h = h := hseg.1
      rw [hnh]
      refine ⟨?_, Function.update_self _ _ _⟩
      rw [Function.update_of_ne hbh, Function.update_self]
    · have hnh : next h = a := hseg.1.1
      have hal : a ∉ l := (List.nodup_cons.mp (List.nodup_cons.mp hnodup).2).1
      have hah : a ≠ h := fun heq => hhl (heq ▸ List.mem_cons_self)
      rw [hnh]
      refine ⟨⟨?_, Function.update_self _ _ _⟩, ?_⟩
      · rw [Function.update_of_ne hbh, Function.update_self]
      · apply hseg.2.congr
        · intro w hw
          have hwh : w ≠ h := fun heq => hhl (heq ▸ hw)
          have hwb : w ≠ b := fun heq => hbl (heq ▸ hw)
          rw [Function.update_of_ne hwh, Function.update_of_ne hwb]
        · intro w hw
          have hwa : w ≠ a := by
            intro heq
            rw [heq] at hw
            rcases List.mem_append.mp hw with hw | hw
            · exact hal hw
            · exact hah (List.mem_singleton.mp hw)
          have hwb : w ≠ b := by
            intro heq
            rw [heq] at hw
            rcases List.mem_append.mp hw with hw | hw
            · exact hbl (List.mem_cons_of_mem _ hw)
            · exact hbh (List.mem_singleton.mp hw)
          rw [Function.update_of_ne hwa, Function.update_of_ne hwb]
  · rw [List.nodup_cons, List.mem_cons, not_or, List.nodup_cons]
    exact ⟨⟨hbh.symm, hhl⟩, hbl, (List.nodup_cons.mp hnodup).2⟩

end

/-! ## Walks -/

/-- `for (x = h->next; x != h; x = x->next) if (p(x)) return x;` with the pointer `f`, for at most
`n` nodes. -/
def find [DecidableEq α] (f : α → α) (h : α) (p : α → Bool) : ℕ → α → Option α
  | 0, _ => none
  | n + 1, x => if x = h then none else if p x then some x else find f h p n (f x)

lemma Seg.find_eq [DecidableEq α] (hseg : Seg next prev x l h) (hh : h ∉ l) {n : ℕ}
    (hn : l.length ≤ n) (p : α → Bool) : find next h p n (next x) = l.find? p := by
  induction l generalizing x n with
  | nil =>
    have hx : next x = h := hseg.1
    rcases n with _ | n
    · rfl
    · unfold find
      rw [if_pos hx]
      rfl
  | cons a l ih =>
    have hx : next x = a := hseg.1.1
    have hah : a ≠ h := fun heq => hh (heq ▸ List.mem_cons_self)
    rcases n with _ | n
    · exact absurd hn (Nat.not_succ_le_zero _)
    · rw [hx]
      unfold find
      rw [if_neg hah, List.find?_cons]
      rcases hp : p a with _ | _
      · exact ih hseg.2 (fun hm => hh (List.mem_cons_of_mem _ hm)) (Nat.le_of_succ_le_succ hn)
      · rfl

/-- The list backwards. -/
lemma Seg.reverse (hseg : Seg next prev x l y) : Seg prev next y l.reverse x := by
  induction l generalizing x with
  | nil => exact ⟨hseg.2, hseg.1⟩
  | cons a l ih =>
    rw [List.reverse_cons, seg_append]
    exact ⟨ih hseg.2, hseg.1.2, hseg.1.1⟩

lemma Linked.reverse (hl : Linked next prev h l) : Linked prev next h l.reverse := by
  refine ⟨hl.seg.reverse, ?_⟩
  have hnodup := List.nodup_cons.mp hl.nodup
  rw [List.nodup_cons, List.mem_reverse, List.nodup_reverse]
  exact hnodup

lemma Linked.find_next [DecidableEq α] (hl : Linked next prev h l) {n : ℕ} (hn : l.length ≤ n)
    (p : α → Bool) : find next h p n (next h) = l.find? p :=
  hl.seg.find_eq (List.nodup_cons.mp hl.nodup).1 hn p

lemma Linked.find_prev [DecidableEq α] (hl : Linked next prev h l) {n : ℕ} (hn : l.length ≤ n)
    (p : α → Bool) : find prev h p n (prev h) = l.reverse.find? p :=
  hl.reverse.find_next (by rw [List.length_reverse]; exact hn) p

/-- The nodes that are visited by following `f` from `x` on. -/
def visits (f : α → α) (n : ℕ) (x : α) : List α := (List.range n).map fun k => f^[k + 1] x

lemma Seg.visits (hseg : Seg next prev x l y) :
    Dlist.visits next (l.length + 1) x = l ++ [y] := by
  induction l generalizing x with
  | nil =>
    have hx : next x = y := hseg.1
    show [next x] = [y]
    rw [hx]
  | cons a l ih =>
    have hx : next x = a := hseg.1.1
    have htail := ih hseg.2
    unfold Dlist.visits at htail ⊢
    rw [List.length_cons, List.range_succ_eq_map, List.map_cons, List.map_map, List.cons_append,
      ← htail]
    congr 1
    apply List.map_congr_left
    intro k _
    show next^[k + 1 + 1] x = next^[k + 1] a
    rw [Function.iterate_succ_apply, hx]

end Dlist
