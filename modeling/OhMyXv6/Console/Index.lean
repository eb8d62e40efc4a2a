import OhMyXv6.Console.Model
import OhMyXv6.Lib.Runs
import Mathlib.Algebra.Group.Nat.Defs

/-!
# The order of the input indices

The comment in `struct input` says `w <= cur <= e`. Measured from `r`, modulo `2 ^ 32`, this is an
invariant of every key and every reader but for one kind of step: an insertion in front of other
characters that fills the ring while the end of the line has wrapped around to zero and the cursor
has not. And `CONSOLE_RAW_TOGGLE` resets three of the four indices.
-/

namespace OhMyXv6
namespace Console

open Input

/-- How far index `x` is ahead of `r`. -/
def ahead (r x : UInt32) : ℕ := (x - r).toNat

section
variable {r x y : UInt32}

lemma ahead_self : ahead r r = 0 := by
  unfold ahead
  rw [UInt32.sub_self]
  rfl

/-- One place further, short of the wrap. -/
lemma ahead_add_one (h : ahead r x + 1 < 2 ^ 32) : ahead r (x + 1) = ahead r x + 1 := by
  unfold ahead at *
  simp only [UInt32.toNat_sub, UInt32.toNat_add, UInt32.toNat_one] at *
  have hx := UInt32.toNat_lt x
  have hr := UInt32.toNat_lt r
  omega

lemma ahead_sub_one (h : 0 < ahead r x) : ahead r (x - 1) = ahead r x - 1 := by
  unfold ahead at *
  simp only [UInt32.toNat_sub, UInt32.toNat_one] at *
  have hx := UInt32.toNat_lt x
  have hr := UInt32.toNat_lt r
  omega

lemma ahead_succ (h : 0 < ahead r x) : ahead (r + 1) x = ahead r x - 1 := by
  unfold ahead at *
  simp only [UInt32.toNat_sub, UInt32.toNat_add, UInt32.toNat_one] at *
  have hx := UInt32.toNat_lt x
  have hr := UInt32.toNat_lt r
  omega

/-- The distance from `r` tells two indices apart. -/
lemma ahead_inj : ahead r x = ahead r y ↔ x = y := by
  constructor
  · intro h
    unfold ahead at h
    apply UInt32.toNat_inj.mp
    simp only [UInt32.toNat_sub] at h
    have hx := UInt32.toNat_lt x
    have hy := UInt32.toNat_lt y
    have hr := UInt32.toNat_lt r
    omega
  · intro h
    rw [h]

lemma eq_add_buf_iff : x = r + INPUT_BUF ↔ ahead r x = 128 := by
  unfold ahead
  rw [← UInt32.toNat_inj]
  have hbuf : INPUT_BUF.toNat = 128 := rfl
  simp only [UInt32.toNat_sub, UInt32.toNat_add, hbuf]
  have hx := UInt32.toNat_lt x
  have hr := UInt32.toNat_lt r
  omega

end

lemma room_iff {s : Input} : s.Room ↔ ahead s.r s.e < 128 := by
  unfold Room
  rw [UInt32.lt_iff_toNat_lt]
  rfl

/-- The indices are in order, and there are no more characters than the ring holds. -/
structure Ordered (s : Input) : Prop where
  w : ahead s.r s.w ≤ ahead s.r s.cur
  cur : ahead s.r s.cur ≤ ahead s.r s.e
  e : ahead s.r s.e ≤ 128

/-! ## Edits -/

/-- The four indices of `t` are those of `s`. -/
def SameIdx (s t : Input) : Prop := t.r = s.r ∧ t.w = s.w ∧ t.e = s.e ∧ t.cur = s.cur

lemma Ordered.same {s t : Input} (h : Ordered s) (hst : SameIdx s t) : Ordered t := by
  obtain ⟨hr, hw, he, hcur⟩ := hst
  constructor
  · rw [hr, hw, hcur]
    exact h.w
  · rw [hr, hcur, he]
    exact h.cur
  · rw [hr, he]
    exact h.e

/-- Shifting bytes moves no index. -/
lemma same_shiftDown (n : ℕ) (x : UInt32) (s : Input) : SameIdx s (shiftDown n x s) := by
  induction n generalizing x s with
  | zero => exact ⟨rfl, rfl, rfl, rfl⟩
  | succ n ih => exact ih (x + 1) (s.set x (s.get (x + 1)))

lemma same_shiftUp (n : ℕ) (x : UInt32) (s : Input) : SameIdx s (shiftUp n x s) := by
  induction n generalizing x s with
  | zero => exact ⟨rfl, rfl, rfl, rfl⟩
  | succ n ih => exact ih (x - 1) (s.set x (s.get (x - 1)))

section
variable {s : Input} {c : UInt8}

lemma toEnd_eq (s : Input) : s.toEnd.r = s.r ∧ s.toEnd.w = s.w ∧ s.toEnd.e = s.e ∧
    s.toEnd.cur = if s.cur < s.e then s.e else s.cur := by
  unfold toEnd
  split
  · exact ⟨rfl, rfl, rfl, rfl⟩
  · exact ⟨rfl, rfl, rfl, rfl⟩

/-- What the second loop of `clear` leaves: it goes back to `w` at most. -/
theorem eraseLoop_idx (n : ℕ) (s : Input) (h : ahead s.r s.w ≤ ahead s.r s.e) :
    (eraseLoop n s).r = s.r ∧ (eraseLoop n s).w = s.w ∧
      ahead s.r s.w ≤ ahead s.r (eraseLoop n s).e ∧
      ahead s.r (eraseLoop n s).e ≤ ahead s.r s.e := by
  induction n generalizing s with
  | zero => exact ⟨rfl, rfl, h, Nat.le_refl _⟩
  | succ n ih =>
    unfold eraseLoop
    split
    · next hmore =>
      have hne : ahead s.r s.e ≠ ahead s.r s.w := fun heq => hmore.1 (ahead_inj.mp heq)
      have hpos : 0 < ahead s.r s.e := by omega
      have hdec : ahead s.r (s.e - 1) = ahead s.r s.e - 1 := ahead_sub_one hpos
      have hih := ih { s.emit [.backspace] with e := s.e - 1 } (by
        show ahead s.r s.w ≤ ahead s.r (s.e - 1)
        omega)
      have hlast : ahead s.r (eraseLoop n { s.emit [.backspace] with e := s.e - 1 }).e ≤
          ahead s.r (s.e - 1) := hih.2.2.2
      exact ⟨hih.1, hih.2.1, hih.2.2.1, by omega⟩
    · exact ⟨rfl, rfl, h, Nat.le_refl _⟩

/-- `clear` puts the cursor at the end, and the end nowhere in front of `w`. -/
theorem clear_idx (h : Ordered s) : s.clear.r = s.r ∧ s.clear.w = s.w ∧ Ordered s.clear ∧
    s.clear.cur = s.clear.e := by
  obtain ⟨hr, hw, he, -⟩ := toEnd_eq s
  have hw' := h.w
  have hcur := h.cur
  have hlen := h.e
  have hloop := eraseLoop_idx (s.toEnd.e - s.toEnd.w).toNat s.toEnd (by
    rw [hr, hw, he]
    omega)
  rw [hr, hw, he] at hloop
  obtain ⟨hr', hw'', hle, hge⟩ := hloop
  have hclear : s.clear.r = s.r ∧ s.clear.w = s.w ∧
      s.clear.e = (eraseLoop (s.e - s.w).toNat s.toEnd).e ∧ s.clear.cur = s.clear.e := by
    unfold clear
    rw [he, hw]
    exact ⟨hr', hw'', rfl, rfl⟩
  refine ⟨hclear.1, hclear.2.1, ⟨?_, ?_, ?_⟩, hclear.2.2.2⟩
  · rw [hclear.1, hclear.2.1, hclear.2.2.2, hclear.2.2.1]
    exact hle
  · simp only [hclear.2.2.2, Nat.le_refl]
  · rw [hclear.1, hclear.2.2.1]
    omega

lemma ordered_push (h : Ordered s) (hroom : s.Room) (c : UInt8) : Ordered (s.push c) := by
  rw [room_iff] at hroom
  have hadd : ahead s.r (s.e + 1) = ahead s.r s.e + 1 := ahead_add_one (by omega)
  have hw := h.w
  have hcur := h.cur
  constructor
  · show ahead s.r s.w ≤ ahead s.r (s.e + 1)
    omega
  · exact Nat.le_refl _
  · show ahead s.r (s.e + 1) ≤ 128
    omega

/-- Everything up to the end is submitted. -/
lemma ordered_submit (h : Ordered s) (hroom : s.Room) : Ordered (s.submit c) :=
  ⟨Nat.le_refl _, Nat.le_refl _, (ordered_push h hroom c).e⟩

lemma ordered_fill (cs : List UInt8) (s : Input) (h : Ordered s) : Ordered (fill cs s) := by
  induction cs generalizing s with
  | nil => exact h
  | cons c cs ih =>
    unfold fill
    split
    · next hlt =>
      have hroom : s.Room := by
        rw [room_iff]
        have : (s.e - s.r).toNat < 127 := hlt
        unfold ahead
        omega
      exact ih _ ((ordered_push h hroom c).same ⟨rfl, rfl, rfl, rfl⟩)
    · exact h

lemma ordered_replace_input (str : List UInt8) (h : Ordered s) :
    Ordered (replace_input str s) := by
  -- only `clear` and the loop move the indices
  have hsave : ∀ (P : Prop) [Decidable P], Ordered (if P then s.save_history_draft else s) := by
    intro P _
    split
    · exact h.same ⟨rfl, rfl, rfl, rfl⟩
    · exact h
  unfold replace_input
  dsimp only
  split
  · exact (ordered_fill _ _ (clear_idx (hsave _)).2.2.1).same ⟨rfl, rfl, rfl, rfl⟩
  · exact ordered_fill _ _ (clear_idx (hsave _)).2.2.1

lemma ordered_left (h : Ordered s) : Ordered s.left := by
  unfold left
  split
  · next hlt =>
    have hne : s.cur ≠ s.w := fun heq => absurd hlt (by rw [heq]; exact UInt32.lt_irrefl _)
    have hne' : ahead s.r s.cur ≠ ahead s.r s.w := fun heq => hne (ahead_inj.mp heq)
    have hw := h.w
    have hcur := h.cur
    have hdec : ahead s.r (s.cur - 1) = ahead s.r s.cur - 1 := ahead_sub_one (by omega)
    constructor
    · show ahead s.r s.w ≤ ahead s.r (s.cur - 1)
      omega
    · show ahead s.r (s.cur - 1) ≤ ahead s.r s.e
      omega
    · exact h.e
  · exact h

lemma ordered_right (h : Ordered s) : Ordered s.right := by
  unfold right
  split
  · next hlt =>
    have hne : s.cur ≠ s.e := fun heq => absurd hlt (by rw [heq]; exact UInt32.lt_irrefl _)
    have hne' : ahead s.r s.cur ≠ ahead s.r s.e := fun heq => hne (ahead_inj.mp heq)
    have hw := h.w
    have hcur := h.cur
    have hlen := h.e
    have hinc : ahead s.r (s.cur + 1) = ahead s.r s.cur + 1 := ahead_add_one (by omega)
    constructor
    · show ahead s.r s.w ≤ ahead s.r (s.cur + 1)
      omega
    · show ahead s.r (s.cur + 1) ≤ ahead s.r s.e
      omega
    · exact hlen
  · exact h

lemma ordered_erase (h : Ordered s) : Ordered (s.erase c) := by
  unfold erase
  split
  · split
    · next hroom => exact ordered_submit h hroom
    · exact h
  · next hne =>
    have hne' : ahead s.r s.cur ≠ ahead s.r s.w := fun heq => hne (ahead_inj.mp heq)
    have hw := h.w
    have hcur := h.cur
    have hlen := h.e
    have hx : ahead s.r (s.cur - 1) = ahead s.r s.cur - 1 := ahead_sub_one (by omega)
    have he : ahead s.r (s.e - 1) = ahead s.r s.e - 1 := ahead_sub_one (by omega)
    obtain ⟨hr, hw', -, -⟩ := same_shiftDown ((s.e - 1).toNat - (s.cur - 1).toNat) (s.cur - 1) s
    constructor
    · show ahead (shiftDown _ _ s).r (shiftDown _ _ s).w ≤ ahead (shiftDown _ _ s).r (s.cur - 1)
      rw [hr, hw']
      omega
    · show ahead (shiftDown _ _ s).r (s.cur - 1) ≤ ahead (shiftDown _ _ s).r (s.e - 1)
      rw [hr]
      omega
    · show ahead (shiftDown _ _ s).r (s.e - 1) ≤ 128
      rw [hr]
      omega

lemma ordered_enter (hroom : s.Room) : Ordered (s.enter c) := by
  obtain ⟨hr, hw, he, -⟩ := toEnd_eq s
  have hadd : ahead s.r (s.e + 1) = ahead s.r s.e + 1 := by
    rw [room_iff] at hroom
    exact ahead_add_one (by omega)
  rw [room_iff] at hroom
  constructor
  · exact Nat.le_refl _
  · exact Nat.le_refl _
  · show ahead s.toEnd.r (s.toEnd.e + 1) ≤ 128
    rw [hr, he]
    omega

/-- A byte at the end, submitted when the ring is full. -/
lemma ordered_append (h : Ordered s) (hroom : s.Room) : Ordered (s.append c) := by
  have hpush : Ordered (s.push c) := ordered_push h hroom c
  unfold append
  dsimp only
  split
  · exact ⟨hpush.cur, Nat.le_refl _, hpush.e⟩
  · exact hpush.same ⟨rfl, rfl, rfl, rfl⟩

/-- The insertion would fill the ring, and the loop that then moves the cursor to the end compares
indices on two sides of zero. -/
def Wraps (s : Input) : Prop :=
  s.cur ≠ s.e ∧ s.e + 1 = s.r + INPUT_BUF ∧ ¬ s.cur + 1 < s.e + 1

instance (s : Input) : Decidable (Wraps s) := instDecidableAnd

/-- The indices after a byte in the middle. -/
lemma insertAt_idx (s : Input) (c : UInt8) : (s.insertAt c).r = s.r ∧ (s.insertAt c).w = s.w ∧
    (s.insertAt c).e = s.e + 1 ∧ (s.insertAt c).cur = s.cur + 1 := by
  obtain ⟨hr, hw, -, -⟩ := same_shiftUp (s.e.toNat - s.cur.toNat) s.e s
  exact ⟨hr, hw, rfl, rfl⟩

/-- The same when the ring is full by it. -/
lemma insert_idx (s : Input) (c : UInt8) : (s.insert c).r = s.r ∧ (s.insert c).e = s.e + 1 ∧
    if s.e + 1 = s.r + INPUT_BUF then (s.insert c).w = s.e + 1 ∧
      (s.insert c).cur = (if s.cur + 1 < s.e + 1 then s.e + 1 else s.cur + 1)
    else (s.insert c).w = s.w ∧ (s.insert c).cur = s.cur + 1 := by
  obtain ⟨hr, hw, he, hcur⟩ := insertAt_idx s c
  obtain ⟨hr', -, he', hcur'⟩ := toEnd_eq (s.insertAt c)
  rw [hr] at hr'
  rw [he] at he'
  rw [he, hcur] at hcur'
  by_cases hfull : s.e + 1 = s.r + INPUT_BUF
  · -- the cursor goes to the end if it can
    have heq : s.insert c = { (s.insertAt c).toEnd with w := (s.insertAt c).e } := by
      unfold Input.insert
      dsimp only
      rw [if_pos (by rw [he, hr]; exact hfull)]
    rw [if_pos hfull, heq]
    exact ⟨hr', he', he, hcur'⟩
  · have heq : s.insert c = s.insertAt c := by
      unfold Input.insert
      dsimp only
      rw [if_neg (by rw [he, hr]; exact hfull)]
    rw [if_neg hfull, heq]
    exact ⟨hr, he, hw, hcur⟩

/-- A byte in the middle that fills the ring leaves `cur` before `w`. -/
lemma ordered_insert_iff (h : Ordered s) (hroom : s.Room) (hne : s.cur ≠ s.e) :
    Ordered (s.insert c) ↔ ¬ Wraps s := by
  obtain ⟨hr, he, hidx⟩ := insert_idx s c
  have hw := h.w
  have hcur := h.cur
  rw [room_iff] at hroom
  have hne' : ahead s.r s.cur ≠ ahead s.r s.e := fun heq => hne (ahead_inj.mp heq)
  have hadd : ahead s.r (s.e + 1) = ahead s.r s.e + 1 := ahead_add_one (by omega)
  have hinc : ahead s.r (s.cur + 1) = ahead s.r s.cur + 1 := ahead_add_one (by omega)
  by_cases hfull : s.e + 1 = s.r + INPUT_BUF
  · rw [if_pos hfull] at hidx
    constructor
    · intro hord hwrap
      -- the cursor stays behind `w`
      have hbad := hord.w
      rw [hr, hidx.1, hidx.2, if_neg hwrap.2.2] at hbad
      omega
    · intro hwrap
      have hlt : s.cur + 1 < s.e + 1 := by
        by_contra hnot
        exact hwrap ⟨hne, hfull, hnot⟩
      rw [if_pos hlt] at hidx
      constructor
      · simp only [hidx.1, hidx.2, Nat.le_refl]
      · simp only [he, hidx.2, Nat.le_refl]
      · rw [hr, he]
        omega
  · rw [if_neg hfull] at hidx
    have hok : Ordered (s.insert c) := by
      constructor
      · rw [hr, hidx.1, hidx.2]
        omega
      · rw [hr, hidx.2, he]
        omega
      · rw [hr, he]
        omega
    exact ⟨fun _ hwrap => hfull hwrap.2.1, fun _ => hok⟩

/-! ## Keys -/

/-- A key that the `switch` puts into the line. -/
def Typed (c : UInt8) : Prop :=
  c ≠ ctrl 'U' ∧ c ≠ chr '\t' ∧ ¬ (c = ctrl 'P' ∨ c = ctrl 'N') ∧ ¬ (c = ctrl 'H' ∨ c = DEL) ∧
    c ≠ 0 ∧ c ≠ chr '\r' ∧ ¬ (c = chr '\n' ∨ c = ctrl 'D')

instance (c : UInt8) : Decidable (Typed c) := inferInstanceAs (Decidable (_ ∧ _))

lemma edit_typed (hc : Typed c) (hroom : s.Room) :
    s.edit c = if s.cur = s.e then s.append c else s.insert c := by
  obtain ⟨hU, ht, hPN, hH, h0, hr, hend⟩ := hc
  unfold edit
  rw [if_neg hU, if_neg ht, if_neg hPN, if_neg hH, if_neg (not_or.mpr ⟨h0, not_not.mpr hroom⟩)]
  dsimp only
  rw [if_neg hr, if_neg hend]

/-- There is room for the last byte. -/
lemma Wraps.room (h : Wraps s) : s.Room := by
  have hfull := eq_add_buf_iff.mp h.2.1
  rw [room_iff]
  by_contra hge
  -- one more than `2 ^ 32 - 1` would be zero, not 128
  by_cases hbig : ahead s.r s.e + 1 < 2 ^ 32
  · rw [ahead_add_one hbig] at hfull
    omega
  · have hlt : ahead s.r s.e < 2 ^ 32 := UInt32.toNat_lt _
    have hadd : ahead s.r (s.e + 1) = 0 := by
      unfold ahead at *
      simp only [UInt32.toNat_sub, UInt32.toNat_add, UInt32.toNat_one] at *
      have he := UInt32.toNat_lt s.e
      have hr := UInt32.toNat_lt s.r
      omega
    omega

lemma ordered_edit_iff (h : Ordered s) : Ordered (s.edit c) ↔ ¬ (Typed c ∧ Wraps s) := by
  constructor
  · intro hord hbad
    rw [edit_typed hbad.1 hbad.2.room, if_neg hbad.2.1] at hord
    exact (ordered_insert_iff h hbad.2.room hbad.2.1).mp hord hbad.2
  · intro hgood
    -- Ctrl-P and Ctrl-N clear the line first
    have hdraft : Ordered (if s.history_draft_active then s else s.save_history_draft).clear := by
      split
      · exact (clear_idx h).2.2.1
      · have hsave : Ordered s.save_history_draft := h.same ⟨rfl, rfl, rfl, rfl⟩
        exact (clear_idx hsave).2.2.1
    by_cases hU : c = ctrl 'U'
    · unfold edit
      rw [if_pos hU]
      exact (clear_idx h).2.2.1.same ⟨rfl, rfl, rfl, rfl⟩
    by_cases ht : c = chr '\t'
    · unfold edit
      rw [if_neg hU, if_pos ht]
      split
      · next hroom => exact ordered_submit h hroom
      · exact h
    by_cases hPN : c = ctrl 'P' ∨ c = ctrl 'N'
    · unfold edit
      rw [if_neg hU, if_neg ht, if_pos hPN]
      generalize (if s.history_draft_active then s else s.save_history_draft).clear = t at hdraft ⊢
      dsimp only
      split
      · next hroom => exact ordered_submit hdraft hroom
      · exact hdraft
    by_cases hH : c = ctrl 'H' ∨ c = DEL
    · unfold edit
      rw [if_neg hU, if_neg ht, if_neg hPN, if_pos hH]
      exact ordered_erase h
    by_cases h0 : c = 0 ∨ ¬ s.Room
    · unfold edit
      rw [if_neg hU, if_neg ht, if_neg hPN, if_neg hH, if_pos h0]
      exact h
    have hroom : s.Room := by
      by_contra hno
      exact h0 (.inr hno)
    by_cases hend : (if c = chr '\r' then chr '\n' else c) = chr '\n' ∨
        (if c = chr '\r' then chr '\n' else c) = ctrl 'D'
    · unfold edit
      rw [if_neg hU, if_neg ht, if_neg hPN, if_neg hH, if_neg h0]
      dsimp only
      rw [if_pos hend]
      exact ordered_enter hroom
    · have hr : c ≠ chr '\r' := fun heq => hend (.inl (if_pos heq))
      rw [if_neg hr] at hend
      -- what is left is a byte that is typed
      have hc : Typed c := ⟨hU, ht, hPN, hH, fun heq => h0 (.inl heq), hr, hend⟩
      rw [edit_typed hc hroom]
      split
      · exact ordered_append h hroom
      · next hne => exact (ordered_insert_iff h hroom hne).mpr fun hwrap => hgood ⟨hc, hwrap⟩

lemma ordered_key_iff (h : Ordered s) :
    Ordered (s.key c) ↔ ¬ (s.raw = false ∧ c ≠ ctrl 'Z' ∧ Typed c ∧ Wraps s) := by
  unfold key
  by_cases hZ : c = ctrl 'Z'
  · rw [if_pos hZ]
    exact ⟨fun _ hbad => hbad.2.1 hZ, fun _ => h⟩
  · rw [if_neg hZ]
    by_cases hraw : s.raw = true ∧ s.Room
    · rw [if_pos hraw]
      refine ⟨fun _ hbad => ?_, fun _ => ordered_submit h hraw.2⟩
      rw [hbad.1] at hraw
      exact Bool.false_ne_true hraw.1
    · rw [if_neg hraw, ordered_edit_iff h]
      apply not_congr
      constructor
      · intro hbad
        refine ⟨?_, hZ, hbad⟩
        by_contra hon
        exact hraw ⟨by simpa using hon, hbad.2.room⟩
      · exact fun hbad => hbad.2.2

/-- The key is a character of the line in this state. -/
def Types (s : Input) (c : UInt8) : Prop :=
  s.raw = false ∧ s.esc_state ≠ 1 ∧ s.esc_state ≠ 2 ∧
    ¬ (c = KEY_LF ∨ c = KEY_RT ∨ c = KEY_UP ∨ c = KEY_DN ∨ c = ESC ∨ c = ctrl 'Z') ∧ Typed c

instance (s : Input) (c : UInt8) : Decidable (Types s c) := inferInstanceAs (Decidable (_ ∧ _))

lemma ordered_handle_input_iff (h : Ordered s) :
    Ordered (s.handle_input c) ↔ ¬ (Types s c ∧ Wraps s) := by
  have hesc : ∀ n, Ordered { s with esc_state := n } := fun n => h.same ⟨rfl, rfl, rfl, rfl⟩
  -- the history keys never insert
  have hhist : ∀ {t : Input} {d : UInt8}, Ordered t → d = ctrl 'P' ∨ d = ctrl 'N' →
      Ordered (t.key d) := by
    intro t d ht hd
    rw [ordered_key_iff ht]
    exact fun hbad => hbad.2.2.1.2.2.1 hd
  have hno : ∀ {P : Prop}, P → (¬ Types s c) → (P ↔ ¬ (Types s c ∧ Wraps s)) :=
    fun hP hT => ⟨fun _ hbad => hT hbad.1, fun _ => hP⟩
  unfold handle_input
  by_cases hlf : c = KEY_LF
  · rw [if_pos hlf]
    exact hno (ordered_left h) fun hT => hT.2.2.2.1 (.inl hlf)
  rw [if_neg hlf]
  by_cases hrt : c = KEY_RT
  · rw [if_pos hrt]
    exact hno (ordered_right h) fun hT => hT.2.2.2.1 (.inr (.inl hrt))
  rw [if_neg hrt]
  by_cases hup : c = KEY_UP
  · rw [if_pos hup]
    exact hno (hhist h (.inl rfl)) fun hT => hT.2.2.2.1 (.inr (.inr (.inl hup)))
  rw [if_neg hup]
  by_cases hdn : c = KEY_DN
  · rw [if_pos hdn]
    exact hno (hhist h (.inr rfl)) fun hT => hT.2.2.2.1 (.inr (.inr (.inr (.inl hdn))))
  rw [if_neg hdn]
  by_cases h1 : s.esc_state = 1
  · rw [if_pos h1]
    exact hno (hesc _) fun hT => hT.2.1 h1
  rw [if_neg h1]
  by_cases h2 : s.esc_state = 2
  · rw [if_pos h2]
    refine hno ?_ fun hT => hT.2.2.1 h2
    dsimp only
    split
    · exact hhist (hesc 0) (.inl rfl)
    split
    · exact hhist (hesc 0) (.inr rfl)
    split
    · exact ordered_right (hesc 0)
    split
    · exact ordered_left (hesc 0)
    · exact hesc 0
  rw [if_neg h2]
  by_cases hE : c = ESC
  · rw [if_pos hE]
    exact hno (hesc 1) fun hT => hT.2.2.2.1 (.inr (.inr (.inr (.inr (.inl hE)))))
  rw [if_neg hE, ordered_key_iff h]
  apply not_congr
  constructor
  · intro hbad
    refine ⟨⟨hbad.1, h1, h2, ?_, hbad.2.2.1⟩, hbad.2.2.2⟩
    simp only [hlf, hrt, hup, hdn, hE, hbad.2.1, or_self, not_false_eq_true]
  · intro hbad
    have hZ : c ≠ ctrl 'Z' := fun heq => hbad.1.2.2.2.1 (by simp only [heq, or_true])
    exact ⟨hbad.1.1, hZ, hbad.1.2.2.2.2, hbad.2⟩

/-! ## Readers and runs -/

/-- Reading moves `r` up to `w` at most. -/
lemma ordered_readLoop (target n : ℕ) (s : Input) (h : Ordered s) :
    Ordered (readLoop target n s).1 := by
  induction n generalizing s with
  | zero => exact h
  | succ n ih =>
    unfold readLoop
    split
    · exact h
    · next hne =>
      have hpos : 0 < ahead s.r s.w := by
        have : ahead s.r s.r ≠ ahead s.r s.w := fun heq => hne (ahead_inj.mp heq)
        rw [ahead_self] at this
        omega
      have hw := h.w
      have hcur := h.cur
      have hlen := h.e
      -- one character less in front of all three indices
      have hnext : Ordered { s with r := s.r + 1 } := by
        constructor
        · show ahead (s.r + 1) s.w ≤ ahead (s.r + 1) s.cur
          rw [ahead_succ hpos, ahead_succ (by omega)]
          omega
        · show ahead (s.r + 1) s.cur ≤ ahead (s.r + 1) s.e
          rw [ahead_succ (by omega), ahead_succ (by omega)]
          omega
        · show ahead (s.r + 1) s.e ≤ 128
          rw [ahead_succ (by omega)]
          omega
      dsimp only
      split
      · split
        · exact h
        · exact hnext
      · split
        · exact hnext
        · exact ih _ hnext

lemma ordered_rawRead (h : Ordered s) : Ordered s.rawRead.1 := by
  unfold rawRead
  split
  · exact h
  · next hsome =>
    have hread : (readLoop 1 1 s).1 = { s with r := s.r + 1 } := by
      unfold readLoop
      rw [if_neg fun heq => hsome (.inr heq)]
      dsimp only
      split
      · rfl
      · split
        · rfl
        · rfl
    have hord := ordered_readLoop 1 1 s h
    rw [hread] at hord
    exact hord

/-- The toggle resets every index but `cur`. -/
lemma ordered_rawToggle_iff : Ordered s.rawToggle ↔ s.cur = 0 := by
  constructor
  · intro h
    have hcur := h.cur
    have he : ahead s.rawToggle.r s.rawToggle.e = 0 := ahead_self
    rw [he] at hcur
    have h0 : ahead 0 s.cur = ahead 0 0 := by
      rw [ahead_self]
      exact Nat.le_zero.mp hcur
    exact ahead_inj.mp h0
  · intro h
    have hcur : s.rawToggle.cur = 0 := h
    constructor
    · rw [hcur]
      exact Nat.le_refl _
    · rw [hcur]
      exact Nat.le_refl _
    · show ahead 0 0 ≤ 128
      rw [ahead_self]
      omega

/-! ## What a key can do -/

/-- The branches of `edit`. A property holds of its result if it holds of each. -/
theorem edit_cases {P : Input → Prop} (s : Input) (c : UInt8) (hkeep : P s)
    (hclear : P { s.clear with history_draft_active := false }) (hsubmit : s.Room → P (s.submit c))
    (hhist : ∀ t, t = (if s.history_draft_active then s else s.save_history_draft).clear →
      P (if t.Room then t.submit c else t))
    (herase : s.cur ≠ s.w → P (s.erase c)) (henter : ∀ k, s.Room → P (s.enter k))
    (happend : ∀ k, s.Room → s.cur = s.e → P (s.append k))
    (hinsert : ∀ k, s.Room → s.cur ≠ s.e → P (s.insert k)) : P (s.edit c) := by
  have hroom : P (if s.Room then s.submit c else s) := iteInduction hsubmit fun _ => hkeep
  unfold edit
  apply iteInduction (motive := P)
  · exact fun _ => hclear
  intro _
  apply iteInduction (motive := P)
  · exact fun _ => hroom
  intro _
  apply iteInduction (motive := P)
  · exact fun _ => hhist _ rfl
  intro _
  apply iteInduction (motive := P)
  · -- at the start of the line the key is passed on
    intro _
    by_cases hw : s.cur = s.w
    · unfold Input.erase
      rw [if_pos hw]
      exact hroom
    · exact herase hw
  intro _
  apply iteInduction (motive := P)
  · exact fun _ => hkeep
  intro hbusy
  have hfree : s.Room := by
    by_contra hno
    exact hbusy (.inr hno)
  apply iteInduction (motive := P)
  · exact fun _ => henter _ hfree
  intro _
  exact iteInduction (happend _ hfree) (hinsert _ hfree)

/-- The branches of `handle_input`, for any state of the escape sequence. -/
theorem handle_input_cases {P : Input → Prop} (s : Input) (c : UInt8)
    (hesc : ∀ n, P { s with esc_state := n }) (hleft : ∀ n, P ({ s with esc_state := n } : Input).left)
    (hright : ∀ n, P ({ s with esc_state := n } : Input).right)
    (hkey : ∀ n k, P (({ s with esc_state := n } : Input).key k)) : P (s.handle_input c) := by
  unfold handle_input
  apply iteInduction (motive := P)
  · exact fun _ => hleft s.esc_state
  intro _
  apply iteInduction (motive := P)
  · exact fun _ => hright s.esc_state
  intro _
  apply iteInduction (motive := P)
  · exact fun _ => hkey s.esc_state _
  intro _
  apply iteInduction (motive := P)
  · exact fun _ => hkey s.esc_state _
  intro _
  apply iteInduction (motive := P)
  · exact fun _ => hesc _
  intro _
  apply iteInduction (motive := P)
  · -- the end of an escape sequence
    intro _
    apply iteInduction (motive := P)
    · exact fun _ => hkey 0 _
    intro _
    apply iteInduction (motive := P)
    · exact fun _ => hkey 0 _
    intro _
    apply iteInduction (motive := P)
    · exact fun _ => hright 0
    intro _
    exact iteInduction (fun _ => hleft 0) fun _ => hesc 0
  intro _
  exact iteInduction (fun _ => hesc 1) fun _ => hkey s.esc_state _

end

/-- What can happen to the input. A read is what `consoleread` does between two sleeps, with `n` of
`target` bytes left to read. -/
inductive Event where
  | key (c : UInt8)
  | replace (str : List UInt8)
  | read (target n : ℕ)
  | rawToggle
  | rawRead

/-- One event at the console. -/
def step (s : Input) : Event → Input
  | .key c => s.handle_input c
  | .replace str => replace_input str s
  | .read target n => (readLoop target n s).1
  | .rawToggle => s.rawToggle
  | .rawRead => s.rawRead.1

/-- The step keeps the indices in order: the mode is only toggled with the cursor at zero, and no
character is inserted when that wraps around. -/
def InOrder (s : Input) : Event → Prop
  | .key c => ¬ (Types s c ∧ Wraps s)
  | .rawToggle => s.cur = 0
  | _ => True

lemma ordered_step_iff {s : Input} (h : Ordered s) (ev : Event) :
    Ordered (step s ev) ↔ InOrder s ev := by
  rcases ev with c | str | ⟨target, n⟩ | _ | _
  · exact ordered_handle_input_iff h
  · exact ⟨fun _ => trivial, fun _ => ordered_replace_input str h⟩
  · exact ⟨fun _ => trivial, fun _ => ordered_readLoop target n s h⟩
  · exact ordered_rawToggle_iff
  · exact ⟨fun _ => trivial, fun _ => ordered_rawRead h⟩

lemma ordered_zero : Ordered .zero := ⟨Nat.le_refl _, Nat.le_refl _, Nat.zero_le _⟩

/-- **The input indices stay in order** in a run exactly when each of its steps keeps them there. -/
theorem ordered_run_iff (evs : List Event) :
    (∀ evs', evs' <+: evs → Ordered (evs'.foldl step .zero)) ↔
      Runs.Along (fun s ev => some (step s ev)) InOrder .zero evs := by
  have hrun : ∀ (evs : List Event) (s : Input), Ordered s →
      ((∀ evs', evs' <+: evs → Ordered (evs'.foldl step s)) ↔
        Runs.Along (fun s ev => some (step s ev)) InOrder s evs) := by
    intro evs
    induction evs with
    | nil =>
      intro s h
      refine ⟨fun _ => trivial, fun _ evs' hpre => ?_⟩
      rw [List.prefix_nil.mp hpre]
      exact h
    | cons ev evs ih =>
      intro s h
      rw [Runs.along_cons_of_some rfl, ← ordered_step_iff h]
      constructor
      · intro hall
        have hstep : Ordered (step s ev) := hall [ev] ⟨evs, rfl⟩
        refine ⟨hstep, (ih _ hstep).mp fun evs' hpre => ?_⟩
        exact hall (ev :: evs') (List.cons_prefix_cons.mpr ⟨rfl, hpre⟩)
      · intro hall evs' hpre
        rcases evs' with _ | ⟨ev', evs'⟩
        · exact h
        · obtain ⟨rfl, htail⟩ := List.cons_prefix_cons.mp hpre
          exact (ih _ hall.1).mpr hall.2 evs' htail
  exact hrun evs .zero ordered_zero

/-- A character is typed, and the mode is toggled: the cursor is ahead of the end. -/
theorem not_ordered_toggle :
    ¬ ∀ evs : List Event, Ordered (evs.foldl step .zero) := by
  intro h
  have hcur := (h [.key (chr 'a'), .rawToggle]).cur
  exact absurd hcur (by decide)

end Console
end OhMyXv6
