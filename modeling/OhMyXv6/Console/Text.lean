import Mathlib.Data.List.DropRight
import OhMyXv6.Console.Model
import OhMyXv6.Lib.Ring

/-!
# The text in the ring

`Line s P T c` says what the ring holds while its indices have not wrapped around: the bytes `P`
that are submitted and not yet read, then the line `T` that is being edited, with the cursor in
front of its character `c`. Each edit is a list operation on `T`, and submitting moves `T` to the
end of `P`. No edit touches `P`: its cells are behind the line in the ring, and the line is never
longer than what is left.
-/

namespace OhMyXv6
namespace Console

open Input

/-- The ring holds the bytes `P` that were submitted and then the line `T`, with the cursor at `c`.
-/
structure Line (s : Input) (P T : List UInt8) (c : ℕ) : Prop where
  w : s.w.toNat = s.r.toNat + P.length
  e : s.e.toNat = s.w.toNat + T.length
  cur : s.cur.toNat = s.w.toNat + c
  le : c ≤ T.length
  len : P.length + T.length ≤ 128
  buf : Ring.Holds 128 s.buf s.r.toNat (P ++ T)

lemma get_eq (s : Input) (x : UInt32) : s.get x = s.buf (x.toNat % 128) := by
  unfold Input.get
  rw [UInt32.toNat_mod]
  rfl

lemma set_buf (s : Input) (x : UInt32) (c : UInt8) :
    (s.set x c).buf = Function.update s.buf (x.toNat % 128) c := by
  unfold Input.set
  rw [UInt32.toNat_mod]
  rfl

lemma toNat_succ {x : UInt32} (h : x.toNat + 1 < 2 ^ 32) : (x + 1).toNat = x.toNat + 1 := by
  rw [UInt32.toNat_add, UInt32.toNat_one]
  omega

lemma toNat_pred {x : UInt32} (h : 0 < x.toNat) : (x - 1).toNat = x.toNat - 1 := by
  have hx := UInt32.toNat_lt x
  rw [UInt32.toNat_sub, UInt32.toNat_one]
  omega

section
variable {s t : Input} {P T : List UInt8} {c : ℕ} {ch : UInt8}

/-- The mode, the draft and the screen do not matter. -/
lemma Line.same (h : Line s P T c) (hr : t.r = s.r) (hw : t.w = s.w) (he : t.e = s.e)
    (hcur : t.cur = s.cur) (hbuf : t.buf = s.buf) : Line t P T c := by
  constructor
  · rw [hw, hr]
    exact h.w
  · rw [he, hw]
    exact h.e
  · rw [hcur, hw]
    exact h.cur
  · exact h.le
  · exact h.len
  · rw [hbuf, hr]
    exact h.buf

lemma Line.room_iff (h : Line s P T c) : s.Room ↔ P.length + T.length < 128 := by
  have hw := h.w
  have he := h.e
  have hle : s.r ≤ s.e := by
    rw [UInt32.le_iff_toNat_le]
    omega
  have hbuf : INPUT_BUF.toNat = 128 := rfl
  unfold Room
  rw [UInt32.lt_iff_toNat_lt, UInt32.toNat_sub_of_le _ _ hle, hbuf]
  omega

lemma Line.cur_lt_e (h : Line s P T c) : s.cur < s.e ↔ c < T.length := by
  have he := h.e
  have hcur := h.cur
  rw [UInt32.lt_iff_toNat_lt]
  omega

lemma Line.w_lt_cur (h : Line s P T c) : s.w < s.cur ↔ 0 < c := by
  have hcur := h.cur
  rw [UInt32.lt_iff_toNat_lt]
  omega

lemma Line.cur_eq_e (h : Line s P T c) : s.cur = s.e ↔ c = T.length := by
  have he := h.e
  have hcur := h.cur
  rw [← UInt32.toNat_inj]
  omega

lemma Line.cur_eq_w (h : Line s P T c) : s.cur = s.w ↔ c = 0 := by
  have hcur := h.cur
  rw [← UInt32.toNat_inj]
  omega

/-- The cursor moves. -/
lemma Line.setCur (h : Line s P T c) {c' : ℕ} (hc : c' ≤ T.length) {x : UInt32}
    (hx : x.toNat = s.w.toNat + c') (ht : t.cur = x) (hr : t.r = s.r) (hw : t.w = s.w)
    (he : t.e = s.e) (hbuf : t.buf = s.buf) : Line t P T c' := by
  constructor
  · rw [hw, hr]
    exact h.w
  · rw [he, hw]
    exact h.e
  · rw [ht, hw]
    exact hx
  · exact hc
  · exact h.len
  · rw [hbuf, hr]
    exact h.buf

lemma Line.left (h : Line s P T c) : Line s.left P T (c - 1) := by
  unfold Input.left
  by_cases hc : 0 < c
  · rw [if_pos (h.w_lt_cur.mpr hc)]
    have hcur := h.cur
    have hle := h.le
    have hx : (s.cur - 1).toNat = s.w.toNat + (c - 1) := by
      rw [toNat_pred (by omega)]
      omega
    exact h.setCur (by omega) hx rfl rfl rfl rfl rfl
  · rw [if_neg fun hlt => hc (h.w_lt_cur.mp hlt)]
    have h0 : c - 1 = c := by omega
    rw [h0]
    exact h

lemma Line.right (h : Line s P T c) : Line s.right P T (min (c + 1) T.length) := by
  unfold Input.right
  by_cases hc : c < T.length
  · rw [if_pos (h.cur_lt_e.mpr hc)]
    have hcur := h.cur
    have he := h.e
    have hmax := UInt32.toNat_lt s.e
    have hx : (s.cur + 1).toNat = s.w.toNat + min (c + 1) T.length := by
      rw [toNat_succ (by omega)]
      omega
    exact h.setCur (by omega) hx rfl rfl rfl rfl rfl
  · rw [if_neg fun hlt => hc (h.cur_lt_e.mp hlt)]
    have hle := h.le
    have h0 : min (c + 1) T.length = c := by omega
    rw [h0]
    exact h

lemma Line.toEnd (h : Line s P T c) : Line s.toEnd P T T.length := by
  unfold Input.toEnd
  by_cases hc : c < T.length
  · rw [if_pos (h.cur_lt_e.mpr hc)]
    exact h.setCur (Nat.le_refl _) h.e rfl rfl rfl rfl rfl
  · rw [if_neg fun hlt => hc (h.cur_lt_e.mp hlt)]
    have hle := h.le
    have h0 : T.length = c := by omega
    rw [h0]
    exact h

lemma toEnd_e (s : Input) : s.toEnd.e = s.e := by
  unfold Input.toEnd
  split
  · rfl
  · rfl

/-- A character at the end. -/
lemma Line.push (h : Line s P T c) (hroom : P.length + T.length < 128)
    (hmax : s.e.toNat + 1 < 2 ^ 32) (ch : UInt8) :
    Line (s.push ch) P (T ++ [ch]) (T.length + 1) := by
  have hw := h.w
  have he := h.e
  have hadd := toNat_succ hmax
  have hlen : (T ++ [ch]).length = T.length + 1 := by simp
  constructor
  · exact hw
  · show (s.e + 1).toNat = s.w.toNat + (T ++ [ch]).length
    omega
  · show (s.e + 1).toNat = s.w.toNat + (T.length + 1)
    omega
  · omega
  · omega
  · have hput := h.buf.snoc (by rw [List.length_append]; exact hroom) ch
    have hcell : s.r.toNat + (P ++ T).length = s.e.toNat := by
      rw [List.length_append]
      omega
    rw [hcell, List.append_assoc] at hput
    show Ring.Holds 128 (s.set s.e ch).buf s.r.toNat (P ++ (T ++ [ch]))
    rw [set_buf]
    exact hput

/-- The whole line is submitted. -/
lemma Line.all (h : Line s P T c) (hw : t.w = s.e) (hcur : t.cur = s.e) (hr : t.r = s.r)
    (he : t.e = s.e) (hbuf : t.buf = s.buf) : Line t (P ++ T) [] 0 := by
  have hsw := h.w
  have hse := h.e
  have hlen := h.len
  constructor
  · rw [hw, hr, List.length_append]
    omega
  · rw [he, hw]
    rfl
  · rw [hcur, hw]
    rfl
  · exact Nat.le_refl _
  · rw [List.length_append]
    exact hlen
  · rw [List.append_nil, hbuf, hr]
    exact h.buf

/-- The line waits for the reader. -/
lemma Line.submit (h : Line s P T c) (hroom : P.length + T.length < 128)
    (hmax : s.e.toNat + 1 < 2 ^ 32) (ch : UInt8) :
    Line (s.submit ch) (P ++ (T ++ [ch])) [] 0 :=
  (h.push hroom hmax ch).all rfl rfl rfl rfl rfl

lemma Line.enter (h : Line s P T c) (hroom : P.length + T.length < 128)
    (hmax : s.e.toNat + 1 < 2 ^ 32) (ch : UInt8) :
    Line (s.enter ch) (P ++ (T ++ [ch])) [] 0 := by
  exact (h.toEnd.submit hroom (by rw [toEnd_e]; exact hmax) ch).same rfl rfl rfl rfl rfl

/-- When the ring is full the line is submitted. -/
def autoSubmit (P T : List UInt8) (c : ℕ) : List UInt8 × List UInt8 × ℕ :=
  if P.length + T.length = 128 then (P ++ T, [], 0) else (P, T, c)

lemma Line.full_iff (h : Line s P T c) :
    s.e = s.r + INPUT_BUF ↔ P.length + T.length = 128 := by
  have hw := h.w
  have he := h.e
  have hlen := h.len
  have hmax := UInt32.toNat_lt s.e
  have hbuf : INPUT_BUF.toNat = 128 := rfl
  rw [← UInt32.toNat_inj, UInt32.toNat_add, hbuf]
  omega

lemma Line.append (h : Line s P T c) (hroom : P.length + T.length < 128)
    (hmax : s.e.toNat + 1 < 2 ^ 32) (ch : UInt8) :
    let l := autoSubmit P (T ++ [ch]) (T.length + 1)
    Line (s.append ch) l.1 l.2.1 l.2.2 := by
  have hpush : Line ((s.push ch).emit [.putc ch]) P (T ++ [ch]) (T.length + 1) :=
    (h.push hroom hmax ch).same rfl rfl rfl rfl rfl
  unfold Input.append autoSubmit
  dsimp only
  by_cases hfull : P.length + (T ++ [ch]).length = 128
  · rw [if_pos (hpush.full_iff.mpr hfull), if_pos hfull]
    exact hpush.all rfl rfl rfl rfl rfl
  · rw [if_neg fun heq => hfull (hpush.full_iff.mp heq), if_neg hfull]
    exact hpush

/-! ## Characters that move -/

/-- The cells from place `j` on, `n` of them, get what is in the next cell. -/
theorem shiftDown_buf {r : ℕ} (n : ℕ) : ∀ {j : ℕ} {x : UInt32} {s : Input}, x.toNat = r + j →
    j + n < 128 → r + j + n + 1 < 2 ^ 32 → ∀ i < 128, (shiftDown n x s).buf ((r + i) % 128) =
      if j ≤ i ∧ i < j + n then s.buf ((r + (i + 1)) % 128) else s.buf ((r + i) % 128) := by
  induction n with
  | zero =>
    intro j x s _ _ _ i _
    rw [if_neg (by omega)]
    rfl
  | succ n ih =>
    intro j x s hx hj hmax i hi
    have hx1 : (x + 1).toNat = r + (j + 1) := by
      rw [toNat_succ (by omega)]
      omega
    unfold shiftDown
    rw [ih hx1 (by omega) (by omega) i hi]
    -- the first cell is written, and read by none of the others
    have hset : ∀ k < 128, (s.set x (s.get (x + 1))).buf ((r + k) % 128) =
        if k = j then s.buf ((r + (j + 1)) % 128) else s.buf ((r + k) % 128) := by
      intro k hk
      rw [set_buf, get_eq, hx, hx1]
      by_cases hkj : k = j
      · rw [if_pos hkj, hkj, Function.update_self]
      · rw [if_neg hkj, Function.update_of_ne (Ring.cell_ne hk (by omega) hkj)]
    by_cases hin : j + 1 ≤ i ∧ i < j + 1 + n
    · rw [if_pos hin, if_pos (by omega), hset (i + 1) (by omega), if_neg (by omega)]
    · rw [if_neg hin, hset i hi]
      by_cases hij : i = j
      · rw [if_pos hij, if_pos (by omega), hij]
      · rw [if_neg hij, if_neg (by omega)]

/-- The cells from place `k` down, `n` of them, get what is in the cell before. -/
theorem shiftUp_buf {r : ℕ} (n : ℕ) : ∀ {k : ℕ} {x : UInt32} {s : Input}, x.toNat = r + k →
    k < 128 → n ≤ k → ∀ i < 128, (shiftUp n x s).buf ((r + i) % 128) =
      if k < i + n ∧ i ≤ k then s.buf ((r + (i - 1)) % 128) else s.buf ((r + i) % 128) := by
  induction n with
  | zero =>
    intro k x s _ _ _ i _
    rw [if_neg (by omega)]
    rfl
  | succ n ih =>
    intro k x s hx hk hn i hi
    have hx1 : (x - 1).toNat = r + (k - 1) := by
      rw [toNat_pred (by omega)]
      omega
    unfold shiftUp
    rw [ih hx1 (by omega) (by omega) i hi]
    have hset : ∀ l < 128, (s.set x (s.get (x - 1))).buf ((r + l) % 128) =
        if l = k then s.buf ((r + (k - 1)) % 128) else s.buf ((r + l) % 128) := by
      intro l hl
      rw [set_buf, get_eq, hx, hx1]
      by_cases hlk : l = k
      · rw [if_pos hlk, hlk, Function.update_self]
      · rw [if_neg hlk, Function.update_of_ne (Ring.cell_ne hl hk hlk)]
    by_cases hin : k - 1 < i + n ∧ i ≤ k - 1
    · rw [if_pos hin, if_pos (by omega), hset (i - 1) (by omega), if_neg (by omega)]
    · rw [if_neg hin, hset i hi]
      by_cases hik : i = k
      · rw [if_pos hik, if_pos (by omega), hik]
      · rw [if_neg hik, if_neg (by omega)]

lemma shiftDown_eq (n : ℕ) (x : UInt32) (s : Input) :
    ∃ b, shiftDown n x s = { s with buf := b } := by
  induction n generalizing x s with
  | zero => exact ⟨s.buf, rfl⟩
  | succ n ih =>
    obtain ⟨b, hb⟩ := ih (x + 1) (s.set x (s.get (x + 1)))
    exact ⟨b, hb⟩

lemma shiftUp_eq (n : ℕ) (x : UInt32) (s : Input) :
    ∃ b, shiftUp n x s = { s with buf := b } := by
  induction n generalizing x s with
  | zero => exact ⟨s.buf, rfl⟩
  | succ n ih =>
    obtain ⟨b, hb⟩ := ih (x - 1) (s.set x (s.get (x - 1)))
    exact ⟨b, hb⟩

/-- The character in front of the cursor is erased. -/
lemma Line.erase (h : Line s P T c) (hc : 0 < c) (ch : UInt8) :
    Line (s.erase ch) P (T.eraseIdx (c - 1)) (c - 1) := by
  have hw := h.w
  have he := h.e
  have hcur := h.cur
  have hle := h.le
  have hlen := h.len
  have hmax := UInt32.toNat_lt s.e
  have hx : (s.cur - 1).toNat = s.r.toNat + (P.length + (c - 1)) := by
    rw [toNat_pred (by omega)]
    omega
  have he1 : (s.e - 1).toNat = s.e.toNat - 1 := toNat_pred (by omega)
  have hn : (s.e - 1).toNat - (s.cur - 1).toNat = T.length - c := by
    rw [hx, he1]
    omega
  have hbuf := shiftDown_buf (T.length - c) (s := s) hx (by omega) (by omega)
  obtain ⟨b, hb⟩ := shiftDown_eq (T.length - c) (s.cur - 1) s
  have hT : (T.eraseIdx (c - 1)).length = T.length - 1 := List.length_eraseIdx_of_lt (by omega)
  unfold Input.erase
  rw [if_neg fun heq => absurd (h.cur_eq_w.mp heq) (by omega)]
  dsimp only
  rw [hn, hb]
  rw [hb] at hbuf
  constructor
  · exact hw
  · show (s.e - 1).toNat = s.w.toNat + (T.eraseIdx (c - 1)).length
    omega
  · show (s.cur - 1).toNat = s.w.toNat + (c - 1)
    omega
  · omega
  · omega
  · show Ring.Holds 128 b s.r.toNat (P ++ T.eraseIdx (c - 1))
    -- the line is erased in the whole list, which begins with what is submitted
    have hidx : P ++ T.eraseIdx (c - 1) = (P ++ T).eraseIdx (P.length + (c - 1)) := by
      rw [List.eraseIdx_append_of_length_le (by omega), Nat.add_sub_cancel_left]
    have hall : (P ++ T).length = P.length + T.length := List.length_append
    rw [hidx]
    apply h.buf.eraseIdx (by omega)
    · intro i hi
      have := hbuf i (by omega)
      rwa [if_neg (by omega)] at this
    · intro i hki hi
      have := hbuf i (by omega)
      rwa [if_pos (by omega)] at this

/-- Inserting into the second of two lists. -/
lemma append_insertIdx (P T : List UInt8) (c : ℕ) (ch : UInt8) :
    P ++ T.insertIdx c ch = (P ++ T).insertIdx (P.length + c) ch := by
  induction P with
  | nil => simp
  | cons x P ih =>
    rw [List.length_cons, Nat.add_right_comm, List.cons_append, List.cons_append,
      List.insertIdx_succ_cons, ih]

/-- A character is inserted at the cursor. -/
lemma Line.insertAt (h : Line s P T c) (hroom : P.length + T.length < 128)
    (hmax : s.e.toNat + 1 < 2 ^ 32) (ch : UInt8) :
    Line (s.insertAt ch) P (T.insertIdx c ch) (c + 1) := by
  have hw := h.w
  have he := h.e
  have hcur := h.cur
  have hle := h.le
  have hall : (P ++ T).length = P.length + T.length := List.length_append
  have hx : s.e.toNat = s.r.toNat + (P.length + T.length) := by omega
  have hn : s.e.toNat - s.cur.toNat = T.length - c := by omega
  have hbuf := shiftUp_buf (T.length - c) (s := s) hx hroom (by omega)
  obtain ⟨b, hb⟩ := shiftUp_eq (T.length - c) s.e s
  have hT : (T.insertIdx c ch).length = T.length + 1 := List.length_insertIdx_of_le_length hle ch
  have hcell : s.cur.toNat = s.r.toNat + (P.length + c) := by omega
  unfold Input.insertAt
  dsimp only
  rw [hn, hb]
  rw [hb] at hbuf
  constructor
  · exact hw
  · show (s.e + 1).toNat = s.w.toNat + (T.insertIdx c ch).length
    rw [toNat_succ hmax]
    omega
  · show (s.cur + 1).toNat = s.w.toNat + (c + 1)
    rw [toNat_succ (by omega)]
    omega
  · omega
  · omega
  · show Ring.Holds 128 (Input.set { s with buf := b } s.cur ch).buf s.r.toNat
      (P ++ T.insertIdx c ch)
    rw [set_buf, append_insertIdx, hcell]
    apply h.buf.insertIdx (by omega)
    · intro i hi
      rw [Function.update_of_ne (Ring.cell_ne (by omega) (by omega) (by omega))]
      have := hbuf i (by omega)
      -- in front of the cursor the line stays
      rwa [if_neg (by omega)] at this
    · rw [Function.update_self]
    · intro i hki hi
      rw [Function.update_of_ne (Ring.cell_ne (by omega) (by omega) (by omega))]
      have := hbuf i (by omega)
      -- behind it everything moves up by one
      rwa [if_pos (by omega)] at this

lemma Line.insert (h : Line s P T c) (hroom : P.length + T.length < 128)
    (hmax : s.e.toNat + 1 < 2 ^ 32) (ch : UInt8) :
    let l := autoSubmit P (T.insertIdx c ch) (c + 1)
    Line (s.insert ch) l.1 l.2.1 l.2.2 := by
  have hline := h.insertAt hroom hmax ch
  unfold Input.insert autoSubmit
  dsimp only
  by_cases hfull : P.length + (T.insertIdx c ch).length = 128
  · rw [if_pos (hline.full_iff.mpr hfull), if_pos hfull]
    exact hline.toEnd.all (toEnd_e _).symm (hline.toEnd.cur_eq_e.mpr rfl) rfl rfl rfl
  · rw [if_neg fun heq => hfull (hline.full_iff.mp heq), if_neg hfull]
    exact hline

/-! ## The line as a whole -/

/-- What `clear` leaves of the line: nothing, if it has no newline. -/
def kept (T : List UInt8) : List UInt8 := T.rdropWhile (· ≠ chr '\n')

lemma length_kept_le (T : List UInt8) : (kept T).length ≤ T.length :=
  (List.rdropWhile_prefix _ _).length_le

/-- The last character is dropped. -/
lemma Line.dropLast (h : Line s P (T ++ [ch]) c) (hr : t.r = s.r) (hw : t.w = s.w)
    (he : t.e = s.e - 1) (hcur : t.cur = t.e) (hbuf : t.buf = s.buf) : Line t P T T.length := by
  have hsw := h.w
  have hse := h.e
  have hlen := h.len
  rw [List.length_append, List.length_singleton] at hse hlen
  have hpred : (s.e - 1).toNat = s.e.toNat - 1 := toNat_pred (by omega)
  constructor
  · rw [hw, hr]
    exact hsw
  · rw [he, hw]
    omega
  · rw [hcur, he, hw]
    omega
  · exact Nat.le_refl _
  · omega
  · rw [hbuf, hr]
    have hall := h.buf
    rw [← List.append_assoc] at hall
    exact hall.of_append_left

lemma Line.last (h : Line s P (T ++ [ch]) c) : s.get (s.e - 1) = ch := by
  have hsw := h.w
  have hse := h.e
  rw [List.length_append, List.length_singleton] at hse
  have hpred : (s.e - 1).toNat = s.r.toNat + (P.length + T.length) := by
    rw [toNat_pred (by omega)]
    omega
  have hcell := h.buf (P.length + T.length) (by
    rw [List.length_append, List.length_append, List.length_singleton]
    omega)
  rw [← List.append_assoc, ← List.length_append, List.getElem?_concat_length] at hcell
  rw [get_eq, hpred, ← List.length_append]
  exact (Option.some.inj hcell).symm

/-- The second loop of `clear`, over the characters of the line from its end. The cursor is set when
the loop is over. -/
theorem Line.eraseLoop (n : ℕ) : ∀ {T : List UInt8} {s : Input}, T.length ≤ n →
    Line { s with cur := s.e } P T T.length →
      Line { eraseLoop n s with cur := (eraseLoop n s).e } P (kept T) (kept T).length := by
  induction n with
  | zero =>
    intro T s hn h
    obtain rfl : T = [] := List.length_eq_zero_iff.mp (by omega)
    exact h
  | succ n ih =>
    intro T s hn h
    have hse := h.e
    unfold Input.eraseLoop
    rcases List.eq_nil_or_concat T with rfl | ⟨T', ch, rfl⟩
    · -- the loop is at `w`
      have hew : s.e = s.w := UInt32.toNat_inj.mp (by simpa using hse)
      rw [if_neg fun hmore => hmore.1 hew]
      exact h
    · rw [List.concat_eq_append] at *
      have hlast : s.get (s.e - 1) = ch := h.last
      rw [List.length_append, List.length_singleton] at hn
      by_cases hnl : ch = chr '\n'
      · rw [if_neg fun hmore => hmore.2 (hlast.trans hnl)]
        have hkept : kept (T' ++ [ch]) = T' ++ [ch] :=
          List.rdropWhile_concat_neg _ _ _ (by simp [hnl])
        rw [hkept]
        exact h
      · have hkept : kept (T' ++ [ch]) = kept T' :=
          List.rdropWhile_concat_pos _ _ _ (by simp [hnl])
        have hne : s.e ≠ s.w := by
          intro heq
          have : s.e.toNat = s.w.toNat + (T' ++ [ch]).length := hse
          rw [heq, List.length_append, List.length_singleton] at this
          omega
        rw [if_pos ⟨hne, by rw [hlast]; exact hnl⟩, hkept]
        exact ih (s := { s.emit [.backspace] with e := s.e - 1 }) (by omega)
          (h.dropLast rfl rfl rfl rfl rfl)

lemma Line.clear (h : Line s P T c) : Line s.clear P (kept T) (kept T).length := by
  have hend := h.toEnd
  have hse := hend.e
  have hsw := hend.w
  have hfuel : T.length ≤ (s.toEnd.e - s.toEnd.w).toNat := by
    have hle : s.toEnd.w ≤ s.toEnd.e := by
      rw [UInt32.le_iff_toNat_le]
      omega
    rw [UInt32.toNat_sub_of_le _ _ hle]
    omega
  exact Line.eraseLoop _ hfuel (hend.same rfl rfl rfl (hend.cur_eq_e.mpr rfl).symm rfl)

end

end Console
end OhMyXv6
