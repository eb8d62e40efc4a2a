import Mathlib.Data.List.GetD
import OhMyXv6.Console.Index
import OhMyXv6.Console.Text

/-!
# What the terminal shows

The keys draw the line on the screen with three calls: one writes a cell and steps right, one steps
left and blanks the cell, one only steps left. `Shows scr B L c` says that a row of the screen holds
the text `L` from column `B` on, nothing but blanks behind it, and has its cursor `c` cells behind `B`.
The text of the line being edited is `text s`, and `column s` is where the editor thinks the cursor is;
`Displayed` puts the two together.
-/

namespace OhMyXv6
namespace Console

open Input

/-- A row without end. -/
structure Screen where
  cell : ℕ → UInt8
  pos : ℕ

namespace Screen

/-- What the screen does with one character. -/
def put (scr : Screen) : Put → Screen
  | .putc c => ⟨Function.update scr.cell scr.pos c, scr.pos + 1⟩
  | .backspace =>
    if 0 < scr.pos then ⟨Function.update scr.cell (scr.pos - 1) (chr ' '), scr.pos - 1⟩ else scr
  | .left => ⟨scr.cell, scr.pos - 1⟩

/-- What the screen does with a list of characters. -/
def play (scr : Screen) (l : List Put) : Screen := l.foldl put scr

lemma play_append (scr : Screen) (l l' : List Put) :
    scr.play (l ++ l') = (scr.play l).play l' := List.foldl_append

end Screen

/-- The row holds the text `L` and then blanks, from column `B` on, and the cursor is at `B + c`. -/
structure Shows (scr : Screen) (B : ℕ) (L : List UInt8) (c : ℕ) : Prop where
  cell : ∀ k, scr.cell (B + k) = L.getD k (chr ' ')
  pos : scr.pos = B + c

section
variable {scr : Screen} {B c : ℕ} {L L' : List UInt8}

/-- Blanks at the end of the text make no difference. -/
lemma Shows.congr (h : Shows scr B L c) (hL : ∀ k, L.getD k (chr ' ') = L'.getD k (chr ' ')) :
    Shows scr B L' c :=
  ⟨fun k => (h.cell k).trans (hL k), h.pos⟩

/-- Behind the line the screen is blank. -/
lemma getD_append_blank (L : List UInt8) (k : ℕ) :
    (L ++ [chr ' ']).getD k (chr ' ') = L.getD k (chr ' ') := by
  by_cases hk : k < L.length
  · rw [List.getD_append _ _ _ _ hk]
  · rw [List.getD_append_right _ _ _ _ (by omega), List.getD_eq_default L _ (by omega)]
    rcases k - L.length with _ | j
    · rfl
    · rfl

/-- The line is over, and the next one begins behind it. -/
lemma Shows.next (h : Shows scr B L L.length) : Shows scr (B + L.length) [] 0 := by
  refine ⟨fun k => ?_, h.pos⟩
  rw [Nat.add_assoc, h.cell]
  simp

lemma Shows.putc (h : Shows scr B L c) (hc : c ≤ L.length) (ch : UInt8) :
    Shows (scr.put (.putc ch)) B (L.take c ++ ch :: L.drop (c + 1)) (c + 1) := by
  refine ⟨fun k => ?_, ?_⟩
  · show Function.update scr.cell scr.pos ch (B + k) = _
    have hlen : (L.take c).length = c := by simp [hc]
    rw [h.pos]
    by_cases hk : k = c
    · subst hk
      rw [Function.update_self, List.getD_append_right _ _ _ _ (by omega), hlen, Nat.sub_self]
      rfl
    · rw [Function.update_of_ne (by omega), h.cell]
      by_cases hlt : k < c
      · rw [List.getD_append _ _ _ _ (by omega)]
        simp [List.getD_eq_getElem?_getD, hlt]
      · rw [List.getD_append_right _ _ _ _ (by omega), hlen]
        obtain ⟨j, hj⟩ : ∃ j, k = c + 1 + j := ⟨k - (c + 1), by omega⟩
        have hsub : k - c = j + 1 := by omega
        rw [hsub, hj]
        simp [List.getD_eq_getElem?_getD, List.getElem?_drop]
  · show scr.pos + 1 = _
    rw [h.pos]
    omega

/-- Several characters are written over the text, from the cursor on. -/
theorem Shows.putcs (M : List UInt8) : ∀ {scr : Screen} {L : List UInt8} {c : ℕ}, Shows scr B L c →
    c ≤ L.length → Shows (scr.play (M.map .putc)) B (L.take c ++ M ++ L.drop (c + M.length))
      (c + M.length) := by
  induction M with
  | nil =>
    intro scr L c h _
    simpa [Screen.play] using h
  | cons ch M ih =>
    intro scr L c h hc
    have hfirst := h.putc hc ch
    have hlen : (L.take c ++ ch :: L.drop (c + 1)).length = c + 1 + (L.length - (c + 1)) := by
      simp
      omega
    have hrest := ih hfirst (by omega)
    have htake : (L.take c ++ ch :: L.drop (c + 1)).take (c + 1) = L.take c ++ [ch] := by
      rw [List.take_append, List.length_take_of_le hc, List.take_take]
      simp
    have hdrop : (L.take c ++ ch :: L.drop (c + 1)).drop (c + 1 + M.length) =
        L.drop (c + (ch :: M).length) := by
      rw [List.drop_append, List.length_take_of_le hc]
      have hsub : c + 1 + M.length - c = M.length + 1 := by omega
      rw [hsub, List.drop_eq_nil_of_le (by rw [List.length_take]; omega), List.nil_append,
        List.drop_succ_cons, List.drop_drop, List.length_cons]
      congr 1
      omega
    rw [htake, hdrop] at hrest
    have hcount : c + 1 + M.length = c + (ch :: M).length := by
      simp
      omega
    rw [hcount, List.append_assoc, List.append_assoc] at hrest
    rw [List.append_assoc]
    exact hrest

/-- By induction on the steps to the left. -/
lemma Shows.lefts (n : ℕ) : ∀ {scr : Screen} {c : ℕ}, Shows scr B L c → n ≤ c →
    Shows (scr.play (List.replicate n .left)) B L (c - n) := by
  induction n with
  | zero => exact fun h _ => h
  | succ n ih =>
    intro scr c h hn
    have hleft : Shows (scr.put .left) B L (c - 1) := by
      refine ⟨h.cell, ?_⟩
      show scr.pos - 1 = _
      rw [h.pos]
      omega
    have hrest := ih hleft (by omega)
    rw [show c - 1 - n = c - (n + 1) by omega] at hrest
    exact hrest

/-- The character before the cursor becomes blank. -/
lemma Shows.backspace (h : Shows scr B L c) (hc : 0 < c) :
    Shows (scr.put .backspace) B (L.set (c - 1) (chr ' ')) (c - 1) := by
  have hpos : 0 < scr.pos := by
    rw [h.pos]
    omega
  have hput : scr.put .backspace =
      ⟨Function.update scr.cell (scr.pos - 1) (chr ' '), scr.pos - 1⟩ := if_pos hpos
  have hcol : scr.pos - 1 = B + (c - 1) := by
    rw [h.pos]
    omega
  rw [hput, hcol]
  refine ⟨fun k => ?_, rfl⟩
  by_cases hk : k = c - 1
  · subst hk
    show Function.update scr.cell (B + (c - 1)) (chr ' ') (B + (c - 1)) = _
    rw [Function.update_self, List.getD_eq_getElem?_getD, List.getElem?_set, if_pos rfl]
    split
    · rfl
    · rfl
  · show Function.update scr.cell (B + (c - 1)) (chr ' ') (B + k) = _
    rw [Function.update_of_ne (by omega), h.cell]
    simp [List.getD_eq_getElem?_getD, Ne.symm hk]

/-- A character is erased: the tail `M` is drawn one cell to the left, and its ghost blanked. -/
theorem Shows.erase {M : List UInt8} (h : Shows scr B L (c + 1)) (hM : c + M.length + 1 = L.length) :
    Shows (scr.play ([.backspace] ++ M.map .putc ++ [.putc (chr ' ')] ++
      List.replicate (M.length + 1) .left)) B (L.take c ++ M) c := by
  have hback := h.backspace (Nat.succ_pos c)
  rw [Nat.add_sub_cancel] at hback
  have htail := hback.putcs M (by rw [List.length_set]; omega)
  rw [List.take_set_of_le (Nat.le_refl c)] at htail
  generalize hD : (L.set c (chr ' ')).drop (c + M.length) = D at htail
  have hDlen : D.length = 1 := by
    rw [← hD, List.length_drop, List.length_set]
    omega
  have hfront : (L.take c ++ M).length = c + M.length := by
    rw [List.length_append, List.length_take]
    omega
  have hghost := htail.putc (by rw [List.length_append]; omega) (chr ' ')
  rw [List.take_left' hfront, List.drop_eq_nil_of_le (by rw [List.length_append]; omega)] at hghost
  have hdone := hghost.lefts (M.length + 1) (by omega)
  rw [show c + M.length + 1 - (M.length + 1) = c by omega] at hdone
  rw [Screen.play_append, Screen.play_append, Screen.play_append]
  exact hdone.congr (getD_append_blank _)

/-- A character is inserted: it is drawn with the tail behind it. -/
theorem Shows.insert {M : List UInt8} (h : Shows scr B L c) (hc : c ≤ L.length)
    (hM : c + M.length = L.length + 1) :
    Shows (scr.play (M.map .putc ++ List.replicate (M.length - 1) .left)) B (L.take c ++ M) (c + 1) := by
  have hdraw := h.putcs M hc
  rw [List.drop_eq_nil_of_le (by omega), List.append_nil] at hdraw
  have hdone := hdraw.lefts (M.length - 1) (by omega)
  rw [show c + M.length - (M.length - 1) = c + 1 by omega] at hdone
  rw [Screen.play_append]
  exact hdone

end

/-! ## The text of the line -/

/-- `buf[w..e)`. -/
def text (s : Input) : List UInt8 := s.span s.w (ahead s.w s.e)

/-- How far `cur` is behind the start of the line. -/
def column (s : Input) : ℕ := ahead s.w s.cur

section
variable {s t : Input} {x : UInt32} {ch : UInt8} {j k n : ℕ}

/-- The line is what lies between `w` and `e`. -/
lemma length_text (s : Input) : (text s).length = ahead s.w s.e := by
  simp [text, Input.span]

lemma add_ahead (x y : UInt32) : x + (ahead x y).toUInt32 = y := by
  unfold ahead
  show x + UInt32.ofNat (y - x).toNat = y
  rw [UInt32.ofNat_toNat, UInt32.add_comm, UInt32.sub_add_cancel]

lemma toNat_add_mod (x : UInt32) (j : ℕ) : (x + j.toUInt32).toNat % 128 = (x.toNat + j) % 128 := by
  rw [UInt32.toNat_add]
  have hj : j.toUInt32.toNat = j % 2 ^ 32 := UInt32.toNat_ofNat'
  rw [hj]
  omega

lemma get_set_self (s : Input) (x : UInt32) (ch : UInt8) : (s.set x ch).get x = ch := by
  rw [get_eq, set_buf, Function.update_self]

/-- Two cells of the line are different cells of the ring. -/
lemma get_set_of_ne (hj : j < 128) (hk : k < 128) (hne : j ≠ k) :
    (s.set (x + k.toUInt32) ch).get (x + j.toUInt32) = s.get (x + j.toUInt32) := by
  rw [get_eq, get_eq, set_buf, toNat_add_mod, toNat_add_mod, Function.update_of_ne]
  exact Ring.cell_ne hj hk hne

lemma span_add (s : Input) (x : UInt32) (m n : ℕ) :
    s.span x (m + n) = s.span x m ++ s.span (x + m.toUInt32) n := by
  have hadd : ∀ j : ℕ, x + (m + j).toUInt32 = x + m.toUInt32 + j.toUInt32 := by
    intro j
    have hof : (m + j).toUInt32 = m.toUInt32 + j.toUInt32 := UInt32.ofNat_add m j
    rw [hof, UInt32.add_assoc]
  unfold Input.span
  rw [List.range_add, List.map_append, List.map_map]
  congr 1
  apply List.map_congr_left
  intro j _
  exact congrArg s.get (hadd j)

lemma span_succ (s : Input) (x : UInt32) (n : ℕ) :
    s.span x (n + 1) = s.get x :: s.span (x + 1) n := by
  rw [Nat.add_comm, span_add]
  have hone : s.span x 1 = [s.get x] := by
    simp [Input.span]
  rw [hone]
  rfl

/-- Only the bytes of the piece count. -/
lemma span_congr (h : ∀ j < n, t.get (x + j.toUInt32) = s.get (x + j.toUInt32)) :
    t.span x n = s.span x n := by
  unfold Input.span
  apply List.map_congr_left
  intro j hj
  exact h j (List.mem_range.mp hj)

lemma ahead_sub {r w x : UInt32} (h : ahead r w ≤ ahead r x) :
    ahead w x = ahead r x - ahead r w := by
  unfold ahead at *
  simp only [UInt32.toNat_sub] at *
  have hx := UInt32.toNat_lt x
  have hr := UInt32.toNat_lt r
  have hw := UInt32.toNat_lt w
  omega

lemma Ordered.column_le (h : Ordered s) : column s ≤ (text s).length := by
  have hw := h.w
  have hcur := h.cur
  have hlen : ahead s.w s.e = ahead s.r s.e - ahead s.r s.w := ahead_sub (by omega)
  rw [length_text, column, ahead_sub h.w, hlen]
  omega

lemma Ordered.length_le (h : Ordered s) : (text s).length ≤ ahead s.r s.e := by
  have hw := h.w
  have hcur := h.cur
  have hlen : ahead s.w s.e = ahead s.r s.e - ahead s.r s.w := ahead_sub (by omega)
  rw [length_text, hlen]
  omega

/-- With room it is shorter than the ring. -/
lemma Ordered.length_lt (h : Ordered s) (hroom : s.Room) : (text s).length < 128 := by
  have hle := h.length_le
  rw [room_iff] at hroom
  omega

lemma column_eq_length_iff : column s = (text s).length ↔ s.cur = s.e := by
  rw [length_text]
  exact ahead_inj

lemma column_eq_zero_iff : column s = 0 ↔ s.cur = s.w := by
  rw [← ahead_self (r := s.w)]
  exact ahead_inj

/-- The text, cut at the cursor. -/
lemma Ordered.text_eq (h : Ordered s) :
    text s = s.span s.w (column s) ++ s.span s.cur ((text s).length - column s) := by
  have hle := h.column_le
  have hn : ahead s.w s.e = column s + ((text s).length - column s) := by
    rw [← length_text]
    omega
  have hcur : s.w + (column s).toUInt32 = s.cur := add_ahead s.w s.cur
  conv_lhs => rw [text, hn, span_add, hcur]

lemma length_span (s : Input) (x : UInt32) (n : ℕ) : (s.span x n).length = n := by
  simp [Input.span]

lemma Ordered.drop_column (h : Ordered s) :
    (text s).drop (column s) = s.span s.cur ((text s).length - column s) := by
  conv_lhs => rw [h.text_eq]
  rw [List.drop_left' (length_span _ _ _)]

end

/-! ## Edits -/

/-- The screen that the calls so far have left shows the text, with the cursor where it is in the
text. -/
def Displayed (scr : Screen) (s : Input) : Prop :=
  ∃ B, Shows (scr.play s.out) B (text s) (column s)

section
variable {s t : Input} {scr : Screen} {ch : UInt8}

lemma displayed_left (h : Displayed scr s) : Displayed scr s.left := by
  unfold Input.left
  split
  · next hlt =>
    obtain ⟨B, hB⟩ := h
    have hne : s.cur ≠ s.w := fun heq => absurd hlt (by rw [heq]; exact UInt32.lt_irrefl _)
    have hpos : column s ≠ 0 := fun hc => hne (column_eq_zero_iff.mp hc)
    have hcol : ahead s.w (s.cur - 1) = column s - 1 := ahead_sub_one (Nat.pos_of_ne_zero hpos)
    have hput := hB.lefts 1 (by omega)
    refine ⟨B, ?_⟩
    show Shows (scr.play (s.out ++ [.left])) B (text s) (ahead s.w (s.cur - 1))
    rw [Screen.play_append, hcol]
    exact hput
  · exact h

lemma displayed_right (hord : Ordered s) (h : Displayed scr s) : Displayed scr s.right := by
  unfold Input.right
  split
  · next hlt =>
    obtain ⟨B, hB⟩ := h
    have hne : s.cur ≠ s.e := fun heq => absurd hlt (by rw [heq]; exact UInt32.lt_irrefl _)
    have hle := hord.column_le
    have hc : column s < (text s).length := by
      have := mt column_eq_length_iff.mp hne
      omega
    have hlen := hord.length_le
    have h128 := hord.e
    have hcol : ahead s.w (s.cur + 1) = column s + 1 := ahead_add_one (by
      show column s + 1 < _
      omega)
    -- The character under the cursor is drawn again.
    have hsame : (text s).take (column s) ++ s.get s.cur :: (text s).drop (column s + 1) = text s := by
      have hhead : (text s).drop (column s) = s.get s.cur :: (text s).drop (column s + 1) := by
        obtain ⟨m, hm⟩ : ∃ m, (text s).length - column s = m + 1 :=
          ⟨(text s).length - column s - 1, by omega⟩
        rw [← List.drop_drop, hord.drop_column, hm, span_succ]
        rfl
      rw [← hhead, List.take_append_drop]
    have hput := hB.putc hle (s.get s.cur)
    rw [hsame] at hput
    refine ⟨B, ?_⟩
    show Shows (scr.play (s.out ++ [.putc (s.get s.cur)])) B (text s) (ahead s.w (s.cur + 1))
    rw [Screen.play_append, hcol]
    exact hput
  · exact h

/-- Only the indices `w`, `e` and `cur`, the ring and the calls matter. -/
theorem Displayed.same (h : Displayed scr s) (hw : t.w = s.w) (he : t.e = s.e) (hcur : t.cur = s.cur)
    (hbuf : t.buf = s.buf) (hout : t.out = s.out) : Displayed scr t := by
  have htext : text t = text s := by
    unfold text
    rw [hw, he]
    apply span_congr
    intro j _
    rw [get_eq, get_eq, hbuf]
  have hcol : column t = column s := by
    unfold column
    rw [hw, hcur]
  obtain ⟨B, hB⟩ := h
  exact ⟨B, by rw [htext, hcol, hout]; exact hB⟩

/-- The cursor is drawn at the end of the text, unless `cur` and `e` are on two sides of zero. -/
theorem displayed_toEnd (hord : Ordered s) (h : Displayed scr s) (hcmp : s.cur = s.e ∨ s.cur < s.e) :
    Displayed scr s.toEnd ∧ s.toEnd.cur = s.e := by
  unfold Input.toEnd
  by_cases hlt : s.cur < s.e
  · rw [if_pos hlt]
    refine ⟨?_, rfl⟩
    obtain ⟨B, hB⟩ := h
    have hle := hord.column_le
    have hcount : s.e.toNat - s.cur.toNat = (text s).length - column s := by
      have hnum : ahead s.cur s.e = s.e.toNat - s.cur.toNat :=
        UInt32.toNat_sub_of_le _ _ (UInt32.le_of_lt hlt)
      rw [length_text] at hle ⊢
      rw [← hnum, ahead_sub hle]
      rfl
    have hput := hB.putcs ((text s).drop (column s)) hle
    have hcol : column s + ((text s).drop (column s)).length = (text s).length := by
      rw [List.length_drop]
      omega
    rw [hcol, List.drop_length, List.append_nil, List.take_append_drop] at hput
    have htext : (text s).drop (column s) = s.span s.cur (s.e.toNat - s.cur.toNat) := by
      rw [hord.drop_column, hcount]
    rw [htext] at hput
    refine ⟨B, ?_⟩
    show Shows (scr.play (s.out ++ _)) B (text s) (ahead s.w s.e)
    rw [Screen.play_append, ← length_text]
    exact hput
  · rw [if_neg hlt]
    exact ⟨h, hcmp.resolve_right hlt⟩

/-- The second loop of `clear`; the cursor is set when it is over. -/
theorem displayed_eraseLoop (n : ℕ) : ∀ {s : Input}, Displayed scr { s with cur := s.e } →
    Displayed scr { eraseLoop n s with cur := (eraseLoop n s).e } := by
  induction n with
  | zero => exact fun h => h
  | succ n ih =>
    intro s h
    unfold Input.eraseLoop
    split
    · next hmore =>
      obtain ⟨B, hB⟩ := h
      have hne : ahead s.w s.e ≠ 0 := by
        rw [← ahead_self (r := s.w)]
        exact fun heq => hmore.1 (ahead_inj.mp heq)
      obtain ⟨m, hm⟩ : ∃ m, ahead s.w s.e = m + 1 := ⟨ahead s.w s.e - 1, by omega⟩
      have hpred : ahead s.w (s.e - 1) = m := by
        rw [ahead_sub_one (by omega)]
        omega
      have hlast : s.span s.w (m + 1) = s.span s.w m ++ [s.get (s.w + m.toUInt32)] := by
        rw [span_add, span_succ]
        rfl
      have hshow : Shows (scr.play s.out) B (s.span s.w m ++ [s.get (s.w + m.toUInt32)]) (m + 1) := by
        rw [← hlast, ← hm]
        exact hB
      have hput := hshow.backspace (by omega)
      rw [Nat.add_sub_cancel] at hput
      apply ih
      refine ⟨B, ?_⟩
      show Shows (scr.play (s.out ++ [.backspace])) B (s.span s.w (ahead s.w (s.e - 1)))
        (ahead s.w (s.e - 1))
      rw [Screen.play_append, hpred]
      apply hput.congr
      intro k
      have hlen : (s.span s.w m).length = m := length_span _ _ _
      rw [List.set_append_right _ _ (by omega), hlen, Nat.sub_self]
      exact getD_append_blank _ k
    · exact h

lemma displayed_clear (hord : Ordered s) (h : Displayed scr s) (hcmp : s.cur = s.e ∨ s.cur < s.e) :
    Displayed scr s.clear := by
  obtain ⟨hend, hcur⟩ := displayed_toEnd hord h hcmp
  have he : s.toEnd.e = s.e := toEnd_e s
  apply displayed_eraseLoop
  exact hend.same rfl rfl (by rw [he, hcur]) rfl rfl

/-- The line is handed over, and nothing is drawn. This is right if the cursor is at its end. -/
theorem displayed_all (h : Displayed scr s) (hcur : s.cur = s.e) (he : t.e = t.w)
    (htcur : t.cur = t.w) (hout : t.out = s.out) : Displayed scr t := by
  obtain ⟨B, hB⟩ := h
  rw [column_eq_length_iff.mpr hcur] at hB
  have htext : text t = [] := by
    apply List.eq_nil_of_length_eq_zero
    rw [length_text, he]
    exact ahead_self
  have hcol : column t = 0 := by
    unfold column
    rw [htcur]
    exact ahead_self
  refine ⟨B + (text s).length, ?_⟩
  rw [htext, hcol, hout]
  exact hB.next

/-- The line is longer by one byte. -/
lemma text_push (hord : Ordered s) (hroom : s.Room) : text (s.push ch) = text s ++ [ch] := by
  have hlt := hord.length_lt hroom
  rw [length_text] at hlt
  have hend : s.w + (ahead s.w s.e).toUInt32 = s.e := add_ahead s.w s.e
  have hlen : ahead s.w (s.e + 1) = ahead s.w s.e + 1 := ahead_add_one (by omega)
  have hold : (s.push ch).span s.w (ahead s.w s.e) = s.span s.w (ahead s.w s.e) := by
    apply span_congr
    intro j hj
    show (s.set s.e ch).get _ = _
    rw [← hend, get_set_of_ne (by omega) hlt (by omega)]
  have hnew : (s.push ch).span s.e 1 = [ch] := by
    rw [span_succ]
    show (s.set s.e ch).get s.e :: _ = _
    rw [get_set_self]
    rfl
  show (s.push ch).span s.w (ahead s.w (s.e + 1)) = _
  rw [hlen, span_add, hend, hold, hnew]
  rfl

lemma displayed_append (hord : Ordered s) (hroom : s.Room) (h : Displayed scr s)
    (hcur : s.cur = s.e) : Displayed scr (s.append ch) := by
  have hpush : Displayed scr ((s.push ch).emit [.putc ch]) := by
    obtain ⟨B, hB⟩ := h
    rw [column_eq_length_iff.mpr hcur] at hB
    have hput := hB.putc (Nat.le_refl _) ch
    rw [List.take_length, List.drop_eq_nil_of_le (Nat.le_succ _)] at hput
    have hlt := hord.length_lt hroom
    have hcol : ahead s.w (s.e + 1) = (text s).length + 1 := by
      rw [length_text] at hlt ⊢
      exact ahead_add_one (by omega)
    refine ⟨B, ?_⟩
    show Shows (scr.play (s.out ++ [.putc ch])) B (text (s.push ch)) (ahead s.w (s.e + 1))
    rw [Screen.play_append, text_push hord hroom, hcol]
    exact hput
  unfold Input.append
  dsimp only
  split
  · exact displayed_all hpush rfl rfl rfl rfl
  · exact hpush

lemma add_succ (x : UInt32) (k : ℕ) : x + (k + 1).toUInt32 = x + k.toUInt32 + 1 := by
  have hof : (k + 1).toUInt32 = k.toUInt32 + 1 := UInt32.ofNat_add k 1
  rw [hof, UInt32.add_assoc]

/-- Closing a gap does not touch what is in front of it. -/
lemma get_shiftDown (m : ℕ) {x : UInt32} {j : ℕ} : ∀ {k : ℕ} {s : Input}, j < k → k + m ≤ 128 →
    (shiftDown m (x + k.toUInt32) s).get (x + j.toUInt32) = s.get (x + j.toUInt32) := by
  induction m with
  | zero => exact fun _ _ => rfl
  | succ m ih =>
    intro k s hj hk
    unfold shiftDown
    rw [← add_succ, ih (by omega) (by omega), get_set_of_ne (by omega) (by omega) (by omega)]

/-- Neither does opening one. -/
lemma get_shiftUp (m : ℕ) {x : UInt32} {j : ℕ} : ∀ {k : ℕ} {s : Input}, j + m ≤ k → k < 128 →
    (shiftUp m (x + k.toUInt32) s).get (x + j.toUInt32) = s.get (x + j.toUInt32) := by
  induction m with
  | zero => exact fun _ _ => rfl
  | succ m ih =>
    intro k s hj hk
    obtain ⟨k', rfl⟩ : ∃ k', k = k' + 1 := ⟨k - 1, by omega⟩
    have hpred : x + (k' + 1).toUInt32 - 1 = x + k'.toUInt32 := by
      rw [add_succ, UInt32.add_sub_cancel]
    unfold shiftUp
    rw [hpred, ih (by omega) (by omega), get_set_of_ne (by omega) (by omega) (by omega)]

lemma take_text {c : ℕ} (hc : c ≤ (text s).length) : (text s).take c = s.span s.w c := by
  have hadd : ahead s.w s.e = c + ((text s).length - c) := by
    rw [← length_text]
    omega
  rw [text, hadd, span_add, List.take_left' (length_span _ _ _)]

/-- The text in front of the cursor stays, and the rest is what is drawn again. -/
theorem displayed_erase (hord : Ordered s) (h : Displayed scr s) (hcur : s.cur ≠ s.w) :
    Displayed scr (s.erase ch) := by
  obtain ⟨B, hB⟩ := h
  have hle := hord.column_le
  have hlen := hord.length_le
  have h128 := hord.e
  have hpos : column s ≠ 0 := fun hc => hcur (column_eq_zero_iff.mp hc)
  obtain ⟨c, hc⟩ : ∃ c, column s = c + 1 := ⟨column s - 1, by omega⟩
  -- The new column, the new length, and how many characters are drawn.
  have hcol : ahead s.w (s.cur - 1) = c := by
    have hcur' : ahead s.w s.cur = c + 1 := hc
    rw [ahead_sub_one (by omega)]
    omega
  have hx : s.w + c.toUInt32 = s.cur - 1 := by
    rw [← hcol]
    exact add_ahead _ _
  have hend : ahead s.w (s.e - 1) = (text s).length - 1 := by
    rw [length_text] at hle ⊢
    exact ahead_sub_one (by omega)
  have hn : (s.e - 1 - (s.cur - 1)).toNat = (text s).length - 1 - c := by
    show ahead (s.cur - 1) (s.e - 1) = _
    rw [ahead_sub (r := s.w) (by omega), hend, hcol]
  have hshift : (s.e - 1).toNat - (s.cur - 1).toNat ≤ (text s).length - 1 - c := by
    by_cases hcmp : s.cur - 1 ≤ s.e - 1
    · rw [← hn, UInt32.toNat_sub_of_le _ _ hcmp]
    · rw [UInt32.le_iff_toNat_le] at hcmp
      omega
  unfold Input.erase
  rw [if_neg hcur]
  dsimp only
  rw [hn]
  generalize (s.e - 1).toNat - (s.cur - 1).toNat = K at hshift ⊢
  obtain ⟨b, hb⟩ := shiftDown_eq K (s.cur - 1) s
  have hfront : (shiftDown K (s.cur - 1) s).span s.w c = (text s).take c := by
    rw [take_text (by omega)]
    apply span_congr
    intro j hj
    rw [← hx, get_shiftDown _ hj (by omega)]
  have hsplit : (shiftDown K (s.cur - 1) s).span s.w ((text s).length - 1) = (text s).take c ++
      (shiftDown K (s.cur - 1) s).span (s.cur - 1) ((text s).length - 1 - c) := by
    rw [← hfront, ← hx, ← span_add]
    congr 1
    omega
  rw [hb] at hsplit ⊢
  rw [hc] at hB hle
  have hput := hB.erase (M := Input.span { s with buf := b } (s.cur - 1) ((text s).length - 1 - c)) (by
    rw [length_span]
    omega)
  rw [← hsplit, length_span] at hput
  refine ⟨B, ?_⟩
  show Shows (scr.play (s.out ++ _)) B
    (Input.span { s with buf := b } s.w (ahead s.w (s.e - 1))) (ahead s.w (s.cur - 1))
  rw [Screen.play_append, hend, hcol]
  exact hput

/-- A character in front of others. The loops that draw go up to the new end, so it must not be on the
other side of zero. -/
theorem displayed_insertAt (hord : Ordered s) (hroom : s.Room) (h : Displayed scr s)
    (hcmp : s.cur < s.e + 1) : Displayed scr (s.insertAt ch) := by
  obtain ⟨B, hB⟩ := h
  have hle := hord.column_le
  have hlt := hord.length_lt hroom
  have hmax := UInt32.toNat_lt s.e
  -- The new end is not zero, so the indices can be compared.
  have hnum : s.cur.toNat ≤ s.e.toNat ∧ (s.e + 1).toNat = s.e.toNat + 1 ∧
      (s.cur + 1).toNat = s.cur.toNat + 1 := by
    rw [UInt32.lt_iff_toNat_lt, UInt32.toNat_add, UInt32.toNat_one] at hcmp
    rw [UInt32.toNat_add, UInt32.toNat_add, UInt32.toNat_one]
    omega
  obtain ⟨hcurle, he1, hcur1⟩ := hnum
  have htail : s.e.toNat - s.cur.toNat = (text s).length - column s := by
    have hsub : ahead s.cur s.e = s.e.toNat - s.cur.toNat :=
      UInt32.toNat_sub_of_le _ _ (UInt32.le_iff_toNat_le.mpr hcurle)
    rw [length_text] at hle ⊢
    rw [← hsub, ahead_sub hle]
    rfl
  have hdraw : (s.e + 1).toNat - s.cur.toNat = (text s).length - column s + 1 := by omega
  have hback : (s.e + 1).toNat - (s.cur + 1).toNat = (text s).length - column s + 1 - 1 := by omega
  have hend : s.w + (text s).length.toUInt32 = s.e := by
    rw [length_text]
    exact add_ahead _ _
  have hcur : s.w + (column s).toUInt32 = s.cur := add_ahead _ _
  have hlen : ahead s.w (s.e + 1) = (text s).length + 1 := by
    rw [length_text] at hlt ⊢
    exact ahead_add_one (by omega)
  have hcol : ahead s.w (s.cur + 1) = column s + 1 := ahead_add_one (by
    show column s + 1 < _
    omega)
  unfold Input.insertAt
  dsimp only
  rw [htail, hdraw, hback]
  obtain ⟨b, hb⟩ : ∃ b, (shiftUp ((text s).length - column s) s.e s).set s.cur ch =
      { s with buf := b } := by
    obtain ⟨b, hb⟩ := shiftUp_eq ((text s).length - column s) s.e s
    exact ⟨_, by rw [hb]; rfl⟩
  have hfront : ((shiftUp ((text s).length - column s) s.e s).set s.cur ch).span s.w (column s) =
      (text s).take (column s) := by
    rw [take_text hle]
    apply span_congr
    intro j hj
    rw [← hcur, get_set_of_ne (by omega) (by omega) (by omega), ← hend,
      get_shiftUp _ (by omega) (by omega)]
  rw [hb] at hfront ⊢
  have hsplit : Input.span { s with buf := b } s.w ((text s).length + 1) = (text s).take (column s) ++
      Input.span { s with buf := b } s.cur ((text s).length - column s + 1) := by
    rw [← hfront, ← hcur, ← span_add]
    congr 1
    omega
  have hput := hB.insert (M := Input.span { s with buf := b } s.cur ((text s).length - column s + 1))
    hle (by
      rw [length_span]
      omega)
  rw [← hsplit, length_span] at hput
  refine ⟨B, ?_⟩
  show Shows (scr.play (s.out ++ _)) B
    (Input.span { s with buf := b } s.w (ahead s.w (s.e + 1))) (ahead s.w (s.cur + 1))
  rw [Screen.play_append, hlen, hcol]
  exact hput

/-- A byte in the middle keeps the order. -/
lemma ordered_insertAt (hord : Ordered s) (hroom : s.Room) : Ordered (s.insertAt ch) := by
  obtain ⟨hr, hw, he, hcur⟩ := insertAt_idx s ch
  rw [room_iff] at hroom
  have hsw := hord.w
  have hscur := hord.cur
  have he1 : ahead s.r (s.e + 1) = ahead s.r s.e + 1 := ahead_add_one (by omega)
  have hcur1 : ahead s.r (s.cur + 1) = ahead s.r s.cur + 1 := ahead_add_one (by omega)
  constructor
  · rw [hr, hw, hcur]
    omega
  · rw [hr, hcur, he]
    omega
  · rw [hr, he]
    omega

lemma displayed_insert (hord : Ordered s) (hroom : s.Room) (h : Displayed scr s)
    (hne : s.cur ≠ s.e) (hcmp : s.cur < s.e + 1) : Displayed scr (s.insert ch) := by
  have hins : Displayed scr (s.insertAt ch) := displayed_insertAt hord hroom h hcmp
  unfold Input.insert
  dsimp only
  split
  · -- The rest of the line is drawn before it is handed over.
    obtain ⟨-, -, he, hcur⟩ := insertAt_idx s ch
    have hlt : (s.insertAt ch).cur < (s.insertAt ch).e := by
      rw [he, hcur]
      rw [← UInt32.toNat_inj.ne] at hne
      rw [UInt32.lt_iff_toNat_lt, UInt32.toNat_add, UInt32.toNat_one] at hcmp ⊢
      rw [UInt32.toNat_add, UInt32.toNat_one]
      have hmax := UInt32.toNat_lt s.e
      omega
    obtain ⟨hend, hendcur⟩ := displayed_toEnd (ordered_insertAt hord hroom) hins (.inr hlt)
    have hende : (s.insertAt ch).toEnd.e = (s.insertAt ch).e := toEnd_e _
    exact displayed_all hend (by rw [hendcur, hende]) hende hendcur rfl
  · exact hins

/-! ## Keys -/

/-- The key that `handle_input` passes on, if it does. -/
def decoded (s : Input) (c : UInt8) : Option UInt8 :=
  if c = KEY_LF ∨ c = KEY_RT then none
  else if c = KEY_UP then some (ctrl 'P')
  else if c = KEY_DN then some (ctrl 'N')
  else if s.esc_state = 1 then none
  else if s.esc_state = 2 then
    if c = chr 'A' then some (ctrl 'P') else if c = chr 'B' then some (ctrl 'N') else none
  else if c = ESC then none
  else some c

/-- The key draws what it does: Tab, and Backspace at the start of the line, hand the line over with
the cursor at its end, and no loop compares indices on two sides of zero. -/
structure Draws (s : Input) (k : UInt8) : Prop where
  tab : k = chr '\t' → s.Room → s.cur = s.e
  back : k = ctrl 'H' ∨ k = DEL → s.Room → s.cur = s.w → s.cur = s.e
  clear : k = ctrl 'U' ∨ k = ctrl 'P' ∨ k = ctrl 'N' → s.cur = s.e ∨ s.cur < s.e
  insert : Typed k → s.Room → s.cur = s.e ∨ s.cur < s.e + 1

/-- Enter, Ctrl-D and Ctrl-Z. -/
def Ends (k : UInt8) : Prop := k = chr '\n' ∨ k = chr '\r' ∨ k = ctrl 'D' ∨ k = ctrl 'Z'

instance (k : UInt8) : Decidable (Ends k) := inferInstanceAs (Decidable (_ ∨ _))

lemma displayed_edit {k : UInt8} (hord : Ordered s) (h : Displayed scr s) (hdraws : Draws s k)
    (hends : ¬ Ends k) : Displayed scr (s.edit k) := by
  by_cases hU : k = ctrl 'U'
  · unfold edit
    rw [if_pos hU]
    exact (displayed_clear hord h (hdraws.clear (.inl hU))).same rfl rfl rfl rfl rfl
  by_cases ht : k = chr '\t'
  · unfold edit
    rw [if_neg hU, if_pos ht]
    split
    · next hroom => exact displayed_all h (hdraws.tab ht hroom) rfl rfl rfl
    · exact h
  by_cases hPN : k = ctrl 'P' ∨ k = ctrl 'N'
  · unfold edit
    rw [if_neg hU, if_neg ht, if_pos hPN]
    have hcmp := hdraws.clear (.inr hPN)
    -- the draft is saved first, which moves no index
    have hclear : Ordered (if s.history_draft_active then s else s.save_history_draft).clear ∧
        Displayed scr (if s.history_draft_active then s else s.save_history_draft).clear ∧
        (if s.history_draft_active then s else s.save_history_draft).clear.cur =
          (if s.history_draft_active then s else s.save_history_draft).clear.e := by
      split
      · exact ⟨(clear_idx hord).2.2.1, displayed_clear hord h hcmp, (clear_idx hord).2.2.2⟩
      · have hsave : Ordered s.save_history_draft := hord.same ⟨rfl, rfl, rfl, rfl⟩
        have hdisp : Displayed scr s.save_history_draft := h.same rfl rfl rfl rfl rfl
        exact ⟨(clear_idx hsave).2.2.1, displayed_clear hsave hdisp hcmp, (clear_idx hsave).2.2.2⟩
    generalize (if s.history_draft_active then s else s.save_history_draft).clear = t at hclear ⊢
    dsimp only
    split
    · exact displayed_all hclear.2.1 hclear.2.2 rfl rfl rfl
    · exact hclear.2.1
  by_cases hH : k = ctrl 'H' ∨ k = DEL
  · unfold edit
    rw [if_neg hU, if_neg ht, if_neg hPN, if_pos hH]
    by_cases hcur : s.cur = s.w
    · unfold erase
      rw [if_pos hcur]
      split
      · next hroom => exact displayed_all h (hdraws.back hH hroom hcur) rfl rfl rfl
      · exact h
    · exact displayed_erase hord h hcur
  by_cases h0 : k = 0 ∨ ¬ s.Room
  · unfold edit
    rw [if_neg hU, if_neg ht, if_neg hPN, if_neg hH, if_pos h0]
    exact h
  have hroom : s.Room := by
    by_contra hno
    exact h0 (.inr hno)
  have hr : k ≠ chr '\r' := fun heq => hends (.inr (.inl heq))
  have hnl : ¬ (k = chr '\n' ∨ k = ctrl 'D') := by
    intro hc
    rcases hc with hc | hc
    · exact hends (.inl hc)
    · exact hends (.inr (.inr (.inl hc)))
  -- what is left is a byte that is typed
  have hk : Typed k := ⟨hU, ht, hPN, hH, fun heq => h0 (.inl heq), hr, hnl⟩
  rw [edit_typed hk hroom]
  split
  · next hcur => exact displayed_append hord hroom h hcur
  · next hne =>
    exact displayed_insert hord hroom h hne ((hdraws.insert hk hroom).resolve_left hne)

/-- `key`, in cooked mode. -/
lemma displayed_key {k : UInt8} (hord : Ordered s) (h : Displayed scr s) (hraw : s.raw = false)
    (hdraws : Draws s k) (hends : ¬ Ends k) : Displayed scr (s.key k) := by
  unfold key
  rw [if_neg fun hZ => hends (.inr (.inr (.inr hZ))), if_neg (by simp [hraw])]
  exact displayed_edit hord h hdraws hends

lemma displayed_handle_input {c : UInt8} (hord : Ordered s) (h : Displayed scr s)
    (hraw : s.raw = false) (hdraws : ∀ k, decoded s c = some k → Draws s k) (hends : ¬ Ends c) :
    Displayed scr (s.handle_input c) := by
  -- the state of an escape sequence is not on the screen
  have hesc : ∀ n, Ordered { s with esc_state := n } ∧ Displayed scr { s with esc_state := n } :=
    fun n => ⟨hord.same ⟨rfl, rfl, rfl, rfl⟩, h.same rfl rfl rfl rfl rfl⟩
  have hhist : ∀ k, k = ctrl 'P' ∨ k = ctrl 'N' → ¬ Ends k := by
    intro k hk
    rcases hk with rfl | rfl <;> decide
  unfold handle_input
  unfold decoded at hdraws
  by_cases hlf : c = KEY_LF
  · rw [if_pos hlf]
    exact displayed_left h
  by_cases hrt : c = KEY_RT
  · rw [if_neg hlf, if_pos hrt]
    exact displayed_right hord h
  rw [if_neg hlf, if_neg hrt]
  rw [if_neg (by simp [hlf, hrt])] at hdraws
  by_cases hup : c = KEY_UP
  · rw [if_pos hup] at hdraws ⊢
    exact displayed_key hord h hraw (hdraws _ rfl) (hhist _ (.inl rfl))
  rw [if_neg hup] at hdraws ⊢
  by_cases hdn : c = KEY_DN
  · rw [if_pos hdn] at hdraws ⊢
    exact displayed_key hord h hraw (hdraws _ rfl) (hhist _ (.inr rfl))
  rw [if_neg hdn] at hdraws ⊢
  by_cases h1 : s.esc_state = 1
  · rw [if_pos h1]
    exact (hesc _).2
  rw [if_neg h1] at hdraws ⊢
  -- ESC, `[` and a letter stand for the four arrows
  by_cases h2 : s.esc_state = 2
  · rw [if_pos h2] at hdraws ⊢
    dsimp only
    by_cases hA : c = chr 'A'
    · rw [if_pos hA] at hdraws ⊢
      obtain ⟨htab, hback, hclear, hins⟩ := hdraws _ rfl
      exact displayed_key (hesc 0).1 (hesc 0).2 hraw ⟨htab, hback, hclear, hins⟩
        (hhist _ (.inl rfl))
    rw [if_neg hA] at hdraws ⊢
    by_cases hB : c = chr 'B'
    · rw [if_pos hB] at hdraws ⊢
      obtain ⟨htab, hback, hclear, hins⟩ := hdraws _ rfl
      exact displayed_key (hesc 0).1 (hesc 0).2 hraw ⟨htab, hback, hclear, hins⟩
        (hhist _ (.inr rfl))
    rw [if_neg hB]
    split
    · exact displayed_right (hesc 0).1 (hesc 0).2
    split
    · exact displayed_left (hesc 0).2
    · exact (hesc 0).2
  rw [if_neg h2] at hdraws ⊢
  by_cases hE : c = ESC
  · rw [if_pos hE]
    exact (hesc 1).2
  rw [if_neg hE] at hdraws ⊢
  exact displayed_key hord h hraw (hdraws _ rfl) hends

/-! ## Runs -/

/-- A key other than Enter, Ctrl-D and Ctrl-Z, or what a reader does between two sleeps. -/
inductive Stroke where
  | key (c : UInt8)
  | read (target n : ℕ)

/-- One stroke, in cooked mode. -/
def stroke (s : Input) : Stroke → Option Input
  | .key c => if s.raw = false ∧ ¬ Ends c then some (s.handle_input c) else none
  | .read target n => if s.raw = false then some (readLoop target n s).1 else none

/-- Every key that is passed on draws what it does. -/
def Drawn (s : Input) : Stroke → Prop
  | .key c => ∀ k, decoded s c = some k → Draws s k
  | .read _ _ => True

/-- A key that draws does not fill the ring from the middle. -/
lemma not_wraps {c : UInt8} (h : ∀ k, decoded s c = some k → Draws s k) :
    ¬ (Types s c ∧ Wraps s) := by
  intro ⟨htypes, hwraps⟩
  obtain ⟨-, h1, h2, hspecial, htyped⟩ := htypes
  simp only [not_or] at hspecial
  obtain ⟨hlf, hrt, hup, hdn, hE, -⟩ := hspecial
  have hdec : decoded s c = some c := by
    simp [decoded, h1, h2, hlf, hrt, hup, hdn, hE]
  have hcmp := ((h c hdec).insert htyped hwraps.room).resolve_left hwraps.1
  have hne := hwraps.1
  have hnot := hwraps.2.2
  rw [← UInt32.toNat_inj.ne] at hne
  rw [UInt32.lt_iff_toNat_lt, UInt32.toNat_add, UInt32.toNat_one] at hcmp hnot
  rw [UInt32.toNat_add, UInt32.toNat_one] at hnot
  have hmax := UInt32.toNat_lt s.e
  omega

lemma readLoop_eq (target n : ℕ) (s : Input) : ∃ r, (readLoop target n s).1 = { s with r := r } := by
  induction n generalizing s with
  | zero => exact ⟨s.r, rfl⟩
  | succ n ih =>
    unfold readLoop
    split
    · exact ⟨s.r, rfl⟩
    · dsimp only
      split
      · split
        · exact ⟨s.r, rfl⟩
        · exact ⟨s.r + 1, rfl⟩
      · split
        · exact ⟨s.r + 1, rfl⟩
        · obtain ⟨r, hr⟩ := ih { s with r := s.r + 1 }
          exact ⟨r, hr⟩

lemma displayed_stroke {a : Stroke} (h : Ordered s ∧ Displayed scr s) (hdrawn : Drawn s a)
    (hstep : stroke s a = some t) : Ordered t ∧ Displayed scr t := by
  obtain ⟨hord, hdisp⟩ := h
  cases a with
  | key c =>
    simp only [stroke] at hstep
    split at hstep
    · next hcooked =>
      obtain rfl := Option.some.inj hstep
      exact ⟨(ordered_handle_input_iff hord).mpr (not_wraps hdrawn),
        displayed_handle_input hord hdisp hcooked.1 hdrawn hcooked.2⟩
    · cases hstep
  | read target n =>
    simp only [stroke] at hstep
    split at hstep
    · obtain rfl := Option.some.inj hstep
      refine ⟨ordered_readLoop target n s hord, ?_⟩
      obtain ⟨r, hr⟩ := readLoop_eq target n s
      rw [hr]
      exact hdisp.same rfl rfl rfl rfl rfl
    · cases hstep

/-- The text `buf[w..e)` is in the cells that end where the displayed line ends, and the cursor is
`e - cur` cells in front of that end. -/
def ShowsLine (scr : Screen) (s : Input) : Prop :=
  ∃ stop, (s.e - s.w).toNat ≤ stop ∧ (∀ k, stop ≤ k → scr.cell k = chr ' ') ∧
    (∀ j < (s.e - s.w).toNat, scr.cell (stop - (s.e - s.w).toNat + j) = s.get (s.w + j.toUInt32)) ∧
    scr.pos + (s.e - s.cur).toNat = stop

lemma Displayed.showsLine (hord : Ordered s) (h : Displayed scr s) :
    ShowsLine (scr.play s.out) s := by
  obtain ⟨B, hB⟩ := h
  have hle := hord.column_le
  have hlen : (s.e - s.w).toNat = (text s).length := (length_text s).symm
  have hback : (s.e - s.cur).toNat = (text s).length - column s := by
    rw [length_text] at hle ⊢
    exact ahead_sub hle
  refine ⟨B + (text s).length, by omega, fun k hk => ?_, fun j hj => ?_, ?_⟩
  · obtain ⟨i, rfl⟩ : ∃ i, k = B + i := ⟨k - B, by omega⟩
    rw [hB.cell, List.getD_eq_default _ _ (by omega)]
  · rw [hlen] at hj ⊢
    rw [Nat.add_sub_cancel, hB.cell, List.getD_eq_getElem _ _ hj]
    simp [text, Input.span]
  · rw [hB.pos, hback]
    omega

/-- **The terminal shows the line being edited**, in every run of strokes that draw what they do, from
an empty line on a screen that is blank behind the cursor. -/
theorem terminal_shows_line {s₀ : Input} {as : List Stroke} (hord : Ordered s₀) (he : s₀.e = s₀.w)
    (hcur : s₀.cur = s₀.w) (hout : s₀.out = []) (hblank : ∀ k, scr.pos ≤ k → scr.cell k = chr ' ')
    (hdrawn : Runs.Along stroke Drawn s₀ as) (hrun : Runs.run stroke s₀ as = some s) :
    ShowsLine (scr.play s.out) s := by
  have hstart : Displayed scr s₀ := by
    have htext : text s₀ = [] := by
      apply List.eq_nil_of_length_eq_zero
      rw [length_text, he]
      exact ahead_self
    have hcol : column s₀ = 0 := by
      unfold column
      rw [hcur]
      exact ahead_self
    refine ⟨scr.pos, ?_, ?_⟩
    · intro k
      rw [hout, htext]
      exact hblank _ (Nat.le_add_right _ _)
    · rw [hout, hcol]
      rfl
  have h : Ordered s ∧ Displayed scr s :=
    Runs.Along.invariant (I := fun s => Ordered s ∧ Displayed scr s)
      (fun _ _ _ hs hok hst => displayed_stroke hs hok hst) ⟨hord, hstart⟩ hdrawn hrun
  exact h.2.showsLine h.1

end

/-- A row that is all blank. -/
def blankRow : Screen := ⟨fun _ => chr ' ', 0⟩

instance (s : Input) (k : UInt8) : Decidable (Draws s k) :=
  decidable_of_iff
    ((k = chr '\t' → s.Room → s.cur = s.e) ∧
      (k = ctrl 'H' ∨ k = DEL → s.Room → s.cur = s.w → s.cur = s.e) ∧
      (k = ctrl 'U' ∨ k = ctrl 'P' ∨ k = ctrl 'N' → s.cur = s.e ∨ s.cur < s.e) ∧
      (Typed k → s.Room → s.cur = s.e ∨ s.cur < s.e + 1))
    ⟨fun h => ⟨h.1, h.2.1, h.2.2.1, h.2.2.2⟩, fun h => ⟨h.tab, h.back, h.clear, h.insert⟩⟩

instance decidableDrawn (s : Input) : (a : Stroke) → Decidable (Drawn s a)
  | .key c => decidable_of_iff (((decoded s c).all fun k => decide (Draws s k)) = true) (by
      rw [Option.all_eq_true]
      exact forall_congr' fun k => imp_congr Iff.rfl decide_eq_true_iff)
  | .read _ _ => isTrue trivial

/-- `ac` is typed, and `b` between the two. -/
def insertStrokes : List Stroke :=
  [.key (chr 'a'), .key (chr 'c'), .key KEY_LF, .key (chr 'b')]

/-- A letter put in front of another. -/
theorem terminal_shows_line_insert : ∃ s, Runs.run stroke .zero insertStrokes = some s ∧
    (blankRow.play s.out).pos = 2 ∧ ShowsLine (blankRow.play s.out) s := by
  have hdrawn : Runs.Along stroke Drawn .zero insertStrokes := by decide +kernel
  have hany : (Runs.run stroke .zero insertStrokes).any
      (fun s => (blankRow.play s.out).pos = 2) = true := by
    decide +kernel
  obtain ⟨s, hs, hpos⟩ := (Option.any_eq_true _ _).mp hany
  exact ⟨s, hs, of_decide_eq_true hpos,
    terminal_shows_line ordered_zero rfl rfl rfl (fun _ _ => rfl) hdrawn hs⟩

/-- `a` is typed, the cursor moved in front of it, and Tab pressed: the line is handed over, and the
cursor stays in front of the `a`. -/
def tabStrokes : List Stroke := [.key (chr 'a'), .key KEY_LF, .key (chr '\t')]

/-- A Tab in the middle of a line. -/
theorem not_showsLine_tab : ∃ s, Runs.run stroke .zero tabStrokes = some s ∧
    ¬ ShowsLine (blankRow.play s.out) s := by
  have hany : (Runs.run stroke .zero tabStrokes).any (fun s => (s.e - s.cur).toNat = 0 ∧
      (blankRow.play s.out).pos = 0 ∧ (blankRow.play s.out).cell 0 = chr 'a') = true := by
    decide +kernel
  obtain ⟨s, hs, hend⟩ := (Option.any_eq_true _ _).mp hany
  obtain ⟨hback, hpos, hcell⟩ := of_decide_eq_true hend
  refine ⟨s, hs, fun ⟨stop, _, hblank, _, hstop⟩ => ?_⟩
  rw [hpos, hback] at hstop
  have hzero := hblank 0 (by omega)
  rw [hcell] at hzero
  exact absurd hzero (by decide)

end Console
end OhMyXv6
