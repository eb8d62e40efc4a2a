import Mathlib.Data.Fin.Basic
import Mathlib.Logic.Function.Basic
import Mathlib.Tactic.Common
import OhMyXv6.Lib.Runs

/-!
# `console.c`: the text screen

`cgaputc` knows the screen as one array of cells and the cursor as an index into it, which it reads from
the controller and writes back. A `Terminal` has 24 rows of 80 columns, and its cursor is a row and a
column. Whatever is put on the screen, the rows shown are those of the terminal.
-/

namespace OhMyXv6
namespace Console
namespace Cga

/-- `'\n'`. -/
def NEWLINE : Int := 10
/-- `console.c`: the character that `consputc` erases with. -/
def BACKSPACE : Int := 0x100
/-- `' '`. -/
def BLANK : UInt16 := 32

/-- The frame buffer and the controller's registers for the cursor. -/
structure State where
  crt : ℕ → UInt16
  /-- Register 14, the upper byte of the position. -/
  high : UInt8
  /-- Register 15, the lower byte. -/
  low : UInt8
  /-- History: the indices of `crt` that were written, the last one last. -/
  written : List ℕ
  /-- What was sent to the serial line. -/
  serial : List UInt8
  panicked : Bool

namespace State

/-- `pos = inb(CRTPORT + 1) << 8; pos |= inb(CRTPORT + 1)`. -/
def pos (s : State) : ℕ := s.high.toNat <<< 8 ||| s.low.toNat

/-- `outb(CRTPORT + 1, pos >> 8)` and `outb(CRTPORT + 1, pos)`. -/
def setPos (s : State) (pos : ℕ) : State :=
  { s with high := UInt8.ofNat (pos >>> 8), low := UInt8.ofNat pos }

/-- `crt[i] = v`. -/
def store (s : State) (i : ℕ) (v : UInt16) : State :=
  { s with crt := Function.update s.crt i v, written := s.written ++ [i] }

/-- `memmove(crt, crt + 80, sizeof(crt[0]) * 23 * 80)`. -/
def scrollUp (s : State) : State :=
  { s with
    crt := fun i => if i < 23 * 80 then s.crt (i + 80) else s.crt i
    written := s.written ++ List.range (23 * 80) }

/-- `for (int i = pos; i < pos + n; i++) crt[i] = v`. -/
def fill (v : UInt16) : ℕ → ℕ → State → State
  | 0, _, s => s
  | n + 1, i, s => fill v n (i + 1) (s.store i v)

/-- `(c & 0xff) | attr`. -/
def glyph (c : Int) (attr : UInt16) : UInt16 := UInt16.ofNat (c % 256).toNat ||| attr

/-- The character at the position, and the position after it. -/
def putChar (c : Int) (attr : UInt16) (s : State) : State × ℕ :=
  let pos := s.pos
  if c = NEWLINE then (s, pos + (80 - pos % 80))
  else if c = BACKSPACE then
    if 0 < pos then (s.store (pos - 1) (BLANK ||| attr), pos - 1) else (s, pos)
  else (s.store pos (glyph c attr), pos + 1)

/-- Past row 23 the rows move up, and what is behind the cursor is blanked. -/
def settle (attr : UInt16) (s : State) (pos : ℕ) : State :=
  if 24 ≤ pos / 80 then
    let pos := pos - 80
    (fill (BLANK ||| attr) (24 * 80 - pos) pos s.scrollUp).setPos pos
  else s.setPos pos

/-- `cgaputc`, with the attribute of the character. -/
def cgaputc (c : Int) (attr : UInt16) (s : State) : State :=
  settle attr (s.putChar c attr).1 (s.putChar c attr).2

/-- `uartputc`: the port takes one byte. -/
def uartputc (c : Int) (s : State) : State :=
  { s with serial := s.serial ++ [UInt8.ofNat (c % 256).toNat] }

/-- After a panic it does not return. -/
def consputc_color (s : State) (c : Int) (attr : UInt16) : Option State :=
  if s.panicked then none
  else if c = BACKSPACE then some (((s.uartputc 8).uartputc 32).uartputc 8 |>.cgaputc c attr)
  else some ((s.uartputc c).cgaputc c attr)

end State

/-- A call of `consputc`, with the value of `global_attr`. -/
structure Put where
  c : Int
  attr : UInt16

/-- A character on the screen, with its attribute. -/
def State.consputc (s : State) (p : Put) : Option State := s.consputc_color p.c p.attr

/-! ## The terminal -/

/-- The reference: a screen of 24 rows with a cursor. -/
structure Terminal where
  cell : Fin 24 → Fin 80 → UInt16
  row : Fin 24
  col : Fin 80

namespace Terminal

/-- All rows move up by one, and the last one is blank. -/
def scroll (t : Terminal) (blank : UInt16) : Fin 24 → Fin 80 → UInt16 := fun r c =>
  if h : r.val + 1 < 24 then t.cell ⟨r.val + 1, h⟩ c else blank

/-- The cursor goes to the start of the next row. -/
def nextRow (t : Terminal) (blank : UInt16) : Terminal :=
  if h : t.row.val + 1 < 24 then { t with row := ⟨t.row.val + 1, h⟩, col := 0 }
  else { t with cell := t.scroll blank, col := 0 }

/-- A cell is overwritten. -/
def write (t : Terminal) (r : Fin 24) (c : Fin 80) (v : UInt16) : Terminal :=
  { t with cell := fun r' c' => if r' = r ∧ c' = c then v else t.cell r' c' }

/-- The cursor steps right, and at the end of a row to the next one. -/
def right (t : Terminal) (blank : UInt16) : Terminal :=
  if h : t.col.val + 1 < 80 then { t with col := ⟨t.col.val + 1, h⟩ } else t.nextRow blank

/-- The cursor steps left, and at the start of a row to the end of the one above. -/
def left (t : Terminal) : Terminal :=
  if 0 < t.col.val then { t with col := ⟨t.col.val - 1, by omega⟩ }
  else if 0 < t.row.val then { t with row := ⟨t.row.val - 1, by omega⟩, col := 79 }
  else t

/-- A step back blanks the cell it arrives at; in the first cell there is no step back. -/
def back (t : Terminal) (blank : UInt16) : Terminal :=
  if t.row.val = 0 ∧ t.col.val = 0 then t else t.left.write t.left.row t.left.col blank

/-- What a terminal does with one character. -/
def put (t : Terminal) (p : Put) : Terminal :=
  let blank := BLANK ||| p.attr
  if p.c = NEWLINE then t.nextRow blank
  else if p.c = BACKSPACE then t.back blank
  else (t.write t.row t.col (State.glyph p.c p.attr)).right blank

/-- What a terminal does with a text. -/
def play (t : Terminal) (puts : List Put) : Terminal := puts.foldl put t

end Terminal

/-! ## The rows shown -/

/-- The screen shows what the terminal does. -/
structure Shows (s : State) (t : Terminal) : Prop where
  cell : ∀ r c, s.crt (80 * r.val + c.val) = t.cell r c
  pos : s.pos = 80 * t.row.val + t.col.val

/-- All that was written is in the 24 rows. -/
def Inside (s : State) : Prop := ∀ i ∈ s.written, i < 24 * 80

/-- The screen with the cursor at `pos`. -/
def start (crt : ℕ → UInt16) (pos : ℕ) : State :=
  State.setPos ⟨crt, 0, 0, [], [], false⟩ pos

/-- The terminal with these rows and the cursor there. -/
def terminal (crt : ℕ → UInt16) (pos : ℕ) (h : pos < 24 * 80) : Terminal where
  cell r c := crt (80 * r.val + c.val)
  row := ⟨pos / 80, by omega⟩
  col := ⟨pos % 80, by omega⟩

section
variable {s : State} {t : Terminal} {i n : ℕ} {v : UInt16}

/-- A position that fits into the two registers is read as it was written. -/
theorem pos_setPos (s : State) (h : n < 24 * 80) : (s.setPos n).pos = n := by
  unfold State.pos State.setPos
  have hhigh : (UInt8.ofNat (n >>> 8)).toNat = n / 256 := by
    rw [UInt8.toNat_ofNat', Nat.shiftRight_eq_div_pow]
    omega
  have hlow : (UInt8.ofNat n).toNat = n % 256 := UInt8.toNat_ofNat'
  dsimp only
  rw [hhigh, hlow, ← Nat.shiftLeft_add_eq_or_of_lt (Nat.mod_lt _ (by omega)), Nat.shiftLeft_eq]
  omega

/-! ## The stores -/

/-- A run of cells is filled and the others stay. -/
lemma crt_fill (v : UInt16) (n i : ℕ) (s : State) (j : ℕ) :
    (State.fill v n i s).crt j = if i ≤ j ∧ j < i + n then v else s.crt j := by
  induction n generalizing i s with
  | zero => rw [State.fill, if_neg (by omega)]
  | succ n ih =>
    rw [State.fill, ih]
    by_cases hj : j = i
    · subst hj
      rw [if_neg (by omega), if_pos (by omega)]
      exact Function.update_self _ _ _
    · have hkeep : (s.store i v).crt j = s.crt j := Function.update_of_ne hj _ _
      rw [hkeep]
      by_cases hin : i + 1 ≤ j ∧ j < i + 1 + n
      · rw [if_pos hin, if_pos (by omega)]
      · rw [if_neg hin, if_neg (by omega)]

lemma Inside.store (h : Inside s) (hi : i < 24 * 80) : Inside (s.store i v) := by
  intro j hj
  rcases List.mem_append.mp hj with hold | hnew
  · exact h j hold
  · rw [List.mem_singleton.mp hnew]
    exact hi

lemma Inside.fill (h : Inside s) (hn : i + n ≤ 24 * 80) : Inside (State.fill v n i s) := by
  induction n generalizing i s with
  | zero => exact h
  | succ n ih => exact ih (h.store (by omega)) (by omega)

/-- The move up a line stays on the screen. -/
lemma Inside.scrollUp (h : Inside s) : Inside s.scrollUp := by
  intro j hj
  rcases List.mem_append.mp hj with hold | hnew
  · exact h j hold
  · have := List.mem_range.mp hnew
    omega

/-! ## The end of `cgaputc` -/

/-- The cells of the screen are these. -/
def Cells (s : State) (cell : Fin 24 → Fin 80 → UInt16) : Prop :=
  ∀ r c, s.crt (80 * r.val + c.val) = cell r c

lemma Cells.store {cell : Fin 24 → Fin 80 → UInt16} (h : Cells s cell) (r : Fin 24) (c : Fin 80) :
    Cells (s.store (80 * r.val + c.val) v) (fun r' c' => if r' = r ∧ c' = c then v else cell r' c') := by
  intro r' c'
  show Function.update s.crt _ v _ = if r' = r ∧ c' = c then v else cell r' c'
  by_cases heq : r' = r ∧ c' = c
  · rw [if_pos heq, heq.1, heq.2, Function.update_self]
  · -- the row and the column can be read off the index
    have hne : 80 * r'.val + c'.val ≠ 80 * r.val + c.val := by
      intro hidx
      have hr : r'.val = r.val := by omega
      have hc : c'.val = c.val := by omega
      exact heq ⟨Fin.ext hr, Fin.ext hc⟩
    rw [if_neg heq, Function.update_of_ne hne]
    exact h r' c'

/-- The position is still on the screen. -/
lemma settle_shows (h : Cells s t.cell) (hn : n = 80 * t.row.val + t.col.val) (attr : UInt16) :
    Shows (State.settle attr s n) t := by
  unfold State.settle
  rw [if_neg (by omega)]
  refine ⟨h, ?_⟩
  rw [pos_setPos s (by omega)]
  exact hn

/-- The rows moved up, and the last one blanked. -/
lemma Cells.scroll (h : Cells s t.cell) (v : UInt16) :
    Cells (State.fill v (24 * 80 - 23 * 80) (23 * 80) s.scrollUp) (t.scroll v) := by
  intro r c
  rw [crt_fill]
  unfold Terminal.scroll
  by_cases hr : r.val + 1 < 24
  · rw [if_neg (by omega), dif_pos hr]
    show (if 80 * r.val + c.val < 23 * 80 then s.crt (80 * r.val + c.val + 80) else _) = _
    have hidx : 80 * r.val + c.val + 80 = 80 * (r.val + 1) + c.val := by omega
    rw [if_pos (by omega), hidx]
    exact h ⟨r.val + 1, hr⟩ c
  · rw [if_pos (by omega), dif_neg hr]

/-- The position is the start of the next row. -/
lemma settle_nextRow (h : Cells s t.cell) (hn : n = 80 * t.row.val + 80) (attr : UInt16) :
    Shows (State.settle attr s n) (t.nextRow (BLANK ||| attr)) := by
  unfold Terminal.nextRow
  by_cases hrow : t.row.val + 1 < 24
  · rw [dif_pos hrow]
    have hnext : n = 80 * (t.row.val + 1) + 0 := by omega
    exact settle_shows (t := { t with row := ⟨t.row.val + 1, hrow⟩, col := 0 }) h hnext attr
  · rw [dif_neg hrow]
    have hlast : n = 24 * 80 := by omega
    subst hlast
    have hpos : 24 * 80 - 80 = 80 * t.row.val + 0 := by omega
    refine ⟨h.scroll _, ?_⟩
    unfold State.settle
    rw [if_pos (by decide)]
    exact (pos_setPos _ (by decide)).trans hpos

/-- The cursor comes to rest on the screen. -/
lemma Inside.settle (h : Inside s) (attr : UInt16) (hn : n ≤ 24 * 80) :
    Inside (State.settle attr s n) := by
  unfold State.settle
  split
  · exact h.scrollUp.fill (by omega)
  · exact h

/-! ## One call -/

lemma cells_left (t : Terminal) : t.left.cell = t.cell := by
  unfold Terminal.left
  split
  · rfl
  · split <;> rfl

/-- Off the first cell, a step left is one position back. -/
lemma pos_left (h : 0 < 80 * t.row.val + t.col.val) :
    80 * t.left.row.val + t.left.col.val + 1 = 80 * t.row.val + t.col.val := by
  unfold Terminal.left
  by_cases hcol : 0 < t.col.val
  · rw [if_pos hcol]
    show 80 * t.row.val + (t.col.val - 1) + 1 = _
    omega
  · rw [if_neg hcol, if_pos (by omega)]
    show 80 * (t.row.val - 1) + 79 + 1 = _
    omega

lemma shows_back (h : Shows s t) {c : Int} (hc : c = BACKSPACE) (attr : UInt16) :
    Shows (s.cgaputc c attr) (t.back (BLANK ||| attr)) := by
  have hcells : Cells s t.cell := h.cell
  have hpos := h.pos
  have hother : c ≠ NEWLINE := by
    rw [hc]
    decide
  unfold State.cgaputc State.putChar Terminal.back
  simp only [if_neg hother, if_pos hc]
  by_cases hzero : t.row.val = 0 ∧ t.col.val = 0
  · rw [if_pos hzero, if_neg (by omega)]
    exact settle_shows hcells hpos attr
  · rw [if_neg hzero, if_pos (by omega)]
    have hleft := pos_left (t := t) (by omega)
    have hidx : s.pos - 1 = 80 * t.left.row.val + t.left.col.val := by omega
    have hcells' : Cells s t.left.cell := (cells_left t).symm ▸ hcells
    have hstored := hcells'.store (v := BLANK ||| attr) t.left.row t.left.col
    rw [← hidx] at hstored
    exact settle_shows (t := t.left.write t.left.row t.left.col (BLANK ||| attr)) hstored hidx attr

/-- A character and the way to the next place. -/
lemma shows_char (h : Shows s t) {c : Int} (hc : c ≠ NEWLINE) (hc' : c ≠ BACKSPACE) (attr : UInt16) :
    Shows (s.cgaputc c attr) ((t.write t.row t.col (State.glyph c attr)).right (BLANK ||| attr)) := by
  have hcells : Cells s t.cell := h.cell
  have hpos := h.pos
  have hstored := hcells.store (v := State.glyph c attr) t.row t.col
  rw [← hpos] at hstored
  unfold State.cgaputc State.putChar
  simp only [if_neg hc, if_neg hc']
  unfold Terminal.right
  by_cases hcol : t.col.val + 1 < 80
  · have hnext : s.pos + 1 = 80 * t.row.val + (t.col.val + 1) := by omega
    have hlt : (t.write t.row t.col (State.glyph c attr)).col.val + 1 < 80 := hcol
    rw [dif_pos hlt]
    exact settle_shows (t := { t.write t.row t.col (State.glyph c attr) with col := ⟨_, hlt⟩ })
      hstored hnext attr
  · have hend : ¬ (t.write t.row t.col (State.glyph c attr)).col.val + 1 < 80 := hcol
    have hnext : s.pos + 1 = 80 * t.row.val + 80 := by omega
    rw [dif_neg hend]
    exact settle_nextRow (t := t.write t.row t.col (State.glyph c attr)) hstored hnext attr

lemma shows_cgaputc (h : Shows s t) (p : Put) : Shows (s.cgaputc p.c p.attr) (t.put p) := by
  unfold Terminal.put
  dsimp only
  by_cases hnewline : p.c = NEWLINE
  · rw [if_pos hnewline]
    have hpos := h.pos
    have hnext : s.pos + (80 - s.pos % 80) = 80 * t.row.val + 80 := by omega
    unfold State.cgaputc State.putChar
    simp only [if_pos hnewline]
    exact settle_nextRow h.cell hnext p.attr
  rw [if_neg hnewline]
  by_cases hback : p.c = BACKSPACE
  · rw [if_pos hback]
    exact shows_back h hback p.attr
  · rw [if_neg hback]
    exact shows_char h hnewline hback p.attr

lemma Shows.pos_lt (h : Shows s t) : s.pos < 24 * 80 := by
  have := h.pos
  omega

/-- The character is stored on the screen, and the position is at most one row further. -/
theorem Inside.putChar (h : Inside s) (hpos : s.pos < 24 * 80) (c : Int) (attr : UInt16) :
    Inside (s.putChar c attr).1 ∧ (s.putChar c attr).2 ≤ 24 * 80 := by
  unfold State.putChar
  dsimp only
  split_ifs with hnewline hback hzero
  · exact ⟨h, by omega⟩
  · exact ⟨h.store (by omega), by omega⟩
  · exact ⟨h, by omega⟩
  · exact ⟨h.store hpos, by omega⟩

/-! ## Sequences of calls -/

/-- What a screen that shows a terminal is like. -/
structure Good (s : State) (t : Terminal) : Prop where
  shows : Shows s t
  inside : Inside s
  panicked : s.panicked = false

lemma panicked_fill (v : UInt16) (n i : ℕ) (s : State) : (State.fill v n i s).panicked = s.panicked := by
  induction n generalizing i s with
  | zero => rfl
  | succ n ih => exact ih (i + 1) (s.store i v)

lemma panicked_cgaputc (s : State) (c : Int) (attr : UInt16) :
    (s.cgaputc c attr).panicked = s.panicked := by
  have hsettle : ∀ s₁ n, (State.settle attr s₁ n).panicked = s₁.panicked := by
    intro s₁ n
    unfold State.settle
    split
    · exact panicked_fill _ _ _ _
    · rfl
  unfold State.cgaputc
  rw [hsettle]
  unfold State.putChar
  dsimp only
  split_ifs <;> rfl

/-- One character through `consputc`. -/
lemma Good.consputc (h : Good s t) (p : Put) : ∃ s', s.consputc p = some s' ∧ Good s' (t.put p) := by
  -- the serial line has nothing to do with the screen
  have hput : ∀ s₁ : State, s₁.crt = s.crt → s₁.pos = s.pos → s₁.written = s.written →
      s₁.panicked = false → Good (s₁.cgaputc p.c p.attr) (t.put p) := by
    intro s₁ hcrt hpos hwritten hpanicked
    have hshows : Shows s₁ t := ⟨hcrt ▸ h.shows.cell, hpos.trans h.shows.pos⟩
    have hinside : Inside s₁ := by
      unfold Inside
      rw [hwritten]
      exact h.inside
    obtain ⟨hin, hle⟩ := hinside.putChar hshows.pos_lt p.c p.attr
    exact ⟨shows_cgaputc hshows p, hin.settle p.attr hle, (panicked_cgaputc _ _ _).trans hpanicked⟩
  unfold State.consputc State.consputc_color
  rw [if_neg (by rw [h.panicked]; exact Bool.false_ne_true)]
  split
  · exact ⟨_, rfl, hput _ rfl rfl rfl h.panicked⟩
  · exact ⟨_, rfl, hput _ rfl rfl rfl h.panicked⟩

lemma good_start (crt : ℕ → UInt16) {pos : ℕ} (h : pos < 24 * 80) :
    Good (start crt pos) (terminal crt pos h) := by
  refine ⟨⟨fun r c => rfl, ?_⟩, fun i hi => absurd hi List.not_mem_nil, rfl⟩
  unfold start
  rw [pos_setPos _ h]
  exact (Nat.div_add_mod pos 80).symm

/-- **The screen is the terminal.** -/
theorem shows_run (crt : ℕ → UInt16) {pos : ℕ} (h : pos < 24 * 80) (puts : List Put) :
    ∃ s, Runs.run State.consputc (start crt pos) puts = some s ∧ s.pos < 24 * 80 ∧
      (∀ i ∈ s.written, i < 24 * 80) ∧ Shows s ((terminal crt pos h).play puts) := by
  suffices hrun : ∀ (s : State) (t : Terminal), Good s t →
      ∃ s', Runs.run State.consputc s puts = some s' ∧ Good s' (t.play puts) by
    obtain ⟨s, hs, hgood⟩ := hrun _ _ (good_start crt h)
    exact ⟨s, hs, hgood.shows.pos_lt, hgood.inside, hgood.shows⟩
  clear h
  induction puts with
  | nil => exact fun s t hgood => ⟨s, rfl, hgood⟩
  | cons p puts ih =>
    intro s t hgood
    obtain ⟨s₁, hs₁, hgood₁⟩ := hgood.consputc p
    obtain ⟨s₂, hs₂, hgood₂⟩ := ih s₁ (t.put p) hgood₁
    exact ⟨s₂, Runs.run_cons_eq_some.mpr ⟨s₁, hs₁, hs₂⟩, hgood₂⟩

/-- A character in the last cell scrolls the screen. -/
theorem shows_run_last : 24 * 80 - 1 < 24 * 80 ∧
    ∃ s, Runs.run State.consputc (start (fun _ => BLANK) (24 * 80 - 1)) [⟨65, 0x700⟩] = some s ∧
      s.pos < 24 * 80 ∧ (∀ i ∈ s.written, i < 24 * 80) ∧
      Shows s ((terminal (fun _ => BLANK) (24 * 80 - 1) (by decide)).play [⟨65, 0x700⟩]) :=
  ⟨by decide, shows_run (fun _ => BLANK) (by decide) [⟨65, 0x700⟩]⟩

end

end Cga
end Console
end OhMyXv6
