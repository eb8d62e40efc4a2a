import Mathlib.Data.List.InsertIdx
import OhMyXv6.Console.Draft
import OhMyXv6.Console.Stream

/-!
# Typing ahead

Between a history key and the shell's answer to it the user may go on typing. The answer clears the
line, and what was typed meanwhile is gone; if it was submitted, it is read before the recalled text.

To see what happens to it, each byte in the ring is marked with where it comes from. `Desk` is the
console as lists of marked bytes, and every operation of the console is a list operation on it.
-/

namespace OhMyXv6
namespace Console

open Input Sh

/-- Where a byte in the ring comes from. -/
inductive Origin where
  /-- The user has typed it: a printable byte, or Enter. -/
  | typed
  /-- Another key. -/
  | key
  /-- The answer with this number. -/
  | recalled (n : ℕ)
deriving DecidableEq

/-- A byte, and where it comes from. -/
abbrev Item := UInt8 × Origin

/-- The submitted bytes, the line, the cursor, and the number of answers so far. -/
structure Desk where
  pending : List Item
  line : List Item
  cursor : ℕ
  answers : ℕ

namespace Desk

/-- Nothing is pending, and the line is empty. -/
def empty : Desk := ⟨[], [], 0, 0⟩

/-- Everything that is to be read, in this order. -/
def all (d : Desk) : List Item := d.pending ++ d.line

/-- The arrow left. -/
def left (d : Desk) : Desk := { d with cursor := d.cursor - 1 }

/-- The arrow right. -/
def right (d : Desk) : Desk := { d with cursor := min (d.cursor + 1) d.line.length }

/-- What `clear` leaves of a line. -/
def kept (l : List Item) : List Item := l.rdropWhile fun x => x.1 ≠ chr '\n'

/-- `Ctrl-U`: what is not an answer of the shell is gone. -/
def clear (d : Desk) : Desk := { d with line := kept d.line, cursor := (kept d.line).length }

/-- There is room for one byte more in the input buffer. -/
def Room (d : Desk) : Prop := d.pending.length + d.line.length < 128

instance (d : Desk) : Decidable d.Room := inferInstanceAs (Decidable (_ < _))

/-- A byte at the end of the line, which is submitted. -/
def submit (d : Desk) (x : Item) : Desk :=
  if d.Room then { d with pending := d.pending ++ (d.line ++ [x]), line := [], cursor := 0 } else d

/-- A byte at the cursor. The line is submitted when the ring is full. -/
def insert (d : Desk) (x : Item) : Desk :=
  let line := d.line.insertIdx d.cursor x
  if d.pending.length + line.length = 128 then
    { d with pending := d.pending ++ line, line := [], cursor := 0 }
  else { d with line := line, cursor := d.cursor + 1 }

/-- Backspace: the byte in front of the cursor is gone. -/
def erase (d : Desk) : Desk :=
  { d with line := d.line.eraseIdx (d.cursor - 1), cursor := d.cursor - 1 }

/-- The mark of a byte that was typed. -/
def origin (c : UInt8) : Origin := if (32 ≤ c ∧ c ≤ 126) ∨ c = chr '\n' then .typed else .key

/-- `edit`, in cooked mode. -/
def edit (d : Desk) (c : UInt8) : Desk :=
  if c = ctrl 'U' then d.clear
  else if c = chr '\t' then d.submit (c, .key)
  else if c = ctrl 'P' ∨ c = ctrl 'N' then d.clear.submit (c, .key)
  else if c = ctrl 'H' ∨ c = DEL then if d.cursor = 0 then d.submit (c, .key) else d.erase
  else if c = 0 ∨ ¬ d.Room then d
  else
    let c := if c = chr '\r' then chr '\n' else c
    if c = chr '\n' ∨ c = ctrl 'D' then d.submit (c, origin c) else d.insert (c, origin c)

/-- What a key does to the desk. -/
def key (d : Desk) (c : UInt8) : Desk := if c = ctrl 'Z' then d else d.edit c

/-- `handle_input`, in the state `s` of the console. -/
def handle_input (s : Input) (d : Desk) (c : UInt8) : Desk :=
  if c = KEY_LF then d.left
  else if c = KEY_RT then d.right
  else if c = KEY_UP then d.key (ctrl 'P')
  else if c = KEY_DN then d.key (ctrl 'N')
  else if s.esc_state = 1 then d
  else if s.esc_state = 2 then
    if c = chr 'A' then d.key (ctrl 'P')
    else if c = chr 'B' then d.key (ctrl 'N')
    else if c = chr 'C' then d.right
    else if c = chr 'D' then d.left
    else d
  else if c = ESC then d
  else d.key c

/-- What the ring takes of the text of an answer. -/
def shown (d : Desk) (text : List UInt8) : List Item :=
  (text.take (127 - (d.pending.length + (kept d.line).length))).map fun c => (c, .recalled d.answers)

/-- `replace_input`. -/
def replace_input (d : Desk) (text : List UInt8) : Desk :=
  { d with
    line := kept d.line ++ d.shown text
    cursor := (kept d.line ++ d.shown text).length
    answers := d.answers + 1 }

end Desk

/-- The text that `replace_input` puts into the line: the string, or the draft. -/
def replacement (str : List UInt8) (s : Input) : List UInt8 :=
  let str := str.takeWhile (· ≠ 0)
  if str = [] ∧ s.history_draft_active then s.history_draft.takeWhile (· ≠ 0) else str

/-! ## The console, the shell and the user -/

/-- The console, the shell that waits in `getcmd`, and what is in the ring. -/
structure Watched (H : Type) where
  input : Input
  shell : Getcmd H
  desk : Desk

/-- A key comes in, the shell reads a byte, it calls `kbddecoy`, or it calls `getcmd` again. -/
inductive Move where
  | key (c : UInt8)
  | read
  | answer
  | again

/-- A step of console and shell, with the desk beside them. -/
def Watched.step {H : Type} (env : Env H) (S : Watched H) : Move → Option (Watched H)
  | .key c => some { S with
      input := S.input.handle_input c
      desk := S.desk.handle_input S.input c }
  | .read =>
    if S.shell.ret = none ∧ S.shell.decoy = none then
      match readLoop 1 1 S.input with
      | (s, [c], .done) => some
          ⟨s, S.shell.read env c, { S.desk with pending := S.desk.pending.tail }⟩
      | _ => none
    else none
  | .answer =>
    match S.shell.decoy with
    | none => none
    | some str => some
        ⟨replace_input str S.input, { S.shell with decoy := none },
          S.desk.replace_input (replacement str S.input)⟩
  | .again =>
    if S.shell.ret = none then none
    else some { S with shell := .start S.shell.hist S.shell.nbuf }

/-! ## The desk is what the ring holds -/

/-- The bytes of the desk are those of the ring. -/
def Mirrors (s : Input) (d : Desk) : Prop :=
  Cooked s (d.pending.map (·.1)) (d.line.map (·.1)) d.cursor

section
variable {s t : Input} {d : Desk} {c : UInt8}

/-- The marks do not matter to what clearing keeps. -/
lemma kept_map (l : List Item) : kept (l.map (·.1)) = (Desk.kept l).map (·.1) := by
  unfold kept Desk.kept List.rdropWhile
  rw [← List.map_reverse, List.dropWhile_map, List.map_reverse]
  rfl

lemma Mirrors.room_iff (h : Mirrors s d) : s.Room ↔ d.Room := by
  have hroom := h.line.room_iff
  rw [List.length_map, List.length_map] at hroom
  exact hroom

/-- Only flags have changed. -/
lemma Mirrors.flag (h : Mirrors s d) (hr : t.r = s.r) (hw : t.w = s.w) (he : t.e = s.e)
    (hcur : t.cur = s.cur) (hbuf : t.buf = s.buf) (hraw : t.raw = s.raw)
    (hn : t.entered = s.entered) : Mirrors t d :=
  Cooked.same h (h.line.same hr hw he hcur hbuf) hraw (by rw [he]) hn

lemma Mirrors.left (h : Mirrors s d) : Mirrors s.left d.left := by
  obtain ⟨-, he, hraw, hn⟩ := left_keeps s
  exact Cooked.same h h.line.left hraw (by rw [he]) hn

lemma Mirrors.right (h : Mirrors s d) : Mirrors s.right d.right := by
  obtain ⟨-, he, hraw, hn⟩ := right_keeps s
  have hline := h.line.right
  rw [List.length_map] at hline
  exact Cooked.same h hline hraw (by rw [he]) hn

lemma Mirrors.clear (h : Mirrors s d) : Mirrors s.clear d.clear := by
  have hclear := Cooked.clear h
  rw [kept_map, List.length_map] at hclear
  exact hclear

lemma Mirrors.submit (h : Mirrors s d) (hroom : s.Room) (hmax : s.entered + 1 < 2 ^ 32)
    (o : Origin) : Mirrors (s.submit c) (d.submit (c, o)) := by
  have hline := h.line.submit (h.line.room_iff.mp hroom) (h.max hmax) c
  have hle := h.entered
  unfold Desk.submit
  rw [if_pos (h.room_iff.mp hroom)]
  refine ⟨?_, h.raw, ?_⟩
  · simpa using hline
  · show (s.e + 1).toNat ≤ s.entered + 1
    rw [toNat_succ (h.max hmax)]
    omega

/-- The key is dropped when the ring is full. -/
lemma Mirrors.submitRoom (h : Mirrors s d) (o : Origin)
    (hmax : (if s.Room then s.submit c else s).entered < 2 ^ 32) :
    Mirrors (if s.Room then s.submit c else s) (d.submit (c, o)) := by
  by_cases hroom : s.Room
  · rw [if_pos hroom] at hmax ⊢
    exact h.submit hroom hmax o
  · rw [if_neg hroom]
    unfold Desk.submit
    rw [if_neg fun hr => hroom (h.room_iff.mpr hr)]
    exact h

lemma Mirrors.erase (h : Mirrors s d) (hcur : d.cursor ≠ 0) : Mirrors (s.erase c) d.erase := by
  have hne : s.cur ≠ s.w := fun heq => hcur (h.line.cur_eq_w.mp heq)
  obtain ⟨-, he, hraw, hn⟩ := erase_keeps c hne
  have hline := h.line.erase (Nat.pos_of_ne_zero hcur) c
  rw [List.eraseIdx_map] at hline
  have hpos : 0 < s.e.toNat := by
    have hse := h.line.e
    have hle := h.line.le
    omega
  refine Cooked.same h hline hraw ?_ hn
  rw [he, toNat_pred hpos]
  omega

/-- A byte at the cursor, by either of the two branches of `handle_input`. -/
theorem Mirrors.insert (h : Mirrors s d) (hroom : s.Room) (hmax : s.entered + 1 < 2 ^ 32)
    (o : Origin) : Mirrors (if s.cur = s.e then s.append c else s.insert c) (d.insert (c, o)) := by
  have hlen := h.line.room_iff.mp hroom
  have hle := h.entered
  -- both branches insert at the cursor
  have hline : Line (if s.cur = s.e then s.append c else s.insert c)
      (autoSubmit (d.pending.map (·.1)) ((d.line.map (·.1)).insertIdx d.cursor c) (d.cursor + 1)).1
      (autoSubmit (d.pending.map (·.1)) ((d.line.map (·.1)).insertIdx d.cursor c) (d.cursor + 1)).2.1
      (autoSubmit (d.pending.map (·.1)) ((d.line.map (·.1)).insertIdx d.cursor c) (d.cursor + 1)).2.2 := by
    by_cases hend : s.cur = s.e
    · have hcur := h.line.cur_eq_e.mp hend
      have happ := h.line.append hlen (h.max hmax) c
      rw [if_pos hend, hcur, List.insertIdx_length_self]
      exact happ
    · rw [if_neg hend]
      exact h.line.insert hlen (h.max hmax) c
  have hkeeps : (if s.cur = s.e then s.append c else s.insert c).raw = s.raw ∧
      (if s.cur = s.e then s.append c else s.insert c).e = s.e + 1 ∧
      (if s.cur = s.e then s.append c else s.insert c).entered = s.entered + 1 := by
    split
    · exact (append_keeps s c).2
    · exact (insert_keeps s c).2
  obtain ⟨hraw, he, hn⟩ := hkeeps
  have hent : (if s.cur = s.e then s.append c else s.insert c).e.toNat ≤
      (if s.cur = s.e then s.append c else s.insert c).entered := by
    rw [he, hn, toNat_succ (h.max hmax)]
    omega
  have hmap : (d.line.map (·.1)).insertIdx d.cursor c =
      (d.line.insertIdx d.cursor (c, o)).map (·.1) := by
    rw [List.map_insertIdx]
  rw [hmap] at hline
  unfold autoSubmit at hline
  unfold Desk.insert
  dsimp only
  rw [List.length_map, List.length_map] at hline
  by_cases hfull : d.pending.length + (d.line.insertIdx d.cursor (c, o)).length = 128
  · rw [if_pos hfull] at hline ⊢
    refine ⟨?_, by rw [hraw, h.raw], hent⟩
    simpa using hline
  · rw [if_neg hfull] at hline ⊢
    exact ⟨hline, by rw [hraw, h.raw], hent⟩

lemma Mirrors.enter (h : Mirrors s d) (hroom : s.Room) (hmax : s.entered + 1 < 2 ^ 32)
    (o : Origin) : Mirrors (s.enter c) (d.submit (c, o)) := by
  obtain ⟨hr, hraw, hn⟩ := toEnd_keeps s
  have hline := h.line.enter (h.line.room_iff.mp hroom) (h.max hmax) c
  have hle := h.entered
  unfold Desk.submit
  rw [if_pos (h.room_iff.mp hroom)]
  refine ⟨?_, hraw.trans h.raw, ?_⟩
  · simpa using hline
  · show (s.toEnd.e + 1).toNat ≤ s.toEnd.entered + 1
    rw [toEnd_e, hn, toNat_succ (h.max hmax)]
    omega

lemma Mirrors.edit (h : Mirrors s d) (hmax : (s.edit c).entered < 2 ^ 32) :
    Mirrors (s.edit c) (d.edit c) := by
  unfold Input.edit at hmax ⊢
  unfold Desk.edit
  by_cases hu : c = ctrl 'U'
  · rw [if_pos hu, if_pos hu]
    exact h.clear.flag rfl rfl rfl rfl rfl rfl rfl
  rw [if_neg hu] at hmax ⊢
  rw [if_neg hu]
  -- Tab, Ctrl-P and Ctrl-N submit a byte if there is room
  by_cases ht : c = chr '\t'
  · rw [if_pos ht] at hmax ⊢
    rw [if_pos ht]
    exact h.submitRoom .key hmax
  rw [if_neg ht] at hmax ⊢
  rw [if_neg ht]
  by_cases hp : c = ctrl 'P' ∨ c = ctrl 'N'
  · rw [if_pos hp] at hmax ⊢
    rw [if_pos hp]
    have hdraft : Mirrors (if s.history_draft_active then s else s.save_history_draft) d := by
      split
      · exact h
      · exact h.flag rfl rfl rfl rfl rfl rfl rfl
    exact hdraft.clear.submitRoom .key hmax
  rw [if_neg hp] at hmax ⊢
  rw [if_neg hp]
  by_cases hb : c = ctrl 'H' ∨ c = DEL
  · rw [if_pos hb] at hmax ⊢
    rw [if_pos hb]
    -- an erase at the start of the line is handed to the reader
    by_cases hcur : d.cursor = 0
    · have hw : s.cur = s.w := h.line.cur_eq_w.mpr hcur
      unfold Input.erase at hmax ⊢
      rw [if_pos hw] at hmax ⊢
      rw [if_pos hcur]
      exact h.submitRoom .key hmax
    · rw [if_neg hcur]
      exact h.erase hcur
  rw [if_neg hb] at hmax ⊢
  rw [if_neg hb]
  -- NUL and a full ring are ignored
  by_cases hbusy : c = 0 ∨ ¬ s.Room
  · have hbusy' : c = 0 ∨ ¬ d.Room := by
      rw [← h.room_iff]
      exact hbusy
    rw [if_pos hbusy, if_pos hbusy']
    exact h
  have hbusy' : ¬ (c = 0 ∨ ¬ d.Room) := by
    rw [← h.room_iff]
    exact hbusy
  have hroom : s.Room := by
    by_contra hno
    exact hbusy (.inr hno)
  rw [if_neg hbusy] at hmax ⊢
  rw [if_neg hbusy']
  dsimp only at hmax ⊢
  generalize (if c = chr '\r' then chr '\n' else c) = k at hmax ⊢
  by_cases hend : k = chr '\n' ∨ k = ctrl 'D'
  · rw [if_pos hend] at hmax ⊢
    rw [if_pos hend]
    have hn : (s.enter k).entered = s.entered + 1 := by
      show s.toEnd.entered + 1 = _
      rw [(toEnd_keeps s).2.2]
    exact h.enter hroom (by omega) _
  · rw [if_neg hend] at hmax ⊢
    rw [if_neg hend]
    have hn : (if s.cur = s.e then s.append k else s.insert k).entered = s.entered + 1 := by
      split
      · exact (append_keeps s k).2.2.2
      · exact (insert_keeps s k).2.2.2
    exact h.insert hroom (by omega) _

lemma Mirrors.key (h : Mirrors s d) (hmax : (s.key c).entered < 2 ^ 32) :
    Mirrors (s.key c) (d.key c) := by
  unfold Input.key at hmax ⊢
  unfold Desk.key
  by_cases hz : c = ctrl 'Z'
  · rw [if_pos hz, if_pos hz]
    exact h
  · rw [if_neg hz, h.raw, if_neg fun hr => Bool.false_ne_true hr.1] at hmax
    rw [if_neg hz, if_neg hz, h.raw, if_neg fun hr => Bool.false_ne_true hr.1]
    exact h.edit hmax

lemma Mirrors.handle_input (h : Mirrors s d) (hmax : (s.handle_input c).entered < 2 ^ 32) :
    Mirrors (s.handle_input c) (d.handle_input s c) := by
  have hesc : ∀ n, Mirrors { s with esc_state := n } d := fun n => h.flag rfl rfl rfl rfl rfl rfl rfl
  unfold Input.handle_input at hmax ⊢
  unfold Desk.handle_input
  by_cases h1 : c = KEY_LF
  · rw [if_pos h1, if_pos h1]
    exact h.left
  rw [if_neg h1] at hmax ⊢
  rw [if_neg h1]
  by_cases h2 : c = KEY_RT
  · rw [if_pos h2, if_pos h2]
    exact h.right
  rw [if_neg h2] at hmax ⊢
  rw [if_neg h2]
  by_cases h3 : c = KEY_UP
  · rw [if_pos h3] at hmax ⊢
    rw [if_pos h3]
    exact h.key hmax
  rw [if_neg h3] at hmax ⊢
  rw [if_neg h3]
  by_cases h4 : c = KEY_DN
  · rw [if_pos h4] at hmax ⊢
    rw [if_pos h4]
    exact h.key hmax
  rw [if_neg h4] at hmax ⊢
  rw [if_neg h4]
  by_cases h5 : s.esc_state = 1
  · rw [if_pos h5, if_pos h5]
    exact hesc _
  rw [if_neg h5] at hmax ⊢
  rw [if_neg h5]
  by_cases h6 : s.esc_state = 2
  · -- the end of an escape sequence
    rw [if_pos h6] at hmax ⊢
    rw [if_pos h6]
    dsimp only at hmax ⊢
    by_cases hA : c = chr 'A'
    · rw [if_pos hA] at hmax ⊢
      rw [if_pos hA]
      exact (hesc 0).key hmax
    rw [if_neg hA] at hmax ⊢
    rw [if_neg hA]
    by_cases hB : c = chr 'B'
    · rw [if_pos hB] at hmax ⊢
      rw [if_pos hB]
      exact (hesc 0).key hmax
    rw [if_neg hB, if_neg hB]
    by_cases hC : c = chr 'C'
    · rw [if_pos hC, if_pos hC]
      exact (hesc 0).right
    rw [if_neg hC, if_neg hC]
    by_cases hD : c = chr 'D'
    · rw [if_pos hD, if_pos hD]
      exact (hesc 0).left
    rw [if_neg hD, if_neg hD]
    exact hesc 0
  rw [if_neg h6] at hmax ⊢
  rw [if_neg h6]
  by_cases h7 : c = ESC
  · rw [if_pos h7, if_pos h7]
    exact hesc 1
  rw [if_neg h7] at hmax ⊢
  rw [if_neg h7]
  exact h.key hmax

/-- The shell reads the first byte. -/
lemma Mirrors.read {x : Item} {P : List Item} (h : Mirrors s d) (hd : d.pending = x :: P) :
    readLoop 1 1 s = ({ s with r := s.r + 1 }, [x.1], .done) ∧
      Mirrors { s with r := s.r + 1 } { d with pending := P } := by
  have hcooked : Cooked s (x.1 :: P.map (·.1)) (d.line.map (·.1)) d.cursor := by
    have hall := h
    unfold Mirrors at hall
    rw [hd, List.map_cons] at hall
    exact hall
  have hne : s.r ≠ s.w := fun heq =>
    absurd (hcooked.line.r_eq_w.mp heq) (List.cons_ne_nil _ _)
  refine ⟨?_, hcooked.line.take, h.raw, h.entered⟩
  rw [readLoop_one hne, hcooked.line.get_r]

/-- As many bytes as there is room for. -/
lemma take_filled (P T cs : List UInt8) :
    cs.take (filled P T cs) = cs.take (127 - (P.length + T.length)) := by
  unfold filled
  rcases Nat.le_total cs.length (127 - (P.length + T.length)) with hle | hle
  · rw [Nat.min_eq_left hle, List.take_of_length_le (Nat.le_refl _), List.take_of_length_le hle]
  · rw [Nat.min_eq_right hle]

lemma Mirrors.replace_input (h : Mirrors s d) (str : List UInt8)
    (hmax : (Input.replace_input str s).entered < 2 ^ 32) :
    Mirrors (Input.replace_input str s) (d.replace_input (replacement str s)) := by
  have hfill : ∀ (cs : List UInt8) (u : Input), Mirrors u d → (fill cs u.clear).entered < 2 ^ 32 →
      Mirrors (fill cs u.clear) (d.replace_input cs) := by
    intro cs u hu hn
    have hcooked := Cooked.fill cs (P := d.pending.map (·.1)) (T := (Desk.kept d.line).map (·.1))
      (by rw [List.length_map]; exact hu.clear) hn
    rw [take_filled, List.length_map, List.length_map] at hcooked
    have hline : (Desk.kept d.line ++ d.shown cs).map (·.1) = (Desk.kept d.line).map (·.1) ++
        cs.take (127 - (d.pending.length + (Desk.kept d.line).length)) := by
      unfold Desk.shown
      rw [List.map_append, List.map_map]
      simp [Function.comp_def]
    have hlen : (Desk.kept d.line ++ d.shown cs).length = ((Desk.kept d.line).map (·.1) ++
        cs.take (127 - (d.pending.length + (Desk.kept d.line).length))).length := by
      rw [← hline, List.length_map]
    unfold Mirrors Desk.replace_input
    dsimp only
    rw [hlen, hline]
    exact hcooked
  have hsaved : ∀ (p : Prop) [Decidable p], Mirrors (if p then s.save_history_draft else s) d := by
    intro p _
    split
    · exact h.flag rfl rfl rfl rfl rfl rfl rfl
    · exact h
  unfold Input.replace_input at hmax ⊢
  dsimp only at hmax ⊢
  split
  · next hrestart =>
    rw [if_pos hrestart] at hmax
    exact (hfill _ _ (hsaved _) hmax).flag rfl rfl rfl rfl rfl rfl rfl
  · next hrestart =>
    rw [if_neg hrestart] at hmax
    exact hfill _ _ (hsaved _) hmax

end

/-! ## What becomes of the bytes -/

/-- The bytes that the user has typed, in the order in which they will be read. -/
def Desk.typed (d : Desk) : List Item := d.all.filter fun x => x.2 = .typed

/-- The text of the answers that are still to come is not there yet. -/
def Desk.Fresh (d : Desk) : Prop := ∀ x ∈ d.all, ∀ n, x.2 = .recalled n → n < d.answers

/-- Backspace, Ctrl-U and the history keys. -/
def Erases (k : UInt8) : Prop := k = ctrl 'H' ∨ k = DEL ∨ k = ctrl 'U' ∨ k = ctrl 'P' ∨ k = ctrl 'N'

section
variable {d : Desk} {x : Item} {k : UInt8}

lemma sublist_submit : d.all.Sublist (d.submit x).all := by
  unfold Desk.submit
  split
  · show (d.pending ++ d.line).Sublist (d.pending ++ (d.line ++ [x]) ++ [])
    rw [List.append_nil, ← List.append_assoc]
    exact List.sublist_append_left _ _
  · exact List.Sublist.refl _

lemma sublist_insert : d.all.Sublist (d.insert x).all := by
  have hline : (d.pending ++ d.line).Sublist (d.pending ++ d.line.insertIdx d.cursor x) :=
    (List.sublist_insertIdx d.line d.cursor x).append_left d.pending
  unfold Desk.insert
  dsimp only
  split
  · show (d.pending ++ d.line).Sublist (d.pending ++ d.line.insertIdx d.cursor x ++ [])
    rw [List.append_nil]
    exact hline
  · exact hline

/-- Other keys leave everything where it is. -/
lemma sublist_key (hk : ¬ Erases k) : d.all.Sublist (d.key k).all := by
  simp only [Erases, not_or] at hk
  obtain ⟨hh, hdel, hu, hp, hn⟩ := hk
  unfold Desk.key
  split
  · exact List.Sublist.refl _
  · unfold Desk.edit
    rw [if_neg hu]
    split
    · exact sublist_submit
    rw [if_neg (not_or.mpr ⟨hp, hn⟩), if_neg (not_or.mpr ⟨hh, hdel⟩)]
    split
    · exact List.Sublist.refl _
    · dsimp only
      generalize (if k = chr '\r' then chr '\n' else k) = c
      split
      · exact sublist_submit
      · exact sublist_insert

lemma kept_front (l : List Item) : Desk.kept l <+: l := List.rdropWhile_prefix _ l

lemma fresh_clear (h : d.Fresh) : d.clear.Fresh := by
  intro y hy
  rcases List.mem_append.mp hy with hy | hy
  · exact h y (List.mem_append_left _ hy)
  · exact h y (List.mem_append_right _ ((kept_front d.line).subset hy))

lemma fresh_submit (h : d.Fresh) (hx : ∀ n, x.2 ≠ .recalled n) : (d.submit x).Fresh := by
  unfold Desk.submit
  split
  · intro y hy n hn
    simp only [Desk.all, List.append_nil, List.mem_append, List.mem_singleton] at hy
    rcases hy with hy | hy | rfl
    · exact h y (List.mem_append_left _ hy) n hn
    · exact h y (List.mem_append_right _ hy) n hn
    · exact absurd hn (hx n)
  · exact h

lemma fresh_insert (h : d.Fresh) (hx : ∀ n, x.2 ≠ .recalled n) : (d.insert x).Fresh := by
  have hall : ∀ y ∈ d.pending ++ d.line.insertIdx d.cursor x, ∀ n, y.2 = .recalled n → n < d.answers := by
    intro y hy n hn
    rcases List.mem_append.mp hy with hy | hy
    · exact h y (List.mem_append_left _ hy) n hn
    · rcases List.eq_or_mem_of_mem_insertIdx hy with rfl | hy
      · exact absurd hn (hx n)
      · exact h y (List.mem_append_right _ hy) n hn
  unfold Desk.insert
  dsimp only
  split
  · intro y hy
    simp only [Desk.all, List.append_nil] at hy
    exact hall y hy
  · exact hall

lemma fresh_erase (h : d.Fresh) : d.erase.Fresh := by
  intro y hy
  rcases List.mem_append.mp hy with hy | hy
  · exact h y (List.mem_append_left _ hy)
  · exact h y (List.mem_append_right _ (List.mem_of_mem_eraseIdx hy))

/-- What is typed was not recalled. -/
lemma origin_ne (c : UInt8) (n : ℕ) : Desk.origin c ≠ .recalled n := by
  unfold Desk.origin
  split
  · exact nofun
  · exact nofun

lemma fresh_key (h : d.Fresh) : (d.key k).Fresh := by
  have hkey : ∀ n, Origin.key ≠ .recalled n := fun _ => nofun
  unfold Desk.key
  split
  · exact h
  unfold Desk.edit
  split
  · exact fresh_clear h
  split
  · exact fresh_submit h hkey
  split
  · exact fresh_submit (fresh_clear h) hkey
  split
  · split
    · exact fresh_submit h hkey
    · exact fresh_erase h
  split
  · exact h
  · dsimp only
    generalize (if k = chr '\r' then chr '\n' else k) = c
    have horigin : ∀ n, (c, Desk.origin c).2 ≠ .recalled n := origin_ne c
    split
    · exact fresh_submit h horigin
    · exact fresh_insert h horigin

/-- A key moves the cursor, does nothing, or is passed on. -/
lemma desk_handle_input (s : Input) (d : Desk) (c : UInt8) :
    (d.handle_input s c).all = d.all ∧ (d.handle_input s c).answers = d.answers ∨
      ∃ k, decoded s c = some k ∧ d.handle_input s c = d.key k := by
  unfold Desk.handle_input decoded
  by_cases h1 : c = KEY_LF
  · rw [if_pos h1]
    exact .inl ⟨rfl, rfl⟩
  by_cases h2 : c = KEY_RT
  · rw [if_neg h1, if_pos h2]
    exact .inl ⟨rfl, rfl⟩
  rw [if_neg h1, if_neg h2, if_neg (not_or.mpr ⟨h1, h2⟩)]
  by_cases h3 : c = KEY_UP
  · rw [if_pos h3, if_pos h3]
    exact .inr ⟨ctrl 'P', rfl, rfl⟩
  rw [if_neg h3, if_neg h3]
  by_cases h4 : c = KEY_DN
  · rw [if_pos h4, if_pos h4]
    exact .inr ⟨ctrl 'N', rfl, rfl⟩
  rw [if_neg h4, if_neg h4]
  by_cases h5 : s.esc_state = 1
  · rw [if_pos h5]
    exact .inl ⟨rfl, rfl⟩
  rw [if_neg h5, if_neg h5]
  by_cases h6 : s.esc_state = 2
  · rw [if_pos h6, if_pos h6]
    by_cases hA : c = chr 'A'
    · rw [if_pos hA, if_pos hA]
      exact .inr ⟨ctrl 'P', rfl, rfl⟩
    by_cases hB : c = chr 'B'
    · rw [if_neg hA, if_neg hA, if_pos hB, if_pos hB]
      exact .inr ⟨ctrl 'N', rfl, rfl⟩
    -- the arrows to the left and to the right, and sequences that mean nothing
    rw [if_neg hA, if_neg hB]
    refine .inl ?_
    split
    · exact ⟨rfl, rfl⟩
    split
    · exact ⟨rfl, rfl⟩
    · exact ⟨rfl, rfl⟩
  rw [if_neg h6, if_neg h6]
  by_cases h7 : c = ESC
  · rw [if_pos h7]
    exact .inl ⟨rfl, rfl⟩
  · rw [if_neg h7, if_neg h7]
    exact .inr ⟨c, rfl, rfl⟩

lemma fresh_handle_input {s : Input} {c : UInt8} (h : d.Fresh) : (d.handle_input s c).Fresh := by
  rcases desk_handle_input s d c with ⟨hall, hans⟩ | ⟨k, -, hkey⟩
  · intro y hy
    rw [hall] at hy
    rw [hans]
    exact h y hy
  · rw [hkey]
    exact fresh_key h

/-- An answer is marked as its own. -/
lemma fresh_replace_input (h : d.Fresh) (text : List UInt8) : (d.replace_input text).Fresh := by
  intro y hy n hn
  show n < d.answers + 1
  rcases List.mem_append.mp hy with hy | hy
  · exact Nat.lt_succ_of_lt (h y (List.mem_append_left _ hy) n hn)
  rcases List.mem_append.mp hy with hy | hy
  · exact Nat.lt_succ_of_lt (h y (List.mem_append_right _ ((kept_front d.line).subset hy)) n hn)
  · obtain ⟨c, -, rfl⟩ := List.mem_map.mp hy
    cases hn
    exact Nat.lt_succ_self _

/-- What was typed is neither in the part of the line that an answer clears, nor in front of the text
that it shows. -/
structure Desk.Undisturbed (d : Desk) (text : List UInt8) : Prop where
  cleared : ∀ x ∈ d.line.drop (Desk.kept d.line).length, x.2 ≠ .typed
  front : d.shown text = [] ∨ ∀ x ∈ d.pending ++ Desk.kept d.line, x.2 ≠ .typed

/-- An answer leaves what was typed where it is, and the text in front of it, exactly when it finds
nothing of it. -/
theorem answer_iff (h : d.Fresh) (text : List UInt8) :
    ((d.replace_input text).typed = d.typed ∧ (d.replace_input text).all.Pairwise
      fun x y => x.2 = .typed → y.2 ≠ .recalled d.answers) ↔ d.Undisturbed text := by
  have hline : d.line = Desk.kept d.line ++ d.line.drop (Desk.kept d.line).length := by
    rw [List.prefix_iff_eq_append.mp (kept_front d.line)]
  have hshown : ∀ y ∈ d.shown text, y.2 = .recalled d.answers := by
    intro y hy
    obtain ⟨c, -, rfl⟩ := List.mem_map.mp hy
    rfl
  -- nothing of the answer was typed
  have hnew : (d.shown text).filter (fun x => x.2 = .typed) = [] := by
    rw [List.filter_eq_nil_iff]
    intro y hy
    simp [hshown y hy]
  have hafter : (d.replace_input text).all = (d.pending ++ Desk.kept d.line) ++ d.shown text := by
    simp [Desk.all, Desk.replace_input]
  have hbefore : d.all = (d.pending ++ Desk.kept d.line) ++ d.line.drop (Desk.kept d.line).length := by
    rw [List.append_assoc, ← hline]
    rfl
  have htyped : (d.replace_input text).typed = d.typed ↔
      ∀ x ∈ d.line.drop (Desk.kept d.line).length, x.2 ≠ .typed := by
    unfold Desk.typed
    rw [hafter, hbefore, List.filter_append (d.pending ++ _), List.filter_append (d.pending ++ _), hnew,
      List.append_cancel_left_eq, eq_comm, List.filter_eq_nil_iff]
    simp
  -- no earlier byte carries the number of this answer
  have hold : ∀ y ∈ d.pending ++ Desk.kept d.line, y.2 ≠ .recalled d.answers := by
    intro y hy heq
    have hin : y ∈ d.all := by
      rw [hbefore]
      exact List.mem_append_left _ hy
    exact Nat.lt_irrefl _ (h y hin d.answers heq)
  -- the answer comes last, so only what stays in front can be late
  have horder : ((d.replace_input text).all.Pairwise
      fun x y => x.2 = .typed → y.2 ≠ .recalled d.answers) ↔
        (d.shown text = [] ∨ ∀ x ∈ d.pending ++ Desk.kept d.line, x.2 ≠ .typed) := by
    rw [hafter, List.pairwise_append]
    constructor
    · intro hpair
      by_cases hnil : d.shown text = []
      · exact .inl hnil
      · refine .inr fun x hx hxt => ?_
        obtain ⟨y, hy⟩ := List.exists_mem_of_ne_nil _ hnil
        exact hpair.2.2 x hx y hy hxt (hshown y hy)
    · intro hor
      refine ⟨?_, ?_, ?_⟩
      · exact List.pairwise_of_forall_mem_list fun x _ y hy _ => hold y hy
      · refine List.pairwise_of_forall_mem_list fun x hx y _ hxt => ?_
        rw [hshown x hx] at hxt
        cases hxt
      · intro x hx y hy hxt
        rcases hor with hnil | hnone
        · rw [hnil] at hy
          cases hy
        · exact absurd hxt (hnone x hx)
  rw [htyped, horder]
  constructor
  · exact fun hboth => ⟨hboth.1, hboth.2⟩
  · exact fun hu => ⟨hu.cleared, hu.front⟩

end

/-! ## Runs -/

section
variable {H : Type} (env : Env H)

/-- Nothing was typed yet. -/
def Watched.start (s : Input) (hist : H) (nbuf : ℕ) : Watched H := ⟨s, .start hist nbuf, .empty⟩

/-- A key removes typed bytes only if it is one of those that erase; a byte is read only from the front
of the ring; and an answer neither removes typed bytes, nor puts its text behind one. -/
def Stays (S : Watched H) (a : Move) (S' : Watched H) : Prop :=
  match a with
  | .key c => (∃ k, decoded S.input c = some k ∧ Erases k) ∨ S.desk.typed.Sublist S'.desk.typed
  | .read => ∃ x, S.desk.all = x :: S'.desk.all ∧ S'.shell = S.shell.read env x.1
  | .answer => S'.desk.typed = S.desk.typed ∧
      S'.desk.all.Pairwise fun x y => x.2 = .typed → y.2 ≠ .recalled S.desk.answers
  | .again => S'.desk = S.desk

/-- The desk is what the ring holds, until the indices wrap around. -/
structure Watching (S : Watched H) : Prop where
  mirrors : S.input.entered < 2 ^ 32 → Mirrors S.input S.desk
  fresh : S.desk.Fresh

variable {env} {S S' : Watched H} {a : Move}

lemma step_read (h : S.step env .read = some S') : S.input.r ≠ S.input.w ∧
    S' = ⟨{ S.input with r := S.input.r + 1 }, S.shell.read env (S.input.get S.input.r),
      { S.desk with pending := S.desk.pending.tail }⟩ := by
  unfold Watched.step at h
  dsimp only at h
  by_cases hready : S.shell.ret = none ∧ S.shell.decoy = none
  · rw [if_pos hready] at h
    by_cases hrw : S.input.r = S.input.w
    · have hsleep : readLoop 1 1 S.input = (S.input, [], .sleep 1) := by
        unfold readLoop
        rw [if_pos hrw]
      rw [hsleep] at h
      cases h
    · rw [readLoop_one hrw] at h
      exact ⟨hrw, (Option.some.inj h).symm⟩
  · rw [if_neg hready] at h
    cases h

lemma step_answer (h : S.step env .answer = some S') : ∃ str, S.shell.decoy = some str ∧
    S' = ⟨replace_input str S.input, { S.shell with decoy := none },
      S.desk.replace_input (replacement str S.input)⟩ := by
  unfold Watched.step at h
  dsimp only at h
  cases hdecoy : S.shell.decoy with
  | none =>
    rw [hdecoy] at h
    cases h
  | some str =>
    rw [hdecoy] at h
    exact ⟨str, rfl, (Option.some.inj h).symm⟩

lemma step_again (h : S.step env .again = some S') :
    S' = { S with shell := .start S.shell.hist S.shell.nbuf } := by
  unfold Watched.step at h
  dsimp only at h
  split at h
  · cases h
  · exact (Option.some.inj h).symm

/-- A byte that is read is the first of the desk. -/
lemma Watching.read (h : Watching S) (hstep : S.step env .read = some S')
    (hmax : S.input.entered < 2 ^ 32) : ∃ x P, S.desk.pending = x :: P ∧ S.input.get S.input.r = x.1 ∧
      Mirrors S'.input S'.desk := by
  obtain ⟨hrw, rfl⟩ := step_read hstep
  have hmirrors := h.mirrors hmax
  cases hpending : S.desk.pending with
  | nil =>
    have hline := hmirrors.line
    rw [hpending, List.map_nil] at hline
    exact absurd (hline.r_eq_w.mpr rfl) hrw
  | cons x P =>
    obtain ⟨hread, hnext⟩ := hmirrors.read hpending
    rw [readLoop_one hrw] at hread
    refine ⟨x, P, rfl, (List.cons.inj (Prod.mk.inj (Prod.mk.inj hread).2).1).1, ?_⟩
    exact hnext

lemma Watching.step (h : Watching S) (hstep : S.step env a = some S') : Watching S' := by
  cases a with
  | key c =>
    obtain rfl := (Option.some.inj hstep).symm
    refine ⟨fun hmax => ?_, fresh_handle_input h.fresh⟩
    have hle := entered_le_handle_input S.input c
    exact (h.mirrors (Nat.lt_of_le_of_lt hle hmax)).handle_input hmax
  | read =>
    refine ⟨fun hmax => ?_, ?_⟩
    · have hsame : S'.input.entered = S.input.entered := by
        obtain ⟨-, rfl⟩ := step_read hstep
        rfl
      obtain ⟨x, P, -, -, hmirrors⟩ := h.read hstep (by omega)
      exact hmirrors
    · obtain ⟨-, rfl⟩ := step_read hstep
      intro y hy
      rcases List.mem_append.mp hy with hy | hy
      · exact h.fresh y (List.mem_append_left _ (List.mem_of_mem_tail hy))
      · exact h.fresh y (List.mem_append_right _ hy)
  | answer =>
    obtain ⟨str, -, rfl⟩ := step_answer hstep
    refine ⟨fun hmax => ?_, fresh_replace_input h.fresh _⟩
    have hle := entered_le_replace_input S.input str
    exact (h.mirrors (Nat.lt_of_le_of_lt hle hmax)).replace_input str hmax
  | again =>
    obtain rfl := step_again hstep
    exact ⟨h.mirrors, h.fresh⟩

lemma watching_start {s : Input} {hist : H} {nbuf : ℕ} (h : Idle s) (hent : s.e.toNat ≤ s.entered) :
    Watching (.start s hist nbuf) := by
  refine ⟨fun _ => ⟨⟨?_, ?_, ?_, Nat.le_refl _, Nat.zero_le _, Ring.holds_nil⟩, h.raw, hent⟩, nofun⟩
  · show s.w.toNat = s.r.toNat + 0
    rw [h.w, Nat.add_zero]
  · show s.e.toNat = s.w.toNat + 0
    rw [h.e, h.w, Nat.add_zero]
  · show s.cur.toNat = s.w.toNat + 0
    rw [h.cur, h.w, Nat.add_zero]

/-- **No keystroke is lost to a pending recall**, in any run, exactly when each answer finds nothing
that was typed after the history key: not in the line, and not submitted in front of its text. The desk
is what the ring holds all the time. -/
theorem no_keystroke_lost {s : Input} {hist : H} {nbuf : ℕ} {as : List Move} (hidle : Idle s)
    (hent : s.e.toNat ≤ s.entered)
    (hrun : Runs.run (Watched.step env) (.start s hist nbuf) as = some S)
    (hstep : S.step env a = some S') (hmax : S'.input.entered < 2 ^ 32) :
    Mirrors S'.input S'.desk ∧
      (Stays env S a S' ↔ (a = .answer → ∀ str, S.shell.decoy = some str →
        S.desk.Undisturbed (replacement str S.input))) := by
  have hS : Watching S := Runs.invariant (I := Watching) (fun _ _ _ hs hst => hs.step hst)
    (watching_start hidle hent) hrun
  refine ⟨(hS.step hstep).mirrors hmax, ?_⟩
  cases a with
  | key c =>
    refine ⟨fun _ => nofun, fun _ => ?_⟩
    obtain rfl := (Option.some.inj hstep).symm
    rcases desk_handle_input S.input S.desk c with ⟨hall, -⟩ | ⟨k, hk, hkey⟩
    · refine .inr ?_
      show (S.desk.all.filter _).Sublist ((S.desk.handle_input S.input c).all.filter _)
      rw [hall]
    -- an erase is meant to lose bytes, every other key loses none
    · by_cases her : Erases k
      · exact .inl ⟨k, hk, her⟩
      · refine .inr ?_
        show (S.desk.all.filter _).Sublist ((S.desk.handle_input S.input c).all.filter _)
        rw [hkey]
        exact (sublist_key her).filter _
  | read =>
    refine ⟨fun _ => nofun, fun _ => ?_⟩
    have hsame : S'.input.entered = S.input.entered := by
      obtain ⟨-, rfl⟩ := step_read hstep
      rfl
    obtain ⟨x, P, hpending, hbyte, -⟩ := hS.read hstep (by omega)
    obtain ⟨-, rfl⟩ := step_read hstep
    refine ⟨x, ?_, by rw [hbyte]⟩
    simp [Desk.all, hpending]
  -- only here does the shell take bytes back
  | answer =>
    obtain ⟨str, hdecoy, rfl⟩ := step_answer hstep
    have hiff := answer_iff hS.fresh (replacement str S.input)
    constructor
    · intro hstays _ str' hstr'
      rw [hdecoy, Option.some.injEq] at hstr'
      subst hstr'
      exact hiff.mp hstays
    · intro hall
      exact hiff.mpr (hall rfl str hdecoy)
  | again =>
    refine ⟨fun _ => nofun, fun _ => ?_⟩
    obtain rfl := step_again hstep
    rfl

end

/-- A shell whose history has the command `ls`. -/
def lsStart : Watched (Commands × Unit) :=
  .start .zero (⟨[], [[chr 'l', chr 's']], none, []⟩, ()) 100

/-- The user types `x`, has the shell show `ls` with Ctrl-P, types `1` behind it and goes back to `x` with
Ctrl-N, each time waiting for the answer. -/
def browseMoves : List Move :=
  [.key (chr 'x'), .key (ctrl 'P'), .read, .answer, .key (chr '1'), .key (ctrl 'N'), .read]

/-- A letter is typed after the answer, and kept. -/
theorem no_keystroke_lost_browseMoves : ∃ S S', Runs.run (Watched.step plainEnv) lsStart browseMoves = some S ∧
    S.step plainEnv .answer = some S' ∧ S'.desk.line.map Prod.fst = [chr 'x'] ∧ Stays plainEnv S .answer S' := by
  have hrun : Runs.run (Watched.step plainEnv) lsStart browseMoves = some _ := rfl
  refine ⟨_, _, hrun, rfl, by decide +kernel, ?_⟩
  have hiff := (no_keystroke_lost (a := .answer) idle_zero (Nat.zero_le _) hrun rfl
    (by decide +kernel)).2
  exact hiff.mpr fun _ str _ => ⟨by decide +kernel, .inr (by decide +kernel)⟩

/-- Ctrl-P, and the user types `a` before the shell answers. -/
theorem keystroke_lost : ∃ S S',
    Runs.run (Watched.step plainEnv) lsStart [.key (ctrl 'P'), .read, .key (chr 'a')] = some S ∧
    S.step plainEnv .answer = some S' ∧ S'.input.entered < 2 ^ 32 ∧
    ¬ Stays plainEnv S .answer S' := by
  refine ⟨_, _, rfl, rfl, by decide +kernel, fun h => ?_⟩
  exact absurd h.1 (by decide +kernel)

end Console
end OhMyXv6
