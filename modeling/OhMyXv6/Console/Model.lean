import Mathlib.Logic.Function.Basic
import Mathlib.Tactic.Common

/-!
# `console.c`: the input line

The ring of characters that the keyboard interrupt fills and edits and that `consoleread` empties.
Its four indices are `uint`s that run freely and are reduced when the ring is accessed, so they wrap
around at `2 ^ 32`. What is written to the screen meanwhile is a list of calls.

Waking up the readers is left out: a reader that sleeps may go on at any time here. So is
`lidt(0, 0)` for Ctrl-Z, which resets the machine.
-/

namespace OhMyXv6
namespace Console

/-- `console.c`: bytes of the input buffer. -/
def INPUT_BUF : UInt32 := 128

/-- `C(x)`: the key with the control key. -/
def ctrl (x : Char) : UInt8 := x.toNat.toUInt8 - 64

/-- `kbd.h`: the arrow up. -/
def KEY_UP : UInt8 := 0xE2

/-- `kbd.h`: the arrow down. -/
def KEY_DN : UInt8 := 0xE3

/-- `kbd.h`: the arrow left. -/
def KEY_LF : UInt8 := 0xE4

/-- `kbd.h`: the arrow right. -/
def KEY_RT : UInt8 := 0xE5

/-- A character of the source. -/
def chr (x : Char) : UInt8 := x.toNat.toUInt8

/-- The escape character. -/
def ESC : UInt8 := 0x1b

/-- The delete character, which the backspace key sends. -/
def DEL : UInt8 := 0x7f

/-- A call that changes the screen. -/
inductive Put where
  /-- `consputc(c)`. -/
  | putc (c : UInt8)
  /-- `consputc(BACKSPACE)`. -/
  | backspace
  /-- `cons_cursor_left()`. -/
  | left
deriving DecidableEq

/-- The struct `input`, the draft that the history keys save, and what was written to the screen. -/
structure Input where
  buf : ℕ → UInt8
  r : UInt32
  w : UInt32
  e : UInt32
  cur : UInt32
  raw : Bool
  esc_state : ℕ
  /-- The bytes of `history_draft` before the NUL that was put behind them. -/
  history_draft : List UInt8
  history_draft_active : Bool
  out : List Put
  /-- History: the number of bytes that have entered the ring. -/
  entered : ℕ

namespace Input

/-- All of it zero. -/
def zero : Input := ⟨fun _ => 0, 0, 0, 0, 0, false, 0, [], false, [], 0⟩

/-- `input.buf[x % INPUT_BUF]`. -/
def get (s : Input) (x : UInt32) : UInt8 := s.buf (x % INPUT_BUF).toNat

/-- `input.buf[x % INPUT_BUF] = c`. -/
def set (s : Input) (x : UInt32) (c : UInt8) : Input :=
  { s with buf := Function.update s.buf (x % INPUT_BUF).toNat c }

/-- `n` characters from index `x` on. -/
def span (s : Input) (x : UInt32) (n : ℕ) : List UInt8 :=
  (List.range n).map fun j => s.get (x + j.toUInt32)

/-- More is put on the screen. -/
def emit (s : Input) (l : List Put) : Input := { s with out := s.out ++ l }

/-- `input.buf[input.e++ % INPUT_BUF] = c; input.cur = input.e;`. -/
def push (s : Input) (c : UInt8) : Input :=
  { s.set s.e c with e := s.e + 1, cur := s.e + 1, entered := s.entered + 1 }

/-- The same, and `input.w = input.e;`. -/
def submit (s : Input) (c : UInt8) : Input := { s.push c with w := s.e + 1 }

/-- `input.e - input.r < INPUT_BUF`. -/
def Room (s : Input) : Prop := s.e - s.r < INPUT_BUF

instance (s : Input) : Decidable s.Room := inferInstanceAs (Decidable (_ < _))

/-- `while (input.cur < input.e) consputc(input.buf[input.cur++ % INPUT_BUF]);`. -/
def toEnd (s : Input) : Input :=
  if s.cur < s.e then
    { s.emit ((s.span s.cur (s.e.toNat - s.cur.toNat)).map .putc) with cur := s.e }
  else s

/-- The second loop of `clear`. It stops at `input.w` at the latest. -/
def eraseLoop : ℕ → Input → Input
  | 0, s => s
  | n + 1, s =>
    if s.e ≠ s.w ∧ s.get (s.e - 1) ≠ chr '\n' then
      eraseLoop n { s.emit [.backspace] with e := s.e - 1 }
    else s

/-- `Ctrl-U`: the line is erased from its end. -/
def clear (s : Input) : Input :=
  let t := eraseLoop (s.toEnd.e - s.toEnd.w).toNat s.toEnd
  { t with cur := t.e }

/-- The line that is being edited is kept for the way back. -/
def save_history_draft (s : Input) : Input :=
  let len := if INPUT_BUF ≤ s.e - s.w then INPUT_BUF - 1 else s.e - s.w
  { s with history_draft := s.span s.w len.toNat, history_draft_active := true }

/-- The loop of `replace_input`. -/
def fill : List UInt8 → Input → Input
  | [], s => s
  | c :: cs, s => if s.e - s.r < INPUT_BUF - 1 then fill cs ((s.push c).emit [.putc c]) else s

/-- `replace_input`, for the string that the bytes begin with. -/
def replace_input (str : List UInt8) (s : Input) : Input :=
  let str := str.takeWhile (· ≠ 0)
  let restoring_draft := str = [] ∧ s.history_draft_active
  let replacement := if restoring_draft then s.history_draft.takeWhile (· ≠ 0) else str
  -- the first replacement saves what was typed
  let t := if ¬ restoring_draft ∧ ¬ s.history_draft_active then s.save_history_draft else s
  let t := fill replacement t.clear
  if restoring_draft ∨ str.head? = some (chr '\n') ∨ str.head? = some (chr '\r') then
    { t with history_draft_active := false, history_draft := [] }
  else t

/-! ## Keys -/

/-- The arrow left. -/
def left (s : Input) : Input :=
  if s.w < s.cur then { s.emit [.left] with cur := s.cur - 1 } else s

/-- The arrow right. -/
def right (s : Input) : Input :=
  if s.cur < s.e then { s.emit [.putc (s.get s.cur)] with cur := s.cur + 1 } else s

/-- `for (i = x; n > 0; i++, n--) input.buf[i % INPUT_BUF] = input.buf[(i + 1) % INPUT_BUF];`. -/
def shiftDown : ℕ → UInt32 → Input → Input
  | 0, _, s => s
  | n + 1, x, s => shiftDown n (x + 1) (s.set x (s.get (x + 1)))

/-- `for (i = x; n > 0; i--, n--) input.buf[i % INPUT_BUF] = input.buf[(i - 1) % INPUT_BUF];`. -/
def shiftUp : ℕ → UInt32 → Input → Input
  | 0, _, s => s
  | n + 1, x, s => shiftUp n (x - 1) (s.set x (s.get (x - 1)))

/-- Ctrl-H and DEL. At the start of the line the key is left to the reader. -/
def erase (s : Input) (c : UInt8) : Input :=
  if s.cur = s.w then
    if s.Room then s.submit c else s
  else
    let x := s.cur - 1
    -- the bytes behind the cursor move back by one
    let t := shiftDown ((s.e - 1).toNat - x.toNat) x s
    let n := (s.e - 1 - x).toNat
    { t.emit ([.backspace] ++ (t.span x n).map .putc ++ [.putc (chr ' ')] ++
        List.replicate (n + 1) .left) with cur := x, e := s.e - 1 }

/-- Newline and Ctrl-D: submit the whole line wherever the cursor is. -/
def enter (s : Input) (c : UInt8) : Input :=
  { (s.toEnd.submit c).emit [.putc c] with history_draft_active := false }

/-- A character at the end of the line. The line is submitted when the ring is full. -/
def append (s : Input) (c : UInt8) : Input :=
  let t := (s.push c).emit [.putc c]
  if t.e = t.r + INPUT_BUF then { t with w := t.e } else t

/-- A character in front of others: the tail is shifted and drawn again. -/
def insertAt (s : Input) (c : UInt8) : Input :=
  let t := (shiftUp (s.e.toNat - s.cur.toNat) s.e s).set s.cur c
  let e := s.e + 1
  let cur := s.cur + 1
  { t.emit ((t.span s.cur (e.toNat - s.cur.toNat)).map .putc ++
      List.replicate (e.toNat - cur.toNat) .left) with
    e := e, cur := cur, entered := s.entered + 1 }

/-- The same, and the line is submitted when the ring is full. -/
def insert (s : Input) (c : UInt8) : Input :=
  let t := s.insertAt c
  if t.e = t.r + INPUT_BUF then { t.toEnd with w := t.e } else t

/-- The `switch` of `handle_input`. -/
def edit (s : Input) (c : UInt8) : Input :=
  if c = ctrl 'U' then { s.clear with history_draft_active := false }
  else if c = chr '\t' then if s.Room then s.submit c else s
  else if c = ctrl 'P' ∨ c = ctrl 'N' then
    let t := (if s.history_draft_active then s else s.save_history_draft).clear
    if t.Room then t.submit c else t
  else if c = ctrl 'H' ∨ c = DEL then s.erase c
  -- the ring is full, or there is nothing to insert
  else if c = 0 ∨ ¬ s.Room then s
  else
    let c := if c = chr '\r' then chr '\n' else c
    if c = chr '\n' ∨ c = ctrl 'D' then s.enter c
    else if s.cur = s.e then s.append c
    else s.insert c

/-- `handle_input` once the key is decoded. -/
def key (s : Input) (c : UInt8) : Input :=
  if c = ctrl 'Z' then s
  else if s.raw ∧ s.Room then s.submit c
  else s.edit c

/-- `handle_input`: the arrow keys of the keyboard, and those that come as escape sequences. -/
def handle_input (s : Input) (c : UInt8) : Input :=
  if c = KEY_LF then s.left
  else if c = KEY_RT then s.right
  else if c = KEY_UP then s.key (ctrl 'P')
  else if c = KEY_DN then s.key (ctrl 'N')
  else if s.esc_state = 1 then { s with esc_state := if c = chr '[' then 2 else 0 }
  else if s.esc_state = 2 then
    let s := { s with esc_state := 0 }
    if c = chr 'A' then s.key (ctrl 'P')
    else if c = chr 'B' then s.key (ctrl 'N')
    else if c = chr 'C' then s.right
    else if c = chr 'D' then s.left
    else s
  else if c = ESC then { s with esc_state := 1 }
  else s.key c

/-! ## Readers -/

end Input

/-- How the part of `consoleread` ends that runs without letting go of the lock. -/
inductive ReadOut where
  /-- It returns. -/
  | done
  /-- It sleeps, with `n` bytes still to read. -/
  | sleep (n : ℕ)

namespace Input

/-- The loop of `consoleread`, for a process that is not killed: the new state, the bytes it has
taken out of the ring (with the Ctrl-D that ended it, if it took one) and how it ends. -/
def readLoop (target : ℕ) : ℕ → Input → Input × List UInt8 × ReadOut
  | 0, s => (s, [], .done)
  | n + 1, s =>
    if s.r = s.w then (s, [], .sleep (n + 1))
    else
      let c := s.get s.r
      let t := { s with r := s.r + 1 }
      if c = ctrl 'D' then
        -- saved for the next time when there is something to return
        if n + 1 < target then (s, [], .done) else (t, [c], .done)
      else if t.raw ∨ c = chr '\n' then (t, [c], .done)
      else
        let rest := readLoop target n t
        (rest.1, c :: rest.2.1, rest.2.2)

/-! ## `consoleioctl` -/

/-- `CONSOLE_RAW_TOGGLE` of `consoleioctl`. -/
def rawToggle (s : Input) : Input := { s with r := 0, w := 0, e := 0, raw := !s.raw }

/-- `CONSOLE_RAW_READ`; `none` is the answer `-1`. -/
def rawRead (s : Input) : Input × Option UInt8 :=
  if ¬ s.raw ∨ s.r = s.w then (s, none) else ({ s with r := s.r + 1 }, some (s.get s.r))

end Input

end Console
end OhMyXv6
