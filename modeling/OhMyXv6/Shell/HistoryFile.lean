import OhMyXv6.Lib.Lines
import OhMyXv6.Lib.Runs
import OhMyXv6.Param
import OhMyXv6.Shell.History

/-!
# `sh.c`: the history file

Each command is appended to `.sh_history` with a newline behind it. A shell that is started later reads
the file from its end, 255 bytes at a time and only when the commands are asked for.

`load_history` looks for newlines from the end of what it has read down to `buf[1]`. The byte at
`buf[0]` is never looked at: if it is the first of the file and a newline, then the first line is empty
and comes out glued to the second.
-/

namespace OhMyXv6
namespace Sh

open Console

/-! ## `file.c` -/

/-- A file that is open: its bytes, and the offset of the descriptor. -/
structure File where
  data : List UInt8
  off : ℕ

/-- The third argument of `fileseek`. -/
inductive Whence where
  | set
  | cur
  | eof

namespace File

/-- `fileseek`, on a file of the disk. -/
def fileseek (f : File) (offset : ℤ) (position : Whence) : File × ℕ :=
  let new_off : ℤ :=
    match position with
    | .set => offset
    | .cur => f.off + offset
    | .eof => f.data.length - offset
  -- held between 0 and the size
  let new_off := min new_off.toNat f.data.length
  ({ f with off := new_off }, new_off)

/-- `fileread`: what it puts into the buffer. -/
def fileread (f : File) (n : ℕ) : File × List UInt8 :=
  let bytes := (f.data.drop f.off).take n
  ({ f with off := f.off + bytes.length }, bytes)

/-- `filewrite`, for as many bytes as one call of `writei` gets: a write that would make the file
longer than it can be does nothing. -/
def filewrite (f : File) (bytes : List UInt8) : File :=
  if f.data.length < f.off ∨ MAXFILE * BSIZE < f.off + bytes.length then f
  else
    ⟨f.data.take f.off ++ bytes ++ f.data.drop (f.off + bytes.length), f.off + bytes.length⟩

end File

/-! ## Loading -/

/-- What the struct `history` knows about the file. -/
structure HistFile where
  file : File
  pos : ℕ
  topped : Bool

/-- The string at `&buf[i]`. -/
def cstr (buf : List UInt8) (i : ℕ) : Str := (buf.drop i).takeWhile (· ≠ 0)

/-- The loop of `load_history`, from `buf[pos]` down to `buf[1]`: what it leaves in `buf` and
`last_nl`, and the commands that it loads. -/
def scan : ℕ → List UInt8 → ℕ → List UInt8 × ℕ × List Str
  | 0, buf, last_nl => (buf, last_nl, [])
  | pos + 1, buf, last_nl =>
    if buf.getD (pos + 1) 0 = chr '\n' then
      let rest := scan pos (buf.set (pos + 1) 0) (pos + 1)
      (rest.1, rest.2.1, cstr buf (pos + 2) :: rest.2.2)
    else scan pos buf last_nl

/-- `sh.c`: how many bytes are loaded at once. -/
def DEFAULT_LOAD : ℕ := 255

/-- The file afterwards, and the commands that were appended to `history.prev`. -/
def load_history (h : HistFile) : HistFile × List Str :=
  let start_pos := h.pos
  let x := h.file.fileseek ((h.pos : ℤ) - DEFAULT_LOAD) .set
  let topped := h.topped || x.2 == 0
  let y := x.1.fileread (start_pos - x.2)
  let nread := y.2.length
  if nread = 0 then (⟨y.1, x.2, topped⟩, [])
  else
    let z := scan (nread - 2) (y.2.set (nread - 1) 0 ++ [0]) (nread - 1)
    -- the start of the file was reached: the first line counts as whole
    if topped then (⟨y.1, x.2, topped⟩, z.2.2 ++ [cstr z.1 0])
    -- the cut line is left for the next load
    else (⟨y.1, x.2 + z.2.1 + 1, topped⟩, z.2.2)

/-- `load_history`, unless the top of the file was reached. -/
def load (h : HistFile) : Option (HistFile × List Str) :=
  if h.topped then none else some (load_history h)

/-- `init_history`: the end of the file is loaded. -/
def init_history (data : List UInt8) : History HistFile :=
  let x := load_history ⟨⟨data, 0⟩, data.length, false⟩
  ⟨x.1, x.2, none, []⟩

/-! ## Storing -/

/-- `log_command`, for a string that is not empty. Its last byte is the newline. -/
def log_command (buf : Str) (h : History HistFile) : History HistFile :=
  let h := h.reset_command_position
  let com := buf.dropLast
  if h.prev.head? = some com then h
  else
    let file := (h.file.file.fileseek 0 .eof).1.filewrite (com ++ [chr '\n'])
    { h with file := { h.file with file := file }, prev := com :: h.prev }

/-- What happens to a history: a command is entered, the user goes through the commands, and the shell
is started again. -/
inductive HistoryOp where
  | log (line : Str)
  | prev
  | next
  | restart

/-- What an operation does; `none` where `get_prev_command` does not return. -/
def HistoryOp.step (h : History HistFile) : HistoryOp → Option (History HistFile)
  | .log line => some (log_command (line ++ [chr '\n']) h)
  | .prev => (h.get_prev_command load 2).map (·.1)
  | .next => some h.get_next_command.1
  | .restart => some (init_history h.file.file.data)

/-- The lines that were entered. -/
def entered (ops : List HistoryOp) : List Str :=
  ops.filterMap fun
    | .log line => some line
    | _ => none

end Sh
end OhMyXv6
