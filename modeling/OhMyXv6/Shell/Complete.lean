import Mathlib.Logic.Function.Basic
import OhMyXv6.Param
import OhMyXv6.Shell.History

/-!
# `sh.c`: the line buffer and the completion

`getcmd` and the functions of the completion write through `buf`, whose size `nbuf` they are told. The buffer
is a memory without an end here, with the places that have been written to.

The matches are a linked list, and a pointer to one of them is the list from there on. `malloc` is taken to
succeed. What is printed is left out.
-/

namespace OhMyXv6
namespace Sh

open Console

/-! ## The buffer -/

/-- The bytes at `buf`, and the places that have been written to. -/
structure LineBuf where
  mem : ℕ → UInt8
  writes : List ℕ

namespace LineBuf

/-- A byte is stored. -/
def store (b : LineBuf) (i : ℕ) (c : UInt8) : LineBuf :=
  ⟨Function.update b.mem i c, i :: b.writes⟩

/-- `memset(buf + i, 0, len)`. -/
def memset (b : LineBuf) (i : ℕ) : ℕ → LineBuf
  | 0 => b
  | len + 1 => (b.store i 0).memset (i + 1) len

/-- `memmove(buf + i, s, len)`, for the `len` bytes of `s`. -/
def memmove (b : LineBuf) (i : ℕ) : Str → LineBuf
  | [] => b
  | c :: s => (b.store i c).memmove (i + 1) s

/-- The `len` bytes at `buf + i`. -/
def text (b : LineBuf) (i len : ℕ) : Str := (List.range' i len).map b.mem

end LineBuf

/-! ## Directories -/

/-- The struct `dirent`. -/
structure Dirent where
  inum : ℕ
  name : List UInt8

/-- The `DIRSIZ` bytes of the name, up to a NUL. -/
def Dirent.str (de : Dirent) : Str := (de.name.take DIRSIZ).takeWhile (· ≠ 0)

/-- What the completion sees of the file system. -/
structure Dirs where
  /-- The entries of the directory, if it can be opened. -/
  read : Str → Option (List Dirent)
  /-- `stat(full, &st) == 0 && st.type == T_DIR`. -/
  isDir : Str → Bool

/-! ## The completion -/

/-- The struct `autocomplete_state`. -/
structure AutoState where
  active : Bool
  prefix_start : ℕ
  prefix_len : ℕ
  current : ℕ
  count : ℕ
  dir : Str
  first : List Str
  selected : List Str

/-- `reset_autocomplete`. -/
def reset_autocomplete (_ : AutoState) : AutoState := ⟨false, 0, 0, 0, 0, [], [], []⟩

/-- `build_full_path`. -/
def build_full_path (dir name : Str) : Str :=
  if dir = [chr '.'] then name
  else if dir = [chr '/'] then chr '/' :: name
  else dir ++ chr '/' :: name

/-- `replace_autocomplete`: the buffer, and the length of the line. -/
def replace_autocomplete (b : LineBuf) (n nbuf : ℕ) (state : AutoState) : LineBuf × ℕ :=
  match state.selected with
  -- not reached: a match is selected
  | [] => (b, n)
  | m :: _ =>
    if nbuf ≤ state.prefix_start + m.length then (b, n)
    else
      let n := state.prefix_start + m.length
      ((b.memmove state.prefix_start m).store n 0, n)

/-- `while (last_word_start > 0 && buf[last_word_start - 1] != ' ') last_word_start--;`. -/
def lastWordStart (mem : ℕ → UInt8) : ℕ → ℕ
  | 0 => 0
  | i + 1 => if mem i ≠ chr ' ' then lastWordStart mem i else i + 1

/-- The loop that looks for `last_slash`, with `k` bytes left. -/
def lastSlashLoop (mem : ℕ → UInt8) : ℕ → ℕ → Option ℕ → Option ℕ
  | 0, _, last => last
  | k + 1, i, last => lastSlashLoop mem k (i + 1) (if mem i = chr '/' then some i else last)

/-- `sizeof(next.dir)`. -/
def DIRBUF : ℕ := 100

/-- The directory that is looked through and `prefix_start`, unless its path is too long. -/
def completed (b : LineBuf) (n : ℕ) : Option (Str × ℕ) :=
  let last_word_start := lastWordStart b.mem n
  -- no slash in the word: the working directory
  match lastSlashLoop b.mem (n - last_word_start) last_word_start none with
  | none => some ([chr '.'], last_word_start)
  | some last_slash =>
    let dir_len := last_slash - last_word_start
    if dir_len = 0 then some ([chr '/'], last_slash + 1)
    -- a directory that does not fit is not completed
    else if DIRBUF ≤ dir_len then none
    else some ((b.text last_word_start dir_len).takeWhile (· ≠ 0), last_slash + 1)

/-- The entry is in use, it is not hidden or the prefix begins with a dot, and the prefix is one of its
name. -/
def isMatch (mem : ℕ → UInt8) (prefix_start prefix_len : ℕ) (de : Dirent) : Bool :=
  de.inum ≠ 0 ∧ ¬ (de.str.headD 0 = chr '.' ∧ mem prefix_start ≠ chr '.') ∧
    prefix_len ≤ de.str.length ∧
      ∀ i < prefix_len, mem (prefix_start + i) = de.str.getD i 0

/-- The name of a match, with a slash behind it if it is a directory. -/
def matchName (fs : Dirs) (dir name : Str) : Str :=
  if fs.isDir (build_full_path dir name) then name ++ [chr '/'] else name

/-- The loop over the entries. -/
def findMatches (fs : Dirs) (dir : Str) (mem : ℕ → UInt8) (prefix_start prefix_len : ℕ) :
    List Dirent → List Str
  | [] => []
  | de :: entries =>
    if isMatch mem prefix_start prefix_len de then
      matchName fs dir de.str :: findMatches fs dir mem prefix_start prefix_len entries
    else findMatches fs dir mem prefix_start prefix_len entries

/-- `autocomplete`: `autocomplete_state`, the buffer, and the length of the line. -/
def autocomplete (fs : Dirs) (state : AutoState) (b : LineBuf) (n nbuf : ℕ) :
    AutoState × LineBuf × ℕ :=
  if state.active then
    let state :=
      -- a further Tab: the next match, and the first after the last
      if state.selected.tail = [] then { state with selected := state.first, current := 0 }
      else { state with selected := state.selected.tail, current := state.current + 1 }
    (state, replace_autocomplete b n nbuf state)
  else
    match completed b n with
    | none => (state, b, n)
    | some (dir, prefix_start) =>
      let prefix_len := n - prefix_start
      -- no name is that long
      if DIRSIZ < prefix_len then (state, b, n)
      else
        match fs.read dir with
        | none => (state, b, n)
        | some entries =>
          let first := findMatches fs dir b.mem prefix_start prefix_len entries
          if first = [] then (state, b, n)
          else
            let next : AutoState :=
              ⟨1 < first.length, prefix_start, prefix_len, 0, first.length, dir, first, first⟩
            -- a single match leaves nothing to cycle through
            (if first.length = 1 then reset_autocomplete next else next,
              replace_autocomplete b n nbuf next)

/-! ## `getcmd` -/

/-- The variables of `getcmd` at the top of its loop, and `autocomplete_state`. -/
structure Typing where
  buf : LineBuf
  n : ℕ
  auto : AutoState

/-- What `read(0, &c, 1)` returns: nothing, or a byte. `fs` is what a completion sees then. -/
inductive Key where
  | eof
  | byte (c : UInt8) (fs : Dirs)

namespace Typing

/-- The body of the loop, for the byte that was read, and whether it ends the loop. The recalled commands
are typed by `kbddecoy`, and come as bytes later. -/
def byte (nbuf : ℕ) (t : Typing) (c : UInt8) (fs : Dirs) : Typing × Bool :=
  -- Ctrl-P and Ctrl-N
  if c = 0x10 ∨ c = 0x0e then ({ t with auto := reset_autocomplete t.auto }, false)
  else if c = chr '\t' then
    let x := autocomplete fs t.auto t.buf t.n nbuf
    (⟨x.2.1.memset x.2.2 (nbuf - x.2.2), x.2.2, x.1⟩, false)
  else if c = 8 ∨ c = 127 then
    if 0 < t.n then
      (⟨t.buf.memset (t.n - 1) (nbuf - (t.n - 1)), t.n - 1, reset_autocomplete t.auto⟩, false)
    else ({ t with auto := reset_autocomplete t.auto }, false)
  else (⟨t.buf.store t.n c, t.n + 1, reset_autocomplete t.auto⟩, c = chr '\n' ∨ c = chr '\r')

/-- Behind the loop. -/
def finish (t : Typing) : Typing × Option Int :=
  let b := t.buf.store t.n 0
  ({ t with buf := b }, some (if b.mem 0 = 0 then -1 else 0))

/-- The loop of `getcmd`, for the keys that are read. It waits for another one if they do not end it. -/
def loop (nbuf : ℕ) : List Key → Typing → Typing × Option Int
  | keys, t =>
    -- `nbuf` bytes are stored
    if nbuf ≤ t.n then t.finish
    else
      match keys with
      | [] => (t, none)
      | .eof :: _ => (t, some (-1))
      | .byte c fs :: keys =>
        let x := t.byte nbuf c fs
        if x.2 then x.1.finish else loop nbuf keys x.1

/-- `memset(buf, 0, nbuf)`. -/
def start (nbuf : ℕ) (mem : ℕ → UInt8) (auto : AutoState) : Typing :=
  ⟨(⟨mem, []⟩ : LineBuf).memset 0 nbuf, 0, auto⟩

end Typing

/-- `getcmd`, with what is in its buffer and in `autocomplete_state` before. -/
def getcmd (nbuf : ℕ) (mem : ℕ → UInt8) (auto : AutoState) (keys : List Key) : Typing × Option Int :=
  Typing.loop nbuf keys (Typing.start nbuf mem auto)

end Sh
end OhMyXv6
