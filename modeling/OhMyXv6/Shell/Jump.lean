import OhMyXv6.Lib.Lines
import OhMyXv6.Param
import OhMyXv6.Shell.History

/-!
# `crawler.c` and the jump table of `sh.c`

The crawler writes a line for each regular file of the directory tree into `.jump_index`: its name, a
space and the path of its directory. The shell reads them into a table of 50 entries, and `jump` looks a
name up there.

What is read or written outside of an array has no meaning here: the result is `none`.
-/

namespace OhMyXv6
namespace Sh

open Console

/-- The entries of a directory, with what is in its subdirectories. -/
inductive Dir where
  | nil
  /-- An entry that is not in use. -/
  | free (rest : Dir)
  /-- `.` and `..`. -/
  | dots (name : Str) (rest : Dir)
  | file (name : Str) (rest : Dir)
  | dev (name : Str) (rest : Dir)
  | dir (name : Str) (sub : Dir) (rest : Dir)

/-! ## `crawler.c` -/

/-- The name of the index. `main` opens it with `O_CREATE` before it calls `crawl`, so that it is one
of the files that `crawl` finds. -/
def INDEX_FILE : Str := ".jump_index".toList.map chr

/-- `"."` -/
def dotName : Str := [chr '.']

/-- `".."` -/
def dotdotName : Str := [chr '.', chr '.']

/-- The path of an entry. -/
def subpath (path name : Str) : Str :=
  (if path.getLast? = some (chr '/') then path else path ++ [chr '/']) ++ name

/-- What is built in the 512 bytes of `buf`: the path, a slash if it has none at its end, and `DIRSIZ`
bytes with a NUL behind them. -/
def Overruns (path : Str) : Prop :=
  512 < (subpath path []).length + DIRSIZ + 1

instance (path : Str) : Decidable (Overruns path) := inferInstanceAs (Decidable (_ < _))

/-- `printf(out_fd, "%s %s\n", de.name, path)`. A name of `DIRSIZ` bytes has no NUL behind it. -/
def printEntry (name path : Str) : Option (List UInt8) :=
  if name.length < DIRSIZ then some (name ++ chr ' ' :: (path ++ [chr '\n'])) else none

/-- The loop of `crawl`, with `n` descriptors left to open: what is written. -/
def crawlLoop (path : Str) (n : ℕ) : Dir → Option (List UInt8)
  | .nil => some []
  | .free rest => crawlLoop path n rest
  | .dots name rest =>
    if name = dotName ∨ name = dotdotName then crawlLoop path n rest
    else none
  | .file name rest =>
    if name = dotName ∨ name = dotdotName then crawlLoop path n rest
    else if Overruns path then none
    -- `stat` opens the file
    else if n = 0 then crawlLoop path n rest
    else (printEntry name path).bind fun out => (crawlLoop path n rest).map (out ++ ·)
  | .dev name rest =>
    if name = dotName ∨ name = dotdotName then crawlLoop path n rest
    else if Overruns path then none
    else crawlLoop path n rest
  | .dir name sub rest =>
    if name = dotName ∨ name = dotdotName then crawlLoop path n rest
    else if Overruns path then none
    else if n = 0 then crawlLoop path n rest
    else (crawlLoop (subpath path name) (n - 1) sub).bind fun out =>
      (crawlLoop path n rest).map (out ++ ·)

/-- `crawl`, with `n` descriptors left: `open` needs one of them. -/
def crawl (path : Str) (n : ℕ) (d : Dir) : Option (List UInt8) :=
  if n = 0 then some [] else crawlLoop path (n - 1) d

/-- The index is opened without `O_TRUNC` and written from its start, byte by byte. -/
def overwrite (old new : List UInt8) : List UInt8 :=
  new.take (MAXFILE * BSIZE) ++ old.drop new.length

/-! ## `sh.c` -/

/-- `sh.c`: how many entries the jump table has. -/
def MAX_JUMP_ENTRIES : ℕ := 50

/-- Bytes are stored, from `c` on, until `stop` says so or the file ends: these bytes, the value of `c`
then, and the rest of the file. -/
def token (stop : UInt8 → Bool) (c : UInt8) : List UInt8 → List UInt8 × UInt8 × List UInt8
  | [] => if stop c then ([], c, []) else ([c], c, [])
  | c' :: l =>
    if stop c then ([], c, c' :: l)
    else
      let rest := token stop c' l
      (c :: rest.1, rest.2)

/-- A name and a path. -/
abbrev JumpEntry := Str × Str

/-- `if (c == ' ') read(fd, &c, 1);`. -/
def skipSpace (c : UInt8) : List UInt8 → UInt8 × List UInt8
  | [] => (c, [])
  | c' :: l => if c = chr ' ' then (c', l) else (c, c' :: l)

/-- The body of the loop of `init_jump_table`: the bytes of the name and of the path, and the rest of
the file. -/
def readEntry (c : UInt8) (l : List UInt8) : List UInt8 × List UInt8 × List UInt8 :=
  let x := token (fun c => c = chr ' ' ∨ c = chr '\n') c l
  let y := skipSpace x.2.1 x.2.2
  let z := token (fun c => c = chr '\n' ∨ c = chr '\r') y.1 y.2
  (x.1, z.1, z.2.2)

/-- `init_jump_table`, with room for `n` entries: the table. -/
def init_jump_table : ℕ → List UInt8 → Option (List JumpEntry)
  | 0, _ => some []
  | _ + 1, [] => some []
  | n + 1, c :: l =>
    let x := readEntry c l
    -- the name or the path runs over its array
    if 32 ≤ x.1.length ∨ 64 ≤ x.2.1.length then none
    else
      (init_jump_table n x.2.2).map ((x.1.takeWhile (· ≠ 0), x.2.1.takeWhile (· ≠ 0)) :: ·)

/-- `jump`: the directory that it changes to. -/
def jump (table : List JumpEntry) (filename : Str) : Option Str :=
  (table.find? fun e => e.1 = filename).map (·.2)

end Sh
end OhMyXv6
