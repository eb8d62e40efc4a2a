import OhMyXv6.Lib.Fallible
import OhMyXv6.Param
import OhMyXv6.Shell.History

/-!
# `sh.c`: the parser

The functions of the parser share the pointer `*ps` into the line; it is the state of their programs.
The strings of a command are pointers into the line until `nulterminate` has put a NUL behind each of
them. `malloc` is taken to succeed.

The functions call each other as deep as the line asks for. With fuel `n` they do so `n` times at most.
-/

namespace OhMyXv6
namespace Sh

open Console

/-- `sh.h`: arguments of one command, and the null pointer behind them. -/
def MAXARGS : ℕ := 10

/-- The struct `cmd`, with strings of type `W`. -/
inductive Cmd (W : Type) where
  | exec (argv : List W)
  | redir (cmd : Cmd W) (file : W) (mode fd : ℕ)
  | pipe (left right : Cmd W)
  | list (left right : Cmd W)
  | back (cmd : Cmd W)
  deriving DecidableEq, Repr

namespace Cmd

variable {V W : Type}

/-- The same command with other words. -/
def map (f : V → W) : Cmd V → Cmd W
  | exec argv => exec (argv.map f)
  | redir cmd file mode fd => redir (cmd.map f) (f file) mode fd
  | pipe left right => pipe (left.map f) (right.map f)
  | list left right => list (left.map f) (right.map f)
  | back cmd => back (cmd.map f)

/-- `cmd->argv[argc] = q`, where `cmd` is the `execcmd` behind the redirections. -/
def push (w : W) : Cmd W → Cmd W
  | exec argv => exec (argv ++ [w])
  | redir cmd file mode fd => redir (cmd.push w) file mode fd
  | cmd => cmd

end Cmd

/-- How the parser stops. -/
inductive ParseError where
  | panic (s : String)
  /-- `printf(2, "leftovers: %s\n", s); panic("syntax");`. -/
  | leftovers (s : Str)
  | fuel
  deriving DecidableEq, Repr

/-- A function of the parser; its state is the position `*ps`. -/
abbrev Parse : Type → Type := Fallible ℕ ParseError

/-- The pointers `q` and `eq` to the ends of a token. -/
abbrev Span := ℕ × ℕ

/-- `sh.c`: the characters between words. -/
def whitespace : Str := [chr ' ', chr '\t', chr '\r', chr '\n', 11]

/-- `sh.c`: the characters that are tokens. -/
def symbols : Str := [chr '<', chr '|', chr '>', chr '&', chr ';', chr '(', chr ')']

/-- A character between words. -/
def isBlank (c : UInt8) : Bool := c ∈ whitespace

/-- A character of a word. -/
def isWord (c : UInt8) : Bool := c ∉ whitespace ∧ c ∉ symbols

/-- `while (s < es && p(*s)) s++;`, where `es` is `n` bytes away. -/
def skipLoop (p : UInt8 → Bool) (line : Str) : ℕ → ℕ → ℕ
  | 0, s => s
  | n + 1, s => if p (line.getD s 0) then skipLoop p line n (s + 1) else s

/-- The position behind all characters with `p`. -/
def skip (p : UInt8 → Bool) (line : Str) (s : ℕ) : ℕ :=
  skipLoop p line (line.length - s) s

/-- The `switch` of `gettoken`: what is returned, and the pointer behind the token. -/
def gettokenSwitch (line : Str) (s : ℕ) : UInt8 × ℕ :=
  let c := line.getD s 0
  if c = 0 then (c, s)
  else if c ∈ [chr '|', chr '(', chr ')', chr ';', chr '&', chr '<'] then (c, s + 1)
  else if c = chr '>' then
    if line.getD (s + 1) 0 = chr '>' then (chr '+', s + 2) else (c, s + 1)
  else (chr 'a', skip isWord line s)

/-- `gettoken`: its value, and `*q` and `*eq`. -/
def gettoken (line : Str) : Parse (UInt8 × Span) :=
  modifyGet fun s =>
    let q := skip isBlank line s
    let x := gettokenSwitch line q
    ((x.1, q, x.2), skip isBlank line x.2)

/-- `peek`. -/
def peek (line : Str) (toks : Str) : Parse Bool :=
  modifyGet fun s =>
    let s := skip isBlank line s
    (line.getD s 0 ≠ 0 ∧ line.getD s 0 ∈ toks, s)

/-- The `switch` of `parseredirs`. -/
def redirection (tok : UInt8) (cmd : Cmd Span) (file : Span) : Cmd Span :=
  if tok = chr '<' then .redir cmd file O_RDONLY 0
  else if tok = chr '>' then .redir cmd file (O_WRONLY ||| O_CREATE) 1
  else if tok = chr '+' then .redir cmd file (O_WRONLY ||| O_CREATE) 1
  else cmd

/-- `parseredirs`. -/
def parseredirs (line : Str) : ℕ → Cmd Span → Parse (Cmd Span)
  | 0, _ => throw .fuel
  | n + 1, cmd => do
    if ← peek line [chr '<', chr '>'] then
      -- the arrow, then the name of the file
      let tok ← gettoken line
      let file ← gettoken line
      if file.1 ≠ chr 'a' then throw (.panic "missing file for redirection")
      else parseredirs line n (redirection tok.1 cmd file.2)
    else return cmd

/-- The loop of `parseexec`, with `r` places left in `argv`. -/
def parseexecLoop (line : Str) (n : ℕ) : ℕ → Cmd Span → Parse (Cmd Span)
  -- not reached: the last place of `argv` is kept for the null pointer
  | 0, _ => throw (.panic "too many args")
  | r + 1, ret => do
    if ← peek line [chr '|', chr ')', chr '&', chr ';'] then return ret
    else
      let tok ← gettoken line
      if tok.1 = 0 then return ret
      else if tok.1 ≠ chr 'a' then throw (.panic "syntax")
      else if r = 0 then throw (.panic "too many args")
      else
        let ret ← parseredirs line n (ret.push tok.2)
        parseexecLoop line n r ret

/-- The loop of `parseline`. -/
def parselineLoop (line : Str) : ℕ → Cmd Span → Parse (Cmd Span)
  | 0, _ => throw .fuel
  | n + 1, cmd => do
    if ← peek line [chr '&'] then
      let _ ← gettoken line
      parselineLoop line n (.back cmd)
    else return cmd

mutual

/-- `parseline`. -/
def parseline (line : Str) : ℕ → Parse (Cmd Span)
  | 0 => throw .fuel
  | n + 1 => do
    let cmd ← parsepipe line n
    let cmd ← parselineLoop line n cmd
    if ← peek line [chr ';'] then
      let _ ← gettoken line
      let right ← parseline line n
      return .list cmd right
    else return cmd

/-- `parsepipe`. -/
def parsepipe (line : Str) : ℕ → Parse (Cmd Span)
  | 0 => throw .fuel
  | n + 1 => do
    let cmd ← parseexec line n
    if ← peek line [chr '|'] then
      let _ ← gettoken line
      let right ← parsepipe line n
      return .pipe cmd right
    else return cmd

/-- `parseblock`. -/
def parseblock (line : Str) : ℕ → Parse (Cmd Span)
  | 0 => throw .fuel
  | n + 1 => do
    if ← peek line [chr '('] then
      let _ ← gettoken line
      let cmd ← parseline line n
      if ← peek line [chr ')'] then
        let _ ← gettoken line
        parseredirs line n cmd
      else throw (.panic "syntax - missing )")
    else throw (.panic "parseblock")

/-- `parseexec`. -/
def parseexec (line : Str) : ℕ → Parse (Cmd Span)
  | 0 => throw .fuel
  | n + 1 => do
    if ← peek line [chr '('] then parseblock line n
    else
      let ret ← parseredirs line n (.exec [])
      parseexecLoop line n MAXARGS ret

end

/-- `nulterminate`, on the bytes that the line and its NUL occupy. -/
def nulterminate : Cmd Span → Str → Str
  | .exec argv, buf => argv.foldl (fun buf w => buf.set w.2 0) buf
  | .redir cmd file _ _, buf => (nulterminate cmd buf).set file.2 0
  | .pipe left right, buf => nulterminate right (nulterminate left buf)
  | .list left right, buf => nulterminate right (nulterminate left buf)
  | .back cmd, buf => nulterminate cmd buf

/-- `parsecmd`: the command, and the bytes that its strings are in. -/
def parsecmd (n : ℕ) (line : Str) : Parse (Cmd Span × Str) := do
  let cmd ← parseline line n
  let _ ← peek line []
  let s ← get
  if s ≠ line.length then throw (.leftovers (line.drop s))
  else return (cmd, nulterminate cmd (line ++ [0]))

/-- The string at `q`. -/
def cstring (buf : Str) (q : ℕ) : Str := (buf.drop q).takeWhile (· ≠ 0)

end Sh
end OhMyXv6
