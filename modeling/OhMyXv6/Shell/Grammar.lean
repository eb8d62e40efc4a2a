import OhMyXv6.Shell.Parser

/-!
# The grammar of the command line

    line  := pipe '&'* [';' line]
    pipe  := exec ['|' pipe]
    exec  := '(' line ')' redir* | redir* (word redir*)*
    redir := ('<' | '>' | '>>') word

A word is a run of characters that are neither blanks nor symbols, as long as possible, and `>>` is one
symbol.
-/

namespace OhMyXv6
namespace Sh

open Console

/-- The three symbols in front of a file name. -/
inductive Arrow where
  | lt
  | gt
  | gtgt
  deriving DecidableEq, Repr

/-- The tokens of a command line. -/
inductive Token where
  | bar
  | lparen
  | rparen
  | semi
  | amp
  | arrow (k : Arrow)
  | word (w : Str)
  deriving DecidableEq, Repr

/-- The token that is one character. -/
def symbol (c : UInt8) : Option Token :=
  if c = chr '|' then some .bar
  else if c = chr '(' then some .lparen
  else if c = chr ')' then some .rparen
  else if c = chr ';' then some .semi
  else if c = chr '&' then some .amp
  else if c = chr '<' then some (.arrow .lt)
  else if c = chr '>' then some (.arrow .gt)
  else none

/-- The tokens of a line. -/
def tokens : Str → List Token
  | [] => []
  | c :: l =>
    if isBlank c then tokens l
    else
      match symbol c with
      | none => .word (c :: l.takeWhile isWord) :: tokens (l.dropWhile isWord)
      | some t =>
        -- `>>` is one token
        if c = chr '>' ∧ l.head? = some (chr '>') then .arrow .gtgt :: tokens l.tail
        else t :: tokens l
  termination_by l => l.length
  decreasing_by
  · simp
  · exact Nat.lt_succ_of_le (List.length_dropWhile_le isWord l)
  · rw [List.length_tail, List.length_cons]
    omega
  · simp

/-- The mode that the file is opened with, and the descriptor it gets. -/
def Arrow.mode : Arrow → ℕ
  | lt => O_RDONLY
  | gt => O_WRONLY ||| O_CREATE
  | gtgt => O_WRONLY ||| O_CREATE

/-- The descriptor that is redirected. -/
def Arrow.fd : Arrow → ℕ
  | lt => 0
  | gt => 1
  | gtgt => 1

/-- A redirection: `redir` of the grammar. -/
abbrev Redirection := Arrow × Str

namespace Redirection

/-- The tokens of a redirection. -/
def tokens (r : Redirection) : List Token := [.arrow r.1, .word r.2]

/-- A later redirection is the outer one. -/
def wrap (cmd : Cmd Str) (rs : List Redirection) : Cmd Str :=
  rs.foldl (fun cmd r => .redir cmd r.2 r.1.mode r.1.fd) cmd

end Redirection

/-- A word of a command, and the redirections behind it. -/
abbrev Arg := Str × List Redirection

/-- The tokens of an argument. -/
def Arg.tokens (a : Arg) : List Token := .word a.1 :: a.2.flatMap Redirection.tokens

/-- `n` times `&`. -/
def Cmd.background {W : Type} : ℕ → Cmd W → Cmd W
  | 0, cmd => cmd
  | n + 1, cmd => .background n (.back cmd)

/-- `line`, `pipe` and `exec` of the grammar. -/
inductive Nonterminal where
  | line
  | pipe
  | exec

/-- `Derives N l cmd`: the tokens `l` are an `N` of the grammar, and `cmd` is the tree. -/
inductive Derives : Nonterminal → List Token → Cmd Str → Prop where
  | line {l : List Token} {cmd : Cmd Str} (n : ℕ) (h : Derives .pipe l cmd) :
    Derives .line (l ++ List.replicate n .amp) (.background n cmd)
  | list {l l' : List Token} {cmd cmd' : Cmd Str} (n : ℕ) (h : Derives .pipe l cmd)
    (h' : Derives .line l' cmd') :
    Derives .line (l ++ List.replicate n .amp ++ .semi :: l') (.list (.background n cmd) cmd')
  | exec {l : List Token} {cmd : Cmd Str} (h : Derives .exec l cmd) : Derives .pipe l cmd
  | pipe {l l' : List Token} {cmd cmd' : Cmd Str} (h : Derives .exec l cmd)
    (h' : Derives .pipe l' cmd') : Derives .pipe (l ++ .bar :: l') (.pipe cmd cmd')
  | block {l : List Token} {cmd : Cmd Str} (rs : List Redirection) (h : Derives .line l cmd) :
    Derives .exec (.lparen :: (l ++ .rparen :: rs.flatMap Redirection.tokens))
      (Redirection.wrap cmd rs)
  | args (rs : List Redirection) (args : List Arg) (h : args.length < MAXARGS) :
    Derives .exec (rs.flatMap Redirection.tokens ++ args.flatMap Arg.tokens)
      (Redirection.wrap (.exec (args.map Prod.fst)) (rs ++ args.flatMap Prod.snd))

end Sh
end OhMyXv6
