import OhMyXv6.Console.Model

/-!
# `sh.c`: `getcmd`

The shell reads its command line byte by byte from the console and does the rest of the editing
itself: the backspaces that the console has passed on, the history keys and the completion. The
history and the completion are parameters here.
-/

namespace OhMyXv6
namespace Sh

open Console

/-- What `getcmd` calls, on the state `H` of the history and of the completion. -/
structure Env (H : Type) where
  reset_autocomplete : H → H
  get_prev_command : H → H × Option (List UInt8)
  get_next_command : H → H × Option (List UInt8)
  /-- The content of `history.curr`, if there is one. -/
  curr : H → Option (List UInt8)
  /-- `autocomplete(buf, n, nbuf)`: the text that `buf` holds afterwards. -/
  autocomplete : H → List UInt8 → ℕ → H × List UInt8

/-- A call of `getcmd` that waits for a byte. -/
structure Getcmd (H : Type) where
  hist : H
  nbuf : ℕ
  /-- The bytes `buf[0], …, buf[n - 1]`; those behind them are zero. -/
  buf : List UInt8
  /-- The string of the `kbddecoy` that comes next. -/
  decoy : Option (List UInt8)
  ret : Option Int

namespace Getcmd

variable {H : Type}

/-- Nothing was read yet. -/
def start (hist : H) (nbuf : ℕ) : Getcmd H := ⟨hist, nbuf, [], none, none⟩

/-- The end of the loop: `buf[n] = 0`, and the answer. -/
def finish (g : Getcmd H) : Getcmd H :=
  { g with ret := some (if g.buf.headD 0 = 0 then -1 else 0) }

/-- The body of the loop, for the byte that was read. -/
def byte (env : Env H) (g : Getcmd H) (c : UInt8) : Getcmd H :=
  -- Ctrl-P: the older command, or else the one shown
  if c = 0x10 then
    let x := env.get_prev_command (env.reset_autocomplete g.hist)
    { g with hist := x.1, decoy := some ((x.2.orElse fun _ => env.curr x.1).getD []) }
  -- Ctrl-N: the newer command, or an empty line
  else if c = 0x0e then
    let x := env.get_next_command (env.reset_autocomplete g.hist)
    { g with hist := x.1, decoy := some (x.2.getD []) }
  else if c = chr '\t' then
    let x := env.autocomplete g.hist g.buf g.nbuf
    { g with hist := x.1, buf := x.2 }
  else if c = 8 ∨ c = 127 then
    { g with hist := env.reset_autocomplete g.hist, buf := g.buf.dropLast }
  else
    let g := { g with hist := env.reset_autocomplete g.hist, buf := g.buf ++ [c] }
    if c = chr '\n' ∨ c = chr '\r' ∨ g.nbuf ≤ g.buf.length then g.finish else g

/-- `read(0, &c, 1)` has returned: with no byte if it met a Ctrl-D. -/
def read (env : Env H) (g : Getcmd H) (c : UInt8) : Getcmd H :=
  if c = ctrl 'D' then { g with ret := some (-1) } else g.byte env c

section
variable (env : Env H) {g : Getcmd H} {c : UInt8}

/-- A backspace takes the last byte back. -/
lemma read_backspace (hc : c = 8 ∨ c = 127) :
    g.read env c = { g with hist := env.reset_autocomplete g.hist, buf := g.buf.dropLast } := by
  rcases hc with rfl | rfl
  · rfl
  · rfl

lemma read_newline :
    g.read env (chr '\n') =
      Getcmd.finish { g with hist := env.reset_autocomplete g.hist, buf := g.buf ++ [chr '\n'] } :=
  rfl

/-- A printable byte is stored. -/
lemma read_char (hlo : 32 ≤ c) (hhi : c ≤ 126) (hn : g.buf.length + 1 < g.nbuf) :
    g.read env c = { g with hist := env.reset_autocomplete g.hist, buf := g.buf ++ [c] } := by
  have hne : ∀ x : UInt8, x < 32 ∨ 126 < x → c ≠ x := by
    intro x hx heq
    subst heq
    rw [UInt8.lt_iff_toNat_lt, UInt8.lt_iff_toNat_lt] at hx
    rw [UInt8.le_iff_toNat_le] at hlo hhi
    omega
  have hlong : ¬ g.nbuf ≤ (g.buf ++ [c]).length := by
    rw [List.length_append, List.length_singleton]
    omega
  unfold read byte
  rw [if_neg (hne (ctrl 'D') (by decide)), if_neg (hne 0x10 (by decide)),
    if_neg (hne 0x0e (by decide)), if_neg (hne (chr '\t') (by decide)), if_neg, if_neg]
  · intro h
    rcases h with h | h | h
    · exact hne _ (by decide) h
    · exact hne _ (by decide) h
    · exact hlong h
  · intro h
    rcases h with h | h
    · exact hne 8 (by decide) h
    · exact hne 127 (by decide) h

end

end Getcmd

end Sh
end OhMyXv6
