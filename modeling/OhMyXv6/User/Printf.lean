import Mathlib.Data.List.Range
import Mathlib.Tactic.Common
import OhMyXv6.Lib.Decimal

/-!
# `printf.c`: how `printf` reads its format

Each byte of the format is read once, and what it means depends on where `printf` is: in the loop, behind
a `%`, behind an ESC, or in the digits of an escape sequence. A step is the read of one byte and what is
done with it. In the loop and behind a `%` the NUL ends `printf`. Behind an ESC and in the digits it is
taken for a character, and the loop goes on with the byte that follows it.
-/

namespace OhMyXv6
namespace Printf

/-- `'\x1b'`. -/
def ESC : UInt8 := 27
/-- `'['`. -/
def BRACKET : UInt8 := 91
/-- `'%'`. -/
def PERCENT : UInt8 := 37
/-- `'m'`. -/
def LETTER_M : UInt8 := 109

/-- `console.h`: set both colours. -/
def CONSOLE_SET_COLOR : ℕ := 0
/-- `console.h`: ask for the colours. -/
def CONSOLE_GET_COLOR : ℕ := 1
/-- `console.h`: set the colour of the text. -/
def CONSOLE_SET_FG : ℕ := 4

/-- `console.h`: a colour. -/
def CGA_BLACK : Int := 0
/-- `console.h`: a colour. -/
def CGA_BLUE : Int := 1
/-- `console.h`: a colour. -/
def CGA_GREEN : Int := 2
/-- `console.h`: a colour. -/
def CGA_CYAN : Int := 3
/-- `console.h`: a colour. -/
def CGA_RED : Int := 4
/-- `console.h`: a colour. -/
def CGA_MAGENTA : Int := 5
/-- `console.h`: a colour. -/
def CGA_YELLOW : Int := 14
/-- `console.h`: a colour. -/
def CGA_WHITE : Int := 15

/-- What `printf` does to its file. -/
inductive Call where
  | putc (c : UInt8)
  /-- The next argument is printed in the way of the conversion `c`. -/
  | print (c : UInt8)
  | ioctl (request : ℕ) (value : Int)
deriving DecidableEq

/-- Where `printf` is when it reads `fmt[i]`. -/
inductive Pc where
  /-- `(c = fmt[i] & 0xff) != 0`. -/
  | loop
  /-- `c = fmt[++i] & 0xff` behind an ESC. -/
  | escape
  /-- At `s`, in front of which there is the number `num`, an `int`. -/
  | digits (num : Int32)
  /-- `c = fmt[++i] & 0xff` behind a `%`. -/
  | percent
  /-- Returned. -/
  | done
deriving DecidableEq

/-- Where `printf` is in the format, and what it has done. -/
structure State where
  i : ℕ
  pc : Pc
  /-- `static int color`. -/
  color : Int
  calls : List Call
  /-- History: the indices of the format that were read. -/
  seen : List ℕ

/-- `switch (num)`, behind the `m`; `current` is what `CONSOLE_GET_COLOR` gives. -/
def setColour (current : Int) (num : Int32) (color : Int) : List Call × Int :=
  let (calls, color) :=
    if color = -1 then ([.ioctl CONSOLE_GET_COLOR (-1)], current) else (([] : List Call), color)
  match num.toInt with
  | 30 => (calls ++ [.ioctl CONSOLE_SET_FG CGA_BLACK], color)
  | 31 => (calls ++ [.ioctl CONSOLE_SET_FG CGA_RED], color)
  | 32 => (calls ++ [.ioctl CONSOLE_SET_FG CGA_GREEN], color)
  | 33 => (calls ++ [.ioctl CONSOLE_SET_FG CGA_YELLOW], color)
  | 34 => (calls ++ [.ioctl CONSOLE_SET_FG CGA_BLUE], color)
  | 35 => (calls ++ [.ioctl CONSOLE_SET_FG CGA_MAGENTA], color)
  | 36 => (calls ++ [.ioctl CONSOLE_SET_FG CGA_CYAN], color)
  | 37 => (calls ++ [.ioctl CONSOLE_SET_FG CGA_WHITE], color)
  -- back to the colours that were saved
  | 39 | 0 => (calls ++ [.ioctl CONSOLE_SET_COLOR color], -1)
  | _ => (calls, color)

/-- `switch (c)`, behind the `%`: `c`, `d`, `x`, `p`, `s` and `%`, and anything else. -/
def convert (c : UInt8) : List Call :=
  if c = 99 ∨ c = 100 ∨ c = 120 ∨ c = 112 ∨ c = 115 then [.print c]
  else if c = PERCENT then [.putc PERCENT]
  -- print unknown % sequence to draw attention
  else [.putc PERCENT, .putc c]

/-- One byte of the format is read, and the index goes on to the next one. -/
def State.advance (s : State) (pc : Pc) (calls : List Call) : State :=
  { s with i := s.i + 1, pc := pc, calls := s.calls ++ calls, seen := s.seen ++ [s.i] }

/-- One round of the loop over the format. -/
def step (current : Int) (fmt : ℕ → UInt8) (s : State) : State :=
  let c := fmt s.i
  match s.pc with
  | .loop =>
    if c = 0 then s.advance .done []
    else if c = ESC then s.advance .escape []
    else if c = PERCENT then s.advance .percent []
    -- a sequence that does not end in `m` shows its last byte
    else s.advance .loop [.putc c]
  | .escape =>
    -- not a sequence: the bracket is written in place of ESC
    if c ≠ BRACKET then s.advance .loop [.putc BRACKET, .putc c] else s.advance (.digits 0) []
  | .digits num =>
    if Decimal.isDigit c then s.advance (.digits (num * 10 + .ofNat (Decimal.digit c))) []
    else if c = LETTER_M then
      let (calls, color) := setColour current num s.color
      { s.advance .loop calls with color := color }
    else s.advance .loop [.putc c]
  | .percent => if c = 0 then s.advance .done [] else s.advance .loop (convert c)
  | .done => s

/-- `printf` after `k` reads; `color` is what the calls before have left. -/
def run (current : Int) (fmt : ℕ → UInt8) (color : Int) : ℕ → State
  | 0 => ⟨0, .loop, color, [], []⟩
  | k + 1 => step current fmt (run current fmt color k)

/-! ## Formats -/

/-- The string at `fmt` has `n` bytes and a NUL behind them. -/
structure Terminated (fmt : ℕ → UInt8) (n : ℕ) : Prop where
  ne : ∀ i < n, fmt i ≠ 0
  nul : fmt n = 0

/-- `printf` returns, and has read nothing behind the NUL. -/
def Stays (current : Int) (fmt : ℕ → UInt8) (color : Int) (n : ℕ) : Prop :=
  ∃ k, (run current fmt color k).pc = .done ∧ ∀ i ∈ (run current fmt color k).seen, i ≤ n

/-- The escape sequences of a format are complete: each piece is a plain character, a `%` and a character,
an ESC and a character, or an ESC, a `[`, digits and the character behind them. A `%` may come last. -/
inductive Complete : List UInt8 → Prop
  | nil : Complete []
  | last : Complete [PERCENT]
  | plain {c : UInt8} {rest : List UInt8} (hesc : c ≠ ESC) (hpercent : c ≠ PERCENT)
      (h : Complete rest) : Complete (c :: rest)
  | percent {c : UInt8} {rest : List UInt8} (h : Complete rest) : Complete (PERCENT :: c :: rest)
  | escape {c : UInt8} {rest : List UInt8} (hc : c ≠ BRACKET) (h : Complete rest) :
      Complete (ESC :: c :: rest)
  | colour {ds : List UInt8} {c : UInt8} {rest : List UInt8}
      (hds : ∀ d ∈ ds, Decimal.isDigit d = true) (hc : Decimal.isDigit c = false)
      (h : Complete rest) : Complete (ESC :: BRACKET :: (ds ++ c :: rest))

/-- The bytes in front of the NUL. -/
def bytes (fmt : ℕ → UInt8) (n : ℕ) : List UInt8 := (List.range n).map fmt

/-! ## The places in a format -/

/-- Where a byte that is no NUL leads. -/
def next : Pc → UInt8 → Pc
  | .loop, c => if c = ESC then .escape else if c = PERCENT then .percent else .loop
  | .escape, c => if c ≠ BRACKET then .loop else .digits 0
  | .digits num, c => if Decimal.isDigit c then .digits (num * 10 + .ofNat (Decimal.digit c)) else .loop
  | .percent, _ => .loop
  | .done, _ => .done

/-- A NUL is the end here. -/
def AtRest (pc : Pc) : Prop := pc = .loop ∨ pc = .percent

section
variable {fmt : ℕ → UInt8} {current color : Int} {n k : ℕ} {c : UInt8} {l ds rest : List UInt8} {pc : Pc}
  {s : State}

lemma step_pc (current : Int) (hc : fmt s.i ≠ 0) : (step current fmt s).pc = next s.pc (fmt s.i) := by
  unfold step next
  cases hpc : s.pc with
  | loop =>
    simp only [if_neg hc]
    split_ifs <;> rfl
  | escape =>
    simp only
    split_ifs <;> rfl
  | digits num =>
    simp only
    split_ifs <;> rfl
  | percent =>
    simp only [if_neg hc]
    rfl
  | done => exact hpc

lemma step_nul (current : Int) (hc : fmt s.i = 0) (h : AtRest s.pc) : (step current fmt s).pc = .done := by
  unfold step
  rcases h with hpc | hpc
  · rw [hpc]
    simp only [if_pos hc]
    rfl
  · rw [hpc]
    simp only [if_pos hc]
    rfl

/-- Elsewhere the NUL is taken for a character. -/
lemma step_nul_loop (current : Int) (hc : fmt s.i = 0) (h : ¬ AtRest s.pc) (hdone : s.pc ≠ .done) :
    (step current fmt s).pc = .loop := by
  unfold AtRest at h
  unfold step
  cases hpc : s.pc with
  | loop => exact absurd (.inl hpc) h
  | percent => exact absurd (.inr hpc) h
  | done => exact absurd hpc hdone
  | escape =>
    have hother : fmt s.i ≠ BRACKET := by
      rw [hc]
      decide
    simp only [if_pos hother]
    rfl
  | digits num =>
    have hdigit : ¬ Decimal.isDigit (fmt s.i) = true := by
      rw [hc]
      decide
    have hletter : fmt s.i ≠ LETTER_M := by
      rw [hc]
      decide
    simp only [if_neg hdigit, if_neg hletter]
    rfl

/-- A step reads one byte and goes on to the next. -/
lemma step_seen (current : Int) (fmt : ℕ → UInt8) (hdone : s.pc ≠ .done) :
    (step current fmt s).i = s.i + 1 ∧ (step current fmt s).seen = s.seen ++ [s.i] := by
  unfold step
  cases hpc : s.pc with
  | done => exact absurd hpc hdone
  | loop =>
    simp only
    split_ifs <;> exact ⟨rfl, rfl⟩
  | escape =>
    simp only
    split_ifs <;> exact ⟨rfl, rfl⟩
  | digits num =>
    simp only
    split_ifs <;> exact ⟨rfl, rfl⟩
  | percent =>
    simp only
    split_ifs <;> exact ⟨rfl, rfl⟩

/-! ## Complete formats -/

/-- Digits are read until another byte follows. -/
lemma foldl_digits (hds : ∀ d ∈ ds, Decimal.isDigit d = true) (num : Int32) :
    ∃ num', ds.foldl next (.digits num) = .digits num' := by
  induction ds generalizing num with
  | nil => exact ⟨num, rfl⟩
  | cons d ds ih =>
    obtain ⟨hd, hds⟩ := List.forall_mem_cons.mp hds
    rw [List.foldl_cons, next, if_pos hd]
    exact ih hds _

/-- A format without an open sequence ends at rest. -/
lemma Complete.atRest (h : Complete l) : AtRest (l.foldl next .loop) := by
  induction h with
  | nil => exact .inl rfl
  | last => exact .inr rfl
  | plain hesc hpercent h ih =>
    rw [List.foldl_cons, next, if_neg hesc, if_neg hpercent]
    exact ih
  | percent h ih => exact ih
  | escape hc h ih =>
    rw [List.foldl_cons, List.foldl_cons, next, if_pos rfl, next, if_pos hc]
    exact ih
  | colour hds hc h ih =>
    obtain ⟨num, hnum⟩ := foldl_digits hds 0
    rw [List.foldl_cons, List.foldl_cons, next, if_pos rfl, next, if_neg (not_not.mpr rfl), List.foldl_append,
      hnum, List.foldl_cons, next, if_neg (by rw [hc]; exact Bool.false_ne_true)]
    exact ih

/-- The digits of an escape sequence come to an end. -/
lemma exists_digits (num : Int32) (l : List UInt8) (h : AtRest (l.foldl next (.digits num))) :
    ∃ ds c rest, l = ds ++ c :: rest ∧ (∀ d ∈ ds, Decimal.isDigit d = true) ∧
      Decimal.isDigit c = false ∧ AtRest (rest.foldl next .loop) := by
  induction l generalizing num with
  | nil =>
    rcases h with h | h
    · cases h
    · cases h
  | cons c l ih =>
    rw [List.foldl_cons, next] at h
    by_cases hc : Decimal.isDigit c = true
    · rw [if_pos hc] at h
      obtain ⟨ds, c', rest, hl, hds, hc', hrest⟩ := ih _ h
      exact ⟨c :: ds, c', rest, by rw [hl]; rfl, List.forall_mem_cons.mpr ⟨hc, hds⟩, hc', hrest⟩
    · rw [if_neg hc] at h
      exact ⟨[], c, l, rfl, nofun, by simpa using hc, h⟩

/-- And back, by induction on the bytes. -/
lemma complete_of_atRest (l : List UInt8) (h : AtRest (l.foldl next .loop)) : Complete l := by
  match l with
  | [] => exact .nil
  | [c] =>
    by_cases hpercent : c = PERCENT
    · subst hpercent
      exact .last
    by_cases hesc : c = ESC
    · subst hesc
      rcases h with h | h
      · cases h
      · cases h
    · exact .plain hesc hpercent .nil
  | c :: d :: l =>
    by_cases hpercent : c = PERCENT
    · subst hpercent
      exact .percent (complete_of_atRest l h)
    by_cases hesc : c = ESC
    · subst hesc
      rw [List.foldl_cons, List.foldl_cons, next, if_pos rfl, next] at h
      by_cases hd : d = BRACKET
      · rw [if_neg (not_not.mpr hd)] at h
        obtain ⟨ds, c, rest, rfl, hds, hc, hrest⟩ := exists_digits 0 l h
        subst hd
        exact .colour hds hc (complete_of_atRest rest hrest)
      · rw [if_pos hd] at h
        exact .escape hd (complete_of_atRest l h)
    · rw [List.foldl_cons, next, if_neg hesc, if_neg hpercent] at h
      exact .plain hesc hpercent (complete_of_atRest (d :: l) h)
termination_by l.length

lemma complete_iff (l : List UInt8) : Complete l ↔ AtRest (l.foldl next .loop) :=
  ⟨Complete.atRest, complete_of_atRest l⟩

/-! ## The run -/

/-- Up to the NUL, `printf` has read each byte once, and its place is that of the format. -/
structure Before (fmt : ℕ → UInt8) (k : ℕ) (s : State) : Prop where
  i : s.i = k
  pc : s.pc = (bytes fmt k).foldl next .loop
  seen : s.seen = List.range k

lemma next_ne_done (hpc : pc ≠ .done) (c : UInt8) : next pc c ≠ .done := by
  cases pc with
  | done => exact absurd rfl hpc
  | loop =>
    rw [next]
    split_ifs <;> nofun
  | escape =>
    rw [next]
    split_ifs <;> nofun
  | digits num =>
    rw [next]
    split_ifs <;> nofun
  | percent => exact nofun

lemma foldl_ne_done (hpc : pc ≠ .done) (l : List UInt8) : l.foldl next pc ≠ .done := by
  induction l generalizing pc with
  | nil => exact hpc
  | cons c l ih => exact ih (next_ne_done hpc c)

lemma before_run (h : Terminated fmt n) (hk : k ≤ n) : Before fmt k (run current fmt color k) := by
  have hloop : Pc.loop ≠ .done := by decide
  induction k with
  | zero => exact ⟨rfl, rfl, rfl⟩
  | succ k ih =>
    have hprev := ih (by omega)
    have hne : fmt (run current fmt color k).i ≠ 0 := by
      rw [hprev.i]
      exact h.ne k hk
    have hdone : (run current fmt color k).pc ≠ .done := by
      rw [hprev.pc]
      exact foldl_ne_done hloop _
    obtain ⟨hi, hseen⟩ := step_seen current fmt hdone
    refine ⟨?_, ?_, ?_⟩
    · rw [run, hi, hprev.i]
    · rw [run, step_pc current hne, hprev.pc, hprev.i]
      unfold bytes
      rw [List.range_succ, List.map_append, List.foldl_append]
      rfl
    · rw [run, hseen, hprev.seen, hprev.i, List.range_succ]

/-- What has been read stays read. -/
lemma seen_run_mono {k' i : ℕ} (hk : k ≤ k') (hi : i ∈ (run current fmt color k).seen) :
    i ∈ (run current fmt color k').seen := by
  induction k', hk using Nat.le_induction with
  | base => exact hi
  | succ m _ ih =>
    by_cases hdone : (run current fmt color m).pc = .done
    · have hstay : run current fmt color (m + 1) = run current fmt color m := by
        rw [run, step, hdone]
      rw [hstay]
      exact ih
    · rw [run, (step_seen current fmt hdone).2]
      exact List.mem_append_left _ ih

/-- **`printf` stays inside its format exactly when the escape sequences are complete.** -/
theorem stays_iff (current color : Int) (h : Terminated fmt n) :
    Stays current fmt color n ↔ Complete (bytes fmt n) := by
  have hloop : Pc.loop ≠ .done := by decide
  have hn : Before fmt n (run current fmt color n) := before_run h (Nat.le_refl n)
  have hnul : fmt (run current fmt color n).i = 0 := by
    rw [hn.i]
    exact h.nul
  have hdone : (run current fmt color n).pc ≠ .done := by
    rw [hn.pc]
    exact foldl_ne_done hloop _
  obtain ⟨hi, hseen⟩ := step_seen current fmt hdone
  rw [complete_iff, ← hn.pc]
  constructor
  · rintro ⟨k, hk, hle⟩
    by_contra hrest
    have hnext := step_nul_loop current hnul hrest hdone
    rcases Nat.lt_trichotomy k (n + 1) with hlt | heq | hgt
    · have hbefore : Before fmt k (run current fmt color k) := before_run h (by omega)
      rw [hbefore.pc] at hk
      exact foldl_ne_done hloop _ hk
    · rw [heq, run, hnext] at hk
      cases hk
    · -- the byte behind the NUL has been read
      have hpast : n + 1 ∈ (run current fmt color (n + 1 + 1)).seen := by
        have hgoes : (run current fmt color (n + 1)).pc ≠ .done := by
          rw [run, hnext]
          decide
        rw [run, (step_seen current fmt hgoes).2, run, hi, hn.i]
        exact List.mem_append_right _ (List.mem_singleton_self _)
      have := hle _ (seen_run_mono hgt hpast)
      omega
  · intro hrest
    refine ⟨n + 1, step_nul current hnul hrest, fun i hmem => ?_⟩
    rw [run, hseen, hn.seen, hn.i, ← List.range_succ, List.mem_range] at hmem
    omega

/-- `"\x1b[31m%d\x1b[0m"`. -/
def redFmt : ℕ → UInt8 := fun i =>
  [ESC, BRACKET, 51, 49, LETTER_M, PERCENT, 100, ESC, BRACKET, 48, LETTER_M].getD i 0

theorem stays_iff_redFmt : Terminated redFmt 11 ∧ Stays 7 redFmt (-1) 11 := by
  have h : Terminated redFmt 11 := ⟨by decide, by decide⟩
  have hcomplete : Complete (bytes redFmt 11) :=
    @Complete.colour [51, 49] _ _ (List.all_eq_true.mp (by decide)) (by decide)
      (.percent (@Complete.colour [48] _ _ (List.all_eq_true.mp (by decide)) (by decide) .nil))
  exact ⟨h, (stays_iff 7 (-1) h).mpr hcomplete⟩

/-- `"\x1b"`, and one more byte that is no NUL behind it. -/
def escFmt : ℕ → UInt8 := fun i => if i = 0 then ESC else if i = 2 then 65 else 0

/-- The byte behind the NUL is printed. -/
theorem not_stays_escFmt : Terminated escFmt 1 ∧ ¬ Stays 7 escFmt (-1) 1 := by
  refine ⟨⟨by decide, by decide⟩, ?_⟩
  rintro ⟨k, hk, hle⟩
  have hpast : 2 ∈ (run 7 escFmt (-1) 3).seen := by decide
  have hearly : ∀ m < 3, (run 7 escFmt (-1) m).pc ≠ .done := by decide
  have hge : 3 ≤ k := by
    by_contra hlt
    exact hearly k (by omega) hk
  exact absurd (hle 2 (seen_run_mono hge hpast)) (by decide)

end

end Printf
end OhMyXv6
