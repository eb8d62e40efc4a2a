import OhMyXv6.Shell.Grammar

/-!
# `peek` and `gettoken` read the tokens of the line

`Reads line s l`: the tokens from the place `s` of the line on are `l`. `peek` looks at the first of them,
and `gettoken` takes it.
-/

namespace OhMyXv6
namespace Sh

open Console

/-! ## The tokens -/

section
variable {c : UInt8} {l : Str} {k : Token}

@[simp] lemma tokens_nil : tokens [] = [] := by
  rw [tokens]

lemma tokens_blank (h : isBlank c = true) : tokens (c :: l) = tokens l := by
  rw [tokens, if_pos h]

/-- A word ends before a blank or a symbol. -/
lemma tokens_word (hb : isBlank c = false) (h : symbol c = none) :
    tokens (c :: l) = .word (c :: l.takeWhile isWord) :: tokens (l.dropWhile isWord) := by
  rw [tokens, if_neg (Bool.eq_false_iff.mp hb), h]

lemma tokens_gtgt : tokens (chr '>' :: chr '>' :: l) = .arrow .gtgt :: tokens l := by
  rw [tokens, if_neg (by decide)]
  rfl

lemma tokens_symbol (h : symbol c = some k) (hgt : ¬ (c = chr '>' ∧ l.head? = some (chr '>'))) :
    tokens (c :: l) = k :: tokens l := by
  have hb : ¬ isBlank c := by
    intro hb
    simp only [isBlank, whitespace, List.mem_cons, List.not_mem_nil, or_false,
      decide_eq_true_eq] at hb
    rcases hb with rfl | rfl | rfl | rfl | rfl <;> cases h
  rw [tokens, if_neg hb, h]
  exact if_neg hgt

lemma mem_symbols : c ∈ symbols ↔ symbol c ≠ none := by
  unfold symbol
  split_ifs <;> simp_all [symbols]

/-- A byte that is neither blank nor a symbol is in a word. -/
lemma isWord_iff (hb : isBlank c = false) : isWord c = true ↔ symbol c = none := by
  have hws : c ∉ whitespace := by simpa [isBlank] using hb
  simp [isWord, hws, mem_symbols]

/-- Blanks in front do not matter. -/
lemma tokens_dropWhile (l : Str) : tokens (l.dropWhile isBlank) = tokens l := by
  induction l with
  | nil => rfl
  | cons c l ih =>
    cases hc : isBlank c with
    | true => rw [List.dropWhile_cons_of_pos hc, ih, tokens_blank hc]
    | false => rw [List.dropWhile_cons_of_neg (Bool.eq_false_iff.mp hc)]

end

/-! ## Places of the line -/

section
variable {line : Str} {s q : ℕ}

lemma getD_eq_head (line : Str) (s : ℕ) : line.getD s 0 = (line.drop s).headD 0 := by
  rw [List.headD_eq_head?_getD, List.head?_drop, List.getD_eq_getElem?_getD]

/-- By induction on what is left of the line. -/
lemma skipLoop_eq (p : UInt8 → Bool) (line : Str) : ∀ n s, n = line.length - s →
    skipLoop p line n s = s + ((line.drop s).takeWhile p).length := by
  intro n
  induction n with
  | zero =>
    intro s hn
    rw [List.drop_eq_nil_of_le (by omega)]
    rfl
  | succ n ih =>
    intro s hn
    have hs : s < line.length := by omega
    unfold skipLoop
    rw [getD_eq_head, List.drop_eq_getElem_cons hs, List.headD_cons]
    cases hp : p (line)[s] with
    | true =>
      rw [if_pos rfl, ih (s + 1) (by omega), List.takeWhile_cons_of_pos hp, List.length_cons]
      omega
    | false =>
      rw [if_neg (by simp), List.takeWhile_cons_of_neg (by simp [hp])]
      rfl

lemma skip_eq (p : UInt8 → Bool) (line : Str) (s : ℕ) :
    skip p line s = s + ((line.drop s).takeWhile p).length :=
  skipLoop_eq p line _ s rfl

lemma drop_skip (p : UInt8 → Bool) (line : Str) (s : ℕ) :
    line.drop (skip p line s) = (line.drop s).dropWhile p := by
  have h : ((line.drop s).takeWhile p ++ (line.drop s).dropWhile p).drop
      ((line.drop s).takeWhile p).length = (line.drop s).dropWhile p := List.drop_left
  rw [List.takeWhile_append_dropWhile] at h
  rw [skip_eq, ← List.drop_drop, h]

lemma skip_le (p : UInt8 → Bool) (hs : s ≤ line.length) : skip p line s ≤ line.length := by
  have hle := (List.takeWhile_prefix p (l := line.drop s)).length_le
  rw [List.length_drop] at hle
  rw [skip_eq]
  omega

/-- `w` are the ends of the word `text` of the line. -/
structure WordAt (line : Str) (w : Span) (text : Str) : Prop where
  drop : line.drop w.1 = text ++ line.drop w.2
  snd : w.2 = w.1 + text.length
  word : ∀ c ∈ text, isWord c = true
  /-- The word is as long as possible. -/
  stop : ∀ c ∈ (line.drop w.2).head?, isWord c = false

/-- The tokens from the place `s` of the line on. -/
structure Reads (line : Str) (s : ℕ) (l : List Token) : Prop where
  le : s ≤ line.length
  tokens : tokens (line.drop s) = l

/-- What `gettoken` returns. -/
def Token.ret : Token → UInt8
  | .bar => chr '|'
  | .lparen => chr '('
  | .rparen => chr ')'
  | .semi => chr ';'
  | .amp => chr '&'
  | .arrow .lt => chr '<'
  | .arrow .gt => chr '>'
  -- `>>`
  | .arrow .gtgt => chr '+'
  | .word _ => chr 'a'

/-- The first character, except of a word. -/
def Token.char : Token → UInt8
  | .arrow .gtgt => chr '>'
  | k => k.ret

/-- `gettoken` returns the symbol's own character. -/
lemma symbol_ret {c : UInt8} {k : Token} (h : symbol c = some k) : k.ret = c ∧ k.char = c := by
  unfold symbol at h
  split_ifs at h <;> cases h <;> subst_vars <;> exact ⟨rfl, rfl⟩

lemma symbol_ne_word {c : UInt8} {k : Token} (h : symbol c = some k) (w : Str) : k ≠ .word w := by
  unfold symbol at h
  split_ifs at h <;> cases h <;> simp

/-- A word from its start to its end. -/
lemma skip_word {c : UInt8} {l : Str} (hq : line.drop q = c :: l) (hc : isWord c = true) :
    WordAt line (q, skip isWord line q) (c :: l.takeWhile isWord) := by
  have htake : (line.drop q).takeWhile isWord = c :: l.takeWhile isWord := by
    rw [hq, List.takeWhile_cons_of_pos hc]
  have hdrop := drop_skip isWord line q
  constructor
  · show line.drop q = _ ++ line.drop (skip isWord line q)
    rw [hdrop, ← htake, List.takeWhile_append_dropWhile]
  · rw [← htake]
    exact skip_eq isWord line q
  · intro d hd
    rw [← htake] at hd
    exact List.mem_takeWhile_imp hd
  · intro d hd
    show isWord d = false
    have hhead : d ∈ ((line.drop q).dropWhile isWord).head? := hdrop ▸ hd
    have hnot := List.head?_dropWhile_not isWord (line.drop q)
    rw [Option.mem_def.mp hhead] at hnot
    exact hnot

lemma drop_succ {c : UInt8} {l : Str} (hq : line.drop q = c :: l) : line.drop (q + 1) = l := by
  rw [← List.drop_drop, hq]
  rfl

lemma drop_lt {c : UInt8} {l : Str} (hq : line.drop q = c :: l) : q < line.length := by
  by_contra hle
  rw [List.drop_eq_nil_of_le (by omega)] at hq
  cases hq

/-- The `switch` of `gettoken` at a byte that is not blank. -/
lemma gettokenSwitch_eq (h0 : (0 : UInt8) ∉ line) {c : UInt8} {l : Str}
    (hq : line.drop q = c :: l) (hb : isBlank c = false) :
    ∃ k, tokens (c :: l) = k :: tokens (line.drop (gettokenSwitch line q).2) ∧
      (gettokenSwitch line q).1 = k.ret ∧ (k.char = c ∨ k.char = chr 'a' ∧ symbol c = none) ∧
      (gettokenSwitch line q).2 ≤ line.length ∧
      ∀ w, k = .word w → WordAt line (q, (gettokenSwitch line q).2) w := by
  have hget : line.getD q 0 = c := by rw [getD_eq_head, hq, List.headD_cons]
  have hne : c ≠ 0 := by
    intro hc
    have hmem : c ∈ line.drop q := by rw [hq]; exact List.mem_cons_self
    exact h0 (hc ▸ List.mem_of_mem_drop hmem)
  have hdrop := drop_succ hq
  have hlt := drop_lt hq
  -- the `switch`: a word is its default case
  cases hsym : symbol c with
  | none =>
    have hw : isWord c = true := (isWord_iff hb).mpr hsym
    have hx : gettokenSwitch line q = (chr 'a', skip isWord line q) := by
      unfold gettokenSwitch symbol at *
      simp only [hget]
      split_ifs at hsym
      simp_all
    rw [hx]
    refine ⟨.word (c :: l.takeWhile isWord), ?_, rfl, Or.inr ⟨rfl, rfl⟩, skip_le isWord hlt.le, ?_⟩
    · show _ = _ :: tokens (line.drop (skip isWord line q))
      rw [tokens_word hb hsym, drop_skip, hq, List.dropWhile_cons_of_pos hw]
    · rintro w ⟨⟩
      exact skip_word hq hw
  | some k =>
    obtain ⟨hret, hchar⟩ := symbol_ret hsym
    -- `>>` looks at the next byte as well
    by_cases hgt : c = chr '>' ∧ l.head? = some (chr '>')
    · obtain ⟨rfl, hhead⟩ := hgt
      obtain ⟨l', rfl⟩ : ∃ l', l = chr '>' :: l' := by
        cases l with
        | nil => cases hhead
        | cons d l' => exact ⟨l', by rw [Option.some.inj hhead]⟩
      have hget' : line.getD (q + 1) 0 = chr '>' := by rw [getD_eq_head, hdrop, List.headD_cons]
      have hx : gettokenSwitch line q = (chr '+', q + 2) := by
        unfold gettokenSwitch
        simp only [hget, hget']
        rfl
      have hlt' := drop_lt hdrop
      rw [hx]
      refine ⟨.arrow .gtgt, ?_, rfl, Or.inl rfl, hlt', ?_⟩
      · rw [tokens_gtgt, drop_succ (q := q + 1) hdrop]
      · rintro w ⟨⟩
    · have hx : gettokenSwitch line q = (c, q + 1) := by
        have hhead : line.getD (q + 1) 0 = l.headD 0 := by rw [getD_eq_head, hdrop]
        unfold gettokenSwitch
        simp only [hget, hhead]
        rw [if_neg hne]
        split_ifs with hmem hc hnext
        · rfl
        · refine (hgt ⟨hc, ?_⟩).elim
          cases l with
          | nil => exact absurd hnext (by decide)
          | cons d l' => exact congrArg some hnext
        · rfl
        · unfold symbol at hsym
          split_ifs at hsym <;> simp_all
      rw [hx]
      refine ⟨k, ?_, hret.symm, Or.inl hchar, hlt, ?_⟩
      · rw [tokens_symbol hsym hgt, hdrop]
      · intro w hw
        exact (symbol_ne_word hsym w hw).elim

/-- Blanks in front of a token do not matter. -/
lemma Reads.skip {l : List Token} (h : Reads line s l) : Reads line (skip isBlank line s) l :=
  ⟨skip_le isBlank h.le, by rw [drop_skip, tokens_dropWhile, h.tokens]⟩

/-- What is skipped ends before a byte that is not blank. -/
lemma isBlank_skip {c : UInt8} {l : Str} (hq : line.drop (skip isBlank line s) = c :: l) :
    isBlank c = false := by
  have hnot := List.head?_dropWhile_not isBlank (line.drop s)
  rw [← drop_skip, hq] at hnot
  exact hnot

end

/-! ## The programs -/

section
variable {line : Str} {s : ℕ} {l : List Token} {E : ParseError → Prop}

open Fallible

/-- Reading and changing the state. -/
lemma ends_modifyGet {σ ε α : Type} {E : ε → Prop} {Q : α → σ → Prop} {f : σ → α × σ} {s : σ} :
    Ends E (modifyGet f : Fallible σ ε α) Q s ↔ Q (f s).1 (f s).2 := Iff.rfl

/-- `peek` looks at the first token. -/
lemma peek_ends (h0 : (0 : UInt8) ∉ line) (h : Reads line s l) {toks : Str}
    (htoks : toks ⊆ symbols) :
    Ends E (peek line toks) (fun b t => b = l.head?.any (fun k => k.char ∈ toks) ∧ Reads line t l)
      s := by
  refine ends_modifyGet.mpr ⟨?_, h.skip⟩
  show decide (line.getD (skip isBlank line s) 0 ≠ 0 ∧ line.getD (skip isBlank line s) 0 ∈ toks) = _
  have htokens := h.skip.tokens
  cases hq : line.drop (skip isBlank line s) with
  | nil =>
    rw [hq, tokens_nil] at htokens
    rw [getD_eq_head, hq, ← htokens]
    rfl
  | cons c r =>
    obtain ⟨k, hk, -, hchar, -⟩ := gettokenSwitch_eq h0 hq (isBlank_skip hq)
    have hne : c ≠ 0 := by
      intro hc
      have hmem : c ∈ line.drop (skip isBlank line s) := by rw [hq]; exact List.mem_cons_self
      exact h0 (hc ▸ List.mem_of_mem_drop hmem)
    rw [hq, hk] at htokens
    rw [getD_eq_head, hq, ← htokens, List.headD_cons]
    show _ = decide (k.char ∈ toks)
    rw [decide_eq_decide]
    rcases hchar with hchar | ⟨hchar, hsym⟩
    · rw [hchar]
      exact ⟨fun hc => hc.2, fun hc => ⟨hne, hc⟩⟩
    · rw [hchar]
      exact ⟨fun hc => (mem_symbols.mp (htoks hc.2) hsym).elim, fun hc => (mem_symbols.mp (htoks hc) rfl).elim⟩

lemma gettoken_ends (h0 : (0 : UInt8) ∉ line) {k : Token} (h : Reads line s (k :: l)) :
    Ends E (gettoken line) (fun x t => x.1 = k.ret ∧ Reads line t l ∧
      ∀ w, k = .word w → WordAt line x.2 w) s := by
  have htokens := h.skip.tokens
  cases hq : line.drop (skip isBlank line s) with
  | nil =>
    rw [hq, tokens_nil] at htokens
    cases htokens
  | cons c r =>
    obtain ⟨k', hk, hret, -, hle, hword⟩ := gettokenSwitch_eq h0 hq (isBlank_skip hq)
    rw [hq, hk] at htokens
    obtain ⟨rfl, hl⟩ := List.cons.inj htokens
    exact ends_modifyGet.mpr ⟨hret, Reads.skip ⟨hle, hl⟩, hword⟩

/-- At the end of the line `gettoken` returns 0. -/
lemma gettoken_ends_nil (h : Reads line s []) (h0 : (0 : UInt8) ∉ line) :
    Ends E (gettoken line) (fun x t => x.1 = 0 ∧ Reads line t []) s := by
  have htokens := h.skip.tokens
  cases hq : line.drop (skip isBlank line s) with
  | nil =>
    have hx : gettokenSwitch line (skip isBlank line s) = (0, skip isBlank line s) := by
      unfold gettokenSwitch
      rw [getD_eq_head, hq]
      rfl
    refine ends_modifyGet.mpr ?_
    dsimp only
    rw [hx]
    exact ⟨rfl, h.skip.skip⟩
  | cons c r =>
    obtain ⟨k, hk, -⟩ := gettokenSwitch_eq h0 hq (isBlank_skip hq)
    rw [hq, hk] at htokens
    cases htokens

end

end Sh
end OhMyXv6
