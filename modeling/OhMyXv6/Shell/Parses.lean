import Mathlib.Data.List.Forall2
import Mathlib.Data.List.Induction
import OhMyXv6.Shell.Tokens

/-!
# The parser implements the grammar

With enough fuel the parser finds a derivation at the front of the tokens, or it panics. Where there is a
derivation, and what comes behind it can not belong to it, the parser finds it.
-/

namespace OhMyXv6
namespace Sh

open Console Fallible

/-! ## Trees -/

section
variable {V W : Type}

/-- The two trees have the same shape, and their strings are in `R`. -/
inductive Cmd.Rel (R : V → W → Prop) : Cmd V → Cmd W → Prop where
  | exec {vs : List V} {ws : List W} (h : List.Forall₂ R vs ws) : Rel R (.exec vs) (.exec ws)
  | redir {c : Cmd V} {d : Cmd W} {v : V} {w : W} {mode fd : ℕ} (h : Rel R c d) (hw : R v w) :
    Rel R (.redir c v mode fd) (.redir d w mode fd)
  | pipe {c c' : Cmd V} {d d' : Cmd W} (h : Rel R c d) (h' : Rel R c' d') :
    Rel R (.pipe c c') (.pipe d d')
  | list {c c' : Cmd V} {d d' : Cmd W} (h : Rel R c d) (h' : Rel R c' d') :
    Rel R (.list c c') (.list d d')
  | back {c : Cmd V} {d : Cmd W} (h : Rel R c d) : Rel R (.back c) (.back d)

/-- The strings of a command. -/
def Cmd.words : Cmd W → List W
  | .exec argv => argv
  | .redir cmd file _ _ => cmd.words ++ [file]
  | .pipe left right => left.words ++ right.words
  | .list left right => left.words ++ right.words
  | .back cmd => cmd.words

variable {R : V → W → Prop} {c : Cmd V} {d : Cmd W}

lemma Cmd.Rel.map_eq {f : V → W} (h : c.Rel R d) (hf : ∀ v ∈ c.words, ∀ w, R v w → f v = w) :
    c.map f = d := by
  induction h with
  | @exec vs ws h =>
    refine congrArg Cmd.exec ?_
    induction h with
    | nil => rfl
    | @cons v w vs ws hvw _ ih =>
      rw [List.map_cons, hf v List.mem_cons_self w hvw,
        ih fun v' hv' => hf v' (List.mem_cons_of_mem v hv')]
  | @redir c d v w mode fd _ hw ih =>
    rw [Cmd.map, hf v (List.mem_append_right _ (List.mem_singleton_self v)) w hw,
      ih fun v' hv' => hf v' (List.mem_append_left _ hv')]
  | pipe _ _ ih ih' =>
    rw [Cmd.map, ih fun v hv => hf v (List.mem_append_left _ hv),
      ih' fun v hv => hf v (List.mem_append_right _ hv)]
  | list _ _ ih ih' =>
    rw [Cmd.map, ih fun v hv => hf v (List.mem_append_left _ hv),
      ih' fun v hv => hf v (List.mem_append_right _ hv)]
  | back _ ih => rw [Cmd.map, ih hf]

lemma Cmd.Rel.exists_of_mem (h : c.Rel R d) {v : V} (hv : v ∈ c.words) : ∃ w, R v w := by
  induction h with
  | @exec vs ws h =>
    replace hv : v ∈ vs := hv
    induction h with
    | nil => cases hv
    | @cons v' w vs ws hvw _ ih =>
      rcases List.mem_cons.mp hv with rfl | hv
      · exact ⟨w, hvw⟩
      · exact ih hv
  | @redir c d v' w mode fd _ hw ih =>
    rcases List.mem_append.mp hv with hv | hv
    · exact ih hv
    · exact ⟨w, List.mem_singleton.mp hv ▸ hw⟩
  | pipe _ _ ih ih' => exact (List.mem_append.mp hv).elim ih ih'
  | list _ _ ih ih' => exact (List.mem_append.mp hv).elim ih ih'
  | back _ ih => exact ih hv

end

section
variable {line : Str} {cmd : Cmd Span} {tree : Cmd Str}

/-- The strings of `cmd` are those of the tree, as they stand in the line. -/
abbrev Spells (line : Str) (cmd : Cmd Span) (tree : Cmd Str) : Prop := cmd.Rel (WordAt line) tree

@[simp] lemma wrap_nil : Redirection.wrap tree [] = tree := rfl

lemma wrap_append (rs rs' : List Redirection) :
    Redirection.wrap tree (rs ++ rs') = Redirection.wrap (Redirection.wrap tree rs) rs' :=
  List.foldl_append

/-- A word goes to the command behind the redirections. -/
lemma push_spells {ws : List Str} {w : Span} {t : Str} (ht : WordAt line w t)
    (rs : List Redirection) : ∀ cmd, Spells line cmd (Redirection.wrap (.exec ws) rs) →
      Spells line (cmd.push w) (Redirection.wrap (.exec (ws ++ [t])) rs) := by
  induction rs using List.reverseRecOn with
  | nil =>
    intro cmd h
    cases h with
    | exec h => exact .exec (List.rel_append h (.cons ht .nil))
  | append_singleton rs r ih =>
    intro cmd h
    rw [wrap_append] at h ⊢
    cases h with
    | redir h hw => exact .redir (ih _ h) hw

end

/-! ## Tokens and their characters -/

/-- A symbol is known by its character. -/
lemma eq_of_char {k : Token} (m : Token) {c : UInt8} (h : k.char = c) (hc : symbol c = some m)
    (hgt : c ≠ chr '>') : k = m := by
  subst h
  cases k with
  | arrow a =>
    cases a with
    | lt => exact Option.some.inj hc
    | gt => exact (hgt rfl).elim
    | gtgt => exact (hgt rfl).elim
  | word w => cases hc
  | _ => exact Option.some.inj hc

lemma arrow_of_char {k : Token} (h : k.char ∈ [chr '<', chr '>']) : ∃ a, k = .arrow a := by
  cases k with
  | arrow a => exact ⟨a, rfl⟩
  | word w => exact absurd h (show chr 'a' ∉ [chr '<', chr '>'] by decide)
  | _ => exact absurd h (by decide)

/-- `gettoken` says `a` for a word only. -/
lemma word_of_ret {k : Token} (h : k.ret = chr 'a') : ∃ w, k = .word w := by
  cases k with
  | word w => exact ⟨w, rfl⟩
  | arrow a => cases a <;> exact absurd h (by decide)
  | _ => exact absurd h (by decide)

lemma ret_ne_zero (k : Token) : k.ret ≠ 0 := by
  cases k with
  | arrow a => cases a <;> decide
  | word w => exact show chr 'a' ≠ 0 by decide
  | _ => decide

lemma redirection_ret (a : Arrow) (cmd : Cmd Span) (file : Span) :
    redirection (Token.arrow a).ret cmd file = .redir cmd file a.mode a.fd := by
  cases a <;> rfl

/-! ## What the parser finds -/

section
variable {line : Str} {s n : ℕ} {l : List Token}

/-- What a program has found at the front of the tokens `l` is in `D`, and it has stopped behind it. -/
def Found (line : Str) (D : List Token → Cmd Str → Prop) (l : List Token) (cmd : Cmd Span) (t : ℕ) :
    Prop :=
  ∃ l₁ l₂ tree, l = l₁ ++ l₂ ∧ D l₁ tree ∧ Spells line cmd tree ∧ Reads line t l₂

/-- The programs do not run out of fuel. -/
abbrev Panics (e : ParseError) : Prop := e ≠ .fuel

/-- Looking ahead at the next token. -/
lemma ends_peek {α : Type} {E : ParseError → Prop} {Q : α → ℕ → Prop} {toks : Str}
    {f : Bool → Parse α} (h0 : (0 : UInt8) ∉ line) (h : Reads line s l)
    (htoks : toks ⊆ symbols)
    (hpos : ∀ k l' t, l = k :: l' → k.char ∈ toks → Reads line t l → Ends E (f true) Q t)
    (hneg : ∀ t, (∀ k ∈ l.head?, k.char ∉ toks) → Reads line t l → Ends E (f false) Q t) :
    Ends E (peek line toks >>= f) Q s := by
  refine (peek_ends h0 h htoks).seq ?_
  intro b t hb
  obtain ⟨rfl, ht⟩ := hb
  cases l with
  | nil => exact hneg t (by simp) ht
  | cons k l' =>
    by_cases hk : k.char ∈ toks
    · rw [List.head?_cons, Option.any_some, decide_eq_true hk]
      exact hpos k l' t rfl hk ht
    · rw [List.head?_cons, Option.any_some, decide_eq_false hk]
      exact hneg t (by simpa using hk) ht

/-- Redirections, as many as there are. -/
lemma parseredirs_sound (h0 : (0 : UInt8) ∉ line) : ∀ n s l cmd tree, Reads line s l →
    l.length < n → Spells line cmd tree → Ends Panics (parseredirs line n cmd)
      (Found line (fun l₁ tree' => ∃ rs : List Redirection,
        l₁ = rs.flatMap Redirection.tokens ∧ tree' = Redirection.wrap tree rs) l) s := by
  intro n
  induction n with
  | zero =>
    intro s l cmd tree _ hn
    omega
  | succ n ih =>
    intro s l cmd tree h hn hcmd
    refine ends_peek h0 h (by decide) ?_ ?_
    -- an arrow is next
    · intro k l' t hl hk ht
      obtain ⟨a, rfl⟩ := arrow_of_char hk
      subst hl
      refine (gettoken_ends h0 ht).seq ?_
      intro tok t₁ h₁
      obtain ⟨htok, h₁, -⟩ := h₁
      cases l' with
      | nil =>
        refine (gettoken_ends_nil h₁ h0).seq ?_
        intro file t₂ h₂
        rw [h₂.1, if_pos (by decide)]
        simp
      | cons k₂ l₂ =>
        refine (gettoken_ends h0 h₁).seq ?_
        intro file t₂ h₂
        obtain ⟨hret, h₂, hw⟩ := h₂
        -- a word names the file, anything else panics
        by_cases hk₂ : k₂.ret = chr 'a'
        · obtain ⟨w, rfl⟩ := word_of_ret hk₂
          rw [hret, if_neg (fun hne => hne rfl), htok, redirection_ret]
          refine (ih t₂ l₂ _ (.redir tree w a.mode a.fd) h₂ ?_ (.redir hcmd (hw w rfl))).mono
            (fun _ he => he) ?_
          · simp only [List.length_cons] at hn
            omega
          · intro cmd' t' hfound
            obtain ⟨m₁, m₂, tree', rfl, ⟨rs, rfl, rfl⟩, hspell, hr⟩ := hfound
            exact ⟨_, m₂, _, rfl, ⟨(a, w) :: rs, rfl, rfl⟩, hspell, hr⟩
        · rw [hret, if_pos hk₂]
          simp
    · intro t _ ht
      exact ⟨[], l, tree, rfl, ⟨[], rfl, rfl⟩, hcmd, ht⟩

/-- Words and redirections, with room for `r` words less one. -/
lemma parseexecLoop_sound (h0 : (0 : UInt8) ∉ line) : ∀ r s l ret ws rs, Reads line s l →
    l.length < n → Spells line ret (Redirection.wrap (.exec ws) rs) →
    Ends Panics (parseexecLoop line n r ret) (Found line (fun l₁ tree => ∃ args : List Arg,
      l₁ = args.flatMap Arg.tokens ∧ args.length < r ∧
        tree = Redirection.wrap (.exec (ws ++ args.map Prod.fst)) (rs ++ args.flatMap Prod.snd)) l)
      s := by
  intro r
  induction r with
  | zero =>
    intro s l ret ws rs _ _ _
    exact ends_throw.mpr ParseError.noConfusion
  | succ r ih =>
    intro s l ret ws rs h hn hret
    -- the command may end before every token
    have hstop : ∀ t, Reads line t l → Found line (fun l₁ tree => ∃ args : List Arg,
        l₁ = args.flatMap Arg.tokens ∧ args.length < r + 1 ∧
          tree = Redirection.wrap (.exec (ws ++ args.map Prod.fst)) (rs ++ args.flatMap Prod.snd))
        l ret t := by
      intro t ht
      refine ⟨[], l, _, rfl, ⟨[], rfl, Nat.succ_pos r, rfl⟩, ?_, ht⟩
      simpa using hret
    refine ends_peek h0 h (by decide) (fun _ _ t _ _ ht => hstop t ht) ?_
    intro t _ ht
    cases l with
    | nil =>
      refine (gettoken_ends_nil ht h0).seq ?_
      intro tok t₁ h₁
      rw [if_pos h₁.1]
      exact hstop t₁ h₁.2
    | cons k l =>
      refine (gettoken_ends h0 ht).seq ?_
      intro tok t₁ h₁
      obtain ⟨htok, h₁, hw⟩ := h₁
      rw [htok, if_neg (ret_ne_zero k)]
      -- only a word may follow; the last place of `argv` stays free
      by_cases hk : k.ret = chr 'a'
      swap
      · rw [if_pos hk]
        exact ends_throw.mpr ParseError.noConfusion
      obtain ⟨w, rfl⟩ := word_of_ret hk
      rw [if_neg (fun hne => hne hk)]
      by_cases hr : r = 0
      · rw [if_pos hr]
        exact ends_throw.mpr ParseError.noConfusion
      rw [if_neg hr]
      rw [List.length_cons] at hn
      refine (parseredirs_sound h0 n t₁ l _ _ h₁ (by omega)
        (push_spells (hw w rfl) rs ret hret)).seq ?_
      intro ret' t₂ hfound
      obtain ⟨m₁, m₂, tree, rfl, ⟨rs', rfl, rfl⟩, hspell, h₂⟩ := hfound
      rw [← wrap_append] at hspell
      rw [List.length_append] at hn
      refine (ih t₂ m₂ ret' _ _ h₂ (by omega) hspell).mono (fun _ he => he) ?_
      intro cmd t₃ hfound
      obtain ⟨m₃, m₄, tree, rfl, ⟨args, rfl, hlen, rfl⟩, hspell', h₃⟩ := hfound
      refine ⟨Arg.tokens (w, rs') ++ args.flatMap Arg.tokens, m₄, _, ?_,
        ⟨(w, rs') :: args, rfl, Nat.succ_lt_succ hlen, rfl⟩, ?_, h₃⟩
      · simp [Arg.tokens]
      · simpa using hspell'

/-- By induction on the tokens: each `&` is one level. -/
lemma parselineLoop_sound (h0 : (0 : UInt8) ∉ line) : ∀ n s l cmd tree, Reads line s l →
    l.length < n → Spells line cmd tree → Ends Panics (parselineLoop line n cmd)
      (Found line (fun l₁ tree' => ∃ m, l₁ = List.replicate m .amp ∧ tree' = .background m tree) l)
      s := by
  intro n
  induction n with
  | zero =>
    intro s l cmd tree _ hn
    omega
  | succ n ih =>
    intro s l cmd tree h hn hcmd
    refine ends_peek h0 h (by decide) ?_ ?_
    · intro k l' t hl hk ht
      obtain rfl := eq_of_char .amp (List.mem_singleton.mp hk) rfl (by decide)
      subst hl
      refine (gettoken_ends h0 ht).seq ?_
      intro _ t₁ h₁
      rw [List.length_cons] at hn
      refine (ih t₁ l' _ (.back tree) h₁.2.1 (by omega) (.back hcmd)).mono (fun _ he => he) ?_
      intro cmd' t₂ hfound
      obtain ⟨m₁, m₂, tree', rfl, ⟨m, rfl, rfl⟩, hspell, hr⟩ := hfound
      exact ⟨_, m₂, _, rfl, ⟨m + 1, rfl, rfl⟩, hspell, hr⟩
    · intro t _ ht
      exact ⟨[], l, tree, rfl, ⟨0, rfl, rfl⟩, hcmd, ht⟩

/-- The function of a nonterminal. -/
def Nonterminal.parse (line : Str) : Nonterminal → ℕ → Parse (Cmd Span)
  | .line => parseline line
  | .pipe => parsepipe line
  | .exec => parseexec line

/-- With `k` tokens left it has to have this much fuel. -/
def Nonterminal.fuel (k : ℕ) : Nonterminal → ℕ
  | .line => 4 * k + 4
  | .pipe => 4 * k + 3
  | .exec => 4 * k + 2

/-- The function of `N` finds derivations. -/
def Sound (line : Str) (N : Nonterminal) (n : ℕ) : Prop :=
  ∀ s l, Reads line s l → N.fuel l.length ≤ n →
    Ends Panics (N.parse line n) (Found line (Derives N) l) s

/-- A command with its arguments, or a block. -/
lemma parseexec_sound (h0 : (0 : UInt8) ∉ line) (hline : ∀ m < n, Sound line .line m) :
    Sound line .exec n := by
  intro s l h hn
  cases n with
  | zero => exact absurd hn (by simp [Nonterminal.fuel])
  | succ n =>
    simp only [Nonterminal.fuel] at hn
    rw [Nonterminal.parse, parseexec]
    refine ends_peek h0 h (by decide) ?_ ?_
    · intro k l' t hl hk ht
      obtain rfl := eq_of_char .lparen (List.mem_singleton.mp hk) rfl (by decide)
      subst hl
      cases n with
      | zero => omega
      | succ n =>
        -- `(`: a block, then its redirections
        rw [if_pos rfl, parseblock]
        refine ends_peek h0 ht (by decide) ?_ ?_
        swap
        · intro t₁ hneg
          exact absurd (List.mem_singleton_self _) (hneg .lparen rfl)
        intro k' l₁ t₁ hl₁ _ h₁
        obtain ⟨-, rfl⟩ := List.cons.inj hl₁
        refine (gettoken_ends h0 h₁).seq ?_
        intro _ t₂ h₂
        rw [List.length_cons] at hn
        refine (hline n (by omega) t₂ l' h₂.2.1 (by simp only [Nonterminal.fuel]; omega)).seq ?_
        intro cmd t₃ hfound
        obtain ⟨m₁, m₂, tree, rfl, hderives, hspell, h₃⟩ := hfound
        refine ends_peek h0 h₃ (by decide) ?_ ?_
        swap
        · intro _ _ _
          exact ends_throw.mpr ParseError.noConfusion
        intro k₃ l₃ t₄ hl₃ hk₃ h₄
        obtain rfl := eq_of_char .rparen (List.mem_singleton.mp hk₃) rfl (by decide)
        subst hl₃
        refine (gettoken_ends h0 h₄).seq ?_
        intro _ t₅ h₅
        rw [List.length_append, List.length_cons] at hn
        refine (parseredirs_sound h0 n t₅ l₃ cmd tree h₅.2.1 (by omega) hspell).mono
          (fun _ he => he) ?_
        intro cmd' t₆ hfound
        obtain ⟨m₃, m₄, tree', rfl, ⟨rs, rfl, rfl⟩, hspell', h₆⟩ := hfound
        exact ⟨_, m₄, _, by simp, .block rs hderives, hspell', h₆⟩
    · intro t _ ht
      refine (parseredirs_sound h0 n t l (.exec []) (.exec []) ht (by omega) (.exec .nil)).seq ?_
      intro ret t₁ hfound
      obtain ⟨m₁, m₂, tree, rfl, ⟨rs, rfl, rfl⟩, hspell, h₁⟩ := hfound
      rw [List.length_append] at hn
      refine (parseexecLoop_sound h0 MAXARGS t₁ m₂ ret [] rs h₁ (by omega) hspell).mono
        (fun _ he => he) ?_
      intro cmd t₂ hfound
      obtain ⟨m₃, m₄, tree, rfl, ⟨args, rfl, hlen, rfl⟩, hspell', h₂⟩ := hfound
      exact ⟨_, m₄, _, (List.append_assoc _ _ _).symm, .args rs args hlen, hspell', h₂⟩

lemma parsepipe_sound (h0 : (0 : UInt8) ∉ line) (hexec : ∀ m < n, Sound line .exec m)
    (hpipe : ∀ m < n, Sound line .pipe m) : Sound line .pipe n := by
  intro s l h hn
  cases n with
  | zero => exact absurd hn (by simp [Nonterminal.fuel])
  | succ n =>
    simp only [Nonterminal.fuel] at hn
    rw [Nonterminal.parse, parsepipe]
    refine (hexec n (Nat.lt_succ_self n) s l h (by simp only [Nonterminal.fuel]; omega)).seq ?_
    intro cmd t hfound
    obtain ⟨m₁, m₂, tree, rfl, hderives, hspell, ht⟩ := hfound
    refine ends_peek h0 ht (by decide) ?_ ?_
    · intro k l' t₁ hl hk h₁
      obtain rfl := eq_of_char .bar (List.mem_singleton.mp hk) rfl (by decide)
      subst hl
      refine (gettoken_ends h0 h₁).seq ?_
      intro _ t₂ h₂
      rw [List.length_append, List.length_cons] at hn
      refine (hpipe n (Nat.lt_succ_self n) t₂ l' h₂.2.1
        (by simp only [Nonterminal.fuel]; omega)).seq ?_
      intro right t₃ hfound
      obtain ⟨m₃, m₄, tree', rfl, hderives', hspell', h₃⟩ := hfound
      exact ⟨_, m₄, _, by simp, .pipe hderives hderives', .pipe hspell hspell', h₃⟩
    · intro t₁ _ h₁
      exact ⟨m₁, m₂, tree, rfl, .exec hderives, hspell, h₁⟩

lemma parseline_sound (h0 : (0 : UInt8) ∉ line) (hpipe : ∀ m < n, Sound line .pipe m)
    (hline : ∀ m < n, Sound line .line m) : Sound line .line n := by
  intro s l h hn
  cases n with
  | zero => exact absurd hn (by simp [Nonterminal.fuel])
  | succ n =>
    simp only [Nonterminal.fuel] at hn
    rw [Nonterminal.parse, parseline]
    refine (hpipe n (Nat.lt_succ_self n) s l h (by simp only [Nonterminal.fuel]; omega)).seq ?_
    intro cmd t hfound
    obtain ⟨m₁, m₂, tree, rfl, hderives, hspell, ht⟩ := hfound
    rw [List.length_append] at hn
    refine (parselineLoop_sound h0 n t m₂ cmd tree ht (by omega) hspell).seq ?_
    intro cmd' t₁ hfound
    obtain ⟨m₃, m₄, tree', rfl, ⟨m, rfl, rfl⟩, hspell', h₁⟩ := hfound
    refine ends_peek h0 h₁ (by decide) ?_ ?_
    · intro k l' t₂ hl hk h₂
      obtain rfl := eq_of_char .semi (List.mem_singleton.mp hk) rfl (by decide)
      subst hl
      refine (gettoken_ends h0 h₂).seq ?_
      intro _ t₃ h₃
      rw [List.length_append, List.length_cons] at hn
      refine (hline n (Nat.lt_succ_self n) t₃ l' h₃.2.1
        (by simp only [Nonterminal.fuel]; omega)).seq ?_
      intro right t₄ hfound
      obtain ⟨m₅, m₆, tree₂, rfl, hderives', hspell₂, h₄⟩ := hfound
      exact ⟨_, m₆, _, by simp, .list m hderives hderives', .list hspell' hspell₂, h₄⟩
    · intro t₂ _ h₂
      exact ⟨_, m₄, _, (List.append_assoc _ _ _).symm, .line m hderives, hspell', h₂⟩

/-- By induction on the fuel. -/
lemma parse_sound (h0 : (0 : UInt8) ∉ line) (n : ℕ) (N : Nonterminal) : Sound line N n := by
  induction n using Nat.strong_induction_on generalizing N with
  | _ n ih =>
    cases N with
    | line => exact parseline_sound h0 (fun m hm => ih m hm .pipe) (fun m hm => ih m hm .line)
    | pipe => exact parsepipe_sound h0 (fun m hm => ih m hm .exec) (fun m hm => ih m hm .pipe)
    | exec => exact parseexec_sound h0 (fun m hm => ih m hm .line)

/-! ## What the grammar derives is found -/

/-- What may come behind an `N`. -/
def Follow : Nonterminal → List Token → Prop
  | _, [] => True
  | .line, k :: _ => k = .rparen
  | .pipe, k :: _ => k ∈ [.rparen, .amp, .semi]
  | .exec, k :: _ => k ∈ [.rparen, .amp, .semi, .bar]

/-- A program finds all of `l`, which stands in front of `rest`. -/
abbrev FindsAll (line : Str) (x : Parse (Cmd Span)) (tree : Cmd Str) (rest : List Token) (s : ℕ) :
    Prop :=
  Ends (fun _ => False) x (fun cmd t => Spells line cmd tree ∧ Reads line t rest) s

/-- By induction on the redirections. -/
lemma parseredirs_complete (h0 : (0 : UInt8) ∉ line) (rs : List Redirection) {rest : List Token}
    (hrest : ∀ k ∈ rest.head?, k.char ∉ [chr '<', chr '>']) : ∀ n s cmd tree,
    Reads line s (rs.flatMap Redirection.tokens ++ rest) → rs.length < n → Spells line cmd tree →
    FindsAll line (parseredirs line n cmd) (Redirection.wrap tree rs) rest s := by
  induction rs with
  | nil =>
    intro n s cmd tree h hn hcmd
    cases n with
    | zero => simp at hn
    | succ n =>
      refine ends_peek h0 h (by decide) ?_ (fun t _ ht => ⟨hcmd, ht⟩)
      intro k l' t hl hk _
      rw [List.flatMap_nil, List.nil_append] at hl
      exact (hrest k (hl ▸ rfl) hk).elim
  | cons r rs ih =>
    intro n s cmd tree h hn hcmd
    obtain ⟨a, w⟩ := r
    cases n with
    | zero => simp at hn
    | succ n =>
      have h : Reads line s
          (.arrow a :: .word w :: (rs.flatMap Redirection.tokens ++ rest)) := h
      refine ends_peek h0 h (by decide) ?_ ?_
      swap
      · intro t hneg
        exact absurd (by cases a <;> decide) (hneg (.arrow a) rfl)
      intro k l' t hl _ ht
      obtain ⟨rfl, rfl⟩ := List.cons.inj hl
      refine (gettoken_ends h0 ht).seq ?_
      intro tok t₁ h₁
      obtain ⟨htok, h₁, -⟩ := h₁
      refine (gettoken_ends h0 h₁).seq ?_
      intro file t₂ h₂
      obtain ⟨hret, h₂, hw⟩ := h₂
      rw [hret, if_neg (fun hne => hne rfl), htok, redirection_ret]
      exact ih n t₂ _ (.redir tree w a.mode a.fd) h₂ (Nat.lt_of_succ_lt_succ hn)
        (.redir hcmd (hw w rfl))

/-- Every redirection has a token. -/
lemma length_flatMap_redirections (rs : List Redirection) :
    rs.length ≤ (rs.flatMap Redirection.tokens).length := by
  induction rs with
  | nil => exact Nat.le_refl 0
  | cons r rs ih =>
    rw [List.flatMap_cons, List.length_append, List.length_cons]
    show _ ≤ 2 + _
    omega

/-- The tokens that end the loop of `parseexec`. -/
lemma follow_exec {rest : List Token} (h : Follow .exec rest) :
    ∀ k ∈ rest.head?, k.char ∈ [chr '|', chr ')', chr '&', chr ';'] ∧
      k.char ∉ [chr '<', chr '>'] ∧ k.char ≠ chr '(' := by
  cases rest with
  | nil => simp
  | cons k rest =>
    rintro k' ⟨⟩
    simp only [Follow, List.mem_cons, List.not_mem_nil, or_false] at h
    rcases h with rfl | rfl | rfl | rfl <;> decide

/-- By induction on the arguments. -/
lemma parseexecLoop_complete (h0 : (0 : UInt8) ∉ line) (args : List Arg) {rest : List Token}
    (hrest : Follow .exec rest) : ∀ r s ret ws rs,
    Reads line s (args.flatMap Arg.tokens ++ rest) →
    (args.flatMap Arg.tokens ++ rest).length < n → args.length < r →
    Spells line ret (Redirection.wrap (.exec ws) rs) →
    FindsAll line (parseexecLoop line n r ret)
      (Redirection.wrap (.exec (ws ++ args.map Prod.fst)) (rs ++ args.flatMap Prod.snd)) rest s := by
  induction args with
  | nil =>
    intro r s ret ws rs h _ hr hret
    cases r with
    | zero => simp at hr
    | succ r =>
      have hret : Spells line ret (Redirection.wrap (.exec (ws ++ [])) (rs ++ [])) := by simpa using hret
      refine ends_peek h0 h (by decide) (fun _ _ t _ _ ht => ⟨hret, ht⟩) ?_
      intro t hneg ht
      rw [List.flatMap_nil, List.nil_append] at hneg ht
      cases rest with
      | nil =>
        refine (gettoken_ends_nil ht h0).seq ?_
        intro tok t₁ h₁
        rw [if_pos h₁.1]
        exact ⟨hret, h₁.2⟩
      | cons k rest => exact (hneg k rfl (follow_exec hrest k rfl).1).elim
  | cons arg args ih =>
    intro r s ret ws rs h hn hr hret
    obtain ⟨w, rs'⟩ := arg
    cases r with
    | zero => simp at hr
    | succ r =>
      -- the argument, the redirections behind it and the rest
      have htokens : ((w, rs') :: args).flatMap Arg.tokens ++ rest =
          .word w :: (rs'.flatMap Redirection.tokens ++ (args.flatMap Arg.tokens ++ rest)) := by
        simp [Arg.tokens]
      rw [htokens] at h hn
      refine ends_peek h0 h (by decide) ?_ ?_
      · intro k l' t hl hk _
        obtain ⟨rfl, -⟩ := List.cons.inj hl
        exact absurd hk (show chr 'a' ∉ _ by decide)
      intro t _ ht
      refine (gettoken_ends h0 ht).seq ?_
      intro tok t₁ h₁
      obtain ⟨htok, h₁, hw⟩ := h₁
      rw [List.length_cons] at hr
      rw [htok, if_neg (ret_ne_zero _), if_neg (fun hne => hne rfl), if_neg (by omega)]
      -- no redirection is left over for the next argument
      have hnext : ∀ k ∈ (args.flatMap Arg.tokens ++ rest).head?, k.char ∉ [chr '<', chr '>'] := by
        cases args with
        | nil => exact fun k hk => (follow_exec hrest k hk).2.1
        | cons arg args =>
          rintro k ⟨⟩
          exact show chr 'a' ∉ _ by decide
      rw [List.length_cons, List.length_append] at hn
      have hlen := length_flatMap_redirections rs'
      refine (parseredirs_complete h0 rs' hnext n t₁ _ _ h₁ (by omega)
        (push_spells (hw w rfl) rs ret hret)).seq ?_
      intro ret' t₂ h₂
      obtain ⟨hspell, h₂⟩ := h₂
      rw [← wrap_append] at hspell
      have hih := ih r t₂ ret' _ _ h₂ (by omega) (by omega) hspell
      simpa using hih

lemma parselineLoop_complete (h0 : (0 : UInt8) ∉ line) {rest : List Token}
    (hrest : ∀ k ∈ rest.head?, k ≠ .amp) (m : ℕ) : ∀ n s cmd tree,
    Reads line s (List.replicate m .amp ++ rest) → m < n → Spells line cmd tree →
    FindsAll line (parselineLoop line n cmd) (.background m tree) rest s := by
  induction m with
  | zero =>
    intro n s cmd tree h hn hcmd
    cases n with
    | zero => omega
    | succ n =>
      refine ends_peek h0 h (by decide) ?_ (fun t _ ht => ⟨hcmd, ht⟩)
      intro k l' t hl hk _
      obtain rfl := eq_of_char .amp (List.mem_singleton.mp hk) rfl (by decide)
      rw [List.replicate_zero, List.nil_append] at hl
      exact (hrest .amp (hl ▸ rfl) rfl).elim
  | succ m ih =>
    intro n s cmd tree h hn hcmd
    cases n with
    | zero => omega
    | succ n =>
      refine ends_peek h0 h (by decide) ?_ ?_
      swap
      · intro t hneg
        exact absurd (List.mem_singleton_self _) (hneg .amp rfl)
      intro k l' t hl _ ht
      obtain ⟨-, rfl⟩ := List.cons.inj hl
      refine (gettoken_ends h0 ht).seq ?_
      intro _ t₁ h₁
      exact ih n t₁ (.back cmd) (.back tree) h₁.2.1 (by omega) (.back hcmd)

/-- What is behind a pipe in a line may follow it. -/
lemma follow_pipe {rest : List Token} (m : ℕ)
    (hrest : ∀ k ∈ rest.head?, k = .semi ∨ k = .rparen) :
    Follow .pipe (List.replicate m .amp ++ rest) := by
  cases m with
  | zero =>
    cases rest with
    | nil => trivial
    | cons k rest => rcases hrest k rfl with rfl | rfl <;> simp [Follow]
  | succ m => simp [Follow, List.replicate_succ]

lemma follow_line {rest : List Token} (h : Follow .line rest) :
    ∀ k ∈ rest.head?, k = .rparen := by
  cases rest with
  | nil => simp
  | cons k rest =>
    rintro k' ⟨⟩
    exact h

/-- What may follow a pipe may follow a command. -/
lemma follow_exec_of_pipe {rest : List Token} (h : Follow .pipe rest) : Follow .exec rest := by
  cases rest with
  | nil => trivial
  | cons k rest =>
    simp only [Follow, List.mem_cons, List.not_mem_nil, or_false] at h ⊢
    tauto

/-- The part of `parseline` in front of the `;`. -/
lemma parseline_front (h0 : (0 : UInt8) ∉ line) {tree : Cmd Str} {rest : List Token}
    {Q : Cmd Span → ℕ → Prop} (m : ℕ)
    (hpipe : FindsAll line (parsepipe line n) tree (List.replicate m .amp ++ rest) s)
    (hrest : ∀ k ∈ rest.head?, k = .semi ∨ k = .rparen) (hm : m < n)
    {g : Cmd Span → Parse (Cmd Span)}
    (hg : ∀ cmd t, Spells line cmd (.background m tree) → Reads line t rest →
      Ends (fun _ => False) (g cmd) Q t) :
    Ends (fun _ => False) (parsepipe line n >>= fun cmd => parselineLoop line n cmd >>= g) Q s := by
  refine hpipe.seq ?_
  intro cmd t ht
  refine (parselineLoop_complete h0 ?_ m n t cmd tree ht.2 hm ht.1).seq ?_
  · intro k hk
    rcases hrest k hk with rfl | rfl <;> decide
  · intro cmd' t' ht'
    exact hg cmd' t' ht'.1 ht'.2

/-- The function of `N` finds these tokens, whatever may follow them. -/
def Complete (line : Str) (N : Nonterminal) (l : List Token) (tree : Cmd Str) : Prop :=
  ∀ n s rest, Reads line s (l ++ rest) → N.fuel (l ++ rest).length ≤ n → Follow N rest →
    FindsAll line (N.parse line n) tree rest s

/-- A line that is a pipe and some `&`. -/
lemma parseline_complete (h0 : (0 : UInt8) ∉ line) (m : ℕ) {tree : Cmd Str}
    (ih : Complete line .pipe l tree) :
    Complete line .line (l ++ List.replicate m .amp) (.background m tree) := by
  intro n s rest hr hn hrest
  cases n with
  | zero => exact absurd hn (by simp [Nonterminal.fuel])
  | succ n =>
    simp only [Nonterminal.fuel, List.length_append, List.length_replicate] at hn
    rw [List.append_assoc] at hr
    have hright := follow_line hrest
    rw [Nonterminal.parse, parseline]
    refine parseline_front h0 m (ih n s _ hr ?_ (follow_pipe m fun k hk => .inr (hright k hk)))
      (fun k hk => .inr (hright k hk)) (by omega) ?_
    · simp only [Nonterminal.fuel, List.length_append, List.length_replicate]
      omega
    intro cmd t hspell ht
    refine ends_peek h0 ht (by decide) ?_ (fun t' _ ht' => ⟨hspell, ht'⟩)
    intro k l' t' hl hk _
    rw [hright k (hl ▸ rfl)] at hk
    exact absurd hk (by decide)

/-- A line that goes on behind a `;`. -/
lemma parseline_complete_list (h0 : (0 : UInt8) ∉ line) (m : ℕ) {l' : List Token} {tree tree' : Cmd Str}
    (ih : Complete line .pipe l tree) (ih' : Complete line .line l' tree') :
    Complete line .line (l ++ List.replicate m .amp ++ .semi :: l') (.list (.background m tree) tree') := by
  intro n s rest hr hn hrest
  cases n with
  | zero => exact absurd hn (by simp [Nonterminal.fuel])
  | succ n =>
    simp only [Nonterminal.fuel, List.length_append, List.length_replicate,
      List.length_cons] at hn
    have happ : l ++ List.replicate m .amp ++ .semi :: l' ++ rest =
        l ++ (List.replicate m .amp ++ (.semi :: (l' ++ rest))) := by simp
    rw [happ] at hr
    rw [Nonterminal.parse, parseline]
    refine parseline_front h0 m (ih n s _ hr ?_ (follow_pipe m (by simp))) (by simp) (by omega) ?_
    · simp only [Nonterminal.fuel, List.length_append, List.length_replicate, List.length_cons]
      omega
    intro cmd t hspell ht
    refine ends_peek h0 ht (by decide) ?_ ?_
    swap
    · intro t' hneg
      exact absurd (List.mem_singleton_self _) (hneg .semi rfl)
    intro k l₁ t₁ hl _ h₁
    obtain ⟨-, rfl⟩ := List.cons.inj hl
    refine (gettoken_ends h0 h₁).seq ?_
    intro _ t₂ h₂
    refine (ih' n t₂ rest h₂.2.1 ?_ hrest).seq ?_
    · simp only [Nonterminal.fuel, List.length_append]
      omega
    intro right t₃ h₃
    exact ⟨.list hspell h₃.1, h₃.2⟩

/-- A pipe that is one command. -/
lemma parsepipe_complete (h0 : (0 : UInt8) ∉ line) {tree : Cmd Str} (ih : Complete line .exec l tree) :
    Complete line .pipe l tree := by
  intro n s rest hr hn hrest
  cases n with
  | zero => exact absurd hn (by simp [Nonterminal.fuel])
  | succ n =>
    rw [Nonterminal.parse, parsepipe]
    refine (ih n s rest hr ?_ (follow_exec_of_pipe hrest)).seq ?_
    · simp only [Nonterminal.fuel] at hn ⊢
      omega
    intro cmd t ht
    refine ends_peek h0 ht.2 (by decide) ?_ (fun t' _ ht' => ⟨ht.1, ht'⟩)
    intro k l' t' hl hk _
    obtain rfl := eq_of_char .bar (List.mem_singleton.mp hk) rfl (by decide)
    rw [hl] at hrest
    simp [Follow] at hrest

/-- A pipe that goes on behind a `|`. -/
lemma parsepipe_complete_pipe (h0 : (0 : UInt8) ∉ line) {l' : List Token} {tree tree' : Cmd Str}
    (ih : Complete line .exec l tree) (ih' : Complete line .pipe l' tree') :
    Complete line .pipe (l ++ .bar :: l') (.pipe tree tree') := by
  intro n s rest hr hn hrest
  cases n with
  | zero => exact absurd hn (by simp [Nonterminal.fuel])
  | succ n =>
    simp only [Nonterminal.fuel, List.length_append, List.length_cons] at hn
    rw [List.append_assoc, List.cons_append] at hr
    rw [Nonterminal.parse, parsepipe]
    refine (ih n s _ hr ?_ (by simp [Follow])).seq ?_
    · simp only [Nonterminal.fuel, List.length_append, List.length_cons]
      omega
    intro cmd t ht
    refine ends_peek h0 ht.2 (by decide) ?_ ?_
    swap
    · intro t' hneg
      exact absurd (List.mem_singleton_self _) (hneg .bar rfl)
    intro k l₁ t₁ hl _ h₁
    obtain ⟨-, rfl⟩ := List.cons.inj hl
    refine (gettoken_ends h0 h₁).seq ?_
    intro _ t₂ h₂
    refine (ih' n t₂ rest h₂.2.1 ?_ hrest).seq ?_
    · simp only [Nonterminal.fuel, List.length_append]
      omega
    intro right t₃ h₃
    exact ⟨.pipe ht.1 h₃.1, h₃.2⟩

/-- A line in parentheses, which `parseexec` leaves to `parseblock`. -/
theorem parseexec_complete_block (h0 : (0 : UInt8) ∉ line) (rs : List Redirection) {tree : Cmd Str}
    (ih : Complete line .line l tree) :
    Complete line .exec (.lparen :: (l ++ .rparen :: rs.flatMap Redirection.tokens))
      (Redirection.wrap tree rs) := by
  intro n s rest hr hn hrest
  cases n with
  | zero => exact absurd hn (by simp [Nonterminal.fuel])
  | succ n =>
    simp only [Nonterminal.fuel, List.length_append, List.length_cons] at hn
    have happ : .lparen :: (l ++ .rparen :: rs.flatMap Redirection.tokens) ++ rest =
        .lparen :: (l ++ (.rparen :: (rs.flatMap Redirection.tokens ++ rest))) := by simp
    rw [happ] at hr
    rw [Nonterminal.parse, parseexec]
    refine ends_peek h0 hr (by decide) ?_ ?_
    swap
    · intro t' hneg
      exact absurd (List.mem_singleton_self _) (hneg .lparen rfl)
    intro k l₁ t₁ hl _ h₁
    rw [if_pos rfl]
    cases n with
    | zero => omega
    | succ n =>
      obtain ⟨rfl, rfl⟩ := List.cons.inj hl
      -- the parenthesis is still there, so `parseblock` does not panic
      rw [parseblock]
      refine ends_peek h0 h₁ (by decide) ?_ ?_
      swap
      · intro t' hneg
        exact absurd (List.mem_singleton_self _) (hneg .lparen rfl)
      intro k' l₂ t₂ hl₂ _ h₂
      obtain ⟨-, rfl⟩ := List.cons.inj hl₂
      refine (gettoken_ends h0 h₂).seq ?_
      intro _ t₃ h₃
      -- the line inside
      refine (ih n t₃ _ h₃.2.1 ?_ rfl).seq ?_
      · simp only [Nonterminal.fuel, List.length_append, List.length_cons]
        omega
      intro cmd t₄ h₄
      refine ends_peek h0 h₄.2 (by decide) ?_ ?_
      swap
      · intro t' hneg
        exact absurd (List.mem_singleton_self _) (hneg .rparen rfl)
      intro k₃ l₃ t₅ hl₃ _ h₅
      obtain ⟨-, rfl⟩ := List.cons.inj hl₃
      refine (gettoken_ends h0 h₅).seq ?_
      intro _ t₆ h₆
      have hlen := length_flatMap_redirections rs
      exact parseredirs_complete h0 rs (fun k hk => (follow_exec hrest k hk).2.1) n t₆ cmd tree
        h₆.2.1 (by omega) h₄.1

/-- A command with its arguments. -/
lemma parseexec_complete (h0 : (0 : UInt8) ∉ line) (rs : List Redirection) (args : List Arg)
    (hlen : args.length < MAXARGS) :
    Complete line .exec (rs.flatMap Redirection.tokens ++ args.flatMap Arg.tokens)
      (Redirection.wrap (.exec (args.map Prod.fst)) (rs ++ args.flatMap Prod.snd)) := by
  intro n s rest hr hn hrest
  cases n with
  | zero => exact absurd hn (by simp [Nonterminal.fuel])
  | succ n =>
    simp only [Nonterminal.fuel, List.length_append] at hn
    rw [List.append_assoc] at hr
    rw [Nonterminal.parse, parseexec]
    refine ends_peek h0 hr (by decide) ?_ ?_
    · intro k l' t hl hk _
      obtain rfl := eq_of_char .lparen (List.mem_singleton.mp hk) rfl (by decide)
      -- an `exec` without a block does not begin with a `(`
      cases rs with
      | cons r rs => cases hl
      | nil =>
        cases args with
        | cons arg args => cases hl
        | nil => exact ((follow_exec hrest .lparen ((show rest = _ from hl) ▸ rfl)).2.2 rfl).elim
    intro t _ ht
    have hnext : ∀ k ∈ (args.flatMap Arg.tokens ++ rest).head?, k.char ∉ [chr '<', chr '>'] := by
      cases args with
      | nil => exact fun k hk => (follow_exec hrest k hk).2.1
      | cons arg args =>
        rintro k ⟨⟩
        exact show chr 'a' ∉ _ by decide
    have hrs := length_flatMap_redirections rs
    refine (parseredirs_complete h0 rs hnext n t (.exec []) (.exec []) ht (by omega)
      (.exec .nil)).seq ?_
    intro ret t₁ h₁
    exact parseexecLoop_complete h0 args hrest MAXARGS t₁ ret [] rs h₁.2
      (by rw [List.length_append]; omega) hlen h₁.1

/-- By induction on the derivation. -/
lemma parse_complete (h0 : (0 : UInt8) ∉ line) {N : Nonterminal} {tree : Cmd Str}
    (h : Derives N l tree) : Complete line N l tree := by
  induction h with
  | line m _ ih => exact parseline_complete h0 m ih
  | list m _ _ ih ih' => exact parseline_complete_list h0 m ih ih'
  | exec _ ih => exact parsepipe_complete h0 ih
  | pipe _ _ ih ih' => exact parsepipe_complete_pipe h0 ih ih'
  | block rs _ ih => exact parseexec_complete_block h0 rs ih
  | args rs args hlen => exact parseexec_complete h0 rs args hlen

end

end Sh
end OhMyXv6
