import OhMyXv6.Console.Draft

/-!
# A recalled command is run

Ctrl-P, once or more, and Enter. The recalled command is in the console's line, and Enter submits it. But
the line that `getcmd` returns begins with what is in its own buffer: there is something in it if a Tab
has handed over the first part of the line before. `kbddecoy` replaces the console's line only.
-/

namespace OhMyXv6
namespace Console

open Input Sh

/-- A byte that `getcmd` adds to its buffer, and goes on. -/
def Plain (c : UInt8) : Prop :=
  c ≠ ctrl 'D' ∧ c ≠ 0x10 ∧ c ≠ 0x0e ∧ c ≠ chr '\t' ∧ c ≠ 8 ∧ c ≠ 127 ∧ c ≠ chr '\n' ∧ c ≠ chr '\r'

instance (c : UInt8) : Decidable (Plain c) := inferInstanceAs (Decidable (_ ∧ _))

/-- The bytes `Q` wait to be read. -/
structure Submitted (s : Input) (Q : List UInt8) : Prop where
  ordered : Ordered s
  bytes : s.span s.r (ahead s.r s.w) = Q

section
variable {s : Input} {T Q : List UInt8} {c : UInt8}

/-- The shell reads the next byte of the line. -/
lemma Submitted.read (h : Submitted s (c :: Q)) :
    readLoop 1 1 s = ({ s with r := s.r + 1 }, [c], .done) ∧
      Submitted { s with r := s.r + 1 } Q := by
  have hlen : ahead s.r s.w = Q.length + 1 := by
    rw [← length_span s s.r (ahead s.r s.w), h.bytes, List.length_cons]
  have hne : s.r ≠ s.w := by
    intro heq
    rw [← heq, ahead_self] at hlen
    omega
  have hbytes := h.bytes
  rw [hlen, span_succ] at hbytes
  have hread := readLoop_one hne
  have hord := ordered_readLoop 1 1 s h.ordered
  rw [hread] at hord
  rw [(List.cons.inj hbytes).1] at hread
  refine ⟨hread, hord, ?_⟩
  show s.span (s.r + 1) (ahead (s.r + 1) s.w) = Q
  rw [ahead_succ (by omega), hlen, Nat.add_sub_cancel]
  exact (List.cons.inj hbytes).2

/-- Erasing leaves the ring's bytes. -/
lemma eraseLoop_buf (n : ℕ) (s : Input) : (eraseLoop n s).buf = s.buf := by
  induction n generalizing s with
  | zero => rfl
  | succ n ih =>
    unfold Input.eraseLoop
    split
    · exact ih _
    · rfl

lemma clear_buf (s : Input) : s.clear.buf = s.buf := by
  obtain ⟨out, cur, hend⟩ := toEnd_struct s
  unfold Input.clear
  dsimp only
  rw [eraseLoop_buf, hend]

/-- The loop of `replace_input` writes behind the line. -/
lemma Submitted.fill (cs : List UInt8) : ∀ {s : Input}, Submitted s Q → Submitted (fill cs s) Q := by
  induction cs with
  | nil => exact fun h => h
  | cons c cs ih =>
    intro s h
    unfold Input.fill
    by_cases hlt : ahead s.r s.e < 127
    · rw [if_pos (spare_iff.mpr hlt)]
      apply ih
      have hroom : s.Room := room_iff.mpr (by omega)
      refine ⟨(ordered_push h.ordered hroom c).same ⟨rfl, rfl, rfl, rfl⟩, ?_⟩
      rw [← h.bytes]
      show (s.set s.e c).span s.r (ahead s.r s.w) = _
      apply span_congr
      intro j hj
      have hw := h.ordered.w
      have hcur := h.ordered.cur
      rw [← add_ahead s.r s.e, get_set_of_ne (by omega) (by omega) (by omega)]
    · rw [if_neg (fun h => hlt (spare_iff.mp h))]
      exact h

/-- Replacing the line leaves what is submitted. -/
lemma Submitted.replace (h : Submitted s Q) (str : List UInt8) :
    Submitted (replace_input str s) Q := by
  have hclear : ∀ {u : Input}, Submitted u Q → Submitted u.clear Q := by
    intro u hu
    obtain ⟨hr, hw, hord, -⟩ := clear_idx hu.ordered
    refine ⟨hord, ?_⟩
    rw [hr, hw, ← hu.bytes]
    apply span_congr
    intro j _
    rw [get_eq, get_eq, clear_buf]
  -- Saving the draft, and forgetting it, does not touch the ring.
  have hsame : ∀ {u v : Input}, Submitted u Q → SameIdx u v → v.buf = u.buf → Submitted v Q := by
    intro u v hu hidx hbuf
    refine ⟨hu.ordered.same hidx, ?_⟩
    rw [hidx.1, hidx.2.1, ← hu.bytes]
    apply span_congr
    intro j _
    rw [get_eq, get_eq, hbuf]
  have hsaved : ∀ (p : Prop) [Decidable p], Submitted (if p then s.save_history_draft else s) Q := by
    intro p _
    split
    · exact hsame h ⟨rfl, rfl, rfl, rfl⟩ rfl
    · exact h
  unfold replace_input
  dsimp only
  split
  · exact hsame ((hclear (hsaved _)).fill _) ⟨rfl, rfl, rfl, rfl⟩ rfl
  · exact (hclear (hsaved _)).fill _

/-- Enter, with an empty ring in front of the line. -/
lemma Waiting.enter (h : Waiting s T) :
    Submitted (s.handle_input (chr '\n')) (T ++ [chr '\n']) := by
  have hn : ahead s.r s.e = T.length := by
    rw [← h.text, length_text, h.read]
  have hlen := h.len
  have hroom : s.Room := room_iff.mpr (by omega)
  obtain ⟨out, cur, hend⟩ := toEnd_struct s
  rw [handle_input_enter (.inl rfl) h.esc h.raw, if_pos hroom]
  refine ⟨ordered_enter hroom, ?_⟩
  have hpush : Console.text (s.push (chr '\n')) = T ++ [chr '\n'] := by
    rw [text_push h.ordered hroom, h.text]
  unfold Input.enter
  rw [hend, ← hpush]
  show (s.set s.e (chr '\n')).span s.r (ahead s.r (s.e + 1)) =
    (s.set s.e (chr '\n')).span s.w (ahead s.w (s.e + 1))
  rw [h.read]

end

/-! ## The shell goes on alone -/

section
variable {H : Type} (env : Env H)

/-- The shell's next step: it reads a byte or calls `kbddecoy`, until `getcmd` returns. -/
def advance (S : Input × Getcmd H) : Option (Input × Getcmd H) :=
  if S.2.ret.isSome then none
  else
    match S.2.decoy with
    | some str => some (replace_input str S.1, { S.2 with decoy := none })
    | none =>
      match readLoop 1 1 S.1 with
      | (t, [c], .done) => some (t, S.2.read env c)
      | _ => none

/-- `getcmd` returns, and leaves `g` behind. -/
inductive Returns : Input × Getcmd H → Getcmd H → Prop where
  | done {s : Input} {g : Getcmd H} (h : g.ret.isSome) : Returns (s, g) g
  | step {S S' : Input × Getcmd H} {g : Getcmd H} (h : advance env S = some S')
      (hrest : Returns S' g) : Returns S g

/-- `getcmd` returns 0 with this string in its buffer. -/
def ReturnsLine (S : Input × Getcmd H) (line : List UInt8) : Prop :=
  ∃ g, Returns env S g ∧ g.ret = some 0 ∧ g.buf = line

variable {env}

lemma Returns.unique {S : Input × Getcmd H} {g g' : Getcmd H} (h : Returns env S g)
    (h' : Returns env S g') : g = g' := by
  induction h with
  | done hret =>
    cases h' with
    | done _ => rfl
    | step hadv _ => simp [advance, hret] at hadv
  | step hadv _ ih =>
    cases h' with
    | done hret => simp [advance, hret] at hadv
    | step hadv' hrest' =>
      rw [hadv] at hadv'
      cases hadv'
      exact ih hrest'

lemma ReturnsLine.unique {S : Input × Getcmd H} {l l' : List UInt8} (h : ReturnsLine env S l)
    (h' : ReturnsLine env S l') : l = l' := by
  obtain ⟨g, hg, -, hbuf⟩ := h
  obtain ⟨g', hg', -, hbuf'⟩ := h'
  rw [← hbuf, ← hbuf', hg.unique hg']

variable {s : Input} {g : Getcmd H} {L Q : List UInt8} {c : UInt8}

lemma read_plain (hc : Plain c) : g.read env c =
    let g' : Getcmd H := { g with hist := env.reset_autocomplete g.hist, buf := g.buf ++ [c] }
    if g.nbuf ≤ (g.buf ++ [c]).length then g'.finish else g' := by
  obtain ⟨hd, hp, hn, ht, hb, hdel, hnl, hcr⟩ := hc
  unfold Getcmd.read Getcmd.byte
  rw [if_neg hd, if_neg hp, if_neg hn, if_neg ht, if_neg (by simp [hb, hdel])]
  simp [hnl, hcr]

variable (env) in
/-- One byte from the console to the shell. -/
lemma advance_read (hret : g.ret = none) (hdecoy : g.decoy = none) (h : Submitted s (c :: Q)) :
    advance env (s, g) = some ({ s with r := s.r + 1 }, g.read env c) := by
  unfold advance
  simp only [hret, hdecoy, Option.isSome_none, Bool.false_eq_true, if_false]
  rw [h.read.1]

variable (env) in
/-- Bytes that are all plain, and a newline. The shell gets a whole line if there is room for it, and
otherwise as many bytes as its buffer has. -/
theorem returns_plain (L : List UInt8) : ∀ {s : Input} {g : Getcmd H}, (∀ c ∈ L, Plain c) →
    g.ret = none → g.decoy = none → g.buf.length < g.nbuf → (g.buf ++ L ++ [chr '\n']).headD 0 ≠ 0 →
    Submitted s (L ++ [chr '\n']) →
    ReturnsLine env (s, g) ((g.buf ++ L ++ [chr '\n']).take g.nbuf) := by
  induction L with
  | nil =>
    intro s g _ hret hdecoy hlen hhead hsub
    have hadv := advance_read env hret hdecoy hsub
    rw [Getcmd.read_newline] at hadv
    rw [List.append_nil] at hhead ⊢
    refine ⟨_, .step hadv (.done rfl), ?_, ?_⟩
    · show some (if (g.buf ++ [chr '\n']).headD 0 = 0 then (-1 : Int) else 0) = some 0
      rw [if_neg hhead]
    · show g.buf ++ [chr '\n'] = _
      rw [List.take_of_length_le]
      simp only [List.length_append, List.length_singleton]
      omega
  | cons c L ih =>
    intro s g hplain hret hdecoy hlen hhead hsub
    have hc := hplain c List.mem_cons_self
    have hadv := advance_read env hret hdecoy hsub
    rw [read_plain hc] at hadv
    by_cases hfull : g.nbuf ≤ (g.buf ++ [c]).length
    · -- the buffer is full
      dsimp only at hadv
      rw [if_pos hfull] at hadv
      have hexact : (g.buf ++ c :: L ++ [chr '\n']).take g.nbuf = g.buf ++ [c] := by
        have hn : g.nbuf = (g.buf ++ [c]).length := by
          simp only [List.length_append, List.length_singleton] at hfull ⊢
          omega
        have happ : g.buf ++ c :: L ++ [chr '\n'] = (g.buf ++ [c]) ++ (L ++ [chr '\n']) := by simp
        rw [hn, happ, List.take_left]
      have hfirst : (g.buf ++ [c]).headD 0 = (g.buf ++ c :: L ++ [chr '\n']).headD 0 := by
        cases g.buf with
        | nil => rfl
        | cons b B => rfl
      refine ⟨_, .step hadv (.done rfl), ?_, hexact.symm⟩
      show some (if (g.buf ++ [c]).headD 0 = 0 then (-1 : Int) else 0) = some 0
      rw [if_neg (by rw [hfirst]; exact hhead)]
    · dsimp only at hadv
      rw [if_neg hfull] at hadv
      have happ : g.buf ++ c :: L ++ [chr '\n'] = g.buf ++ [c] ++ L ++ [chr '\n'] := by simp
      rw [happ] at hhead ⊢
      obtain ⟨g', hg', hzero, hbuf⟩ := ih (s := { s with r := s.r + 1 })
        (g := { g with hist := env.reset_autocomplete g.hist, buf := g.buf ++ [c] })
        (fun x hx => hplain x (List.mem_cons_of_mem _ hx)) hret hdecoy (Nat.lt_of_not_le hfull) hhead
        hsub.read.2
      exact ⟨g', .step hadv hg', hzero, hbuf⟩

/-- A newline waits for the shell, and no Tab in front of it. All that is in its buffer is plain. -/
structure Filtered (S : Input × Getcmd H) : Prop where
  waits : ∃ L Q, Submitted S.1 (L ++ chr '\n' :: Q) ∧ chr '\t' ∉ L
  buf : ∀ c ∈ S.2.buf, Plain c
  ret : S.2.ret = none

/-- Only the last byte may be a newline. -/
lemma plain_dropLast {B : List UInt8} (hB : ∀ x ∈ B, Plain x) :
    ∀ x ∈ (B ++ [c]).dropLast, Plain x := by
  rw [List.dropLast_concat]
  exact hB

/-- Every step of the shell keeps its buffer plain, but for the last byte. -/
theorem Filtered.advance {S S' : Input × Getcmd H} (h : Filtered S)
    (hadv : Console.advance env S = some S') :
    Filtered S' ∨ S'.2.ret.isSome ∧ (S'.2.ret = some 0 → ∀ c ∈ S'.2.buf.dropLast, Plain c) := by
  obtain ⟨⟨L, Q, hsub, htab⟩, hbuf, hret⟩ := h
  obtain ⟨s, g⟩ := S
  dsimp only at hsub hbuf hret
  cases hdecoy : g.decoy with
  | some str =>
    simp only [Console.advance, hret, hdecoy, Option.isSome_none, Bool.false_eq_true, if_false,
      Option.some.injEq] at hadv
    subst hadv
    exact .inl ⟨⟨L, Q, hsub.replace str, htab⟩, hbuf, rfl⟩
  | none =>
    cases L with
    | nil =>
      rw [advance_read env hret hdecoy hsub, Option.some.injEq, Getcmd.read_newline] at hadv
      subst hadv
      exact .inr ⟨rfl, fun _ => plain_dropLast hbuf⟩
    | cons c L =>
      rw [advance_read env hret hdecoy hsub, Option.some.injEq] at hadv
      subst hadv
      have hwaits : ∃ L' Q', Submitted { s with r := s.r + 1 } (L' ++ chr '\n' :: Q') ∧ chr '\t' ∉ L' :=
        ⟨L, Q, hsub.read.2, fun hmem => htab (List.mem_cons_of_mem _ hmem)⟩
      by_cases hplain : Plain c
      · rw [read_plain hplain]
        dsimp only
        split
        · exact .inr ⟨rfl, fun _ => plain_dropLast hbuf⟩
        · refine .inl ⟨hwaits, fun x hx => ?_, hret⟩
          rcases List.mem_append.mp hx with hx | hx
          · exact hbuf x hx
          · rw [List.mem_singleton.mp hx]
            exact hplain
      · -- the byte is not stored, or ends the line
        have htab' : c ≠ chr '\t' := fun heq => htab (by rw [heq]; exact List.mem_cons_self)
        unfold Getcmd.read
        by_cases hd : c = ctrl 'D'
        · rw [if_pos hd]
          exact .inr ⟨rfl, fun hzero => by cases hzero⟩
        rw [if_neg hd]
        unfold Getcmd.byte
        by_cases hp : c = 0x10
        · rw [if_pos hp]
          exact .inl ⟨hwaits, hbuf, hret⟩
        by_cases hn : c = 0x0e
        · rw [if_neg hp, if_pos hn]
          exact .inl ⟨hwaits, hbuf, hret⟩
        rw [if_neg hp, if_neg hn, if_neg htab']
        by_cases hb : c = 8 ∨ c = 127
        · rw [if_pos hb]
          exact .inl ⟨hwaits, fun x hx => hbuf x (List.mem_of_mem_dropLast hx), hret⟩
        rw [if_neg hb]
        have hend : c = chr '\n' ∨ c = chr '\r' := by
          by_contra hno
          rw [not_or] at hb hno
          exact hplain ⟨hd, hp, hn, htab', hb.1, hb.2, hno.1, hno.2⟩
        have hlast : c = chr '\n' ∨ c = chr '\r' ∨ g.nbuf ≤ (g.buf ++ [c]).length := by
          rcases hend with hend | hend
          · exact .inl hend
          · exact .inr (.inl hend)
        dsimp only
        rw [if_pos hlast]
        exact .inr ⟨rfl, fun _ => plain_dropLast hbuf⟩

/-- A line that `getcmd` returns is plain up to its end. -/
lemma Filtered.returns {S : Input × Getcmd H} {g : Getcmd H} (hreturns : Returns env S g)
    (h : Filtered S) : g.ret = some 0 → ∀ c ∈ g.buf.dropLast, Plain c := by
  induction hreturns with
  | done hsome =>
    have hret := h.ret
    rw [hret] at hsome
    cases hsome
  | step hadv hrest ih =>
    rcases h.advance hadv with hfilt | ⟨hsome, hlast⟩
    · exact ih hfilt
    · -- `getcmd` has returned
      cases hrest with
      | done _ => exact hlast
      | step hadv' _ => simp [Console.advance, hsome] at hadv'

/-- Ctrl-P is pressed `n + 1` times, and answered each time. -/
def recalls (env : Env H) : ℕ → Input → Getcmd H → Option (Input × Getcmd H × List UInt8)
  | 0, s, g => recallKey env s g (ctrl 'P')
  | n + 1, s, g => (recallKey env s g (ctrl 'P')).bind fun x => recalls env n x.1 x.2.1

end

section
variable {A : Type} (reset : A → A) (complete : A → List UInt8 → ℕ → A × List UInt8)
variable {s : Input} {g : Getcmd (Commands × A)} {T : List UInt8}

/-- `T` is what the user has typed: it is in the line, or kept as the draft. -/
structure Typing (s : Input) (T : List UInt8) : Prop where
  line : ∃ L, Waiting s L ∧ chr '\n' ∉ L ∧ draft s L = T
  nul : 0 ∉ T
  newline : chr '\n' ∉ T
  length : T.length ≤ 127

/-- One Ctrl-P, answered: the recalled command is in the line, or the draft if it is empty. -/
theorem Typing.recallKey (h : Typing s T) (hall : ∀ x ∈ g.hist.1.all, Entry x) :
    ∃ t h' x, Console.recallKey (commandsEnv reset complete) s g (ctrl 'P') =
        some (t, { g with hist := h', decoy := none }, x) ∧
      Waiting t (answer x T) ∧ Typing t T ∧ (x = [] ∨ Entry x) ∧ ∀ x ∈ h'.1.all, Entry x := by
  obtain ⟨L, hwait, hnl, hdraft⟩ := h.line
  obtain ⟨hall', hstr⟩ := asked_entry reset complete (k := ctrl 'P') hall
  have hnul : (0 : UInt8) ∉ (asked (commandsEnv reset complete) g.hist (ctrl 'P')).2 := by
    rcases hstr with hnil | hentry
    · simp [hnil]
    · exact hentry.nul
  obtain ⟨t, hrec, hwait', -, hgone, hkept⟩ :=
    recall_eq (commandsEnv reset complete) (g := g) hwait hnl (.inl rfl) hnul
  rw [hdraft] at hwait' hkept
  generalize (asked (commandsEnv reset complete) g.hist (ctrl 'P')).2 = x at *
  refine ⟨t, _, x, hrec, hwait', ⟨⟨answer x T, hwait', ?_, ?_⟩, h.nul, h.newline, h.length⟩, hstr, hall'⟩
  · unfold answer
    split
    · exact fun hmem => h.newline (List.takeWhile_subset _ (List.mem_of_mem_take hmem))
    · next hne =>
      exact fun hmem => (hstr.resolve_left hne).newline (List.mem_of_mem_take hmem)
  · by_cases hne : x = []
    · -- the draft is in the line again
      unfold draft
      rw [hgone (.inl hne), answer, if_pos hne, takeWhile_ne_zero h.nul, List.take_of_length_le h.length]
      rfl
    · have hentry := hstr.resolve_left hne
      have hstays : ¬ Restarts x := by
        intro hrestarts
        rcases hrestarts with hc | hc | hc
        · exact hne hc
        · exact hentry.newline (List.mem_of_mem_head? hc)
        · exact hentry.start hc
      obtain ⟨hactive, hsaved⟩ := hkept hstays
      unfold draft
      rw [if_pos hactive, hsaved]

lemma Typing.recalls (n : ℕ) : ∀ {s : Input} {g : Getcmd (Commands × A)}, Typing s T →
    (∀ x ∈ g.hist.1.all, Entry x) →
    ∃ t h' x, Console.recalls (commandsEnv reset complete) n s g =
        some (t, { g with hist := h', decoy := none }, x) ∧
      Waiting t (answer x T) ∧ (x = [] ∨ Entry x) := by
  induction n with
  | zero =>
    intro s g h hall
    obtain ⟨t, h', x, hrec, hwait, -, hx, -⟩ := h.recallKey reset complete hall
    exact ⟨t, h', x, hrec, hwait, hx⟩
  | succ n ih =>
    intro s g h hall
    obtain ⟨t, h', x, hrec, -, htyping, -, hall'⟩ := h.recallKey reset complete hall
    obtain ⟨t', h'', x', hrec', hwait', hx'⟩ :=
      ih (g := { g with hist := h', decoy := none }) htyping hall'
    refine ⟨t', h'', x', ?_, hwait', hx'⟩
    unfold Console.recalls
    rw [hrec]
    exact hrec'

/-- The shell's buffer is empty, the recalled command is a line that `getcmd` can return, and if it is
empty then nothing else was typed. -/
structure Reruns (B T x : List UInt8) : Prop where
  buf : B = []
  plain : ∀ c ∈ x, Plain c
  length : x.length < 100
  draft : x = [] → T = []

/-- **A recalled command is run**, if the shell has nothing in its buffer. `T` is the text that was
typed, and what Tab has handed over is in `g.buf`; then Ctrl-P is pressed `n + 1` times, and Enter.

There is no other way, unless the command has a Tab in it: then the completion may do anything. -/
theorem recall_runs (n : ℕ) (hwait : Waiting s T) (hT : ∀ c ∈ T, Plain c) (hnul : 0 ∉ T)
    (hoff : s.history_draft_active = false) (hnbuf : g.nbuf = 100) (hlen : g.buf.length < 100)
    (hret : g.ret = none) (hall : ∀ x ∈ g.hist.1.all, Entry x) :
    ∃ t g' x, recalls (commandsEnv reset complete) n s g = some (t, g', x) ∧
      (Reruns g.buf T x → ReturnsLine (commandsEnv reset complete)
        (t.handle_input (chr '\n'), g') (x ++ [chr '\n'])) ∧
      ((∀ c ∈ g.buf, Plain c ∧ c ≠ 0) → chr '\t' ∉ x → ReturnsLine (commandsEnv reset complete)
        (t.handle_input (chr '\n'), g') (x ++ [chr '\n']) → Reruns g.buf T x) := by
  have hnl : chr '\n' ∉ T := fun hmem => (hT _ hmem).2.2.2.2.2.2.1 rfl
  have htyping : Typing s T := by
    refine ⟨⟨T, hwait, hnl, ?_⟩, hnul, hnl, hwait.len⟩
    unfold draft
    rw [hoff]
    rfl
  obtain ⟨t, h', x, hrec, hwait', hx⟩ := htyping.recalls reset complete n hall
  have hsub := hwait'.enter
  refine ⟨t, _, x, hrec, fun hok => ?_, fun hB htab hline => ?_⟩
  · obtain ⟨hbuf, hplain, hshort, hdraft⟩ := hok
    have hanswer : answer x T = x := by
      unfold answer
      by_cases hnil : x = []
      · rw [if_pos hnil, hdraft hnil, hnil]
        rfl
      · rw [if_neg hnil, List.take_of_length_le (by omega)]
    rw [hanswer] at hsub
    have hzero : (g.buf ++ x ++ [chr '\n']).headD 0 ≠ 0 := by
      rw [hbuf]
      cases hx' : x with
      | nil => exact (by decide)
      | cons c cs =>
        have hentry := hx.resolve_left (by rw [hx']; exact List.cons_ne_nil c cs)
        intro hc
        exact hentry.nul (by rw [hx', ← hc]; exact List.mem_cons_self)
    have hreturns := returns_plain (commandsEnv reset complete) x
      (g := { g with hist := h', decoy := none }) hplain hret rfl
      (by rw [← hnbuf] at hlen; exact hlen) hzero hsub
    have htake : (g.buf ++ x ++ [chr '\n']).take g.nbuf = x ++ [chr '\n'] := by
      rw [hnbuf, hbuf, List.nil_append, List.take_of_length_le]
      rw [List.length_append, List.length_singleton]
      omega
    rw [← htake]
    exact hreturns
  · have hmem : ∀ c ∈ answer x T, c ∈ x ∨ c ∈ T := by
      intro c hc
      unfold answer at hc
      split at hc
      · exact .inr (List.takeWhile_subset _ (List.mem_of_mem_take hc))
      · exact .inl (List.mem_of_mem_take hc)
    have hfilt : Filtered (t.handle_input (chr '\n'), { g with hist := h', decoy := none }) := by
      refine ⟨⟨answer x T, [], hsub, fun htab' => ?_⟩, fun c hc => (hB c hc).1, hret⟩
      rcases hmem _ htab' with hin | hin
      · exact htab hin
      · exact (hT _ hin).2.2.2.1 rfl
    -- What is returned is plain, so the command is.
    have hplain : ∀ c ∈ x, Plain c := by
      obtain ⟨g'', hreturns, hzero, hbuf⟩ := hline
      have hlast := hfilt.returns hreturns hzero
      rw [hbuf, List.dropLast_concat] at hlast
      exact hlast
    have hall' : ∀ c ∈ g.buf ++ answer x T, Plain c ∧ c ≠ 0 := by
      intro c hc
      rcases List.mem_append.mp hc with hc | hc
      · exact hB c hc
      · rcases hmem c hc with hin | hin
        · refine ⟨hplain c hin, fun hzero => ?_⟩
          exact (hx.resolve_left (List.ne_nil_of_mem hin)).nul (hzero ▸ hin)
        · exact ⟨hT c hin, fun hzero => hnul (hzero ▸ hin)⟩
    have hzero : (g.buf ++ answer x T ++ [chr '\n']).headD 0 ≠ 0 := by
      cases hlist : g.buf ++ answer x T with
      | nil => exact (by decide)
      | cons c cs => exact (hall' c (by rw [hlist]; exact List.mem_cons_self)).2
    have hreturns := returns_plain (commandsEnv reset complete) (answer x T)
      (g := { g with hist := h', decoy := none })
      (fun c hc => (hall' c (List.mem_append_right _ hc)).1) hret rfl
      (by rw [← hnbuf] at hlen; exact hlen) hzero hsub
    have heq := hline.unique hreturns
    dsimp only at heq
    rw [hnbuf] at heq
    by_cases hfits : (g.buf ++ answer x T).length < 100
    · rw [List.take_of_length_le (by rw [List.length_append, List.length_singleton]; omega)] at heq
      have hsame : x = g.buf ++ answer x T := List.append_cancel_right heq
      rw [List.length_append] at hfits
      by_cases hnil : x = []
      · -- the draft was submitted
        have hboth := List.append_eq_nil_iff.mp (hsame.symm.trans hnil)
        have hanswer : answer x T = T := by
          rw [answer, if_pos hnil, takeWhile_ne_zero hnul, List.take_of_length_le hwait.len]
        exact ⟨hboth.1, hplain, by rw [hnil]; exact Nat.zero_lt_succ _, fun _ => hanswer ▸ hboth.2⟩
      · have hcount := congrArg List.length hsame
        rw [List.length_append, answer, if_neg hnil, List.length_take] at hcount
        rw [answer, if_neg hnil, List.length_take] at hfits
        exact ⟨List.length_eq_zero_iff.mp (by omega), hplain, by omega, fun hno => absurd hno hnil⟩
    · -- the buffer is full before the newline is read
      rw [List.take_append_of_le_length (by omega)] at heq
      have hin : chr '\n' ∈ (g.buf ++ answer x T).take 100 := by
        rw [← heq]
        simp
      exact absurd rfl (hall' _ (List.mem_of_mem_take hin)).1.2.2.2.2.2.2.1

end

/-- `a` is typed, and the cursor is in front of it. The history has the command `ls`. -/
theorem recall_runs_ls : ∃ t g', recalls plainEnv 0
      ((typed .zero [chr 'a']).handle_input KEY_LF) (atPrompt [[chr 'l', chr 's']]) =
        some (t, g', [chr 'l', chr 's']) ∧
      ReturnsLine plainEnv (t.handle_input (chr '\n'), g') [chr 'l', chr 's', chr '\n'] := by
  have hentry : ∀ x ∈ (atPrompt [[chr 'l', chr 's']]).hist.1.all, Entry x := by
    intro x hx
    obtain rfl : x = [chr 'l', chr 's'] := by
      simpa [atPrompt, Getcmd.start, History.all] using hx
    exact ⟨by decide, by decide, by decide⟩
  have hleft : Waiting ((typed .zero [chr 'a']).handle_input KEY_LF) [chr 'a'] :=
    ⟨⟨by decide, by decide, by decide⟩, rfl, by decide, by decide, rfl, rfl⟩
  obtain ⟨t, g', x, hrec, hruns, -⟩ := recall_runs (g := atPrompt [[chr 'l', chr 's']])
    (fun x => x) (fun x buf _ => (x, buf)) 0 hleft (by decide +kernel) (by decide +kernel) rfl rfl
    (by decide) rfl hentry
  have hx : (recalls plainEnv 0 ((typed .zero [chr 'a']).handle_input KEY_LF)
      (atPrompt [[chr 'l', chr 's']])).map (·.2.2) = some [chr 'l', chr 's'] := by decide +kernel
  rw [hrec, Option.map_some, Option.some.injEq] at hx
  dsimp only at hx
  subst hx
  exact ⟨t, g', hrec, hruns ⟨rfl, by decide +kernel, by decide, by decide⟩⟩

/-- `x` and Tab: the shell takes the `x`, and there is nothing to complete. Then Ctrl-P recalls `ls`, and
Enter: `getcmd` returns `xls`. -/
theorem not_recall_runs_tab : ∃ S₁ S₂ t g',
    advance plainEnv (typed .zero [chr 'x', chr '\t'], atPrompt [[chr 'l', chr 's']]) = some S₁ ∧
    advance plainEnv S₁ = some S₂ ∧
    recalls plainEnv 0 S₂.1 S₂.2 = some (t, g', [chr 'l', chr 's']) ∧
    ¬ ReturnsLine plainEnv (t.handle_input (chr '\n'), g') ([chr 'l', chr 's'] ++ [chr '\n']) := by
  refine ⟨_, _, _, _, rfl, rfl, rfl, fun h => ?_⟩
  obtain ⟨g, hg, -, hbuf⟩ := h
  have hxls := hg.unique (.step rfl (.step rfl (.step rfl (.done rfl))))
  rw [hxls] at hbuf
  exact absurd hbuf (by decide)

end Console
end OhMyXv6
