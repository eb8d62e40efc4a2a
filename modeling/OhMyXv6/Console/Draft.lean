import OhMyXv6.Console.Recall

/-!
# The draft

A line that was being typed when the user went into the history comes back when they leave it. The
console keeps it in `history_draft`; the shell only says, with an empty string, that it has nothing to
show. An empty command of the history is the same string, and brings the draft back too early: then it
is in the line, and the next history key saves it again.

A command that starts with a carriage return is different. `replace_input` takes it for a finished line
and forgets the draft.
-/

namespace OhMyXv6
namespace Console

open Input Sh

/-- The console, the shell, the last string that was shown, and whether `get_next_command` has just
returned null. -/
structure Browse (A : Type) where
  input : Input
  shell : Getcmd (Commands × A)
  shown : List UInt8
  null : Bool

/-- The keys between the call for an older line and the way back. -/
inductive BrowseKey where
  | prev
  | next
  | char (c : UInt8)

section
variable {A : Type} (env : Env (Commands × A))

/-- A key, and the shell's answer to it. Characters are typed only into a command that is shown, and
never the 128th of the line. -/
def Browse.press (S : Browse A) : BrowseKey → Option (Browse A)
  | .prev => (recallKey env S.input S.shell (ctrl 'P')).map fun x => ⟨x.1, x.2.1, x.2.2, false⟩
  | .next => (recallKey env S.input S.shell (ctrl 'N')).map fun x =>
      ⟨x.1, x.2.1, x.2.2, (env.get_next_command (env.reset_autocomplete S.shell.hist)).2.isNone⟩
  | .char c =>
    if Printable c ∧ S.shown ≠ [] ∧ (text S.input).length < 127 then
      some { S with input := S.input.handle_input c, null := false }
    else none

end

/-- A command that has neither NUL nor newline in it, and does not start with a carriage return. -/
structure Entry (com : Str) : Prop where
  nul : (0 : UInt8) ∉ com
  newline : chr '\n' ∉ com
  start : com.head? ≠ some (chr '\r')

section
variable {A : Type} (reset : A → A) (complete : A → List UInt8 → ℕ → A × List UInt8)

/-- What the shell answers is empty or one of its commands. -/
lemma asked_entry {h : Commands × A} {k : UInt8} (hall : ∀ x ∈ h.1.all, Entry x) :
    (∀ x ∈ (asked (commandsEnv reset complete) h k).1.1.all, Entry x) ∧
      ((asked (commandsEnv reset complete) h k).2 = [] ∨
        Entry (asked (commandsEnv reset complete) h k).2) := by
  unfold asked
  split
  · -- `get_prev_command` returns, and what it leaves as `curr` is a command too
    obtain ⟨⟨h', com⟩, hget⟩ := Option.isSome_iff_exists.mp
      (h.1.get_prev_command_isSome (h.1.file.length + 1) (Nat.lt_succ_self _))
    obtain ⟨hsub, hcom⟩ := h.1.get_prev_command_mem _ hget
    have hx : ((commandsEnv reset complete).get_prev_command
        ((commandsEnv reset complete).reset_autocomplete h)) = ((h', reset h.2), com) := by
      simp only [commandsEnv, hget, Option.getD_some]
    dsimp only
    rw [hx]
    refine ⟨fun x hx => hall x (hsub x hx), ?_⟩
    cases com with
    | some c => exact .inr (hall c (hcom c rfl))
    | none =>
      show (h'.curr.getD []) = [] ∨ Entry (h'.curr.getD [])
      cases hcurr : h'.curr with
      | none => exact .inl rfl
      | some c =>
        refine .inr (hall c (hsub c ?_))
        simp [History.all, hcurr]
  · obtain ⟨hsub, hcom⟩ := h.1.get_next_command_mem
    dsimp only
    refine ⟨fun x hx => hall x (hsub x hx), ?_⟩
    show (h.1.get_next_command.2.getD []) = [] ∨ Entry (h.1.get_next_command.2.getD [])
    cases hget : h.1.get_next_command.2 with
    | none => exact .inl rfl
    | some c => exact .inr (hall c (hcom c hget))

/-- The draft `d` is kept by the console, or in the line. -/
structure Keeps (d : List UInt8) (S : Browse A) : Prop where
  line : ∃ T, Waiting S.input T ∧ chr '\n' ∉ T ∧ draft S.input T = d ∧ (S.null = true → T = d)
  cur : S.input.cur = S.input.e
  shown : S.shown ≠ [] → S.input.history_draft_active = true
  entries : ∀ x ∈ S.shell.hist.1.all, Entry x

variable {d : List UInt8} {S S' : Browse A}

/-- A history key, answered. -/
lemma Keeps.recallKey {k : UInt8} (null : Bool) (hd : ∀ x ∈ d, Printable x) (hlen : d.length ≤ 127)
    (h : Keeps d S) (hk : k = ctrl 'P' ∨ k = ctrl 'N')
    (hnull : null = true → (asked (commandsEnv reset complete) S.shell.hist k).2 = []) :
    ∃ x, recallKey (commandsEnv reset complete) S.input S.shell k = some x ∧
      Keeps d (⟨x.1, x.2.1, x.2.2, null⟩ : Browse A) := by
  obtain ⟨T, hwait, hnl, hdraft, -⟩ := h.line
  obtain ⟨hall, hstr⟩ := asked_entry reset complete (k := k) h.entries
  have hnul : (0 : UInt8) ∉ (asked (commandsEnv reset complete) S.shell.hist k).2 := by
    rcases hstr with hnil | hentry
    · simp [hnil]
    · exact hentry.nul
  obtain ⟨t, hrec, hwait', hcur, hgone, hkept⟩ :=
    recall_eq (commandsEnv reset complete) (g := S.shell) hwait hnl hk hnul
  rw [hdraft] at hwait' hkept
  refine ⟨_, hrec, ?_⟩
  generalize (asked (commandsEnv reset complete) S.shell.hist k).2 = str at *
  by_cases hnil : str = []
  · -- the draft is in the line again
    have hback : answer str d = d := by
      have hwhole : d.takeWhile (· ≠ 0) = d :=
        takeWhile_ne_zero fun hmem => absurd (hd 0 hmem) (by decide)
      unfold answer
      rw [if_pos hnil, hwhole, List.take_of_length_le hlen]
    have hinactive := hgone (.inl hnil)
    rw [hback] at hwait'
    refine ⟨⟨d, hwait', fun hmem => ?_, ?_, fun _ => rfl⟩, hcur, fun hne => absurd hnil hne, hall⟩
    · exact absurd (hd _ hmem) (by decide)
    · unfold draft
      rw [hinactive]
      rfl
  · have hentry : Entry str := hstr.resolve_left hnil
    have hstays : ¬ Restarts str := by
      intro hrestarts
      rcases hrestarts with hc | hc | hc
      · exact hnil hc
      · exact hentry.newline (List.mem_of_mem_head? hc)
      · exact hentry.start hc
    obtain ⟨hactive, hsaved⟩ := hkept hstays
    refine ⟨⟨answer str d, hwait', fun hmem => ?_, ?_, fun hn => absurd (hnull hn) hnil⟩, hcur,
      fun _ => hactive, hall⟩
    · unfold answer at hmem
      rw [if_neg hnil] at hmem
      exact hentry.newline (List.mem_of_mem_take hmem)
    · show draft t (answer str d) = d
      unfold draft
      rw [if_pos hactive, hsaved]

lemma Keeps.press {a : BrowseKey} (hd : ∀ x ∈ d, Printable x) (hlen : d.length ≤ 127)
    (h : Keeps d S) (hpress : S.press (commandsEnv reset complete) a = some S') : Keeps d S' := by
  cases a with
  | prev =>
    obtain ⟨x, hx, hkeeps⟩ := h.recallKey reset complete false hd hlen (.inl rfl) (by simp)
    simp only [Browse.press, hx, Option.map_some, Option.some.injEq] at hpress
    exact hpress ▸ hkeeps
  | next =>
    -- when there is no newer entry the answer is empty, and the draft comes back
    have hnull : ((commandsEnv reset complete).get_next_command
        ((commandsEnv reset complete).reset_autocomplete S.shell.hist)).2.isNone = true →
        (asked (commandsEnv reset complete) S.shell.hist (ctrl 'N')).2 = [] := by
      intro hnone
      rw [Option.isNone_iff_eq_none] at hnone
      show (((commandsEnv reset complete).get_next_command
        ((commandsEnv reset complete).reset_autocomplete S.shell.hist)).2.getD []) = []
      rw [hnone]
      rfl
    obtain ⟨x, hx, hkeeps⟩ := h.recallKey reset complete _ hd hlen (.inr rfl) hnull
    simp only [Browse.press, hx, Option.map_some, Option.some.injEq] at hpress
    exact hpress ▸ hkeeps
  | char c =>
    simp only [Browse.press] at hpress
    split at hpress
    · next hok =>
      obtain ⟨hc, hshown, hroom⟩ := hok
      obtain rfl := Option.some.inj hpress
      obtain ⟨T, hwait, hnl, hdraft, -⟩ := h.line
      have hactive := h.shown hshown
      rw [hwait.text] at hroom
      obtain ⟨hwait', hcur, hact, hsaved⟩ := hwait.type h.cur hc hroom
      refine ⟨⟨T ++ [c], hwait', fun hmem => ?_, ?_, nofun⟩, hcur, fun _ => hact.trans hactive,
        h.entries⟩
      · rcases List.mem_append.mp hmem with hmem | hmem
        · exact hnl hmem
        · rw [List.mem_singleton] at hmem
          exact absurd (hmem ▸ hc) (by decide)
      · unfold draft at hdraft ⊢
        rw [if_pos hactive] at hdraft
        rw [if_pos (hact.trans hactive), hsaved, hdraft]
    · cases hpress

/-- `d` is typed on an idle console. -/
def typed (s : Input) (d : List UInt8) : Input := d.foldl handle_input s

/-- By induction on the letters typed. -/
lemma waiting_typed (d : List UInt8) : ∀ {s : Input} {T : List UInt8}, Waiting s T → s.cur = s.e →
    (∀ x ∈ d, Printable x) → T.length + d.length ≤ 127 →
      Waiting (typed s d) (T ++ d) ∧ (typed s d).cur = (typed s d).e ∧
        (typed s d).history_draft_active = s.history_draft_active := by
  induction d with
  | nil =>
    intro s T h hcur _ _
    rw [List.append_nil]
    exact ⟨h, hcur, rfl⟩
  | cons c d ih =>
    intro s T h hcur hd hlen
    rw [List.length_cons] at hlen
    obtain ⟨hwait, hcur', hact, -⟩ := h.type hcur (hd c List.mem_cons_self) (by omega)
    have hrest := ih hwait hcur' (fun x hx => hd x (List.mem_cons_of_mem _ hx)) (by
      rw [List.length_append, List.length_singleton]
      omega)
    rw [List.append_assoc, hact] at hrest
    exact hrest

lemma waiting_idle {s : Input} (h : Idle s) : Waiting s [] := by
  refine ⟨⟨?_, ?_, ?_⟩, h.w, text_eq_nil (h.e.trans h.w.symm), Nat.zero_le _, h.raw, h.esc⟩
  · rw [h.w, h.cur]
  · rw [h.cur, h.e]
  · rw [h.e, ahead_self]
    omega

/-- **The draft survives browsing the history**, if no command starts with a carriage return: whenever
`get_next_command` has just returned null, it is in the line again. And the shell always answers. -/
theorem draft_survives {s : Input} {g : Getcmd (Commands × A)} {as : List BrowseKey} (hidle : Idle s)
    (hoff : s.history_draft_active = false) (hd : ∀ x ∈ d, Printable x) (hlen : d.length ≤ 127)
    (hall : ∀ x ∈ g.hist.1.all, Entry x)
    (hrun : Runs.run (Browse.press (commandsEnv reset complete)) ⟨typed s d, g, [], false⟩ as =
      some S) :
    (S.null = true → text S.input = d) ∧
      (S.press (commandsEnv reset complete) .prev).isSome ∧
      (S.press (commandsEnv reset complete) .next).isSome := by
  obtain ⟨hwait, hcur, hact⟩ :=
    waiting_typed d (waiting_idle hidle) (hidle.cur.trans hidle.e.symm) hd (by simpa using hlen)
  rw [List.nil_append] at hwait
  have hstart : Keeps d (⟨typed s d, g, [], false⟩ : Browse A) := by
    refine ⟨⟨d, hwait, fun hmem => absurd (hd _ hmem) (by decide), ?_, nofun⟩, hcur, nofun, hall⟩
    show draft (typed s d) d = d
    unfold draft
    rw [hact, hoff]
    rfl
  have h : Keeps d S := Runs.invariant (I := Keeps d)
    (fun _ _ _ hs hst => hs.press reset complete hd hlen hst) hstart hrun
  refine ⟨fun hnull => ?_, ?_, ?_⟩
  · obtain ⟨T, hT, -, -, hback⟩ := h.line
    rw [hT.text, hback hnull]
  · obtain ⟨x, hx, -⟩ := h.recallKey reset complete false hd hlen (.inl rfl) (by simp)
    simp [Browse.press, hx]
  · obtain ⟨x, hx, -⟩ := h.recallKey reset complete false hd hlen (.inr rfl) (by simp)
    simp [Browse.press, hx]

end

/-- A shell at the prompt, with nothing to complete and these commands in its history. -/
def atPrompt (coms : List Str) : Getcmd (Commands × Unit) := .start (⟨[], coms, none, []⟩, ()) 100

/-- No completion. -/
abbrev plainEnv : Env (Commands × Unit) := commandsEnv (fun x => x) fun x buf _ => (x, buf)

/-- `a` is typed, and there are the commands `ls` and an empty one. The user recalls `ls`, makes it
`lsx`, recalls the empty one, and leaves the history. -/
theorem draft_survives_empty : ∃ S, Runs.run (Browse.press plainEnv)
      ⟨typed .zero [chr 'a'], atPrompt [[chr 'l', chr 's'], []], [], false⟩
      [.prev, .char (chr 'x'), .prev, .next, .next] = some S ∧
    S.null = true ∧ text S.input = [chr 'a'] := by
  have hany : (Runs.run (Browse.press plainEnv)
      ⟨typed .zero [chr 'a'], atPrompt [[chr 'l', chr 's'], []], [], false⟩
      [.prev, .char (chr 'x'), .prev, .next, .next]).any (fun S => S.null = true) = true := by
    decide +kernel
  obtain ⟨S, hS, hnull⟩ := (Option.any_eq_true _ _).mp hany
  have hentries : ∀ x ∈ (atPrompt [[chr 'l', chr 's'], []]).hist.1.all, Entry x := by
    intro x hx
    have hcases : x = [chr 'l', chr 's'] ∨ x = [] := by
      simpa [atPrompt, Getcmd.start, History.all] using hx
    rcases hcases with rfl | rfl
    · exact ⟨by decide, by decide, by decide⟩
    · exact ⟨by decide, by decide, by decide⟩
  have hback := (draft_survives _ _ idle_zero rfl (by decide +kernel) (by decide) hentries hS).1
  exact ⟨S, hS, of_decide_eq_true hnull, hback (of_decide_eq_true hnull)⟩

/-- With a carriage return as the only command, the draft is lost. -/
theorem draft_lost : ∃ S, Runs.run (Browse.press plainEnv)
      ⟨typed .zero [chr 'a'], atPrompt [[chr '\r']], [], false⟩ [.prev, .next] = some S ∧
    S.null = true ∧ text S.input ≠ [chr 'a'] ∧ ∀ x ∈ (atPrompt [[chr '\r']]).hist.1.all, chr '\n' ∉ x := by
  have hany : (Runs.run (Browse.press plainEnv)
      ⟨typed .zero [chr 'a'], atPrompt [[chr '\r']], [], false⟩ [.prev, .next]).any (fun S =>
        S.null = true ∧ text S.input ≠ [chr 'a']) = true := by
    decide +kernel
  obtain ⟨S, hS, hend⟩ := (Option.any_eq_true _ _).mp hany
  obtain ⟨hnull, htext⟩ := of_decide_eq_true hend
  exact ⟨S, hS, hnull, htext, by decide⟩

end Console
end OhMyXv6
