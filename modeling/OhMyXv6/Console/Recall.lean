import OhMyXv6.Console.Editor
import OhMyXv6.Console.Screen
import OhMyXv6.Shell.History

/-!
# The history keys

Ctrl-P and Ctrl-N clear the line and are handed over to the shell, which answers with `kbddecoy`: the
console puts the string into the line. An empty string brings back what was in the line before, which
the console has kept in `history_draft`.

The facts about the ring are stated for indices that may wrap around: nothing here compares them.
-/

namespace OhMyXv6
namespace Console

open Input Sh

/-- The shell has read all that was submitted, and the line being edited is `T`. -/
structure Waiting (s : Input) (T : List UInt8) : Prop where
  ordered : Ordered s
  read : s.w = s.r
  text : text s = T
  len : T.length ≤ 127
  raw : s.raw = false
  esc : s.esc_state = 0

section
variable {s t : Input} {T : List UInt8} {k : UInt8}

/-- Only the indices and the ring count. -/
lemma text_congr (hw : t.w = s.w) (he : t.e = s.e) (hbuf : t.buf = s.buf) : text t = text s := by
  unfold text
  rw [hw, he]
  apply span_congr
  intro j _
  rw [get_eq, get_eq, hbuf]

lemma text_eq_nil (h : s.e = s.w) : text s = [] := by
  apply List.eq_nil_of_length_eq_zero
  rw [length_text, h]
  exact ahead_self

/-- Only the cursor moves, and the screen. -/
lemma toEnd_struct (s : Input) : ∃ out cur, s.toEnd = { s with out := out, cur := cur } := by
  unfold Input.toEnd
  split
  · exact ⟨_, _, rfl⟩
  · exact ⟨_, _, rfl⟩

lemma self_of_empty (h : s.e = s.w) : s = { s with out := s.out, e := s.w } := by
  cases s
  cases h
  rfl

/-- The second loop of `clear` goes back to `w` if there is no newline on the way. -/
theorem eraseLoop_struct (n : ℕ) : ∀ {s : Input}, ahead s.w s.e ≤ n → chr '\n' ∉ text s →
    ∃ out, eraseLoop n s = { s with out := out, e := s.w } := by
  induction n with
  | zero =>
    intro s hn _
    have hew : s.e = s.w := by
      rw [← ahead_inj (r := s.w), ahead_self]
      omega
    exact ⟨s.out, self_of_empty hew⟩
  | succ n ih =>
    intro s hn hnl
    unfold Input.eraseLoop
    by_cases hew : s.e = s.w
    · rw [if_neg (fun h => h.1 hew)]
      exact ⟨s.out, self_of_empty hew⟩
    · have hpos : ahead s.w s.e ≠ 0 := by
        rw [← ahead_self (r := s.w)]
        exact fun heq => hew (ahead_inj.mp heq)
      obtain ⟨m, hm⟩ : ∃ m, ahead s.w s.e = m + 1 := ⟨ahead s.w s.e - 1, by omega⟩
      have hpred : ahead s.w (s.e - 1) = m := by
        rw [ahead_sub_one (by omega)]
        omega
      have hlast : s.w + m.toUInt32 = s.e - 1 := by
        rw [← hpred]
        exact add_ahead _ _
      have htext : text s = s.span s.w m ++ [s.get (s.e - 1)] := by
        rw [text, hm, span_add, span_succ, hlast]
        rfl
      have hne : s.get (s.e - 1) ≠ chr '\n' := by
        intro heq
        rw [htext, heq] at hnl
        simp at hnl
      rw [if_pos ⟨hew, hne⟩]
      -- the turns that remain run on the line without its last byte
      have hrest : text { s.emit [.backspace] with e := s.e - 1 } = s.span s.w m := by
        show s.span s.w (ahead s.w (s.e - 1)) = _
        rw [hpred]
      obtain ⟨out, hout⟩ := ih (s := { s.emit [.backspace] with e := s.e - 1 })
        (by
          show ahead s.w (s.e - 1) ≤ n
          omega)
        (by
          rw [hrest]
          intro hmem
          apply hnl
          rw [htext]
          exact List.mem_append_left _ hmem)
      exact ⟨out, hout⟩

/-- The line is gone, if no newline is in it. -/
lemma clear_struct (hnl : chr '\n' ∉ text s) :
    ∃ out, s.clear = { s with out := out, e := s.w, cur := s.w } := by
  obtain ⟨out, cur, hend⟩ := toEnd_struct s
  have htext : text s.toEnd = text s := by
    rw [hend]
    exact text_congr rfl rfl rfl
  obtain ⟨out', hloop⟩ := eraseLoop_struct (s.toEnd.e - s.toEnd.w).toNat (s := s.toEnd)
    (Nat.le_refl _) (by rw [htext]; exact hnl)
  refine ⟨out', ?_⟩
  unfold Input.clear
  dsimp only
  rw [hloop, hend]

/-- Room for one byte and its newline. -/
lemma spare_iff : s.e - s.r < INPUT_BUF - 1 ↔ ahead s.r s.e < 127 := by
  rw [UInt32.lt_iff_toNat_lt]
  rfl

/-- The loop of `replace_input` appends as much as the ring takes. -/
theorem fill_struct (cs : List UInt8) : ∀ {s : Input}, Ordered s → s.cur = s.e →
    ∃ buf e out entered, fill cs s = { s with buf := buf, e := e, cur := e, out := out, entered := entered } ∧
      text (fill cs s) = text s ++ cs.take (127 - ahead s.r s.e) := by
  induction cs with
  | nil =>
    intro s _ hcur
    refine ⟨s.buf, s.e, s.out, s.entered, ?_, by simp [fill]⟩
    cases s
    cases hcur
    rfl
  | cons c cs ih =>
    intro s hord hcur
    unfold fill
    by_cases hlt : ahead s.r s.e < 127
    · rw [if_pos (spare_iff.mpr hlt)]
      have hroom : s.Room := room_iff.mpr (by omega)
      have hpush : Ordered ((s.push c).emit [.putc c]) :=
        (ordered_push hord hroom c).same ⟨rfl, rfl, rfl, rfl⟩
      obtain ⟨buf, e, out, entered, hfill, htext⟩ := ih hpush rfl
      refine ⟨buf, e, out, entered, hfill, ?_⟩
      have hadd : ahead s.r (s.e + 1) = ahead s.r s.e + 1 := ahead_add_one (by omega)
      have hone : text ((s.push c).emit [.putc c]) = text s ++ [c] := text_push hord hroom
      have hleft : 127 - ahead s.r s.e = 127 - (ahead s.r s.e + 1) + 1 := by omega
      rw [htext, hone]
      show text s ++ [c] ++ List.take (127 - ahead s.r (s.e + 1)) cs = _
      rw [hadd, hleft, List.take_succ_cons]
      simp
    · rw [if_neg (fun h => hlt (spare_iff.mp h))]
      have hzero : 127 - ahead s.r s.e = 0 := by omega
      refine ⟨s.buf, s.e, s.out, s.entered, ?_, by simp [hzero]⟩
      cases s
      cases hcur
      rfl

lemma save_struct (h : (text s).length ≤ 127) :
    s.save_history_draft = { s with history_draft := text s, history_draft_active := true } := by
  have hlen : ¬ INPUT_BUF ≤ s.e - s.w := by
    rw [length_text] at h
    rw [UInt32.le_iff_toNat_le]
    show ¬ 128 ≤ ahead s.w s.e
    omega
  unfold save_history_draft
  rw [if_neg hlen]
  rfl

/-- Ctrl-P and Ctrl-N, in cooked mode. -/
lemma handle_input_hist (hk : k = ctrl 'P' ∨ k = ctrl 'N') (hraw : s.raw = false)
    (hesc : s.esc_state = 0) : s.handle_input k =
      let t := (if s.history_draft_active then s else s.save_history_draft).clear
      if t.Room then t.submit k else t := by
  unfold handle_input key edit
  rcases hk with rfl | rfl
  · simp [hesc, hraw, KEY_LF, KEY_RT, KEY_UP, KEY_DN, ESC, ctrl, chr]
  · simp [hesc, hraw, KEY_LF, KEY_RT, KEY_UP, KEY_DN, ESC, ctrl, chr]

/-- What the line goes back to when the shell has no command for it. -/
def draft (s : Input) (T : List UInt8) : List UInt8 :=
  if s.history_draft_active then s.history_draft else T

/-- A history key is pressed: the line is saved and cleared, and the ring holds the key. -/
structure Handed (s t : Input) (T : List UInt8) (k : UInt8) : Prop where
  r : t.r = s.r
  w : t.w = s.r + 1
  e : t.e = s.r + 1
  cur : t.cur = s.r + 1
  key : t.get s.r = k
  raw : t.raw = false
  esc : t.esc_state = 0
  active : t.history_draft_active = true
  draft : t.history_draft = draft s T

/-- The key hands its own byte to the shell. -/
lemma recall_key (h : Waiting s T) (hnl : chr '\n' ∉ T) (hk : k = ctrl 'P' ∨ k = ctrl 'N') :
    Handed s (s.handle_input k) T k := by
  have hlen : (text s).length ≤ 127 := by
    rw [h.text]
    exact h.len
  have hsaved : (if s.history_draft_active then s else s.save_history_draft) =
      { s with history_draft := draft s T, history_draft_active := true } := by
    unfold draft
    by_cases hact : s.history_draft_active = true
    · rw [if_pos hact, if_pos hact]
      cases s
      cases hact
      rfl
    · rw [if_neg hact, if_neg hact, save_struct hlen, h.text]
  have htext : text { s with history_draft := draft s T, history_draft_active := true } = T := by
    rw [← h.text]
    exact text_congr rfl rfl rfl
  obtain ⟨out, hclear⟩ := clear_struct (by rw [htext]; exact hnl)
  -- The ring is empty now, so there is room for the key.
  have hroom : Input.Room { s with
      history_draft := draft s T, history_draft_active := true, out := out, e := s.w, cur := s.w } := by
    rw [room_iff]
    show ahead s.r s.w < 128
    rw [h.read, ahead_self]
    omega
  rw [handle_input_hist hk h.raw h.esc, hsaved, hclear]
  dsimp only
  rw [if_pos hroom]
  have hw : s.w + 1 = s.r + 1 := by rw [h.read]
  refine ⟨rfl, hw, hw, hw, ?_, h.raw, h.esc, rfl, rfl⟩
  rw [← h.read]
  exact get_set_self _ _ _

/-- The shell reads it. -/
lemma recall_read (h : Waiting s T) (hnl : chr '\n' ∉ T) (hk : k = ctrl 'P' ∨ k = ctrl 'N') :
    ∃ t, readLoop 1 1 (s.handle_input k) = (t, [k], .done) ∧ Waiting t [] ∧ t.cur = t.e ∧
      t.history_draft_active = true ∧ t.history_draft = draft s T := by
  obtain ⟨hr, hw, he, hcur, hget, hraw, hesc, hact, hdraft⟩ := recall_key h hnl hk
  have hne : (s.handle_input k).r ≠ (s.handle_input k).w := by
    rw [hr, hw]
    intro heq
    have hone := congrArg (· - s.r) heq
    simp only [UInt32.sub_self, UInt32.add_comm s.r 1, UInt32.add_sub_cancel] at hone
    exact absurd hone (by decide)
  have hread := readLoop_one hne
  rw [hr, hget] at hread
  refine ⟨_, hread, ⟨⟨?_, ?_, ?_⟩, hw, text_eq_nil (he.trans hw.symm), Nat.zero_le _, hraw, hesc⟩,
    hcur.trans he.symm, hact, hdraft⟩
  · show ahead (s.r + 1) _ ≤ ahead (s.r + 1) _
    rw [hw, hcur]
  · show ahead (s.r + 1) _ ≤ ahead (s.r + 1) _
    rw [hcur, he]
  · show ahead (s.r + 1) _ ≤ 128
    rw [he, ahead_self]
    omega

/-- What the shell's answer leaves in the line. -/
def answer (str D : List UInt8) : List UInt8 :=
  if str = [] then (D.takeWhile (· ≠ 0)).take 127 else str.take 127

/-- A string that makes the console forget the draft. -/
def Restarts (str : List UInt8) : Prop :=
  str = [] ∨ str.head? = some (chr '\n') ∨ str.head? = some (chr '\r')

instance (str : List UInt8) : Decidable (Restarts str) := inferInstanceAs (Decidable (_ ∨ _))

/-- The shell answers. -/
lemma recall_answer {str : List UInt8} (h : Waiting s [])
    (hact : s.history_draft_active = true) (hstr : (0 : UInt8) ∉ str) :
    Waiting (replace_input str s) (answer str s.history_draft) ∧
      (replace_input str s).cur = (replace_input str s).e ∧
      (Restarts str → (replace_input str s).history_draft_active = false) ∧
      (¬ Restarts str → (replace_input str s).history_draft_active = true ∧
        (replace_input str s).history_draft = s.history_draft) := by
  have hwhole : str.takeWhile (· ≠ 0) = str := takeWhile_ne_zero hstr
  obtain ⟨out, hclear⟩ := clear_struct (s := s) (by rw [h.text]; simp)
  obtain ⟨hr, hw, hord, hend⟩ := clear_idx h.ordered
  have hnone : text s.clear = [] := by
    rw [hclear]
    exact text_eq_nil rfl
  have hspace : ahead s.clear.r s.clear.e = 0 := by
    rw [hclear]
    show ahead s.r s.w = 0
    rw [h.read, ahead_self]
  let repl := if str = [] then s.history_draft.takeWhile (· ≠ 0) else str
  obtain ⟨buf, e, out', entered, hfill, htext⟩ := fill_struct repl hord hend
  have hshown : text (fill repl s.clear) = answer str s.history_draft := by
    rw [htext, hnone, hspace]
    unfold answer
    by_cases hstr' : str = []
    · simp [repl, hstr']
    · simp [repl, hstr']
  have hord' : Ordered (fill repl s.clear) := ordered_fill _ _ hord
  -- What the last test does to the draft does not touch the line.
  have hreplace : replace_input str s =
      if Restarts str then
        { fill repl s.clear with history_draft_active := false, history_draft := [] }
      else fill repl s.clear := by
    unfold replace_input
    dsimp only
    rw [hwhole]
    by_cases hstr' : str = []
    · simp [hstr', hact, Restarts, repl]
    · simp [hstr', hact, Restarts, repl]
  have hlen : (answer str s.history_draft).length ≤ 127 := by
    unfold answer
    split
    · simp
    · simp
  have hfields : (fill repl s.clear).w = (fill repl s.clear).r ∧ (fill repl s.clear).raw = false ∧
      (fill repl s.clear).esc_state = 0 ∧ (fill repl s.clear).cur = (fill repl s.clear).e ∧
      (fill repl s.clear).history_draft_active = true ∧
      (fill repl s.clear).history_draft = s.history_draft := by
    rw [hfill, hclear]
    exact ⟨h.read, h.raw, h.esc, rfl, hact, rfl⟩
  obtain ⟨hwr, hraw, hesc, hce, hactive, hdraft⟩ := hfields
  rw [hreplace]
  by_cases hrestart : Restarts str
  · rw [if_pos hrestart]
    refine ⟨⟨hord'.same ⟨rfl, rfl, rfl, rfl⟩, hwr, ?_, hlen, hraw, hesc⟩, hce, fun _ => rfl,
      fun hno => absurd hrestart hno⟩
    rw [← hshown]
    exact text_congr rfl rfl rfl
  · rw [if_neg hrestart]
    exact ⟨⟨hord', hwr, hshown, hlen, hraw, hesc⟩, hce, fun hyes => absurd hyes hrestart,
      fun _ => ⟨hactive, hdraft⟩⟩

/-- A character is typed at the end of the line. -/
lemma Waiting.type (h : Waiting s T) (hcur : s.cur = s.e) (hk : Printable k)
    (hlen : T.length < 127) : Waiting (s.handle_input k) (T ++ [k]) ∧
      (s.handle_input k).cur = (s.handle_input k).e ∧
      (s.handle_input k).history_draft_active = s.history_draft_active ∧
      (s.handle_input k).history_draft = s.history_draft := by
  have hn : ahead s.r s.e = T.length := by
    rw [← h.text, length_text, h.read]
  have hroom : s.Room := room_iff.mpr (by omega)
  have hadd : ahead s.r (s.e + 1) = ahead s.r s.e + 1 := ahead_add_one (by omega)
  have hfull : ¬ s.e + 1 = s.r + INPUT_BUF := by
    rw [eq_add_buf_iff, hadd]
    omega
  have hpush : s.handle_input k = (s.push k).emit [.putc k] := by
    rw [handle_input_char hk h.esc h.raw hroom, if_pos hcur]
    exact if_neg hfull
  rw [hpush]
  refine ⟨⟨(ordered_push h.ordered hroom k).same ⟨rfl, rfl, rfl, rfl⟩, h.read, ?_, ?_, h.raw, h.esc⟩,
    rfl, rfl, rfl⟩
  · rw [← h.text, ← text_push h.ordered hroom]
    exact text_congr rfl rfl rfl
  · rw [List.length_append, List.length_singleton]
    omega

end

/-! ## The shell's side -/

section
variable {H : Type} (env : Env H)

/-- What the shell does with its history for a key: the history it is left with, and the string it
passes to `kbddecoy`. -/
def asked (h : H) (k : UInt8) : H × List UInt8 :=
  if k = ctrl 'P' then
    let x := env.get_prev_command (env.reset_autocomplete h)
    (x.1, (x.2.orElse fun _ => env.curr x.1).getD [])
  else
    let x := env.get_next_command (env.reset_autocomplete h)
    (x.1, x.2.getD [])

/-- A history key is pressed, read and answered: the console, the shell, and the answer. -/
def recallKey (s : Input) (g : Getcmd H) (k : UInt8) : Option (Input × Getcmd H × List UInt8) :=
  match readLoop 1 1 (s.handle_input k) with
  | (t, [c], .done) =>
    (g.read env c).decoy.map fun str =>
      (replace_input str t, { g.read env c with decoy := none }, str)
  | _ => none

variable {s : Input} {g : Getcmd H} {T : List UInt8} {k : UInt8}

lemma read_hist (hk : k = ctrl 'P' ∨ k = ctrl 'N') : g.read env k =
    { g with hist := (asked env g.hist k).1, decoy := some (asked env g.hist k).2 } := by
  rcases hk with rfl | rfl
  · rfl
  · rfl

/-- The key, the shell's read and its answer. -/
lemma recall_eq (h : Waiting s T) (hnl : chr '\n' ∉ T) (hk : k = ctrl 'P' ∨ k = ctrl 'N')
    (hstr : (0 : UInt8) ∉ (asked env g.hist k).2) :
    ∃ t, recallKey env s g k =
        some (t, { g with hist := (asked env g.hist k).1, decoy := none }, (asked env g.hist k).2) ∧
      Waiting t (answer (asked env g.hist k).2 (draft s T)) ∧ t.cur = t.e ∧
      (Restarts (asked env g.hist k).2 → t.history_draft_active = false) ∧
      (¬ Restarts (asked env g.hist k).2 →
        t.history_draft_active = true ∧ t.history_draft = draft s T) := by
  obtain ⟨u, hread, hwait, -, hact, hdraft⟩ := recall_read h hnl hk
  have hans := recall_answer hwait hact hstr
  rw [hdraft] at hans
  refine ⟨replace_input (asked env g.hist k).2 u, ?_, hans⟩
  unfold recallKey
  rw [hread]
  dsimp only
  rw [read_hist env hk]
  rfl

end

end Console
end OhMyXv6
