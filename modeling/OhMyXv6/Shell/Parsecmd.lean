import Mathlib.Data.List.GetD
import OhMyXv6.Shell.Parses

/-!
# `parsecmd`

`nulterminate` puts a NUL behind each word of the command. There is no other byte of a word there, so that
the strings of the command are its words.
-/

namespace OhMyXv6
namespace Sh

open Console Fallible

section
variable {line buf : Str} {ws : List Span} {i : ℕ}

/-- A NUL at the end of each of the words. -/
def terminate (ws : List Span) (buf : Str) : Str := ws.foldl (fun buf w => buf.set w.2 0) buf

lemma nulterminate_eq (cmd : Cmd Span) : ∀ buf, nulterminate cmd buf = terminate cmd.words buf := by
  induction cmd with
  | exec argv => exact fun _ => rfl
  | redir cmd file mode fd ih =>
    intro buf
    rw [nulterminate, ih, terminate, terminate, Cmd.words, List.foldl_append]
    rfl
  | pipe left right ih ih' =>
    intro buf
    rw [nulterminate, ih, ih', terminate, terminate, terminate, Cmd.words, List.foldl_append]
  | list left right ih ih' =>
    intro buf
    rw [nulterminate, ih, ih', terminate, terminate, terminate, Cmd.words, List.foldl_append]
  | back cmd ih => exact ih

lemma getD_set_zero (buf : Str) (i j : ℕ) :
    (buf.set j 0).getD i 0 = if j = i then 0 else buf.getD i 0 := by
  rw [List.getD_eq_getElem?_getD, List.getD_eq_getElem?_getD, List.getElem?_set]
  split_ifs <;> rfl

/-- A place behind a word has a NUL. -/
lemma terminate_of_mem (hi : ∃ w ∈ ws, w.2 = i) : ∀ buf, (terminate ws buf).getD i 0 = 0 := by
  -- a byte that is zero stays zero
  have hzero : ∀ (ws : List Span) buf, buf.getD i 0 = 0 → (terminate ws buf).getD i 0 = 0 := by
    intro ws
    induction ws with
    | nil => exact fun _ h => h
    | cons w ws ih =>
      intro buf h
      refine ih _ ?_
      rw [getD_set_zero, h, ite_self]
  induction ws with
  | nil => simp at hi
  | cons w ws ih =>
    intro buf
    by_cases hw : w.2 = i
    · refine hzero ws _ ?_
      rw [getD_set_zero, if_pos hw]
    · refine ih ?_ _
      obtain ⟨w', hmem, hw'⟩ := hi
      rcases List.mem_cons.mp hmem with rfl | hmem
      · exact absurd hw' hw
      · exact ⟨w', hmem, hw'⟩

lemma terminate_of_not_mem (hi : ∀ w ∈ ws, w.2 ≠ i) :
    ∀ buf, (terminate ws buf).getD i 0 = buf.getD i 0 := by
  induction ws with
  | nil => exact fun _ => rfl
  | cons w ws ih =>
    intro buf
    rw [← if_neg (hi w List.mem_cons_self) (t := (0 : UInt8)) (e := buf.getD i 0), ← getD_set_zero]
    exact ih (fun w' hw' => hi w' (List.mem_cons_of_mem w hw')) _

/-- What the string at `q` is. -/
lemma cstring_eq {text : Str} : ∀ {q}, (∀ j (hj : j < text.length), buf.getD (q + j) 0 = text[j]) →
    (0 : UInt8) ∉ text → buf.getD (q + text.length) 0 = 0 → cstring buf q = text := by
  induction text with
  | nil =>
    intro q _ _ hend
    rw [List.length_nil, Nat.add_zero, getD_eq_head] at hend
    unfold cstring
    cases hd : buf.drop q with
    | nil => rfl
    | cons c l =>
      rw [hd, List.headD_cons] at hend
      exact List.takeWhile_cons_of_neg (by simp [hend])
  | cons c text ih =>
    intro q hget h0 hend
    have hc := hget 0 (Nat.succ_pos _)
    rw [Nat.add_zero, List.getElem_cons_zero, getD_eq_head] at hc
    have hne : c ≠ 0 := fun hc => h0 (hc ▸ List.mem_cons_self)
    unfold cstring
    cases hd : buf.drop q with
    | nil =>
      rw [hd] at hc
      exact (hne hc.symm).elim
    | cons d l =>
      rw [hd, List.headD_cons] at hc
      subst hc
      have hrest : cstring buf (q + 1) = text := by
        refine ih ?_ (fun h => h0 (List.mem_cons_of_mem d h)) ?_
        · intro j hj
          have hj' := hget (j + 1) (Nat.succ_lt_succ hj)
          rw [Nat.add_right_comm, Nat.add_assoc]
          exact hj'
        · rw [Nat.add_right_comm, Nat.add_assoc]
          exact hend
      rw [List.takeWhile_cons_of_pos (by simpa using hne), ← hrest, cstring, drop_succ hd]

/-- A byte of a word. -/
lemma WordAt.getD {w : Span} {text : Str} (h : WordAt line w text) {j : ℕ} (hj : j < text.length) :
    line.getD (w.1 + j) 0 = text[j] := by
  rw [getD_eq_head, ← List.drop_drop, h.drop, List.drop_append_of_le_length hj.le,
    List.drop_eq_getElem_cons hj]
  rfl

/-- The strings of a command are its words. -/
lemma map_cstring (h0 : (0 : UInt8) ∉ line) {cmd : Cmd Span} {tree : Cmd Str}
    (h : Spells line cmd tree) :
    cmd.map (fun w => cstring (nulterminate cmd (line ++ [0])) w.1) = tree := by
  refine h.map_eq ?_
  intro w hw text htext
  have hsub : ∀ c ∈ text, c ∈ line := by
    intro c hc
    have hmem : c ∈ line.drop w.1 := by
      rw [htext.drop]
      exact List.mem_append_left _ hc
    exact List.mem_of_mem_drop hmem
  rw [nulterminate_eq]
  refine cstring_eq ?_ (fun hmem => h0 (hsub 0 hmem)) ?_
  · intro j hj
    have hget := htext.getD hj
    have hlt : w.1 + j < line.length := by
      by_contra hle
      rw [List.getD_eq_default _ _ (by omega)] at hget
      exact h0 (hget ▸ hsub _ (List.getElem_mem hj))
    rw [terminate_of_not_mem, List.getD_append _ _ _ _ hlt, hget]
    intro w' hw' heq
    -- the NUL of a word stands where there is no byte of a word
    obtain ⟨text', htext'⟩ := h.exists_of_mem hw'
    have hstop := htext'.stop (line.getD (w.1 + j) 0) (by
      rw [heq, getD_eq_head, List.drop_eq_getElem_cons hlt]
      rfl)
    rw [hget, htext.word _ (List.getElem_mem hj)] at hstop
    cases hstop
  · exact terminate_of_mem ⟨w, hw, htext.snd⟩ _

end

section
variable {line : Str} {n : ℕ}

/-- There are no more tokens than bytes. -/
lemma length_tokens_le (l : Str) : (tokens l).length ≤ l.length := by
  induction l using tokens.induct with
  | case1 => rw [tokens_nil]; exact Nat.le_refl 0
  | case2 c l hb ih =>
    rw [tokens_blank hb, List.length_cons]
    omega
  | case3 c l hb hs ih =>
    have hle := List.length_dropWhile_le isWord l
    rw [tokens_word (Bool.eq_false_iff.mpr hb) hs, List.length_cons, List.length_cons]
    omega
  | case4 c l hb k hs hgt ih =>
    rw [tokens, if_neg hb, hs]
    dsimp only
    rw [if_pos hgt, List.length_cons, List.length_cons]
    rw [List.length_tail] at ih
    omega
  | case5 c l hb k hs hgt ih =>
    rw [tokens_symbol hs hgt, List.length_cons, List.length_cons]
    omega

/-- What is parsed is in the grammar. -/
lemma parsecmd_sound (h0 : (0 : UInt8) ∉ line) (hn : 4 * line.length + 4 ≤ n) :
    Ends Panics (parsecmd n line)
      (fun r _ => Derives .line (tokens line) (r.1.map fun w => cstring r.2 w.1)) 0 := by
  have hlen := length_tokens_le line
  refine (parse_sound h0 n .line 0 (tokens line) ⟨Nat.zero_le _, rfl⟩
    (by simp only [Nonterminal.fuel]; omega)).seq ?_
  intro cmd s hfound
  obtain ⟨l₁, l₂, tree, hl, hderives, hspell, hs⟩ := hfound
  refine (@peek_ends _ _ _ _ h0 hs [] (by simp)).seq ?_
  intro _ t ht
  refine ends_bind.mpr (ends_get.mpr ?_)
  by_cases hend : t = line.length
  · rw [if_neg (fun hne => hne hend)]
    have hnil : l₂ = [] := by rw [← ht.2.tokens, hend, List.drop_length, tokens_nil]
    rw [hnil, List.append_nil] at hl
    show Derives .line (tokens line) (cmd.map _)
    rw [map_cstring h0 hspell, hl]
    exact hderives
  · rw [if_pos hend]
    exact ends_throw.mpr ParseError.noConfusion

/-- What is in the grammar is parsed. -/
lemma parsecmd_complete (h0 : (0 : UInt8) ∉ line) (hn : 4 * line.length + 4 ≤ n) {tree : Cmd Str}
    (h : Derives .line (tokens line) tree) :
    Ends (fun _ => False) (parsecmd n line)
      (fun r _ => r.1.map (fun w => cstring r.2 w.1) = tree) 0 := by
  have hlen := length_tokens_le line
  refine (parse_complete h0 h n 0 [] ⟨Nat.zero_le _, by rw [List.append_nil]; rfl⟩
    (by rw [List.append_nil]; simp only [Nonterminal.fuel]; omega) trivial).seq ?_
  intro cmd s hs
  obtain ⟨hspell, hs⟩ := hs
  refine ends_bind.mpr (ends_modifyGet.mpr (ends_bind.mpr (ends_get.mpr ?_)))
  -- there are only blanks left
  have hend : skip isBlank line s = line.length := by
    by_contra hne
    have hlt : skip isBlank line s < line.length := lt_of_le_of_ne hs.skip.le hne
    obtain ⟨k, hk, -⟩ := gettokenSwitch_eq h0 (List.drop_eq_getElem_cons hlt)
      (isBlank_skip (List.drop_eq_getElem_cons hlt))
    have hnil := hs.skip.tokens
    rw [List.drop_eq_getElem_cons hlt, hk] at hnil
    cases hnil
  dsimp only
  rw [if_neg (fun hne => hne hend)]
  exact map_cstring h0 hspell

/-- `parsecmd` returns or panics, and it returns the trees that the grammar has for the tokens of the line,
with the words as they stand there. -/
theorem parsecmd_iff (h0 : (0 : UInt8) ∉ line) (hn : 4 * line.length + 4 ≤ n) :
    (parsecmd n line).run 0 ≠ .error .fuel ∧
    ∀ tree, (∃ cmd buf s, (parsecmd n line).run 0 = .ok ((cmd, buf), s) ∧
      cmd.map (fun w => cstring buf w.1) = tree) ↔ Derives .line (tokens line) tree := by
  have hsound := parsecmd_sound h0 hn
  refine ⟨fun herror => hsound.of_error herror rfl, fun tree => ⟨?_, ?_⟩⟩
  · rintro ⟨cmd, buf, s, hrun, rfl⟩
    exact hsound.of_ok hrun
  · intro h
    obtain ⟨r, s, hrun, hr⟩ := (parsecmd_complete h0 hn h).returns (fun _ => id)
    exact ⟨r.1, r.2, s, hrun, hr⟩

/-- A line with a redirection, a block and an `&`. -/
theorem parsecmd_iff_redirected :
    Derives .line (tokens ("ls >f;(wc)&".toList.map chr))
      (.list (.redir (.exec [[chr 'l', chr 's']]) [chr 'f'] (O_WRONLY ||| O_CREATE) 1)
        (.back (.exec [[chr 'w', chr 'c']]))) :=
  ((parsecmd_iff (by decide) (Nat.le_refl _)).2 _).mp ⟨_, _, _, rfl, rfl⟩

end

end Sh
end OhMyXv6
