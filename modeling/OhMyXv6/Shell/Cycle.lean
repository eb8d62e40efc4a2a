import Mathlib.Data.Bool.AllAny
import Mathlib.Data.List.GetD
import OhMyXv6.Shell.InBuffer

/-!
# Tabs go through the matches

The part of the line behind the last space and the last slash is completed. The first Tab looks for the
matches, and the next ones put one of them after the other into the line, as far as they fit.
-/

namespace OhMyXv6
namespace Sh

open Console

/-! ## The line and its parts -/

/-- The part of the line behind its last space. -/
def lastWord (line : Str) : Str := (line.reverse.takeWhile (· ≠ chr ' ')).reverse

/-- The part of a word behind its last slash. -/
def namePart (w : Str) : Str := (w.reverse.takeWhile (· ≠ chr '/')).reverse

/-- The part of a word in front of its last slash. -/
def dirText (w : Str) : Str := w.take (w.length - (namePart w).length - 1)

/-- The directory that the word is completed in. -/
def dirPart (w : Str) : Str :=
  if chr '/' ∉ w then [chr '.']
  else if dirText w = [] then [chr '/']
  else (dirText w).takeWhile (· ≠ 0)

/-- The part of the line that a completion keeps. -/
def keptPart (line : Str) : Str := line.take (line.length - (namePart (lastWord line)).length)

/-- The entry is in use, and its name begins with the prefix; it is not hidden, or the prefix begins with a
dot as well. -/
def Fitting (p : Str) (de : Dirent) : Prop :=
  de.inum ≠ 0 ∧ p <+: de.str ∧ (de.str.head? = some (chr '.') → p.head? = some (chr '.'))

instance (p : Str) (de : Dirent) : Decidable (Fitting p de) := inferInstanceAs (Decidable (_ ∧ _))

/-- The matches for the line, in the order of the directory. -/
def candidates (fs : Dirs) (line : Str) : List Str :=
  let w := lastWord line
  match fs.read (dirPart w) with
  | none => []
  | some entries =>
    (entries.filter fun de => Fitting (namePart w) de).map fun de => matchName fs (dirPart w) de.str

/-- The line with the match in it, if it fits into the buffer. -/
def complete (nbuf : ℕ) (kept line m : Str) : Str :=
  if kept.length + m.length < nbuf then kept ++ m else line

/-- The line after `k` Tabs. -/
def cycled (nbuf : ℕ) (kept line : Str) (found : List Str) : ℕ → Str
  | 0 => line
  | k + 1 =>
    complete nbuf kept (cycled nbuf kept line found k) (found.getD (k % found.length) [])

/-! ## The buffer -/

namespace LineBuf

section
variable {b b' : LineBuf} {i j k len : ℕ} {s : Str}

/-- Zeros in the range and nothing else. -/
lemma mem_memset (len : ℕ) : ∀ {b : LineBuf} {i : ℕ}, (b.memset i len).mem j =
    if i ≤ j ∧ j < i + len then 0 else b.mem j := by
  induction len with
  | zero =>
    intro b i
    rw [if_neg (by omega)]
    rfl
  | succ len ih =>
    intro b i
    rw [memset, ih]
    by_cases hj : j = i
    · subst hj
      rw [if_neg (by omega), if_pos (by omega), mem_store_self]
    · rw [mem_store_of_ne hj]
      split_ifs <;> first | rfl | omega

/-- The string in the range and nothing else. -/
lemma mem_memmove (s : Str) : ∀ {b : LineBuf} {i : ℕ}, (b.memmove i s).mem j =
    if i ≤ j ∧ j < i + s.length then s.getD (j - i) 0 else b.mem j := by
  induction s with
  | nil =>
    intro b i
    rw [if_neg (by simp)]
    rfl
  | cons c s ih =>
    intro b i
    rw [memmove, ih, List.length_cons]
    by_cases hj : j = i
    · subst hj
      rw [if_neg (by omega), if_pos (by omega), mem_store_self, Nat.sub_self]
      rfl
    · rw [mem_store_of_ne hj]
      by_cases hin : i ≤ j ∧ j < i + (s.length + 1)
      · rw [if_pos (by omega), if_pos hin, show j - i = j - (i + 1) + 1 by omega]
        rfl
      · rw [if_neg (by omega), if_neg hin]

@[simp] lemma length_text : (b.text i len).length = len := by simp [text]

lemma getElem?_text (hk : k < len) : (b.text i len)[k]? = some (b.mem (i + k)) := by
  simp [text, hk]

/-- Only the bytes of the range count. -/
lemma text_congr (h : ∀ j, i ≤ j → j < i + len → b'.mem j = b.mem j) :
    b'.text i len = b.text i len := by
  unfold text
  refine List.map_congr_left fun j hj => ?_
  rw [List.mem_range'_1] at hj
  exact h j hj.1 hj.2

lemma text_succ : b.text i (len + 1) = b.text i len ++ [b.mem (i + len)] := by
  simp [text, List.range'_concat]

lemma text_cons : b.text i (len + 1) = b.mem i :: b.text (i + 1) len := by
  simp [text, List.range'_succ]

lemma text_append : b.text i j ++ b.text (i + j) k = b.text i (j + k) := by
  simp only [text, ← List.map_append, List.range'_append_1]

lemma text_take (hk : k ≤ len) : (b.text i len).take k = b.text i k := by
  obtain ⟨m, rfl⟩ := Nat.exists_eq_add_of_le hk
  rw [← text_append, List.take_left' length_text]

lemma text_drop (hk : k ≤ len) : (b.text i len).drop k = b.text (i + k) (len - k) := by
  obtain ⟨m, rfl⟩ := Nat.exists_eq_add_of_le hk
  rw [← text_append, List.drop_left' length_text, Nat.add_sub_cancel_left]

/-- The bytes of a string that was put there. -/
lemma text_memmove : (b.memmove i s).text i s.length = s := by
  refine List.ext_getElem? fun k => ?_
  by_cases hk : k < s.length
  · rw [getElem?_text hk, mem_memmove, if_pos (by omega), Nat.add_sub_cancel_left,
      List.getD_eq_getElem _ _ hk, List.getElem?_eq_getElem hk]
  · rw [List.getElem?_eq_none (by rw [length_text]; omega), List.getElem?_eq_none (by omega)]

end

end LineBuf

/-! ## What is completed -/

section
variable {b : LineBuf} {n i k : ℕ} {w : Str} {c : UInt8}

/-- The last word is a part of the line. -/
lemma length_lastWord_le (line : Str) : (lastWord line).length ≤ line.length := by
  rw [lastWord, List.length_reverse, ← @List.length_reverse _ line]
  exact (List.takeWhile_prefix _).length_le

/-- The name is a part of the word. -/
lemma length_namePart_le (w : Str) : (namePart w).length ≤ w.length := by
  rw [namePart, List.length_reverse, ← @List.length_reverse _ w]
  exact (List.takeWhile_prefix _).length_le

lemma lastWord_suffix (line : Str) : lastWord line <:+ line := by
  have hpre := List.takeWhile_prefix (fun c => decide (c ≠ chr ' ')) (l := line.reverse)
  have hsuf := List.reverse_suffix.mpr hpre
  rwa [List.reverse_reverse] at hsuf

lemma namePart_suffix (w : Str) : namePart w <:+ w := by
  have hpre := List.takeWhile_prefix (fun c => decide (c ≠ chr '/')) (l := w.reverse)
  have hsuf := List.reverse_suffix.mpr hpre
  rwa [List.reverse_reverse] at hsuf

lemma lastWordStart_eq (b : LineBuf) (n : ℕ) :
    lastWordStart b.mem n + (lastWord (b.text 0 n)).length = n := by
  induction n with
  | zero => rfl
  | succ n ih =>
    rw [lastWord, LineBuf.text_succ, List.reverse_append, List.reverse_singleton, List.singleton_append,
      Nat.zero_add, lastWordStart]
    by_cases hc : b.mem n = chr ' '
    · rw [if_neg (by simpa using hc), List.takeWhile_cons_of_neg (by simpa using hc)]
      rfl
    · rw [if_pos hc, List.takeWhile_cons_of_pos (by simpa using hc), List.reverse_cons,
        List.length_append, List.length_singleton]
      rw [lastWord] at ih
      omega

/-- The last word, as it stands in the buffer. -/
lemma text_lastWord (b : LineBuf) (n : ℕ) :
    b.text (lastWordStart b.mem n) (n - lastWordStart b.mem n) = lastWord (b.text 0 n) := by
  have hlen := lastWordStart_eq b n
  obtain ⟨front, hfront⟩ := lastWord_suffix (b.text 0 n)
  have hstart : front.length = lastWordStart b.mem n := by
    have hall := congrArg List.length hfront
    rw [List.length_append, LineBuf.length_text] at hall
    omega
  have hdrop : (b.text 0 n).drop (lastWordStart b.mem n) =
      b.text (0 + lastWordStart b.mem n) (n - lastWordStart b.mem n) := LineBuf.text_drop (by omega)
  rw [Nat.zero_add] at hdrop
  rw [← hdrop]
  conv_lhs => rw [← hfront, ← hstart]
  exact List.drop_left

/-- Before a slash nothing belongs to the name. -/
lemma namePart_cons_of_mem (hw : chr '/' ∈ w) : namePart (c :: w) = namePart w := by
  rw [namePart, namePart, List.reverse_cons, List.takeWhile_append, if_neg]
  intro hlen
  have heq := List.IsPrefix.eq_of_length (List.takeWhile_prefix _) hlen
  have hall := List.takeWhile_eq_self_iff.mp heq (chr '/') (List.mem_reverse.mpr hw)
  simp at hall

/-- Without a slash all of it does. -/
lemma namePart_of_not_mem (hw : chr '/' ∉ w) : namePart w = w := by
  rw [namePart, List.takeWhile_eq_self_iff.mpr, List.reverse_reverse]
  intro d hd
  simp only [decide_eq_true_eq]
  exact fun heq => hw (heq ▸ List.mem_reverse.mp hd)

lemma namePart_slash (hw : chr '/' ∉ w) : namePart (chr '/' :: w) = w := by
  have hself : w.reverse.takeWhile (fun c => decide (c ≠ chr '/')) = w.reverse := by
    rw [List.takeWhile_eq_self_iff]
    intro d hd
    simp only [decide_eq_true_eq]
    exact fun heq => hw (heq ▸ List.mem_reverse.mp hd)
  rw [namePart, List.reverse_cons, List.takeWhile_append, hself, if_pos rfl,
    List.takeWhile_cons_of_neg (by simp), List.append_nil, List.reverse_reverse]

/-- The loop finds the slash in front of the name. -/
lemma lastSlashLoop_eq (b : LineBuf) (k : ℕ) : ∀ i last, lastSlashLoop b.mem k i last =
    if chr '/' ∈ b.text i k then some (i + k - (namePart (b.text i k)).length - 1) else last := by
  induction k with
  | zero =>
    intro i last
    rw [if_neg (by simp [LineBuf.text])]
    rfl
  | succ k ih =>
    intro i last
    rw [lastSlashLoop, ih, LineBuf.text_cons]
    by_cases hmem : chr '/' ∈ b.text (i + 1) k
    · rw [if_pos hmem, if_pos (List.mem_cons_of_mem _ hmem), namePart_cons_of_mem hmem,
        Nat.add_right_comm, Nat.add_assoc]
    · rw [if_neg hmem]
      by_cases hc : b.mem i = chr '/'
      · rw [hc, if_pos rfl, if_pos List.mem_cons_self, namePart_slash hmem, LineBuf.length_text]
        congr 1
        omega
      · rw [if_neg hc, if_neg]
        intro h
        rcases List.mem_cons.mp h with h | h
        · exact hc h.symm
        · exact hmem h

/-- The directory is the one of the last word, and the name begins behind what is kept. -/
theorem completed_eq (b : LineBuf) (n : ℕ) (hdir : (dirText (lastWord (b.text 0 n))).length < DIRBUF) :
    completed b n = some (dirPart (lastWord (b.text 0 n)), (keptPart (b.text 0 n)).length) := by
  have hstart := lastWordStart_eq b n
  have htext := text_lastWord b n
  have hname := length_namePart_le (lastWord (b.text 0 n))
  have hkept : (keptPart (b.text 0 n)).length = n - (namePart (lastWord (b.text 0 n))).length := by
    rw [keptPart, List.length_take, LineBuf.length_text]
    omega
  rw [hkept]
  unfold completed
  dsimp only
  rw [lastSlashLoop_eq, htext]
  by_cases hslash : chr '/' ∈ lastWord (b.text 0 n)
  swap
  · rw [if_neg hslash]
    dsimp only
    rw [dirPart, if_pos hslash, namePart_of_not_mem hslash]
    congr 2
    omega
  · rw [if_pos hslash]
    dsimp only
    -- behind the last slash the name is shorter than the word
    have hlt : (namePart (lastWord (b.text 0 n))).length < (lastWord (b.text 0 n)).length := by
      rcases Nat.lt_or_eq_of_le hname with hlt | heq
      · exact hlt
      · have hsuf := (namePart_suffix (lastWord (b.text 0 n))).eq_of_length heq
        rw [← hsuf, namePart, List.mem_reverse] at hslash
        have hne := List.mem_takeWhile_imp hslash
        simp at hne
    have hlen : (dirText (lastWord (b.text 0 n))).length =
        (lastWord (b.text 0 n)).length - (namePart (lastWord (b.text 0 n))).length - 1 := by
      rw [dirText, List.length_take]
      omega
    have hdist : lastWordStart b.mem n + (n - lastWordStart b.mem n) -
        (namePart (lastWord (b.text 0 n))).length - 1 - lastWordStart b.mem n =
        (dirText (lastWord (b.text 0 n))).length := by omega
    have hpart : dirPart (lastWord (b.text 0 n)) =
        if dirText (lastWord (b.text 0 n)) = [] then [chr '/']
        else (dirText (lastWord (b.text 0 n))).takeWhile (· ≠ 0) := if_neg (not_not.mpr hslash)
    rw [hdist, hpart]
    have hnext : lastWordStart b.mem n + (n - lastWordStart b.mem n) -
        (namePart (lastWord (b.text 0 n))).length - 1 + 1 =
        n - (namePart (lastWord (b.text 0 n))).length := by omega
    rw [hnext]
    -- a word that starts with its only slash names the root
    by_cases hnil : dirText (lastWord (b.text 0 n)) = []
    · rw [if_pos (by rw [hnil]; rfl), if_pos hnil]
    · rw [if_neg (fun h => hnil (List.length_eq_zero_iff.mp h)), if_neg (Nat.not_le.mpr hdir),
        if_neg hnil]
      have htake : (b.text (lastWordStart b.mem n) (n - lastWordStart b.mem n)).take
          (dirText (lastWord (b.text 0 n))).length =
            b.text (lastWordStart b.mem n) (dirText (lastWord (b.text 0 n))).length :=
        LineBuf.text_take (by omega)
      rw [← htake, htext, hlen]
      rfl

/-- Names in a directory have 14 bytes at most. -/
lemma length_str_le (de : Dirent) : de.str.length ≤ DIRSIZ :=
  (List.takeWhile_prefix _).length_le.trans (List.length_take_le _ _)

/-- The prefix is one of the name. -/
lemma text_prefix_iff {s : Str} : b.text i k <+: s ↔
    k ≤ s.length ∧ ∀ j < k, b.mem (i + j) = s.getD j 0 := by
  constructor
  · intro h
    have hle := h.length_le
    rw [LineBuf.length_text] at hle
    refine ⟨hle, fun j hj => ?_⟩
    have hget := List.prefix_iff_getElem?.mp h j (by rwa [LineBuf.length_text])
    have htext := LineBuf.getElem?_text (b := b) (i := i) hj
    rw [List.getElem?_eq_getElem (by rwa [LineBuf.length_text])] at htext
    rw [List.getD_eq_getElem?_getD, hget, Option.some.inj htext]
    rfl
  · intro h
    refine List.prefix_iff_getElem?.mpr fun j hj => ?_
    rw [LineBuf.length_text] at hj
    have htext := LineBuf.getElem?_text (b := b) (i := i) hj
    rw [List.getElem?_eq_getElem (by rwa [LineBuf.length_text])] at htext
    rw [Option.some.inj htext, h.2 j hj, List.getD_eq_getElem _ _ (by omega),
      List.getElem?_eq_getElem (by omega)]

/-- Behind the line there is a zero, so that the prefix is not taken to begin with a dot if it is empty. -/
theorem isMatch_eq (de : Dirent) (hzero : b.mem (i + k) = 0) :
    isMatch b.mem i k de = decide (Fitting (b.text i k) de) := by
  unfold isMatch
  rw [decide_eq_decide, Fitting, text_prefix_iff]
  have hhead : de.str.headD 0 = chr '.' ↔ de.str.head? = some (chr '.') := by
    cases de.str with
    | nil => exact iff_of_false (by decide) (by simp)
    | cons c s => exact (Option.some.injEq _ _).symm ▸ Iff.rfl
  have hprefix : (b.text i k).head? = some (chr '.') ↔ b.mem i = chr '.' := by
    cases k with
    | zero =>
      rw [Nat.add_zero] at hzero
      rw [hzero]
      exact iff_of_false (by simp [LineBuf.text]) (by decide)
    | succ k =>
      rw [LineBuf.text_cons, List.head?_cons, Option.some.injEq]
  rw [hhead, hprefix]
  tauto

/-- The entries that begin like the name. -/
lemma findMatches_eq (fs : Dirs) (dir : Str) (hzero : b.mem (i + k) = 0) (entries : List Dirent) :
    findMatches fs dir b.mem i k entries =
      (entries.filter fun de => Fitting (b.text i k) de).map fun de => matchName fs dir de.str := by
  induction entries with
  | nil => rfl
  | cons de entries ih =>
    rw [findMatches, isMatch_eq de hzero, ih]
    by_cases hfit : Fitting (b.text i k) de
    · rw [if_pos (decide_eq_true hfit), List.filter_cons_of_pos (by simpa using hfit), List.map_cons]
    · rw [if_neg (by simpa using hfit), List.filter_cons_of_neg (by simpa using hfit)]

/-- What the completion keeps of the line. -/
lemma length_keptPart (line : Str) :
    (keptPart line).length = line.length - (namePart (lastWord line)).length := by
  rw [keptPart, List.length_take]
  omega

/-- The name is a part of the line. -/
lemma length_name_le (line : Str) : (namePart (lastWord line)).length ≤ line.length :=
  (length_namePart_le _).trans (length_lastWord_le line)

/-- The name is what is not kept. -/
lemma text_name (b : LineBuf) (n : ℕ) :
    b.text (keptPart (b.text 0 n)).length (n - (keptPart (b.text 0 n)).length) =
      namePart (lastWord (b.text 0 n)) := by
  have hle := length_name_le (b.text 0 n)
  have hkept := length_keptPart (b.text 0 n)
  rw [LineBuf.length_text] at hle hkept
  obtain ⟨front, hfront⟩ := (namePart_suffix _).trans (lastWord_suffix (b.text 0 n))
  have hlen : front.length = (keptPart (b.text 0 n)).length := by
    have hall := congrArg List.length hfront
    rw [List.length_append, LineBuf.length_text] at hall
    omega
  have hdrop : (b.text 0 n).drop (keptPart (b.text 0 n)).length =
      b.text (0 + (keptPart (b.text 0 n)).length) (n - (keptPart (b.text 0 n)).length) :=
    LineBuf.text_drop (by omega)
  rw [Nat.zero_add] at hdrop
  rw [← hdrop, ← hlen]
  conv_lhs => rw [← hfront]
  exact List.drop_left

/-- The state of a completion whose matches are `found`, with those from `selected` on to come. -/
def completing (fs : Dirs) (line : Str) (selected : List Str) (current : ℕ) : AutoState :=
  ⟨1 < (candidates fs line).length, (keptPart line).length, (namePart (lastWord line)).length, current,
    (candidates fs line).length, dirPart (lastWord line), candidates fs line, selected⟩

/-- The first Tab. -/
lemma autocomplete_first (fs : Dirs) {state : AutoState} {nbuf : ℕ} (hauto : state.active = false)
    (hzero : b.mem n = 0) (hdir : (dirText (lastWord (b.text 0 n))).length < DIRBUF) :
    autocomplete fs state b n nbuf =
      if candidates fs (b.text 0 n) = [] then (state, b, n)
      else
        let next := completing fs (b.text 0 n) (candidates fs (b.text 0 n)) 0
        (if (candidates fs (b.text 0 n)).length = 1 then reset_autocomplete next else next,
          replace_autocomplete b n nbuf next) := by
  have hkept := length_keptPart (b.text 0 n)
  have hle := length_name_le (b.text 0 n)
  rw [LineBuf.length_text] at hkept hle
  have hlen : n - (keptPart (b.text 0 n)).length = (namePart (lastWord (b.text 0 n))).length := by omega
  have hname := text_name b n
  have hfind : ∀ entries, findMatches fs (dirPart (lastWord (b.text 0 n))) b.mem
      (keptPart (b.text 0 n)).length (n - (keptPart (b.text 0 n)).length) entries =
      (entries.filter fun de => Fitting (namePart (lastWord (b.text 0 n))) de).map
        fun de => matchName fs (dirPart (lastWord (b.text 0 n))) de.str := by
    intro entries
    rw [findMatches_eq _ _ (by rw [show (keptPart (b.text 0 n)).length +
      (n - (keptPart (b.text 0 n)).length) = n by omega]; exact hzero), hname]
  unfold autocomplete
  rw [hauto, if_neg Bool.false_ne_true, completed_eq b n hdir]
  dsimp only
  cases hread : fs.read (dirPart (lastWord (b.text 0 n))) with
  | none =>
    have hnil : candidates fs (b.text 0 n) = [] := by simp [candidates, hread]
    rw [if_pos hnil, ite_self]
  | some entries =>
    have hcand : candidates fs (b.text 0 n) =
        findMatches fs (dirPart (lastWord (b.text 0 n))) b.mem (keptPart (b.text 0 n)).length
          (n - (keptPart (b.text 0 n)).length) entries := by
      rw [hfind]
      simp [candidates, hread]
    dsimp only
    by_cases hlong : DIRSIZ < n - (keptPart (b.text 0 n)).length
    · -- no name is as long as that
      have hnil : candidates fs (b.text 0 n) = [] := by
        rw [hcand, hfind, List.map_eq_nil_iff, List.filter_eq_nil_iff]
        intro de _ hfit
        have hpre := (of_decide_eq_true hfit).2.1.length_le
        have hstr := length_str_le de
        omega
      rw [if_pos hlong, if_pos hnil]
    · rw [if_neg hlong, ← hcand]
      by_cases hnil : candidates fs (b.text 0 n) = []
      · rw [if_pos hnil, if_pos hnil]
      · rw [if_neg hnil, if_neg hnil, hlen]
        rfl

end

/-! ## Tabs -/

namespace Typing

/-- The text that has been typed. -/
def line (t : Typing) : Str := t.buf.text 0 t.n

/-- `getcmd` waits for a key: there is room behind the line, and it is zero. -/
structure Ready (nbuf : ℕ) (t : Typing) : Prop where
  room : t.n < nbuf
  zero : ∀ i, t.n ≤ i → i < nbuf → t.buf.mem i = 0

/-- The Tab key. -/
def tab (nbuf : ℕ) (fs : Dirs) (t : Typing) : Typing := (t.byte nbuf (chr '\t') fs).1

/-- `k` of them. -/
def tabs (nbuf : ℕ) (fs : Dirs) : ℕ → Typing → Typing
  | 0, t => t
  | k + 1, t => tab nbuf fs (tabs nbuf fs k t)

section
variable {nbuf n : ℕ} {t : Typing} {b : LineBuf} {fs : Dirs} {kept m : Str} {state : AutoState}

/-- What is done to the buffer behind the completion: the line, and zeros. -/
theorem ready_memset (auto : AutoState) (hn : n < nbuf) :
    Ready nbuf ⟨b.memset n (nbuf - n), n, auto⟩ ∧
      (⟨b.memset n (nbuf - n), n, auto⟩ : Typing).line = b.text 0 n := by
  refine ⟨⟨hn, fun i hi hlt => ?_⟩, ?_⟩
  · show (b.memset n (nbuf - n)).mem i = 0
    dsimp only at hi
    rw [LineBuf.mem_memset, if_pos (by omega)]
  · show (b.memset n (nbuf - n)).text 0 n = b.text 0 n
    refine LineBuf.text_congr fun j _ hj => ?_
    rw [LineBuf.mem_memset, if_neg (by omega)]

/-- `replace_autocomplete`, behind what is kept. -/
lemma replace_line (hn : n < nbuf) (hlen : kept.length ≤ n) (hkept : b.text 0 kept.length = kept)
    (hstart : state.prefix_start = kept.length) (hsel : state.selected.head? = some m) :
    let x := replace_autocomplete b n nbuf state
    x.2 < nbuf ∧ kept.length ≤ x.2 ∧ x.1.text 0 kept.length = kept ∧
      x.1.text 0 x.2 = complete nbuf kept (b.text 0 n) m := by
  obtain ⟨rest, hrest⟩ : ∃ rest, state.selected = m :: rest := by
    cases hs : state.selected with
    | nil => rw [hs] at hsel; cases hsel
    | cons m' rest =>
      rw [hs] at hsel
      exact ⟨rest, by rw [Option.some.inj hsel]⟩
  unfold replace_autocomplete complete
  rw [hrest]
  dsimp only
  rw [hstart]
  by_cases hfits : kept.length + m.length < nbuf
  · rw [if_neg (Nat.not_le.mpr hfits), if_pos hfits]
    dsimp only
    have hfront : ((b.memmove kept.length m).store (kept.length + m.length) 0).text 0 kept.length = kept := by
      conv_rhs => rw [← hkept]
      refine LineBuf.text_congr fun j _ hj => ?_
      rw [LineBuf.mem_store_of_ne (by omega), LineBuf.mem_memmove, if_neg (by omega)]
    refine ⟨hfits, Nat.le_add_right _ _, hfront, ?_⟩
    rw [← LineBuf.text_append, hfront, Nat.zero_add]
    congr 1
    conv_rhs => rw [← LineBuf.text_memmove (b := b) (i := kept.length) (s := m)]
    exact LineBuf.text_congr fun j _ hj => LineBuf.mem_store_of_ne (by omega)
  · rw [if_pos (Nat.le_of_not_lt hfits), if_neg hfits]
    exact ⟨hn, hlen, hkept, rfl⟩

lemma byte_tab : t.byte nbuf (chr '\t') fs =
    let x := autocomplete fs t.auto t.buf t.n nbuf
    (⟨x.2.1.memset x.2.2 (nbuf - x.2.2), x.2.2, x.1⟩, false) := by
  unfold byte
  rw [if_neg (by decide), if_pos rfl]

/-- The state behind a completion with the `j`-th of several matches. -/
structure Cycling (nbuf : ℕ) (fs : Dirs) (line : Str) (j : ℕ) (t : Typing) : Prop where
  ready : Ready nbuf t
  kept : t.buf.text 0 (keptPart line).length = keptPart line
  len : (keptPart line).length ≤ t.n
  lt : j < (candidates fs line).length
  auto : t.auto = completing fs line ((candidates fs line).drop j) j

/-- The candidate whose turn it is. -/
lemma head?_drop_candidates {M : List Str} {j : ℕ} (hj : j < M.length) :
    (M.drop j).head? = some (M.getD j []) := by
  rw [List.head?_drop, List.getElem?_eq_getElem hj, List.getD_eq_getElem _ _ hj]

/-- Another Tab goes on to the next match, and to the first one behind the last. -/
theorem Cycling.tab {line : Str} {j : ℕ} (ht : Cycling nbuf fs line j t)
    (hmany : 2 ≤ (candidates fs line).length) :
    Cycling nbuf fs line ((j + 1) % (candidates fs line).length) (t.tab nbuf fs) ∧
      (t.tab nbuf fs).line = complete nbuf (keptPart line) t.line
        ((candidates fs line).getD ((j + 1) % (candidates fs line).length) []) := by
  have hlt := ht.lt
  have hmod : (j + 1) % (candidates fs line).length < (candidates fs line).length :=
    Nat.mod_lt _ (by omega)
  -- the state with the next match
  have hnext : (autocomplete fs t.auto t.buf t.n nbuf).1 = completing fs line
        ((candidates fs line).drop ((j + 1) % (candidates fs line).length))
        ((j + 1) % (candidates fs line).length) ∧
      (autocomplete fs t.auto t.buf t.n nbuf).2 = replace_autocomplete t.buf t.n nbuf
        (completing fs line ((candidates fs line).drop ((j + 1) % (candidates fs line).length))
          ((j + 1) % (candidates fs line).length)) := by
    have hactive : (completing fs line ((candidates fs line).drop j) j).active = true :=
      decide_eq_true (by omega)
    unfold autocomplete
    rw [ht.auto, if_pos hactive]
    have htail : (completing fs line ((candidates fs line).drop j) j).selected.tail =
        (candidates fs line).drop (j + 1) := List.tail_drop
    rw [htail]
    by_cases hlast : j + 1 = (candidates fs line).length
    · rw [if_pos (List.drop_eq_nil_of_le (by omega)), hlast, Nat.mod_self, List.drop_zero]
      exact ⟨rfl, rfl⟩
    · rw [if_neg (fun hnil => by
        have hle := List.drop_eq_nil_iff.mp hnil
        omega), Nat.mod_eq_of_lt (by omega)]
      exact ⟨rfl, rfl⟩
  obtain ⟨hlt', hle', hkept', hline'⟩ := @replace_line nbuf _ _ (keptPart line) _
    (completing fs line ((candidates fs line).drop ((j + 1) % (candidates fs line).length))
      ((j + 1) % (candidates fs line).length)) ht.ready.room ht.len ht.kept rfl
    (head?_drop_candidates hmod)
  rw [← hnext.2] at hlt' hle' hkept' hline'
  have htab : t.tab nbuf fs = ⟨(autocomplete fs t.auto t.buf t.n nbuf).2.1.memset
      (autocomplete fs t.auto t.buf t.n nbuf).2.2
      (nbuf - (autocomplete fs t.auto t.buf t.n nbuf).2.2),
      (autocomplete fs t.auto t.buf t.n nbuf).2.2, (autocomplete fs t.auto t.buf t.n nbuf).1⟩ := by
    rw [Typing.tab, byte_tab]
  obtain ⟨hready, htext⟩ := ready_memset (b := (autocomplete fs t.auto t.buf t.n nbuf).2.1)
    (autocomplete fs t.auto t.buf t.n nbuf).1 hlt'
  rw [htab]
  refine ⟨⟨hready, ?_, hle', hmod, hnext.1⟩, htext.trans hline'⟩
  conv_rhs => rw [← hkept']
  exact LineBuf.text_congr fun i _ hi => by rw [LineBuf.mem_memset, if_neg (by omega)]

/-- The first Tab, in a line that is not being completed. -/
lemma tab_first (ht : Ready nbuf t) (hauto : t.auto.active = false)
    (hdir : (dirText (lastWord t.line)).length < DIRBUF) :
    (candidates fs t.line = [] → (t.tab nbuf fs).line = t.line ∧ Ready nbuf (t.tab nbuf fs) ∧
      (t.tab nbuf fs).auto = t.auto) ∧
    (∀ m, candidates fs t.line = [m] →
      (t.tab nbuf fs).line = complete nbuf (keptPart t.line) t.line m ∧
        (t.tab nbuf fs).auto = reset_autocomplete t.auto) ∧
    (2 ≤ (candidates fs t.line).length → Cycling nbuf fs t.line 0 (t.tab nbuf fs) ∧
      (t.tab nbuf fs).line = complete nbuf (keptPart t.line) t.line
        ((candidates fs t.line).getD 0 [])) := by
  have hfirst := @autocomplete_first _ _ fs _ nbuf hauto (ht.zero t.n (Nat.le_refl _) ht.room) hdir
  have htab : t.tab nbuf fs = ⟨(autocomplete fs t.auto t.buf t.n nbuf).2.1.memset
      (autocomplete fs t.auto t.buf t.n nbuf).2.2
      (nbuf - (autocomplete fs t.auto t.buf t.n nbuf).2.2),
      (autocomplete fs t.auto t.buf t.n nbuf).2.2, (autocomplete fs t.auto t.buf t.n nbuf).1⟩ := by
    rw [tab, byte_tab]
  have hlen : (keptPart t.line).length ≤ t.n := by
    rw [length_keptPart, line, LineBuf.length_text]
    omega
  have hkept : t.buf.text 0 (keptPart t.line).length = keptPart t.line := by
    have htake := LineBuf.text_take (b := t.buf) (i := 0) hlen
    rw [← htake]
    show t.line.take _ = _
    rw [length_keptPart]
    rfl
  have hready := @ready_memset nbuf (autocomplete fs t.auto t.buf t.n nbuf).2.2
    (autocomplete fs t.auto t.buf t.n nbuf).2.1
    (autocomplete fs t.auto t.buf t.n nbuf).1
  rw [← htab] at hready
  -- a match is selected
  have hreplace : ∀ m, (candidates fs t.line).head? = some m →
      (t.tab nbuf fs).line = complete nbuf (keptPart t.line) t.line m ∧ Ready nbuf (t.tab nbuf fs) ∧
        (keptPart t.line).length ≤ (t.tab nbuf fs).n ∧
        (t.tab nbuf fs).buf.text 0 (keptPart t.line).length = keptPart t.line := by
    intro m hm
    have hne : candidates fs (t.buf.text 0 t.n) ≠ [] := by
      intro hnil
      rw [line, hnil] at hm
      cases hm
    have hstate : (autocomplete fs t.auto t.buf t.n nbuf).2 = replace_autocomplete t.buf t.n nbuf
        (completing fs t.line (candidates fs t.line) 0) := by
      rw [hfirst, if_neg hne]
      rfl
    obtain ⟨hlt', hle', hkept', hline'⟩ := @replace_line nbuf _ _ (keptPart t.line) _
      (completing fs t.line (candidates fs t.line) 0) ht.room hlen hkept rfl hm
    rw [← hstate] at hlt' hle' hkept' hline'
    obtain ⟨hr, htext⟩ := hready hlt'
    refine ⟨htext.trans hline', hr, by rw [htab]; exact hle', ?_⟩
    rw [htab]
    conv_rhs => rw [← hkept']
    exact LineBuf.text_congr fun i _ hi => by rw [LineBuf.mem_memset, if_neg (by omega)]
  refine ⟨fun hnil => ?_, fun m hm => ?_, fun hmany => ?_⟩
  · have hnil' : candidates fs (t.buf.text 0 t.n) = [] := hnil
    rw [if_pos hnil'] at hfirst
    rw [hfirst] at hready htab
    obtain ⟨hr, htext⟩ := hready ht.room
    exact ⟨htext, hr, by rw [htab]⟩
  · refine ⟨(hreplace m (by rw [hm]; rfl)).1, ?_⟩
    have hm' : candidates fs (t.buf.text 0 t.n) = [m] := hm
    rw [htab, hfirst, if_neg (by rw [hm']; simp), hm']
    rfl
  · have hpos : 0 < (candidates fs t.line).length := by omega
    have hhead := head?_drop_candidates hpos
    rw [List.drop_zero] at hhead
    obtain ⟨hline', hr, hle', hkept'⟩ := hreplace _ hhead
    refine ⟨⟨hr, hkept', hle', hpos, ?_⟩, hline'⟩
    have hmany' : 2 ≤ (candidates fs (t.buf.text 0 t.n)).length := hmany
    rw [htab, hfirst, if_neg (fun hnil => by rw [hnil] at hmany'; simp at hmany'), List.drop_zero]
    dsimp only
    rw [if_neg (by omega)]
    rfl

/-- `k` Tabs with several matches: the line, and the match that is selected. -/
theorem tabs_cycling (ht : Ready nbuf t) (hauto : t.auto.active = false)
    (hdir : (dirText (lastWord t.line)).length < DIRBUF) (hmany : 2 ≤ (candidates fs t.line).length)
    (k : ℕ) :
    Cycling nbuf fs t.line (k % (candidates fs t.line).length) (t.tabs nbuf fs (k + 1)) ∧
      (t.tabs nbuf fs (k + 1)).line =
        cycled nbuf (keptPart t.line) t.line (candidates fs t.line) (k + 1) := by
  induction k with
  | zero =>
    obtain ⟨hcyc, hline⟩ := (tab_first ht hauto hdir).2.2 hmany
    rw [Nat.zero_mod]
    refine ⟨hcyc, hline.trans ?_⟩
    rw [cycled, cycled, Nat.zero_mod]
  | succ k ih =>
    obtain ⟨hcyc, hline⟩ := ih
    obtain ⟨hcyc', hline'⟩ := hcyc.tab hmany
    rw [Nat.mod_add_mod] at hcyc' hline'
    refine ⟨hcyc', ?_⟩
    rw [tabs, hline', hline]
    rfl

/-- Without a candidate the line stays. -/
lemma tabs_none (ht : Ready nbuf t) (hauto : t.auto.active = false)
    (hdir : (dirText (lastWord t.line)).length < DIRBUF) (hnone : candidates fs t.line = []) (k : ℕ) :
    (t.tabs nbuf fs k).line = t.line ∧ Ready nbuf (t.tabs nbuf fs k) ∧
      (t.tabs nbuf fs k).auto = t.auto := by
  induction k with
  | zero => exact ⟨rfl, ht, rfl⟩
  | succ k ih =>
    obtain ⟨hline, hready, hauto'⟩ := ih
    obtain ⟨h₁, h₂, h₃⟩ := (tab_first hready (by rw [hauto', hauto]) (by rw [hline]; exact hdir)).1
      (by rw [hline]; exact hnone)
    exact ⟨h₁.trans hline, h₂, h₃.trans hauto'⟩

/-- Each key leaves the line ready for the next one, if the loop goes on. -/
theorem Ready.byte (ht : Ready nbuf t) (c : UInt8) (hgo : (t.byte nbuf c fs).1.n < nbuf) :
    Ready nbuf (t.byte nbuf c fs).1 := by
  by_cases hc : Ordinary c
  · rw [byte_ordinary hc] at hgo ⊢
    refine ⟨hgo, fun i hi hlt => ?_⟩
    dsimp only at hi ⊢
    rw [LineBuf.mem_store_of_ne (by omega)]
    exact ht.zero i (by omega) hlt
  · unfold Typing.byte at hgo ⊢
    split_ifs at hgo ⊢ with h₁ h₂ h₃ h₄
    · exact ⟨ht.room, ht.zero⟩
    · exact (ready_memset _ hgo).1
    · exact (ready_memset _ hgo).1
    · exact ⟨ht.room, ht.zero⟩
    · exact (hc ⟨h₁, h₂, h₃⟩).elim

/-- By induction on the keys. -/
lemma loop_ready (keys : List Key) : ∀ {t : Typing}, (t.n < nbuf → Ready nbuf t) →
    (loop nbuf keys t).2 = none → Ready nbuf (loop nbuf keys t).1 := by
  induction keys with
  | nil =>
    intro t ht hwait
    unfold loop at hwait ⊢
    by_cases hn : nbuf ≤ t.n
    · rw [if_pos hn] at hwait
      cases hwait
    · rw [if_neg hn]
      exact ht (Nat.lt_of_not_le hn)
  | cons key keys ih =>
    intro t ht hwait
    unfold loop at hwait ⊢
    by_cases hn : nbuf ≤ t.n
    · rw [if_pos hn] at hwait
      cases hwait
    · rw [if_neg hn] at hwait ⊢
      cases key with
      | eof => cases hwait
      | byte c fs =>
        dsimp only at hwait ⊢
        cases hend : (t.byte nbuf c fs).2 with
        | true =>
          rw [hend, if_pos rfl] at hwait
          cases hwait
        | false =>
          rw [hend, if_neg Bool.false_ne_true] at hwait
          rw [if_neg Bool.false_ne_true]
          exact ih (fun hlt => (ht (Nat.lt_of_not_le hn)).byte c hlt) hwait

end

end Typing

/-- `getcmd` waits with its line in the buffer. -/
lemma getcmd_ready (nbuf : ℕ) (mem : ℕ → UInt8) (auto : AutoState) (keys : List Key)
    (hwait : (getcmd nbuf mem auto keys).2 = none) : (getcmd nbuf mem auto keys).1.Ready nbuf := by
  refine Typing.loop_ready keys (fun hn => ⟨hn, fun i _ hi => ?_⟩) hwait
  show ((⟨mem, []⟩ : LineBuf).memset 0 nbuf).mem i = 0
  rw [LineBuf.mem_memset, if_pos (by omega)]

/-- A byte that is stored and does not end the line. -/
def Plain (c : UInt8) : Prop := Ordinary c ∧ ¬ (c = chr '\n' ∨ c = chr '\r')

instance (c : UInt8) : Decidable (Plain c) := inferInstanceAs (Decidable (_ ∧ _))

/-- By induction on the letters typed. -/
lemma Typing.loop_plain {nbuf : ℕ} (fs : Dirs) (s : Str) : ∀ {t : Typing}, (∀ c ∈ s, Plain c) →
    t.n + s.length < nbuf → t.auto.active = false →
    ∃ t', loop nbuf (s.map fun c => .byte c fs) t = (t', none) ∧ t'.line = t.line ++ s ∧
      t'.auto.active = false := by
  induction s with
  | nil =>
    intro t _ hlen hauto
    refine ⟨t, ?_, (List.append_nil _).symm, hauto⟩
    rw [List.map_nil, loop, if_neg (by simpa using hlen)]
  | cons c s ih =>
    intro t hs hlen hauto
    obtain ⟨hord, hend⟩ := hs c List.mem_cons_self
    rw [List.length_cons] at hlen
    obtain ⟨t', hloop, hline, hauto'⟩ := ih
      (t := ⟨t.buf.store t.n c, t.n + 1, reset_autocomplete t.auto⟩)
      (fun d hd => hs d (List.mem_cons_of_mem c hd)) (by dsimp only; omega) rfl
    refine ⟨t', ?_, hline.trans ?_, hauto'⟩
    · rw [List.map_cons, loop, if_neg (by omega), byte_ordinary hord]
      dsimp only
      rw [if_neg (by simpa using hend)]
      exact hloop
    · have hfront : (t.buf.store t.n c).text 0 t.n = t.buf.text 0 t.n :=
        LineBuf.text_congr fun i _ hi => LineBuf.mem_store_of_ne (by omega)
      rw [line, LineBuf.text_succ, Nat.zero_add, LineBuf.mem_store_self, hfront, List.append_assoc]
      rfl

/-- Plain bytes come into the line as they are typed. -/
lemma getcmd_plain (nbuf : ℕ) (mem : ℕ → UInt8) (fs : Dirs) {s : Str} (hs : ∀ c ∈ s, Plain c)
    (hlen : s.length < nbuf) : ∃ t, getcmd nbuf mem noCompletion (s.map fun c => .byte c fs) = (t, none) ∧
      t.line = s ∧ t.auto.active = false :=
  Typing.loop_plain fs s hs (by dsimp only [Typing.start]; omega) rfl

/-- Whenever `getcmd` waits for a key and no completion is going on, the Tabs that follow put one match after
the other into the line, each as far as it fits. Without a match the line stays as it is, and with one match
the completion is over with the first Tab. -/
theorem tabs_cycle {nbuf : ℕ} (mem : ℕ → UInt8) (auto : AutoState) (keys : List Key) (fs : Dirs)
    {t : Typing} (hwait : getcmd nbuf mem auto keys = (t, none)) (hauto : t.auto.active = false)
    (hdir : (dirText (lastWord t.line)).length < DIRBUF) :
    (candidates fs t.line = [] → ∀ k, (t.tabs nbuf fs k).line = t.line) ∧
    (∀ m, candidates fs t.line = [m] → (t.tab nbuf fs).line = complete nbuf (keptPart t.line) t.line m ∧
      (t.tab nbuf fs).auto = reset_autocomplete t.auto) ∧
    (2 ≤ (candidates fs t.line).length → ∀ k, (t.tabs nbuf fs k).line =
      cycled nbuf (keptPart t.line) t.line (candidates fs t.line) k) := by
  have ht : t.Ready nbuf := by
    have hready := getcmd_ready nbuf mem auto keys (by rw [hwait])
    rwa [hwait] at hready
  refine ⟨fun hnone k => (Typing.tabs_none ht hauto hdir hnone k).1,
    (Typing.tab_first ht hauto hdir).2.1, fun hmany k => ?_⟩
  cases k with
  | zero => rfl
  | succ k => exact (Typing.tabs_cycling ht hauto hdir hmany k).2

/-- Two files and a directory, which can be found from anywhere. -/
def someDirs : Dirs where
  read dir := if dir = [chr '.'] then some
    [⟨3, "foo".toList.map chr⟩, ⟨0, "fx".toList.map chr⟩, ⟨4, "fd".toList.map chr⟩,
      ⟨5, "bar".toList.map chr⟩] else none
  isDir full := full = "fd".toList.map chr

theorem tabs_cycle_some : ∃ t, getcmd 100 (fun _ => 0) noCompletion
    (("ls f".toList.map chr).map fun c => .byte c someDirs) = (t, none) ∧
    (t.tabs 100 someDirs 2).line = "ls fd/".toList.map chr ∧
    (t.tabs 100 someDirs 3).line = "ls foo".toList.map chr := by
  obtain ⟨t, hwait, hline, hauto⟩ := getcmd_plain 100 (fun _ => 0) someDirs
    (s := "ls f".toList.map chr) (List.all_iff_forall_prop.mp rfl) (by decide)
  have htabs := (tabs_cycle _ _ _ someDirs hwait hauto (by rw [hline]; decide)).2.2
    (by rw [hline]; decide)
  refine ⟨t, hwait, (htabs 2).trans ?_, (htabs 3).trans ?_⟩
  · rw [hline]
    decide
  · rw [hline]
    decide

/-- A line that has no room for its only match. -/
def longArgs : Str := List.replicate 97 (chr 'x') ++ [chr ' ', chr 'b']

/-- A single candidate that does not fit. -/
theorem not_completed_long : ∃ t, getcmd 100 (fun _ => 0) noCompletion
    (longArgs.map fun c => .byte c someDirs) = (t, none) ∧ t.auto.active = false ∧
    candidates someDirs t.line = ["bar".toList.map chr] ∧ t.line.length < 100 ∧
    (t.tab 100 someDirs).line ≠ keptPart t.line ++ "bar".toList.map chr := by
  obtain ⟨t, hwait, hline, hauto⟩ := getcmd_plain 100 (fun _ => 0) someDirs
    (s := longArgs) (List.all_iff_forall_prop.mp rfl) (by decide)
  have hready : t.Ready 100 := by
    have hready := getcmd_ready 100 (fun _ => 0) noCompletion
      (longArgs.map fun c => .byte c someDirs) (by rw [hwait])
    rwa [hwait] at hready
  have hone : candidates someDirs t.line = ["bar".toList.map chr] := by
    rw [hline]
    decide
  refine ⟨t, hwait, hauto, hone, by rw [hline]; decide, ?_⟩
  rw [((Typing.tab_first hready hauto (by rw [hline]; decide)).2.1 _ hone).1, hline]
  decide

end Sh
end OhMyXv6
