import Mathlib.Data.List.TakeWhile
import OhMyXv6.Lib.Decimal

/-!
# `theme.c`: `themeparse`

A theme file is a name and two colours, words with blanks around them. `readword` cuts a word to the
size of its buffer, `atoi` takes the digits that a string begins with, and neither tells when there is
nothing to take: a colour that is missing or no number is 0, and one with eight digits or more loses the
last of them. A colour is out of range only if what is left of it is.
-/

namespace OhMyXv6
namespace Console
namespace ThemeFile

/-- Longest name of a theme, with its zero. -/
def MAX_THEME_NAME : ℕ := 32
/-- Bytes that are read of a theme file. -/
def THEME_FILE_BUF : ℕ := 96

/-- `struct theme`, the name without its NUL. -/
structure Theme where
  name : List UInt8
  fg : Int
  bg : Int

/-- `' '`, `'\n'`, `'\r'` or `'\t'`. -/
def isBlank (c : UInt8) : Bool := c = 32 ∨ c = 10 ∨ c = 13 ∨ c = 9

/-- The second loop of `readword`, with what is in `dst`. -/
def wordLoop (max : ℕ) (dst : List UInt8) : List UInt8 → List UInt8 × List UInt8
  | [] => (dst, [])
  | c :: p =>
    if isBlank c then (dst, c :: p)
    else wordLoop max (if dst.length + 1 < max then dst ++ [c] else dst) p

/-- `readword(p, dst, max)`: what is in `dst`, and the pointer that is returned. -/
def readword (p : List UInt8) (max : ℕ) : List UInt8 × List UInt8 :=
  match p with
  | [] => wordLoop max [] []
  | c :: p => if isBlank c then readword p max else wordLoop max [] (c :: p)

/-- The loop of `atoi`. -/
def atoiLoop (n : Int) : List UInt8 → Int
  | [] => n
  | c :: s => if Decimal.isDigit c then atoiLoop (n * 10 + (c.toNat - 48 : ℤ)) s else n

/-- `atoi` of the C library. -/
def atoi (s : List UInt8) : Int := atoiLoop 0 s

/-- `themeparse`. `fd` tells whether the file can be opened, and `got` is what the read gives: at most
`sizeof(buf) - 1` bytes, or a negative number. -/
def themeparse (fd : Bool) (got : Option (List UInt8)) (theme : Theme) : Int × Theme :=
  if fd = false then (-1, theme)
  else
    match got with
    | none | some [] => (-1, theme)
    | some (b :: bs) =>
      -- `buf[n] = 0`, and the string ends at its first NUL
      let buf := (b :: bs).takeWhile (· ≠ 0)
      let (name, p) := readword buf MAX_THEME_NAME
      let theme := { theme with name := name }
      if name = [] then (-1, theme)
      else
        let (num, p) := readword p 8
        let theme := { theme with fg := atoi num }
        let (num, _) := readword p 8
        let theme := { theme with bg := atoi num }
        if theme.fg < 0 ∨ 15 < theme.fg ∨ theme.bg < 0 ∨ 15 < theme.bg then (-1, theme)
        else (0, theme)

/-! ## What is asked of a theme file -/

/-- A byte of a word. -/
def inWord (c : UInt8) : Bool := !isBlank c

/-- The first word of a text, empty if there is none. -/
def word (t : List UInt8) : List UInt8 := (t.dropWhile isBlank).takeWhile inWord

/-- What follows it. -/
def rest (t : List UInt8) : List UInt8 := (t.dropWhile isBlank).dropWhile inWord

/-- The part of a file that counts. -/
def text (file : List UInt8) : List UInt8 := (file.take (THEME_FILE_BUF - 1)).takeWhile (· ≠ 0)

/-- The first word of the file. -/
def nameWord (file : List UInt8) : List UInt8 := word (text file)
/-- The second word of the file. -/
def fgWord (file : List UInt8) : List UInt8 := word (rest (text file))
/-- The third word of the file. -/
def bgWord (file : List UInt8) : List UInt8 := word (rest (rest (text file)))

/-- A decimal numeral of a value between 0 and 15. -/
def Colour (w : List UInt8) : Prop := Decimal.Numeral w ∧ Decimal.value w ≤ 15

/-- A name, and two colours. -/
def WellFormed (file : List UInt8) : Prop :=
  nameWord file ≠ [] ∧ Colour (fgWord file) ∧ Colour (bgWord file)

/-- The result is that of a parser that validates the file. -/
structure Validates (file : List UInt8) (r : Int × Theme) : Prop where
  ret : r.1 = 0 ↔ WellFormed file
  name : r.1 = 0 → r.2.name = (nameWord file).take (MAX_THEME_NAME - 1)
  fg : r.1 = 0 → r.2.fg = Decimal.value (fgWord file)
  bg : r.1 = 0 → r.2.bg = Decimal.value (bgWord file)

/-- The first seven bytes begin with a number above 15. -/
def Large (w : List UInt8) : Prop := 15 < atoi (w.take 7)

instance (w : List UInt8) : Decidable (Large w) := inferInstanceAs (Decidable (15 < _))

/-- A decimal numeral of which no digit that counts is cut off. -/
def Plain (w : List UInt8) : Prop := Decimal.Numeral w ∧ (w.length ≤ 7 ∨ Decimal.value w = 0)

/-- There is no name, or a colour is too large to be missed, or both are plain numerals. -/
def Handled (file : List UInt8) : Prop :=
  nameWord file = [] ∨ Large (fgWord file) ∨ Large (bgWord file) ∨
    (Plain (fgWord file) ∧ Plain (bgWord file))

section
variable {file w : List UInt8} {theme : Theme}

/-! ## `readword` and `atoi` -/

/-- The bytes of a word, as many as fit. -/
lemma wordLoop_eq {max : ℕ} {dst : List UInt8} (p : List UInt8) (h : dst.length + 1 ≤ max) :
    wordLoop max dst p = ((dst ++ p.takeWhile inWord).take (max - 1),
      p.dropWhile inWord) := by
  induction p generalizing dst with
  | nil =>
    rw [wordLoop, List.takeWhile_nil, List.append_nil, List.take_of_length_le (by omega)]
    rfl
  | cons c p ih =>
    unfold wordLoop
    by_cases hc : isBlank c = true
    · have hnot : ¬ inWord c = true := by simpa [inWord] using hc
      rw [if_pos hc, List.takeWhile_cons_of_neg hnot, List.dropWhile_cons_of_neg hnot, List.append_nil,
        List.take_of_length_le (by omega)]
    · rw [if_neg hc]
      have hnot : inWord c = true := by simpa [inWord] using hc
      rw [List.takeWhile_cons_of_pos hnot, List.dropWhile_cons_of_pos hnot]
      by_cases hroom : dst.length + 1 < max
      · rw [if_pos hroom, ih (by simp; omega), List.append_assoc]
        rfl
      · -- `dst` is full
        rw [if_neg hroom, ih h, List.take_append_of_le_length (by omega),
          List.take_append_of_le_length (by omega)]

lemma readword_eq (p : List UInt8) {max : ℕ} (h : 0 < max) :
    readword p max = ((word p).take (max - 1), rest p) := by
  have hloop : ∀ q, wordLoop max [] q = ((q.takeWhile inWord).take (max - 1),
      q.dropWhile inWord) := fun q => wordLoop_eq q h
  unfold word rest
  induction p with
  | nil => exact hloop []
  | cons c p ih =>
    unfold readword
    by_cases hc : isBlank c = true
    · rw [if_pos hc, ih, List.dropWhile_cons_of_pos hc]
    · rw [if_neg hc, List.dropWhile_cons_of_neg hc]
      exact hloop (c :: p)

/-- `atoi` takes the digits in front. -/
lemma atoi_eq (s : List UInt8) : atoi s = Decimal.value (s.takeWhile Decimal.isDigit) := by
  have hloop : ∀ n : ℕ, atoiLoop n s =
      (((s.takeWhile Decimal.isDigit).foldl (fun n c => n * 10 + Decimal.digit c) n : ℕ) : ℤ) := by
    induction s with
    | nil => exact fun n => rfl
    | cons c s ih =>
      intro n
      unfold atoiLoop
      by_cases hc : Decimal.isDigit c = true
      · have hge : 48 ≤ c.toNat := by
          simp only [Decimal.isDigit, decide_eq_true_eq] at hc
          exact hc.1
        have hnext : (n : ℤ) * 10 + (c.toNat - 48 : ℤ) = ((n * 10 + Decimal.digit c : ℕ) : ℤ) := by
          unfold Decimal.digit
          omega
        rw [if_pos hc, List.takeWhile_cons_of_pos hc, List.foldl_cons, hnext]
        exact ih _
      · rw [if_neg hc, List.takeWhile_cons_of_neg hc]
        rfl
  have hzero := hloop 0
  rwa [Decimal.foldl_eq, Nat.zero_mul, Nat.zero_add] at hzero

lemma atoi_nonneg (s : List UInt8) : 0 ≤ atoi s := by
  rw [atoi_eq]
  exact Int.natCast_nonneg _

/-- On a numeral it does so with all of them. -/
lemma atoi_take (h : Decimal.Numeral w) (n : ℕ) : atoi (w.take n) = Decimal.value (w.take n) := by
  have hall : (w.take n).takeWhile Decimal.isDigit = w.take n :=
    List.takeWhile_eq_self_iff.mpr fun c hc => h.2 c (List.mem_of_mem_take hc)
  rw [atoi_eq, hall]

/-! ## Numerals that are cut -/

/-- Seven digits give no more than all of them. -/
lemma atoi_le_value (h : Decimal.Numeral w) : atoi (w.take 7) ≤ Decimal.value w := by
  rw [atoi_take h]
  have hle := Decimal.value_le_append (w.take 7) (w.drop 7)
  rw [List.take_append_drop] at hle
  exact Int.ofNat_le.mpr hle

lemma Colour.not_large (h : Colour w) : ¬ Large w := by
  have hle := atoi_le_value h.1
  have hval := h.2
  unfold Large
  omega

/-- A plain numeral is read as what it denotes. -/
lemma Plain.atoi_eq (h : Plain w) : atoi (w.take 7) = Decimal.value w := by
  rcases h.2 with hlen | hzero
  · rw [atoi_take h.1, List.take_of_length_le hlen]
  · have hle := atoi_le_value h.1
    have hnonneg := atoi_nonneg (w.take 7)
    rw [hzero] at hle ⊢
    omega

/-- A number without sign or space is a colour if it is not large. -/
lemma Plain.colour_iff (h : Plain w) : Colour w ↔ ¬ Large w := by
  unfold Colour Large
  rw [h.atoi_eq, and_iff_right h.1]
  omega

/-- A colour that is read as what it denotes is a plain numeral. -/
lemma Colour.plain (h : Colour w) (hatoi : atoi (w.take 7) = Decimal.value w) : Plain w := by
  refine ⟨h.1, ?_⟩
  by_contra hnot
  rw [not_or] at hnot
  have hdrop : w.drop 7 ≠ [] := by
    intro hnil
    rw [List.drop_eq_nil_iff] at hnil
    exact hnot.1 hnil
  rw [atoi_take h.1] at hatoi
  have hcut : Decimal.value (w.take 7 ++ w.drop 7) = Decimal.value (w.take 7) := by
    rw [List.take_append_drop]
    exact (Int.ofNat.inj hatoi).symm
  have hzero := Decimal.value_eq_zero hdrop hcut
  rw [List.take_append_drop] at hzero
  exact hnot.2 hzero

/-! ## `themeparse` -/

/-- What `themeparse` asks of a file. -/
def Accepts (file : List UInt8) : Prop :=
  nameWord file ≠ [] ∧ ¬ Large (fgWord file) ∧ ¬ Large (bgWord file)

/-- The read of a file that can be opened. -/
def parse (file : List UInt8) (theme : Theme) : Int × Theme :=
  themeparse true (some (file.take (THEME_FILE_BUF - 1))) theme

/-- What is left of the words. -/
def left (file : List UInt8) : Theme :=
  ⟨(nameWord file).take (MAX_THEME_NAME - 1), atoi ((fgWord file).take 7), atoi ((bgWord file).take 7)⟩

/-- With a name there is something in the file. -/
lemma parse_eq (hname : nameWord file ≠ []) (theme : Theme) : parse file theme =
    (if Large (fgWord file) ∨ Large (bgWord file) then -1 else 0, left file) := by
  have hword : (nameWord file).take (MAX_THEME_NAME - 1) ≠ [] := by
    intro hnil
    rcases List.take_eq_nil_iff.mp hnil with hzero | hempty
    · exact absurd hzero (by decide)
    · exact hname hempty
  cases hread : file.take (THEME_FILE_BUF - 1) with
  | nil =>
    refine absurd ?_ hname
    unfold nameWord text
    rw [hread]
    rfl
  | cons b bs =>
    have htext : (b :: bs).takeWhile (· ≠ 0) = text file := by rw [text, hread]
    have hmax : 0 < MAX_THEME_NAME := by decide
    unfold parse themeparse
    rw [hread, if_neg Bool.noConfusion]
    dsimp only
    rw [htext, readword_eq _ hmax, readword_eq _ (by decide), readword_eq _ (by decide)]
    have hfg := atoi_nonneg ((fgWord file).take 7)
    have hbg := atoi_nonneg ((bgWord file).take 7)
    have hrange : (atoi ((fgWord file).take 7) < 0 ∨ 15 < atoi ((fgWord file).take 7) ∨
        atoi ((bgWord file).take 7) < 0 ∨ 15 < atoi ((bgWord file).take 7)) ↔
        Large (fgWord file) ∨ Large (bgWord file) := by
      unfold Large
      omega
    refine (if_neg hword).trans ?_
    by_cases hlarge : Large (fgWord file) ∨ Large (bgWord file)
    · rw [if_pos hlarge]
      exact if_pos (hrange.mpr hlarge)
    · rw [if_neg hlarge]
      exact if_neg fun hout => hlarge (hrange.mp hout)

lemma parse_of_no_name (hname : nameWord file = []) (theme : Theme) : (parse file theme).1 = -1 := by
  cases hread : file.take (THEME_FILE_BUF - 1) with
  | nil =>
    unfold parse
    rw [hread]
    rfl
  | cons b bs =>
    have htext : (b :: bs).takeWhile (· ≠ 0) = text file := by rw [text, hread]
    have hmax : 0 < MAX_THEME_NAME := by decide
    have hword : word (text file) = [] := hname
    unfold parse themeparse
    rw [hread, if_neg Bool.noConfusion]
    dsimp only
    rw [htext, readword_eq _ hmax, hword, List.take_nil, if_pos rfl]

/-- `parse` returns 0 for the files described. -/
lemma parse_eq_zero_iff (theme : Theme) : (parse file theme).1 = 0 ↔ Accepts file := by
  unfold Accepts
  by_cases hname : nameWord file = []
  · rw [parse_of_no_name hname]
    exact iff_of_false (by decide) fun h => h.1 hname
  · rw [parse_eq hname, and_iff_right hname, ← not_or]
    dsimp only
    split
    · next hlarge => exact iff_of_false (by decide) (not_not.mpr hlarge)
    · next hok => exact iff_of_true rfl hok

/-- **A theme file is validated exactly when it is handled by what `readword` and `atoi` leave of it.** -/
theorem validates_iff (file : List UInt8) (theme : Theme) :
    Validates file (themeparse true (some (file.take (THEME_FILE_BUF - 1))) theme) ↔ Handled file := by
  have hret : (parse file theme).1 = 0 ↔ Accepts file := parse_eq_zero_iff theme
  have hleft : (parse file theme).1 = 0 → (parse file theme).2 = left file := by
    intro hzero
    rw [parse_eq (hret.mp hzero).1]
  constructor
  · intro h
    by_cases haccepts : Accepts file
    · -- then the file is well formed, and the colours are what `atoi` has read
      have hzero := hret.mpr haccepts
      obtain ⟨-, hfg, hbg⟩ := h.ret.mp hzero
      have hfgread : (left file).fg = Decimal.value (fgWord file) := by
        rw [← hleft hzero]
        exact h.fg hzero
      have hbgread : (left file).bg = Decimal.value (bgWord file) := by
        rw [← hleft hzero]
        exact h.bg hzero
      exact .inr (.inr (.inr ⟨hfg.plain hfgread, hbg.plain hbgread⟩))
    · by_contra hnot
      unfold Handled at hnot
      simp only [not_or] at hnot
      exact haccepts ⟨hnot.1, hnot.2.1, hnot.2.2.1⟩
  · intro h
    have hwell : Accepts file ↔ WellFormed file := by
      unfold Accepts WellFormed
      rcases h with hname | hfg | hbg | ⟨hfg, hbg⟩
      · exact iff_of_false (fun h => h.1 hname) fun h => h.1 hname
      · exact iff_of_false (fun h => h.2.1 hfg) fun h => h.2.1.not_large hfg
      · exact iff_of_false (fun h => h.2.2 hbg) fun h => h.2.2.not_large hbg
      · rw [hfg.colour_iff, hbg.colour_iff]
    have hplain : (parse file theme).1 = 0 → Plain (fgWord file) ∧ Plain (bgWord file) := by
      intro hzero
      obtain ⟨hname, hfg, hbg⟩ := hret.mp hzero
      exact ((h.resolve_left hname).resolve_left hfg).resolve_left hbg
    refine ⟨hret.trans hwell, fun hzero => ?_, fun hzero => ?_, fun hzero => ?_⟩
    · exact congrArg Theme.name (hleft hzero)
    · exact (congrArg Theme.fg (hleft hzero)).trans (hplain hzero).1.atoi_eq
    · exact (congrArg Theme.bg (hleft hzero)).trans (hplain hzero).2.atoi_eq

/-- A name and no colours, `x`. -/
def bareFile : List UInt8 := [120]

/-- It is taken for a theme with both colours 0. -/
theorem not_validates_bareFile :
    ¬ Validates bareFile (themeparse true (some (bareFile.take (THEME_FILE_BUF - 1))) ⟨[], 0, 0⟩) := by
  intro h
  have hwell : WellFormed bareFile := h.ret.mp rfl
  exact hwell.2.1.1.1 rfl

end

end ThemeFile
end Console
end OhMyXv6
