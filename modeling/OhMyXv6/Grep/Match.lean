import Mathlib.Computability.Language
import Mathlib.Tactic.Common

/-!
# `grep.c`: the regular expressions

`match`, `matchhere` and `matchstar` test a text against a pattern by backtracking. A pattern is read as
a list of items, and each item has a language; a text fits a pattern if it begins with a word of the
product of these languages. The strings are the bytes in front of the NUL.
-/

namespace OhMyXv6
namespace Grep

open Computability

/-- `'^'`. -/
def CARET : UInt8 := 94
/-- `'.'`. -/
def DOT : UInt8 := 46
/-- `'*'`. -/
def STAR : UInt8 := 42
/-- `'$'`. -/
def DOLLAR : UInt8 := 36

mutual

/-- Search for `re` at the beginning of `text`. -/
def matchhere (re text : List UInt8) : Bool :=
  match re with
  | [] => true
  | [c] =>
    -- `re[1]` is the NUL
    if c = DOLLAR then text = []
    else
      match text with
      | [] => false
      | t :: ts => if c = DOT ∨ c = t then matchhere [] ts else false
  | c :: d :: re =>
    if d = STAR then matchstar c re text
    else
      match text with
      | [] => false
      | t :: ts => if c = DOT ∨ c = t then matchhere (d :: re) ts else false
termination_by (re.length, 0, text.length)

/-- Search for `c*re` at the beginning of `text`. -/
def matchstar (c : UInt8) (re text : List UInt8) : Bool :=
  -- a * matches zero or more instances
  if matchhere re text then true
  else
    match text with
    | [] => false
    | t :: ts => if t = c ∨ c = DOT then matchstar c re ts else false
termination_by (re.length, 1, text.length)

end

/-- `do { .. } while (*text++ != '\0')`. -/
def matchLoop (re text : List UInt8) : Bool :=
  -- must look at empty string
  if matchhere re text then true
  else
    match text with
    | [] => false
    | _ :: ts => matchLoop re ts

/-- `match`. -/
def matchRe (re text : List UInt8) : Bool :=
  match re with
  | [] => matchLoop [] text
  | c :: re => if c = CARET then matchhere re text else matchLoop (c :: re) text

/-! ## What a pattern means -/

/-- A character, or any number of them. -/
inductive Item where
  | one (c : UInt8)
  | star (c : UInt8)
deriving DecidableEq

/-- The items of a pattern; a `$` at its end is not one of them. -/
def items : List UInt8 → List Item
  | [] => []
  | [c] => if c = DOLLAR then [] else [.one c]
  | c :: d :: re => if d = STAR then .star c :: items re else .one c :: items (d :: re)

/-- What a `c` in a pattern stands for. -/
def single (c : UInt8) : Language UInt8 := {w | ∃ t, w = [t] ∧ (c = DOT ∨ c = t)}

/-- What an item of a pattern matches. -/
def Item.language : Item → Language UInt8
  | .one c => single c
  | .star c => (single c)∗

/-- What the items match one after the other. -/
def language (re : List UInt8) : Language UInt8 := ((items re).map Item.language).prod

/-- The text begins with what the items match, and ends there if the pattern ends with `$`. -/
def Fits (re text : List UInt8) : Prop :=
  ∃ w rest, text = w ++ rest ∧ w ∈ language re ∧ (re.getLast? = some DOLLAR → rest = [])

/-- The text has a part that fits the pattern, its beginning if the pattern starts with `^`. -/
def Matches (re text : List UInt8) : Prop :=
  if re.head? = some CARET then Fits re.tail text
  else ∃ before after, text = before ++ after ∧ Fits re after

section
variable {c d t : UInt8} {re text ts w : List UInt8}

/-! ## The languages -/

/-- A starred character matches its repetitions. -/
lemma mem_star : w ∈ (single c)∗ ↔ ∀ t ∈ w, c = DOT ∨ c = t := by
  rw [Language.mem_kstar]
  constructor
  · rintro ⟨L, rfl, hL⟩ t ht
    obtain ⟨y, hy, hty⟩ := List.mem_flatten.mp ht
    obtain ⟨t', rfl, ht'⟩ := hL y hy
    rw [List.mem_singleton.mp hty]
    exact ht'
  · intro hall
    -- each character is a word of its own
    refine ⟨w.map fun t => [t], (List.flatMap_singleton' w).symm, fun y hy => ?_⟩
    obtain ⟨t, ht, rfl⟩ := List.mem_map.mp hy
    exact ⟨t, rfl, hall t ht⟩

lemma language_star : language (c :: STAR :: re) = (single c)∗ * language re := by
  unfold language
  rw [items, if_pos rfl, List.map_cons, List.prod_cons]
  rfl

/-- One character and what follows it. -/
lemma language_one (hd : d ≠ STAR) : language (c :: d :: re) = single c * language (d :: re) := by
  unfold language
  rw [items, if_neg hd, List.map_cons, List.prod_cons]
  rfl

lemma language_last (hc : c ≠ DOLLAR) : language [c] = single c := by
  unfold language
  rw [items, if_neg hc, List.map_singleton, List.prod_singleton]
  rfl

/-! ## Fitting, item by item -/

lemma fits_nil : Fits [] text := ⟨[], text, rfl, rfl, nofun⟩

lemma fits_dollar : Fits [DOLLAR] text ↔ text = [] := by
  constructor
  · rintro ⟨w, rest, rfl, hw, hrest⟩
    have hnil : w = [] := hw
    rw [hnil, hrest rfl, List.append_nil]
  · rintro rfl
    exact ⟨[], [], rfl, rfl, fun _ => rfl⟩

/-- A character is followed by what fits the rest. -/
lemma fits_one_of {re' : List UInt8} (hlang : language (c :: re') = single c * language re')
    (hlast : (c :: re').getLast? = some DOLLAR ↔ re'.getLast? = some DOLLAR) :
    Fits (c :: re') text ↔ ∃ t ts, text = t :: ts ∧ (c = DOT ∨ c = t) ∧ Fits re' ts := by
  unfold Fits
  rw [hlang, hlast]
  constructor
  · rintro ⟨w, rest, rfl, hw, hrest⟩
    obtain ⟨a, ⟨t, rfl, ht⟩, b, hb, rfl⟩ := Language.mem_mul.mp hw
    exact ⟨t, b ++ rest, rfl, ht, b, rest, rfl, hb, hrest⟩
  · rintro ⟨t, ts, rfl, ht, w, rest, rfl, hw, hrest⟩
    exact ⟨t :: w, rest, rfl, Language.mem_mul.mpr ⟨[t], ⟨t, rfl, ht⟩, w, hw, rfl⟩, hrest⟩

lemma fits_one (hd : d ≠ STAR) :
    Fits (c :: d :: re) text ↔ ∃ t ts, text = t :: ts ∧ (c = DOT ∨ c = t) ∧ Fits (d :: re) ts :=
  fits_one_of (language_one hd) (by simp)

/-- The last character of the pattern. -/
lemma fits_last (hc : c ≠ DOLLAR) :
    Fits [c] text ↔ ∃ t ts, text = t :: ts ∧ (c = DOT ∨ c = t) ∧ Fits [] ts := by
  refine fits_one_of ?_ ?_
  · rw [language_last hc]
    exact (mul_one _).symm
  · simp [hc]

/-- Any number of characters is followed by what fits the rest. -/
lemma fits_star : Fits (c :: STAR :: re) text ↔
    ∃ u v, text = u ++ v ∧ (∀ t ∈ u, c = DOT ∨ c = t) ∧ Fits re v := by
  have hlast : (c :: STAR :: re).getLast? = some DOLLAR ↔ re.getLast? = some DOLLAR := by
    cases re with
    | nil => simp [STAR, DOLLAR]
    | cons e re => simp
  unfold Fits
  rw [language_star, hlast]
  constructor
  · rintro ⟨w, rest, rfl, hw, hrest⟩
    obtain ⟨u, hu, b, hb, rfl⟩ := Language.mem_mul.mp hw
    exact ⟨u, b ++ rest, List.append_assoc u b rest, mem_star.mp hu, b, rest, rfl, hb, hrest⟩
  · rintro ⟨u, v, rfl, hu, w, rest, rfl, hw, hrest⟩
    exact ⟨u ++ w, rest, (List.append_assoc u w rest).symm,
      Language.mem_mul.mpr ⟨u, mem_star.mpr hu, w, hw, rfl⟩, hrest⟩

/-! ## The functions -/

/-- The loop of `matchstar` tries one more character each time. -/
lemma matchstar_iff (h : ∀ text, matchhere re text = true ↔ Fits re text) :
    matchstar c re text = true ↔ ∃ u v, text = u ++ v ∧ (∀ t ∈ u, c = DOT ∨ c = t) ∧ Fits re v := by
  induction text with
  | nil =>
    rw [matchstar]
    constructor
    · intro hm
      have hhere : matchhere re [] = true := by
        by_contra hnot
        rw [if_neg hnot] at hm
        cases hm
      exact ⟨[], [], rfl, nofun, (h []).mp hhere⟩
    · rintro ⟨u, v, huv, -, hv⟩
      obtain ⟨rfl, rfl⟩ := List.append_eq_nil_iff.mp huv.symm
      rw [if_pos ((h []).mpr hv)]
  | cons t ts ih =>
    rw [matchstar]
    by_cases hhere : matchhere re (t :: ts) = true
    · rw [if_pos hhere]
      exact iff_of_true rfl ⟨[], t :: ts, rfl, nofun, (h _).mp hhere⟩
    rw [if_neg hhere]
    by_cases ht : t = c ∨ c = DOT
    · rw [if_pos ht, ih]
      constructor
      · rintro ⟨u, v, rfl, hu, hv⟩
        have ht' : c = DOT ∨ c = t := ht.symm.imp_right Eq.symm
        exact ⟨t :: u, v, rfl, List.forall_mem_cons.mpr ⟨ht', hu⟩, hv⟩
      · rintro ⟨u, v, huv, hu, hv⟩
        cases u with
        | nil =>
          -- the rest does not fit here
          rw [List.nil_append] at huv
          rw [← huv] at hv
          exact absurd ((h _).mpr hv) hhere
        | cons t' u =>
          obtain ⟨rfl, rfl⟩ := List.cons.inj huv
          exact ⟨u, v, rfl, (List.forall_mem_cons.mp hu).2, hv⟩
    · rw [if_neg ht]
      refine iff_of_false Bool.false_ne_true ?_
      rintro ⟨u, v, huv, hu, hv⟩
      cases u with
      | nil =>
        rw [List.nil_append] at huv
        rw [← huv] at hv
        exact hhere ((h _).mpr hv)
      | cons t' u =>
        obtain ⟨rfl, rfl⟩ := List.cons.inj huv
        exact ht ((List.forall_mem_cons.mp hu).1.symm.imp_left Eq.symm)

/-- `matchhere` at the last character. -/
lemma matchhere_last (c : UInt8) (text : List UInt8) :
    matchhere [c] text = if c = DOLLAR then decide (text = []) else
      match text with
      | [] => false
      | t :: ts => if c = DOT ∨ c = t then matchhere [] ts else false := by
  rw [matchhere.eq_def]

lemma matchhere_cons (c d : UInt8) (re text : List UInt8) :
    matchhere (c :: d :: re) text = if d = STAR then matchstar c re text else
      match text with
      | [] => false
      | t :: ts => if c = DOT ∨ c = t then matchhere (d :: re) ts else false := by
  rw [matchhere.eq_def]

/-- A character of the pattern is looked for in the text. -/
lemma char_iff {here : List UInt8 → Bool} {P : List UInt8 → Prop} (h : ∀ ts, here ts = true ↔ P ts) :
    (match text with
      | [] => false
      | t :: ts => if c = DOT ∨ c = t then here ts else false) = true ↔
      ∃ t ts, text = t :: ts ∧ (c = DOT ∨ c = t) ∧ P ts := by
  cases text with
  | nil => simp
  | cons t ts =>
    by_cases ht : c = DOT ∨ c = t
    · simp [ht, h]
    · simp [ht]

/-- `matchhere` tells whether the text fits the pattern; the induction is on the items. -/
theorem matchhere_iff (re text : List UInt8) : matchhere re text = true ↔ Fits re text := by
  induction re using items.induct generalizing text with
  | case1 =>
    rw [matchhere]
    exact iff_of_true rfl fits_nil
  | case2 =>
    rw [matchhere_last, if_pos rfl, fits_dollar, decide_eq_true_iff]
  | case3 c hc =>
    have hnil : ∀ ts, matchhere [] ts = true ↔ Fits [] ts := by
      intro ts
      rw [matchhere]
      exact iff_of_true rfl fits_nil
    rw [matchhere_last, if_neg hc, fits_last hc]
    exact char_iff hnil
  | case4 c re ih =>
    rw [matchhere_cons, if_pos rfl, matchstar_iff ih, fits_star]
  | case5 c d re hd ih =>
    rw [matchhere_cons, if_neg hd, fits_one hd]
    exact char_iff ih

lemma matchLoop_iff (re text : List UInt8) :
    matchLoop re text = true ↔ ∃ before after, text = before ++ after ∧ Fits re after := by
  induction text with
  | nil =>
    rw [matchLoop]
    by_cases hhere : matchhere re [] = true
    · rw [if_pos hhere]
      exact iff_of_true rfl ⟨[], [], rfl, (matchhere_iff re []).mp hhere⟩
    · rw [if_neg hhere]
      refine iff_of_false Bool.false_ne_true ?_
      rintro ⟨before, after, hsplit, hafter⟩
      obtain ⟨rfl, rfl⟩ := List.append_eq_nil_iff.mp hsplit.symm
      exact hhere ((matchhere_iff re []).mpr hafter)
  | cons t ts ih =>
    rw [matchLoop]
    by_cases hhere : matchhere re (t :: ts) = true
    · rw [if_pos hhere]
      exact iff_of_true rfl ⟨[], t :: ts, rfl, (matchhere_iff re _).mp hhere⟩
    · rw [if_neg hhere, ih]
      constructor
      · rintro ⟨before, after, rfl, hafter⟩
        exact ⟨t :: before, after, rfl, hafter⟩
      · rintro ⟨before, after, hsplit, hafter⟩
        cases before with
        | nil =>
          -- the text itself does not fit
          rw [List.nil_append] at hsplit
          rw [← hsplit] at hafter
          exact absurd ((matchhere_iff re _).mpr hafter) hhere
        | cons t' before =>
          obtain ⟨rfl, rfl⟩ := List.cons.inj hsplit
          exact ⟨before, after, rfl, hafter⟩

/-- **`match` finds exactly what the pattern means.** -/
theorem matchRe_iff (re text : List UInt8) : matchRe re text = true ↔ Matches re text := by
  unfold Matches matchRe
  cases re with
  | nil => simpa using matchLoop_iff [] text
  | cons c re =>
    dsimp only
    by_cases hc : c = CARET
    · rw [if_pos hc, if_pos (by simpa using hc)]
      exact matchhere_iff re text
    · rw [if_neg hc, if_neg (by simpa using hc)]
      exact matchLoop_iff (c :: re) text

end

end Grep
end OhMyXv6
