import OhMyXv6.Grep.Match
import OhMyXv6.Lib.Lines
import Mathlib.Algebra.GroupWithZero.Nat

/-!
# `grep.c`: the lines of a file

`grep` reads what fits into `buf`, looks at the lines that are complete, and moves the rest to the front
of `buf`. How the reads cut the input should make no difference. It makes one where a read brings no
newline: `p` is still `buf` then, and the part of a line that has been read is forgotten. A NUL in a line
ends the search for its newline.
-/

namespace OhMyXv6
namespace Grep

/-- `'\n'`. -/
def NEWLINE : UInt8 := 10

/-- `strchr(s, c)`: the bytes in front of the first `c` and those behind it, if no NUL comes first. -/
def strchr (c : UInt8) : List UInt8 → Option (List UInt8 × List UInt8)
  | [] => none
  | b :: bs =>
    if b = 0 then none
    else if b = c then some ([], bs)
    else (strchr c bs).map fun q => (b :: q.1, q.2)

/-- `strchr` cuts at the first such byte before any NUL. -/
lemma strchr_eq {c : UInt8} {p line rest : List UInt8} (h : strchr c p = some (line, rest)) :
    p = line ++ c :: rest ∧ c ∉ line ∧ 0 ∉ line := by
  induction p generalizing line with
  | nil => cases h
  | cons b bs ih =>
    unfold strchr at h
    split_ifs at h with hzero hc
    · obtain ⟨rfl, rfl⟩ := Prod.mk.inj (Option.some.inj h)
      exact ⟨by rw [hc, List.nil_append], List.not_mem_nil, List.not_mem_nil⟩
    · obtain ⟨⟨line', rest'⟩, hq, heq⟩ := Option.map_eq_some_iff.mp h
      obtain ⟨rfl, rfl⟩ := Prod.mk.inj heq
      obtain ⟨hbs, hnot, hnul⟩ := ih hq
      refine ⟨by rw [hbs, List.cons_append], ?_, ?_⟩
      · simp [hnot, Ne.symm hc]
      · simp [hnul, Ne.symm hzero]

lemma strchr_lt {c : UInt8} {p line rest : List UInt8} (h : strchr c p = some (line, rest)) :
    rest.length < p.length := by
  rw [(strchr_eq h).1, List.length_append, List.length_cons]
  omega

/-- `while ((q = strchr(p, '\n')) != 0)`: what is written, and `p` at the end. -/
def lineLoop (pattern p : List UInt8) : List (List UInt8) × List UInt8 :=
  match h : strchr NEWLINE p with
  | none => ([], p)
  | some (line, rest) =>
    have := strchr_lt h
    let (out, p) := lineLoop pattern rest
    (if matchRe pattern line then (line ++ [NEWLINE]) :: out else out, p)
termination_by p.length

/-- What is kept of the `m` bytes in `buf`. -/
def keep (pattern buf : List UInt8) : List UInt8 :=
  let p := (lineLoop pattern buf).2
  -- `p == buf`
  if p.length = buf.length then [] else p

/-- The loop over the reads: `buf` has the bytes that were kept, and the reads give `chunks` and then
nothing more. -/
def grepLoop (pattern : List UInt8) : List UInt8 → List (List UInt8) → List (List UInt8)
  | _, [] => []
  | buf, c :: chunks =>
    if c = [] then []
    else
      (lineLoop pattern (buf ++ c)).1 ++ grepLoop pattern (keep pattern (buf ++ c)) chunks

/-- What `grep` writes. -/
def grep (pattern : List UInt8) (chunks : List (List UInt8)) : List (List UInt8) :=
  grepLoop pattern [] chunks

/-- `sizeof(buf)`. -/
def BUFSIZE : ℕ := 1024

/-- Each read gives at least one byte and at most as many as were asked for. -/
def Served (pattern : List UInt8) : List UInt8 → List (List UInt8) → Prop
  | _, [] => True
  | buf, c :: chunks =>
    (0 < c.length ∧ c.length ≤ BUFSIZE - buf.length - 1) ∧
      Served pattern (keep pattern (buf ++ c)) chunks

/-- The lines of an input that end with a newline. -/
def lines (input : List UInt8) : List (List UInt8) := (Lines.split NEWLINE input).1

/-- The lines that match, each with its newline. -/
def select (pattern : List UInt8) (ls : List (List UInt8)) : List (List UInt8) :=
  (ls.filter fun l => matchRe pattern l).map (· ++ [NEWLINE])

section
variable {pattern p buf c : List UInt8} {W : List (List UInt8)} {chunks : List (List UInt8)}

/-! ## The search for lines -/

/-- The lines that the loop looks at, and `p` at the end. -/
def scan (p : List UInt8) : List (List UInt8) × List UInt8 :=
  match h : strchr NEWLINE p with
  | none => ([], p)
  | some (line, rest) =>
    have := strchr_lt h
    (line :: (scan rest).1, (scan rest).2)
termination_by p.length

lemma select_cons (pattern l : List UInt8) (ls : List (List UInt8)) : select pattern (l :: ls) =
    if matchRe pattern l then (l ++ [NEWLINE]) :: select pattern ls else select pattern ls := by
  unfold select
  rw [List.filter_cons]
  split
  · rfl
  · rfl

lemma select_append (pattern : List UInt8) (ls ls' : List (List UInt8)) :
    select pattern (ls ++ ls') = select pattern ls ++ select pattern ls' := by
  unfold select
  rw [List.filter_append, List.map_append]

lemma scan_none (h : strchr NEWLINE p = none) : scan p = ([], p) := by
  rw [scan]
  split
  · rfl
  · next hsome => simp [h] at hsome

lemma scan_some {line rest : List UInt8} (h : strchr NEWLINE p = some (line, rest)) :
    scan p = (line :: (scan rest).1, (scan rest).2) := by
  rw [scan]
  split
  · next hnone => simp [h] at hnone
  · next hsome =>
    obtain ⟨rfl, rfl⟩ := Prod.mk.inj (Option.some.inj (h.symm.trans hsome))
    rfl

/-- What is written does not change where the loop ends. -/
lemma lineLoop_eq (pattern p : List UInt8) :
    lineLoop pattern p = (select pattern (scan p).1, (scan p).2) := by
  induction p using scan.induct with
  | case1 p h =>
    rw [lineLoop, scan_none h]
    split
    · rfl
    · next hsome => simp [h] at hsome
  | case2 p line rest h _ ih =>
    rw [lineLoop, scan_some h, select_cons]
    split
    · next hnone => simp [h] at hnone
    · next hsome =>
      obtain ⟨rfl, rfl⟩ := Prod.mk.inj (Option.some.inj (h.symm.trans hsome))
      simp only [ih]

/-- No line that is looked at has a NUL. -/
lemma scan_no_nul (p : List UInt8) : ∀ l ∈ (scan p).1, 0 ∉ l := by
  induction p using scan.induct with
  | case1 p h =>
    rw [scan_none h]
    nofun
  | case2 p line rest h _ ih =>
    rw [scan_some h]
    exact List.forall_mem_cons.mpr ⟨(strchr_eq h).2.2, ih⟩

/-- Without a newline there is nothing to find. -/
lemma strchr_of_not_mem (h : NEWLINE ∉ p) : strchr NEWLINE p = none := by
  cases hq : strchr NEWLINE p with
  | none => rfl
  | some q =>
    refine absurd ?_ h
    rw [(strchr_eq hq).1]
    simp

/-- A line without NUL ends at its newline. -/
lemma strchr_line {w : List UInt8} (h : NEWLINE ∉ w) (hnul : 0 ∉ w) (p : List UInt8) :
    strchr NEWLINE (w ++ NEWLINE :: p) = some (w, p) := by
  induction w with
  | nil => rfl
  | cons b w ih =>
    simp only [List.mem_cons, not_or] at h hnul
    rw [List.cons_append, strchr, if_neg (Ne.symm hnul.1), if_neg (Ne.symm h.1), ih h.2 hnul.2]
    rfl

/-- Where no line has a NUL, the loop looks at all lines. -/
lemma scan_eq (h : ∀ l ∈ lines p, 0 ∉ l) : scan p = Lines.split NEWLINE p := by
  have hscan : ∀ (W : List (List UInt8)) (r : List UInt8), (∀ w ∈ W, NEWLINE ∉ w) →
      (∀ w ∈ W, 0 ∉ w) → NEWLINE ∉ r → scan (Lines.join NEWLINE W ++ r) = (W, r) := by
    intro W r hW hnul hr
    induction W with
    | nil => exact scan_none (strchr_of_not_mem hr)
    | cons w W ih =>
      obtain ⟨hw, hW⟩ := List.forall_mem_cons.mp hW
      obtain ⟨hwnul, hnul⟩ := List.forall_mem_cons.mp hnul
      have hfirst := strchr_line hw hwnul (Lines.join NEWLINE W ++ r)
      rw [Lines.join_cons, List.append_assoc, List.cons_append, scan_some hfirst, ih hW hnul]
  obtain ⟨hjoin, hlines, hrest⟩ := Lines.join_split NEWLINE p
  conv_lhs => rw [← hjoin]
  exact hscan _ _ hlines h hrest

/-! ## The lines that are looked at -/

/-- What is kept. -/
def kept (buf : List UInt8) : List UInt8 :=
  if (scan buf).2.length = buf.length then [] else (scan buf).2

/-- The lines that `grep` looks at. -/
def looked : List UInt8 → List (List UInt8) → List (List UInt8)
  | _, [] => []
  | buf, c :: chunks => (scan (buf ++ c)).1 ++ looked (kept (buf ++ c)) chunks

/-- What is kept does not depend on the pattern. -/
lemma keep_eq (pattern buf : List UInt8) : keep pattern buf = kept buf := by
  unfold keep kept
  rw [lineLoop_eq]

/-- `grep` writes the lines that it looks at and that match. -/
lemma grepLoop_eq (h : Served pattern buf chunks) :
    grepLoop pattern buf chunks = select pattern (looked buf chunks) := by
  induction chunks generalizing buf with
  | nil => rfl
  | cons c chunks ih =>
    have hne : c ≠ [] := List.length_pos_iff.mp h.1.1
    rw [grepLoop, if_neg hne, ih h.2, lineLoop_eq, keep_eq, looked, select_append]

/-- The empty pattern selects all lines. -/
lemma select_nil (ls : List (List UInt8)) : select [] ls = ls.map (· ++ [NEWLINE]) := by
  have hall : ∀ l, matchRe [] l = true := by
    intro l
    have hhere : matchhere [] l = true := by rw [matchhere]
    cases l <;> simp [matchRe, matchLoop, hhere]
  unfold select
  rw [List.filter_eq_self.mpr fun l _ => hall l]

/-- Every pattern selects the same only from the same lines. -/
lemma forall_select_iff {ls ls' : List (List UInt8)} :
    (∀ pattern, select pattern ls = select pattern ls') ↔ ls = ls' := by
  constructor
  · intro h
    have hnil := h []
    rw [select_nil, select_nil] at hnil
    exact List.map_injective_iff.mpr (fun _ _ heq => List.append_cancel_right heq) hnil
  · rintro rfl pattern
    rfl

/-! ## What a read without a newline costs -/

/-- A read has a newline if one of the later ones does. -/
def Whole (chunks : List (List UInt8)) : Prop := chunks.Pairwise fun c d => NEWLINE ∈ d → NEWLINE ∈ c

/-- The lines have no NUL. -/
def NoNul (input : List UInt8) : Prop := ∀ l ∈ lines input, 0 ∉ l

/-- The bytes of the lines. -/
def size (ls : List (List UInt8)) : ℕ := (ls.map List.length).sum

/-- The bytes of two lists of lines. -/
lemma size_append (ls ls' : List (List UInt8)) : size (ls ++ ls') = size ls + size ls' := by
  unfold size
  rw [List.map_append, List.sum_append]

/-- The lines of two pieces; a line may begin in the first. -/
lemma lines_append (p q : List UInt8) :
    lines (p ++ q) = lines p ++ lines ((Lines.split NEWLINE p).2 ++ q) := by
  unfold lines
  rw [Lines.split_append]

/-- In front of the first newline. -/
lemma lines_append_left {r : List UInt8} (h : NEWLINE ∉ r) (q : List UInt8) : lines (r ++ q) =
    match lines q with
    | [] => []
    | w :: W => (r ++ w) :: W := by
  unfold lines
  rw [Lines.split_append_left h]
  rcases Lines.split NEWLINE q with ⟨_ | ⟨w, W⟩, r'⟩
  · rfl
  · rfl

/-- The first piece has no NUL either. -/
lemma NoNul.left {p q : List UInt8} (h : NoNul (p ++ q)) : NoNul p := by
  intro l hl
  refine h l ?_
  rw [lines_append]
  exact List.mem_append_left _ hl

/-- The rest of a line has no NUL either. -/
lemma NoNul.right {r q : List UInt8} (h : NoNul (r ++ q)) (hr : NEWLINE ∉ r) : NoNul q := by
  intro l hl
  unfold NoNul at h
  rw [lines_append_left hr] at h
  cases hq : lines q with
  | nil => simp [hq] at hl
  | cons w W =>
    rw [hq] at h hl
    obtain ⟨hfirst, hrest⟩ := List.forall_mem_cons.mp h
    rcases List.mem_cons.mp hl with rfl | hmem
    · exact fun hnul => hfirst (List.mem_append_right r hnul)
    · exact hrest l hmem

/-- Without a newline there is no line. -/
lemma lines_eq_nil_iff : lines p = [] ↔ NEWLINE ∉ p := Lines.split_eq_nil_iff

/-- What is kept when no line has a NUL. -/
lemma kept_eq (h : NoNul p) : kept p = if NEWLINE ∈ p then (Lines.split NEWLINE p).2 else [] := by
  unfold kept
  rw [scan_eq h]
  by_cases hp : NEWLINE ∈ p
  · have hne : lines p ≠ [] := fun hnil => lines_eq_nil_iff.mp hnil hp
    obtain ⟨w, W, hW⟩ := List.exists_cons_of_ne_nil hne
    have hjoin := congrArg List.length (Lines.join_split NEWLINE p).1
    have hfirst : (Lines.split NEWLINE p).1 = w :: W := hW
    rw [hfirst, Lines.join_cons] at hjoin
    simp only [List.length_append, List.length_cons] at hjoin
    rw [if_neg (by omega), if_pos hp]
  · rw [Lines.split_of_not_mem hp, if_pos rfl, if_neg hp]

/-- A read with a newline: the lines are looked at, and the rest is kept. -/
theorem looked_of_mem (h : NoNul (buf ++ (c :: chunks).flatten)) (hc : NEWLINE ∈ c) :
    ∃ r, NEWLINE ∉ r ∧ NoNul (r ++ chunks.flatten) ∧
      looked buf (c :: chunks) = lines (buf ++ c) ++ looked r chunks ∧
      lines (buf ++ (c :: chunks).flatten) = lines (buf ++ c) ++ lines (r ++ chunks.flatten) := by
  have hsplit : buf ++ (c :: chunks).flatten = (buf ++ c) ++ chunks.flatten := by simp
  rw [hsplit] at h ⊢
  have hlines := lines_append (buf ++ c) chunks.flatten
  refine ⟨(Lines.split NEWLINE (buf ++ c)).2, (Lines.join_split NEWLINE (buf ++ c)).2.2, ?_, ?_, hlines⟩
  · intro l hl
    refine h l ?_
    rw [hlines]
    exact List.mem_append_right _ hl
  · rw [looked, kept_eq h.left, if_pos (List.mem_append_right buf hc), scan_eq h.left]
    rfl

/-- A read without one: what has been read of the line is forgotten. -/
theorem looked_of_not_mem (h : NoNul (buf ++ (c :: chunks).flatten)) (hbuf : NEWLINE ∉ buf)
    (hc : NEWLINE ∉ c) :
    NoNul chunks.flatten ∧ looked buf (c :: chunks) = looked [] chunks ∧
      lines (buf ++ (c :: chunks).flatten) = match lines chunks.flatten with
        | [] => []
        | w :: W => (buf ++ c ++ w) :: W := by
  have hsplit : buf ++ (c :: chunks).flatten = (buf ++ c) ++ chunks.flatten := by simp
  rw [hsplit] at h ⊢
  have hnone : NEWLINE ∉ buf ++ c := by simp [hbuf, hc]
  refine ⟨h.right hnone, ?_, lines_append_left hnone _⟩
  rw [looked, kept_eq h.left, if_neg hnone, scan_eq h.left, Lines.split_of_not_mem hnone]
  rfl

/-- No more is looked at than there is. -/
lemma size_looked_le (h : NoNul (buf ++ chunks.flatten)) (hbuf : NEWLINE ∉ buf) :
    size (looked buf chunks) ≤ size (lines (buf ++ chunks.flatten)) := by
  induction chunks generalizing buf with
  | nil => exact Nat.zero_le _
  | cons c chunks ih =>
    by_cases hc : NEWLINE ∈ c
    · obtain ⟨r, hr, hnul, hlooked, hlines⟩ := looked_of_mem h hc
      have hrest := ih hnul hr
      rw [hlooked, hlines, size_append, size_append]
      omega
    · obtain ⟨hnul, hlooked, hlines⟩ := looked_of_not_mem h hbuf hc
      have hrest : size (looked [] chunks) ≤ size (lines chunks.flatten) := ih hnul List.not_mem_nil
      rw [hlooked, hlines]
      cases hF : lines chunks.flatten with
      | nil => rwa [hF] at hrest
      | cons w W =>
        rw [hF] at hrest
        simp only [size, List.map_cons, List.sum_cons, List.length_append] at hrest ⊢
        omega

/-- A line that is cut by a read without a newline is missed. -/
lemma size_looked_lt (h : NoNul (buf ++ chunks.flatten)) (hbuf : NEWLINE ∉ buf)
    (hne : ∀ c ∈ chunks, c ≠ []) (hcut : ¬ Whole chunks) :
    size (looked buf chunks) < size (lines (buf ++ chunks.flatten)) := by
  induction chunks generalizing buf with
  | nil => exact absurd List.Pairwise.nil hcut
  | cons c chunks ih =>
    obtain ⟨hcne, hne⟩ := List.forall_mem_cons.mp hne
    by_cases hc : NEWLINE ∈ c
    · obtain ⟨r, hr, hnul, hlooked, hlines⟩ := looked_of_mem h hc
      have hlater : ¬ Whole chunks := fun hw => hcut (List.pairwise_cons.mpr ⟨fun _ _ _ => hc, hw⟩)
      have hrest := ih hnul hr hne hlater
      rw [hlooked, hlines, size_append, size_append]
      omega
    · obtain ⟨hnul, hlooked, hlines⟩ := looked_of_not_mem h hbuf hc
      have hrest : size (looked [] chunks) ≤ size (lines chunks.flatten) :=
        size_looked_le hnul List.not_mem_nil
      have hpos : 0 < c.length := List.length_pos_iff.mpr hcne
      rw [hlooked, hlines]
      cases hF : lines chunks.flatten with
      | nil =>
        -- no later read has a newline, so this is no cut
        have hnone := lines_eq_nil_iff.mp hF
        have hlater : ∀ d ∈ chunks, NEWLINE ∉ d := fun d hd hmem =>
          hnone (List.mem_flatten_of_mem hd hmem)
        refine absurd (List.pairwise_cons.mpr ⟨fun d hd hmem => absurd hmem (hlater d hd), ?_⟩) hcut
        exact List.pairwise_of_forall_mem_list fun _ _ d hd hmem => absurd hmem (hlater d hd)
      | cons w W =>
        rw [hF] at hrest
        simp only [size, List.map_cons, List.sum_cons, List.length_append] at hrest ⊢
        omega

/-- Otherwise all lines are looked at. -/
lemma looked_eq (h : NoNul (buf ++ chunks.flatten)) (hbuf : NEWLINE ∉ buf) (hwhole : Whole chunks) :
    looked buf chunks = lines (buf ++ chunks.flatten) := by
  induction chunks generalizing buf with
  | nil =>
    rw [List.flatten_nil, List.append_nil, lines_eq_nil_iff.mpr hbuf]
    rfl
  | cons c chunks ih =>
    obtain ⟨hfirst, hlater⟩ := List.pairwise_cons.mp hwhole
    by_cases hc : NEWLINE ∈ c
    · obtain ⟨r, hr, hnul, hlooked, hlines⟩ := looked_of_mem h hc
      rw [hlooked, hlines, ih hnul hr hlater]
    · obtain ⟨hnul, hlooked, hlines⟩ := looked_of_not_mem h hbuf hc
      have hnone : lines chunks.flatten = [] := by
        rw [lines_eq_nil_iff]
        intro hmem
        obtain ⟨d, hd, hin⟩ := List.mem_flatten.mp hmem
        exact hc (hfirst d hd hin)
      have hrest : looked [] chunks = lines chunks.flatten := ih hnul List.not_mem_nil hlater
      rw [hlooked, hlines, hrest, hnone]

/-- No line that is looked at has a NUL. -/
lemma looked_no_nul (buf : List UInt8) (chunks : List (List UInt8)) :
    ∀ l ∈ looked buf chunks, 0 ∉ l := by
  induction chunks generalizing buf with
  | nil => nofun
  | cons c chunks ih =>
    intro l hl
    rcases List.mem_append.mp hl with hnow | hlater
    · exact scan_no_nul _ l hnow
    · exact ih _ l hlater

lemma Served.ne_nil (h : Served pattern buf chunks) : ∀ c ∈ chunks, c ≠ [] := by
  induction chunks generalizing buf with
  | nil => nofun
  | cons c chunks ih => exact List.forall_mem_cons.mpr ⟨List.length_pos_iff.mp h.1.1, ih h.2⟩

/-- **The reads make no difference exactly when none of them loses the beginning of a line.** -/
theorem grep_eq_iff (h : ∀ pattern, Served pattern [] chunks) :
    (∀ pattern, grep pattern chunks = select pattern (lines chunks.flatten)) ↔
      NoNul chunks.flatten ∧ Whole chunks := by
  have hgrep : ∀ pattern, grep pattern chunks = select pattern (looked [] chunks) :=
    fun pattern => grepLoop_eq (h pattern)
  simp only [hgrep]
  rw [forall_select_iff]
  constructor
  · intro heq
    have hnul : NoNul chunks.flatten := by
      unfold NoNul
      rw [← heq]
      exact looked_no_nul [] chunks
    refine ⟨hnul, ?_⟩
    by_contra hcut
    have hlt : size (looked [] chunks) < size (lines chunks.flatten) :=
      size_looked_lt hnul List.not_mem_nil (h []).ne_nil hcut
    rw [heq] at hlt
    exact Nat.lt_irrefl _ hlt
  · rintro ⟨hnul, hwhole⟩
    exact looked_eq hnul List.not_mem_nil hwhole

/-- The second read begins inside a line. -/
def cutChunks : List (List UInt8) := [[97, 10, 98], [99, 10]]

/-- The cut falls behind a newline. -/
lemma keep_cutChunks (pattern : List UInt8) : keep pattern [97, 10, 98] = [98] := by
  have hfirst : strchr NEWLINE [97, 10, 98] = some ([97], [98]) := rfl
  have hsecond : strchr NEWLINE [98] = none := rfl
  rw [keep_eq, kept, scan_some hfirst, scan_none hsecond]
  rfl

theorem grep_eq_iff_cutChunks : (∀ pattern, Served pattern [] cutChunks) ∧
    ∀ pattern, grep pattern cutChunks = select pattern (lines cutChunks.flatten) := by
  have hserved : ∀ pattern, Served pattern [] cutChunks := by
    intro pattern
    refine ⟨by decide, ?_⟩
    rw [List.nil_append, keep_cutChunks]
    exact ⟨by decide, trivial⟩
  have hlines : lines cutChunks.flatten = [[97], [98, 99]] := by decide
  have hwhole : Whole cutChunks := by
    unfold Whole
    decide
  refine ⟨hserved, (grep_eq_iff hserved).mpr ⟨?_, hwhole⟩⟩
  unfold NoNul
  rw [hlines]
  decide

/-- The first read brings no newline. -/
def lostChunks : List (List UInt8) := [[97], [98, 10]]

/-- The line is `ab`, and `grep` writes `b`. -/
theorem grep_ne_lostChunks : Served [] [] lostChunks ∧
    grep [] lostChunks ≠ select [] (lines lostChunks.flatten) := by
  have hfirst : strchr NEWLINE [97] = none := rfl
  have hserved : Served [] [] lostChunks := by
    refine ⟨by decide, ?_⟩
    rw [List.nil_append, keep_eq, kept, scan_none hfirst]
    exact ⟨by decide, trivial⟩
  have hline : strchr NEWLINE [98, 10] = some ([98], []) := rfl
  have hend : strchr NEWLINE [] = none := rfl
  have hlooked : looked [] lostChunks = [[98]] := by
    simp [lostChunks, looked, kept, scan_none hfirst, scan_some hline, scan_none hend]
  refine ⟨hserved, ?_⟩
  rw [grep, grepLoop_eq hserved, hlooked, select_nil, select_nil]
  decide

end

end Grep
end OhMyXv6
