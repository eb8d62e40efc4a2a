import OhMyXv6.Shell.JumpIndex

/-!
# Where `init_jump_table` stores its bytes

The names and paths are read into arrays of 32 and 64 bytes, and their length is not looked at. All stores
are inside of the arrays exactly if the fields of the first 50 records are shorter than that.

What a store outside of its array changes is not modelled: the stores behind it are those of a table that
has room for them.
-/

namespace OhMyXv6
namespace Sh

open Console

/-- The arrays of an entry. -/
inductive JumpField where
  | name
  | path
  deriving DecidableEq, Repr

/-- `char name[32]; char path[64];`. -/
def JumpField.size : JumpField → ℕ
  | name => 32
  | path => 64

/-- `jump_table[entry].field[index] = byte`. -/
structure JumpStore where
  entry : ℕ
  field : JumpField
  index : ℕ
  byte : UInt8
  deriving DecidableEq, Repr

/-- The store is inside of the array. -/
def JumpStore.InBounds (s : JumpStore) : Prop :=
  s.entry < MAX_JUMP_ENTRIES ∧ s.index < s.field.size

instance (s : JumpStore) : Decidable s.InBounds := inferInstanceAs (Decidable (_ ∧ _))

/-- The memory of the table. -/
abbrev JumpTable := ℕ → JumpField → ℕ → UInt8

/-- The table after a store. -/
def JumpTable.store (m : JumpTable) (s : JumpStore) : JumpTable := fun e f i =>
  if e = s.entry ∧ f = s.field ∧ i = s.index then s.byte else m e f i

/-- What a loop of `init_jump_table` has stored, and the values of `i` and `c` and the rest of the file
then. -/
structure FieldRead where
  stores : List JumpStore
  i : ℕ
  c : UInt8
  rest : List UInt8

/-- `while (!stop(c)) { jump_table[entry].field[i++] = c; if (read(fd, &c, 1) <= 0) break; }`. -/
def fieldLoop (stop : UInt8 → Bool) (entry : ℕ) (field : JumpField) (i : ℕ) (c : UInt8) :
    List UInt8 → FieldRead
  | [] => if stop c then ⟨[], i, c, []⟩ else ⟨[⟨entry, field, i, c⟩], i + 1, c, []⟩
  | c' :: l =>
    -- the byte that ends the field is not stored
    if stop c then ⟨[], i, c, c' :: l⟩
    else
      let x := fieldLoop stop entry field (i + 1) c' l
      { x with stores := ⟨entry, field, i, c⟩ :: x.stores }

/-- The field with the NUL behind it. -/
def FieldRead.all (x : FieldRead) (entry : ℕ) (field : JumpField) : List JumpStore :=
  x.stores ++ [⟨entry, field, x.i, 0⟩]

/-- A byte that ends a name. -/
def nameEnd (c : UInt8) : Bool := c = chr ' ' ∨ c = chr '\n'

/-- A byte that ends a path. -/
def pathEnd (c : UInt8) : Bool := c = chr '\n' ∨ c = chr '\r'

/-- The loop of `init_jump_table`, with room for `n` entries: what is stored, and `jump_count` at its
end. -/
def jumpLoop : ℕ → ℕ → List UInt8 → List JumpStore × ℕ
  | 0, jump_count, _ => ([], jump_count)
  | _ + 1, jump_count, [] => ([], jump_count)
  | n + 1, jump_count, c :: l =>
    let x := fieldLoop nameEnd jump_count .name 0 c l
    let y := skipSpace x.c x.rest
    let z := fieldLoop pathEnd jump_count .path 0 y.1 y.2
    let r := jumpLoop n (jump_count + 1) z.rest
    (x.all jump_count .name ++ z.all jump_count .path ++ r.1, r.2)

/-- What `init_jump_table` stores, and `jump_count`. -/
def jumpStores (content : List UInt8) : List JumpStore × ℕ := jumpLoop MAX_JUMP_ENTRIES 0 content

/-- Each store is inside of its array, and then there is a NUL in each array that has been filled. -/
structure JumpSafe (content : List UInt8) : Prop where
  bounds : ∀ s ∈ (jumpStores content).1, s.InBounds
  terminated : ∀ (m : JumpTable), ∀ e < (jumpStores content).2, ∀ f : JumpField,
    ∃ i < f.size, (jumpStores content).1.foldl JumpTable.store m e f i = 0

/-! ## The records of the file -/

/-- The first record: its name and its path, and what comes behind it. A name ends at a space or a newline,
and a path behind a space at a newline or a carriage return. -/
def jumpRecord (l : List UInt8) : (List UInt8 × List UInt8) × List UInt8 :=
  let name := l.takeWhile (fun c => !nameEnd c)
  match l.dropWhile (fun c => !nameEnd c) with
  | [] => ((name, []), [])
  | d :: r =>
    if d = chr '\n' then ((name, []), r)
    else ((name, r.takeWhile (fun c => !pathEnd c)), (r.dropWhile (fun c => !pathEnd c)).tail)

/-- The first `n` records. -/
def jumpRecords : ℕ → List UInt8 → List (List UInt8 × List UInt8)
  | 0, _ => []
  | _ + 1, [] => []
  | n + 1, c :: l => (jumpRecord (c :: l)).1 :: jumpRecords n (jumpRecord (c :: l)).2

/-- The fields of the records that are read are shorter than the arrays. -/
def RecordsFit (content : List UInt8) : Prop :=
  ∀ r ∈ jumpRecords MAX_JUMP_ENTRIES content, r.1.length < 32 ∧ r.2.length < 64

instance (content : List UInt8) : Decidable (RecordsFit content) :=
  inferInstanceAs (Decidable (∀ r ∈ _, _))

section
variable {stop : UInt8 → Bool}

/-- A field is what comes before its separator. -/
lemma token_fst (stop : UInt8 → Bool) (l : List UInt8) : ∀ c,
    (token stop c l).1 = (c :: l).takeWhile (fun c => !stop c) := by
  induction l with
  | nil =>
    intro c
    cases hc : stop c <;> simp [token, hc]
  | cons c' l ih =>
    intro c
    cases hc : stop c with
    | true => simp [token, hc]
    | false =>
      rw [List.takeWhile_cons_of_pos (by simp [hc]), ← ih c']
      simp [token, hc]

/-- If there is a byte at which `stop` says so, the loop ends there. -/
theorem token_snd {d : UInt8} {r l : List UInt8} : ∀ {c},
    (c :: l).dropWhile (fun c => !stop c) = d :: r → (token stop c l).2 = (d, r) := by
  induction l with
  | nil =>
    intro c h
    cases hc : stop c with
    | true =>
      rw [List.dropWhile_cons_of_neg (by simp [hc])] at h
      cases h
      simp [token, hc]
    | false =>
      rw [List.dropWhile_cons_of_pos (by simp [hc])] at h
      cases h
  | cons c' l ih =>
    intro c h
    cases hc : stop c with
    | true =>
      rw [List.dropWhile_cons_of_neg (by simp [hc])] at h
      cases h
      simp [token, hc]
    | false =>
      rw [List.dropWhile_cons_of_pos (by simp [hc])] at h
      simpa [token, hc] using ih h

/-- Otherwise it ends at the end of the file. -/
lemma token_end {l : List UInt8} : ∀ {c},
    (c :: l).dropWhile (fun c => !stop c) = [] → (token stop c l).2.2 = [] := by
  induction l with
  | nil =>
    intro c _
    cases hc : stop c <;> simp [token, hc]
  | cons c' l ih =>
    intro c h
    cases hc : stop c with
    | true =>
      rw [List.dropWhile_cons_of_neg (by simp [hc])] at h
      cases h
    | false =>
      rw [List.dropWhile_cons_of_pos (by simp [hc])] at h
      simpa [token, hc] using ih h

/-- At the end of the file one byte is left. -/
lemma length_token_nil (stop : UInt8 → Bool) (c : UInt8) : (token stop c []).1.length ≤ 1 := by
  unfold token
  split_ifs <;> simp

lemma token_nil_rest (stop : UInt8 → Bool) (c : UInt8) : (token stop c []).2.2 = [] := by
  unfold token
  split_ifs <;> rfl

/-- An entry is a record of the file. Behind a name without a path there is a byte less to see, and the loop
may store the last byte once more. -/
theorem readEntry_eq (c : UInt8) (l : List UInt8) :
    (readEntry c l).1 = (jumpRecord (c :: l)).1.1 ∧
      ((readEntry c l).2.1 = (jumpRecord (c :: l)).1.2 ∨
        (readEntry c l).2.1.length ≤ 1 ∧ (jumpRecord (c :: l)).1.2 = []) ∧
      (readEntry c l).2.2 = (jumpRecord (c :: l)).2 := by
  let y := skipSpace (token nameEnd c l).2.1 (token nameEnd c l).2.2
  have hentry : readEntry c l =
      ((token nameEnd c l).1, (token pathEnd y.1 y.2).1, (token pathEnd y.1 y.2).2.2) := rfl
  have hname := token_fst nameEnd l c
  rw [hentry]
  unfold jumpRecord
  cases hdrop : (c :: l).dropWhile (fun c => !nameEnd c) with
  | nil =>
    -- the file ends in the name
    have hy : y.2 = [] := by
      show (skipSpace _ _).2 = []
      rw [token_end hdrop]
      rfl
    rw [hy]
    exact ⟨hname, .inr ⟨length_token_nil _ _, rfl⟩, token_nil_rest pathEnd y.1⟩
  | cons d r =>
    have hd : nameEnd d = true := by
      have hnot := List.head?_dropWhile_not (fun c => !nameEnd c) (c :: l)
      rw [hdrop] at hnot
      simpa using hnot
    have hy : y = skipSpace d r := by
      show skipSpace (token nameEnd c l).2.1 (token nameEnd c l).2.2 = _
      rw [token_snd hdrop]
    dsimp only
    by_cases hnl : d = chr '\n'
    · -- there is no path
      subst hnl
      have hy : y = (chr '\n', r) := by
        rw [hy]
        cases r with
        | nil => rfl
        | cons c' r => rw [skipSpace, if_neg (by decide)]
      have htoken : token pathEnd (chr '\n') r = ([], chr '\n', r) := by
        cases r with
        | nil => rfl
        | cons c' r => rfl
      rw [if_pos rfl, hy, htoken]
      exact ⟨hname, .inl rfl, rfl⟩
    · have hspace : d = chr ' ' := by
        simpa [nameEnd, hnl] using hd
      subst hspace
      rw [if_neg hnl, hy]
      cases r with
      | nil => exact ⟨hname, .inr ⟨length_token_nil _ _, rfl⟩, token_nil_rest pathEnd _⟩
      | cons c' r =>
        have hskip : skipSpace (chr ' ') (c' :: r) = (c', r) := by rw [skipSpace, if_pos rfl]
        rw [hskip]
        refine ⟨hname, .inl (token_fst pathEnd r c'), ?_⟩
        show (token pathEnd c' r).2.2 = ((c' :: r).dropWhile fun c => !pathEnd c).tail
        cases hpath : (c' :: r).dropWhile (fun c => !pathEnd c) with
        | nil => exact token_end hpath
        | cons d' r' => rw [token_snd hpath]; rfl

end

/-! ## The stores -/

section
variable {stop : UInt8 → Bool} {entry : ℕ} {field : JumpField}

lemma fieldLoop_eq (l : List UInt8) : ∀ i c,
    (fieldLoop stop entry field i c l).i = i + (token stop c l).1.length ∧
      (fieldLoop stop entry field i c l).c = (token stop c l).2.1 ∧
      (fieldLoop stop entry field i c l).rest = (token stop c l).2.2 := by
  induction l with
  | nil =>
    intro i c
    cases hc : stop c <;> simp [token, fieldLoop, hc]
  | cons c' l ih =>
    intro i c
    cases hc : stop c with
    | true => simp [token, fieldLoop, hc]
    | false =>
      obtain ⟨hi, hc', hrest⟩ := ih (i + 1) c'
      simp only [token, fieldLoop, hc, Bool.false_eq_true, if_false, List.length_cons]
      exact ⟨by omega, hc', hrest⟩

/-- The loop stores at the places in front of `i`. -/
lemma fieldLoop_stores (l : List UInt8) : ∀ i c, ∀ s ∈ (fieldLoop stop entry field i c l).stores,
    s.entry = entry ∧ s.field = field ∧ s.index < (fieldLoop stop entry field i c l).i := by
  induction l with
  | nil =>
    intro i c s hs
    cases hc : stop c with
    | true => simp [fieldLoop, hc] at hs
    | false =>
      simp only [fieldLoop, hc, Bool.false_eq_true, if_false, List.mem_singleton] at hs ⊢
      subst hs
      exact ⟨rfl, rfl, Nat.lt_succ_self i⟩
  | cons c' l ih =>
    intro i c s hs
    cases hc : stop c with
    | true => simp [fieldLoop, hc] at hs
    | false =>
      simp only [fieldLoop, hc, Bool.false_eq_true, if_false, List.mem_cons] at hs ⊢
      rcases hs with rfl | hs
      · refine ⟨rfl, rfl, ?_⟩
        rw [(fieldLoop_eq l (i + 1) c').1]
        dsimp only
        omega
      · exact ih (i + 1) c' s hs

/-- All of a field is inside of its array if it is shorter than that. -/
theorem all_inBounds_iff (he : entry < MAX_JUMP_ENTRIES) (c : UInt8) (l : List UInt8) :
    (∀ s ∈ (fieldLoop stop entry field 0 c l).all entry field, s.InBounds) ↔
      (token stop c l).1.length < field.size := by
  have hi := (@fieldLoop_eq stop entry field l 0 c).1
  rw [Nat.zero_add] at hi
  constructor
  · intro h
    have hnul := h ⟨entry, field, _, 0⟩ (List.mem_append_right _ (List.mem_singleton_self _))
    exact hi ▸ hnul.2
  · intro h s hs
    rcases List.mem_append.mp hs with hs | hs
    · obtain ⟨rfl, rfl, hlt⟩ := fieldLoop_stores l 0 c s hs
      exact ⟨he, by omega⟩
    · rw [List.mem_singleton.mp hs]
      exact ⟨he, by dsimp only; omega⟩

lemma jumpRecords_cons (n : ℕ) (c : UInt8) (l : List UInt8) :
    jumpRecords (n + 1) (c :: l) =
      (jumpRecord (c :: l)).1 :: jumpRecords n (jumpRecord (c :: l)).2 := rfl

/-- One round of the loop. -/
lemma jumpLoop_cons (n e : ℕ) (c : UInt8) (l : List UInt8) :
    ∃ c' l', (token pathEnd c' l').1.length = (readEntry c l).2.1.length ∧
      jumpLoop (n + 1) e (c :: l) =
        ((fieldLoop nameEnd e .name 0 c l).all e .name ++
          (fieldLoop pathEnd e .path 0 c' l').all e .path ++
            (jumpLoop n (e + 1) (jumpRecord (c :: l)).2).1,
          (jumpLoop n (e + 1) (jumpRecord (c :: l)).2).2) := by
  let x := fieldLoop nameEnd e .name 0 c l
  let y := skipSpace x.c x.rest
  obtain ⟨-, hc, hrest⟩ := @fieldLoop_eq nameEnd e .name l 0 c
  have hy : y = skipSpace (token nameEnd c l).2.1 (token nameEnd c l).2.2 := by
    show skipSpace (fieldLoop nameEnd e .name 0 c l).c (fieldLoop nameEnd e .name 0 c l).rest = _
    rw [hc, hrest]
  have hentry : readEntry c l =
      ((token nameEnd c l).1, (token pathEnd y.1 y.2).1, (token pathEnd y.1 y.2).2.2) := by
    rw [hy]
    rfl
  have hnext : (fieldLoop pathEnd e .path 0 y.1 y.2).rest = (jumpRecord (c :: l)).2 := by
    rw [(fieldLoop_eq y.2 0 y.1).2.2, ← (readEntry_eq c l).2.2, hentry]
  refine ⟨y.1, y.2, by rw [hentry], ?_⟩
  rw [← hnext]
  rfl

/-- A record of the file fits if its entry does. -/
lemma record_fits_iff (c : UInt8) (l : List UInt8) :
    ((jumpRecord (c :: l)).1.1.length < 32 ∧ (jumpRecord (c :: l)).1.2.length < 64) ↔
      ((readEntry c l).1.length < 32 ∧ (readEntry c l).2.1.length < 64) := by
  obtain ⟨hname, hpath, -⟩ := readEntry_eq c l
  rw [hname]
  rcases hpath with hpath | ⟨hle, hnil⟩
  · rw [hpath]
  · rw [hnil, List.length_nil]
    omega

/-- By induction on the records: each fits into its entry. -/
lemma jumpLoop_bounds_iff (n : ℕ) : ∀ e l, e + n ≤ MAX_JUMP_ENTRIES →
    ((∀ s ∈ (jumpLoop n e l).1, s.InBounds) ↔
      ∀ r ∈ jumpRecords n l, r.1.length < 32 ∧ r.2.length < 64) := by
  induction n with
  | zero =>
    intro e l _
    simp [jumpLoop, jumpRecords]
  | succ n ih =>
    intro e l he
    cases l with
    | nil => simp [jumpLoop, jumpRecords]
    | cons c l =>
      obtain ⟨c', l', hlen, hloop⟩ := jumpLoop_cons n e c l
      rw [hloop, jumpRecords_cons]
      simp only [List.forall_mem_append, List.forall_mem_cons]
      rw [all_inBounds_iff (by omega), all_inBounds_iff (by omega), hlen,
        ih (e + 1) _ (by omega), record_fits_iff]
      exact Iff.rfl

/-- Stores at other places. -/
lemma foldl_store_of_not {f : JumpField} {e i : ℕ} (l : List JumpStore) : ∀ m : JumpTable,
    (∀ s ∈ l, e = s.entry → f ≠ s.field) → l.foldl JumpTable.store m e f i = m e f i := by
  induction l with
  | nil => exact fun _ _ => rfl
  | cons s l ih =>
    intro m h
    rw [List.foldl_cons, ih _ fun s' hs' => h s' (List.mem_cons_of_mem s hs')]
    exact if_neg fun hs => h s List.mem_cons_self hs.1 hs.2.1

/-- The NUL behind a field is the last byte of it that is stored. -/
theorem foldl_all (x : FieldRead) (e : ℕ) (f : JumpField) (m : JumpTable) :
    (x.all e f).foldl JumpTable.store m e f x.i = 0 := by
  rw [FieldRead.all, List.foldl_append]
  exact if_pos ⟨rfl, rfl, rfl⟩

/-- The stores of a field are in that field. -/
lemma mem_all {i : ℕ} {c : UInt8} {l : List UInt8} {s : JumpStore}
    (hs : s ∈ (fieldLoop stop entry field i c l).all entry field) :
    s.entry = entry ∧ s.field = field := by
  rcases List.mem_append.mp hs with hs | hs
  · obtain ⟨he, hf, -⟩ := fieldLoop_stores l i c s hs
    exact ⟨he, hf⟩
  · rw [List.mem_singleton.mp hs]
    exact ⟨rfl, rfl⟩

/-- The entries are filled in order. -/
lemma jumpLoop_entry (n : ℕ) : ∀ e l, ∀ s ∈ (jumpLoop n e l).1, e ≤ s.entry := by
  induction n with
  | zero => simp [jumpLoop]
  | succ n ih =>
    intro e l s hs
    cases l with
    | nil => simp [jumpLoop] at hs
    | cons c l =>
      obtain ⟨c', l', -, hloop⟩ := jumpLoop_cons n e c l
      rw [hloop] at hs
      rcases List.mem_append.mp hs with hs | hs
      · rcases List.mem_append.mp hs with hs | hs
        · exact (mem_all hs).1.ge
        · exact (mem_all hs).1.ge
      · exact Nat.le_of_succ_le (ih (e + 1) _ s hs)

/-- If all stores are inside of the arrays, there is a NUL in each array of the entries. -/
theorem jumpLoop_terminated (n : ℕ) : ∀ e₀ l (m : JumpTable),
    (∀ s ∈ (jumpLoop n e₀ l).1, s.InBounds) → ∀ e, e₀ ≤ e → e < (jumpLoop n e₀ l).2 →
      ∀ f : JumpField, ∃ i < f.size, (jumpLoop n e₀ l).1.foldl JumpTable.store m e f i = 0 := by
  induction n with
  | zero =>
    intro e₀ l m _ e hle hlt
    simp only [jumpLoop] at hlt
    omega
  | succ n ih =>
    intro e₀ l m hbounds e hle hlt f
    cases l with
    | nil =>
      simp only [jumpLoop] at hlt
      omega
    | cons c l =>
      obtain ⟨c', l', -, hloop⟩ := jumpLoop_cons n e₀ c l
      rw [hloop] at hbounds hlt ⊢
      rw [List.foldl_append, List.foldl_append]
      by_cases he : e = e₀
      · subst he
        -- what is stored for the entries behind it
        have hrest : ∀ m' i, (jumpLoop n (e + 1) (jumpRecord (c :: l)).2).1.foldl
            JumpTable.store m' e f i = m' e f i := by
          intro m' i
          refine foldl_store_of_not _ m' fun s hs heq => ?_
          have hle := jumpLoop_entry n (e + 1) _ s hs
          omega
        cases f with
        | name =>
          refine ⟨(fieldLoop nameEnd e .name 0 c l).i, ?_, ?_⟩
          · exact (hbounds ⟨e, .name, _, 0⟩ (List.mem_append_left _ (List.mem_append_left _
              (List.mem_append_right _ (List.mem_singleton_self _))))).2
          · rw [hrest, foldl_store_of_not _ _ fun s hs _ heq => ?_, foldl_all]
            rw [(mem_all hs).2] at heq
            cases heq
        | path =>
          refine ⟨(fieldLoop pathEnd e .path 0 c' l').i, ?_, ?_⟩
          · exact (hbounds ⟨e, .path, _, 0⟩ (List.mem_append_left _ (List.mem_append_right _
              (List.mem_append_right _ (List.mem_singleton_self _))))).2
          · rw [hrest, foldl_all]
      · exact ih (e₀ + 1) _ _ (fun s hs => hbounds s (List.mem_append_right _ hs)) e (by omega) hlt f

end

/-- The table is never overrun if the records fit, and only then. -/
theorem jumpSafe_iff (content : List UInt8) : JumpSafe content ↔ RecordsFit content := by
  have hiff := jumpLoop_bounds_iff MAX_JUMP_ENTRIES 0 content (Nat.zero_add _).le
  refine ⟨fun h => hiff.mp h.bounds, fun h => ⟨hiff.mpr h, fun m e he f => ?_⟩⟩
  exact jumpLoop_terminated MAX_JUMP_ENTRIES 0 content m (hiff.mpr h) e (Nat.zero_le e) he f

/-- A name of 32 bytes: its NUL is stored into the path. -/
theorem not_jumpSafe_long : ¬ JumpSafe (List.replicate 32 (chr 'a') ++ [chr ' ', chr '/', chr '\n']) := by
  intro h
  have hnul := h.bounds ⟨0, .name, 32, 0⟩ (by decide +kernel)
  exact absurd hnul (by decide)

/-- The table of the first model is there if nothing is stored outside of the arrays. -/
theorem init_jump_table_isSome_iff (n : ℕ) : ∀ l, (init_jump_table n l).isSome ↔
    ∀ r ∈ jumpRecords n l, r.1.length < 32 ∧ r.2.length < 64 := by
  induction n with
  | zero =>
    intro l
    simp [init_jump_table, jumpRecords]
  | succ n ih =>
    intro l
    cases l with
    | nil => simp [init_jump_table, jumpRecords]
    | cons c l =>
      rw [jumpRecords_cons, List.forall_mem_cons, ← ih, record_fits_iff, ← (readEntry_eq c l).2.2]
      simp only [init_jump_table]
      split_ifs with hlong
      · simp only [Option.isSome_none, Bool.false_eq_true, false_iff]
        omega
      · rw [Option.isSome_map]
        exact ⟨fun h => ⟨by omega, h⟩, And.right⟩

end Sh
end OhMyXv6
