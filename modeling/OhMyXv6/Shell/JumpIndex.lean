import OhMyXv6.Shell.Jump

/-!
# The jump index round-trips

What the crawler writes is one line for each regular file that it reaches. It does not reach those for
which no descriptor is left: each level of the tree takes one, and `stat` one more.
-/

namespace OhMyXv6
namespace Sh

open Console Lines

/-- A name of the file system, without spaces and newlines. -/
structure FileName (name : Str) : Prop where
  length : name.length ≤ DIRSIZ
  nul : (0 : UInt8) ∉ name
  slash : chr '/' ∉ name
  space : chr ' ' ∉ name
  newline : chr '\n' ∉ name
  dot : name ≠ dotName
  dotdot : name ≠ dotdotName

namespace Dir

/-- `"."` and `".."` are not taken for files. -/
def WellFormed : Dir → Prop
  | .nil => True
  | .free rest => rest.WellFormed
  | .dots name rest => (name = dotName ∨ name = dotdotName) ∧ rest.WellFormed
  | .file name rest => FileName name ∧ rest.WellFormed
  | .dev name rest => FileName name ∧ rest.WellFormed
  | .dir name sub rest => FileName name ∧ sub.WellFormed ∧ rest.WellFormed

/-- The regular files, each with the path of its directory. -/
def files (path : Str) : Dir → List JumpEntry
  | .nil => []
  | .free rest => files path rest
  | .dots _ rest => files path rest
  | .file name rest => (name, path) :: files path rest
  | .dev _ rest => files path rest
  | .dir name sub rest => files (subpath path name) sub ++ files path rest

/-- The index is in one of the directories. -/
def HasIndex (root : Dir) : Prop := ∃ e ∈ root.files [chr '/'], e.1 = INDEX_FILE

/-- The greatest number of directories that a regular file is in. -/
def depth : Dir → ℕ
  | .nil => 0
  | .free rest => rest.depth
  | .dots _ rest => rest.depth
  | .file _ rest => max 1 rest.depth
  | .dev _ rest => rest.depth
  | .dir _ sub rest => max (if sub.depth = 0 then 0 else sub.depth + 1) rest.depth

end Dir

/-- A line of the index, without its newline. -/
def indexLine (e : JumpEntry) : List UInt8 := e.1 ++ chr ' ' :: e.2

/-! ## The crawler -/

/-- The files for which there are descriptors. -/
def reached (path : Str) (n : ℕ) : Dir → List JumpEntry
  | .nil => []
  | .free rest => reached path n rest
  | .dots _ rest => reached path n rest
  | .file name rest => if n = 0 then reached path n rest else (name, path) :: reached path n rest
  | .dev _ rest => reached path n rest
  | .dir name sub rest =>
    if n = 0 then reached path n rest
    else reached (subpath path name) (n - 1) sub ++ reached path n rest

lemma files_eq_nil (d : Dir) : ∀ (path : Str), d.depth = 0 → d.files path = [] := by
  induction d with
  | nil => exact fun _ _ => rfl
  | free rest ih => exact fun path h => ih path h
  | dots name rest ih => exact fun path h => ih path h
  | dev name rest ih => exact fun path h => ih path h
  | file name rest ih =>
    intro path h
    simp only [Dir.depth] at h
    omega
  | dir name sub rest ihs ihr =>
    intro path h
    simp only [Dir.depth] at h
    have hsub : sub.depth = 0 := by
      by_contra hne
      rw [if_neg hne] at h
      omega
    rw [if_pos hsub] at h
    simp only [Dir.files, ihs _ hsub, ihr path (by omega), List.append_nil]

/-- A crawl that is deep enough reaches every file. -/
lemma reached_eq_files (d : Dir) : ∀ (path : Str) (n : ℕ), d.depth ≤ n →
    reached path n d = d.files path := by
  induction d with
  | nil => exact fun _ _ _ => rfl
  | free rest ih => exact fun path n h => ih path n h
  | dots name rest ih => exact fun path n h => ih path n h
  | dev name rest ih => exact fun path n h => ih path n h
  | file name rest ih =>
    intro path n h
    simp only [Dir.depth] at h
    simp only [reached, Dir.files]
    rw [if_neg (by omega), ih path n (by omega)]
  | dir name sub rest ihs ihr =>
    intro path n h
    simp only [Dir.depth] at h
    simp only [reached, Dir.files]
    have hrest := ihr path n (by omega)
    by_cases hsub : sub.depth = 0
    · by_cases hn : n = 0
      · rw [if_pos hn, hrest, files_eq_nil sub _ hsub, List.nil_append]
      · rw [if_neg hn, hrest, ihs _ (n - 1) (by omega)]
    · rw [if_neg hsub] at h
      rw [if_neg (by omega), hrest, ihs _ (n - 1) (by omega)]

/-- A path is longer by a slash and a name. -/
lemma length_subpath_le (path name : Str) : (subpath path name).length ≤ path.length + 1 + name.length := by
  unfold subpath
  split
  · rw [List.length_append]
    omega
  · simp only [List.length_append, List.length_singleton]
    omega

/-- Short paths fit into the buffer. -/
lemma not_overruns {path : Str} {n : ℕ} (h : path.length + 15 * n + 16 ≤ 512) : ¬ Overruns path := by
  have hle := length_subpath_le path []
  unfold Overruns DIRSIZ
  rw [List.length_nil] at hle
  omega

/-- The loop of `crawl` writes a line for each file that it reaches, unless one of them has a name of
`DIRSIZ` bytes. -/
theorem crawlLoop_eq_some (d : Dir) : ∀ {path : Str} {n : ℕ} {out : List UInt8}, d.WellFormed →
    path.length + 15 * n + 16 ≤ 512 → (crawlLoop path n d = some out ↔
      (∀ e ∈ reached path n d, e.1.length < DIRSIZ) ∧
        out = join (chr '\n') ((reached path n d).map indexLine)) := by
  induction d with
  | nil =>
    intro path n out _ _
    simp [crawlLoop, reached, eq_comm]
  | free rest ih => exact fun hwf hlen => ih hwf hlen
  | dots name rest ih =>
    intro path n out hwf hlen
    have hdots := hwf.1
    simp only [crawlLoop, hdots, if_true]
    exact ih hwf.2 hlen
  | dev name rest ih =>
    intro path n out hwf hlen
    have hname : ¬ (name = dotName ∨ name = dotdotName) := not_or.mpr ⟨hwf.1.dot, hwf.1.dotdot⟩
    simp only [crawlLoop, hname, not_overruns hlen, if_false]
    exact ih hwf.2 hlen
  | file name rest ih =>
    intro path n out hwf hlen
    have hname : ¬ (name = dotName ∨ name = dotdotName) := not_or.mpr ⟨hwf.1.dot, hwf.1.dotdot⟩
    simp only [crawlLoop, hname, not_overruns hlen, if_false, reached]
    -- `crawl` descends no further than 20 levels
    by_cases hn : n = 0
    · rw [if_pos hn, if_pos hn]
      exact ih hwf.2 hlen
    · rw [if_neg hn, if_neg hn]
      unfold printEntry
      by_cases hshort : name.length < DIRSIZ
      · rw [if_pos hshort, Option.bind_some, Option.map_eq_some_iff]
        constructor
        · intro h
          obtain ⟨out', hrest, rfl⟩ := h
          obtain ⟨hnames, rfl⟩ := (ih hwf.2 hlen).mp hrest
          refine ⟨fun e he => ?_, by simp [indexLine]⟩
          rcases List.mem_cons.mp he with rfl | he
          · exact hshort
          · exact hnames e he
        · intro h
          refine ⟨_, (ih hwf.2 hlen).mpr ⟨fun e he => h.1 e (List.mem_cons_of_mem _ he), rfl⟩, ?_⟩
          rw [h.2]
          simp [indexLine]
      · rw [if_neg hshort, Option.bind_none]
        constructor
        · exact nofun
        · exact fun h => absurd (h.1 _ List.mem_cons_self) hshort
  | dir name sub rest ihs ihr =>
    intro path n out hwf hlen
    have hname : ¬ (name = dotName ∨ name = dotdotName) := not_or.mpr ⟨hwf.1.dot, hwf.1.dotdot⟩
    simp only [crawlLoop, hname, not_overruns hlen, if_false, reached]
    by_cases hn : n = 0
    · rw [if_pos hn, if_pos hn]
      exact ihr hwf.2.2 hlen
    -- one level deeper the path is longer by a name and a slash at most
    · have hsub : (subpath path name).length + 15 * (n - 1) + 16 ≤ 512 := by
        have hle := length_subpath_le path name
        have hlt : name.length ≤ 14 := hwf.1.length
        omega
      rw [if_neg hn, if_neg hn, Option.bind_eq_some_iff]
      constructor
      · intro h
        obtain ⟨out₁, h₁, hmap⟩ := h
        obtain ⟨out₂, h₂, rfl⟩ := Option.map_eq_some_iff.mp hmap
        obtain ⟨hnames₁, rfl⟩ := (ihs hwf.2.1 hsub).mp h₁
        obtain ⟨hnames₂, rfl⟩ := (ihr hwf.2.2 hlen).mp h₂
        refine ⟨fun e he => ?_, by rw [List.map_append, join_append]⟩
        rcases List.mem_append.mp he with he | he
        · exact hnames₁ e he
        · exact hnames₂ e he
      · intro h
        refine ⟨_, (ihs hwf.2.1 hsub).mpr ⟨fun e he => h.1 e (List.mem_append_left _ he), rfl⟩, ?_⟩
        rw [Option.map_eq_some_iff]
        refine ⟨_, (ihr hwf.2.2 hlen).mpr ⟨fun e he => h.1 e (List.mem_append_right _ he), rfl⟩, ?_⟩
        rw [h.2, List.map_append, join_append]

/-! ## The table -/

/-- An entry that the shell reads as it was written. -/
structure Readable (e : JumpEntry) : Prop where
  name : chr ' ' ∉ e.1 ∧ chr '\n' ∉ e.1 ∧ 0 ∉ e.1 ∧ e.1.length < 32
  path : chr '\n' ∉ e.2 ∧ chr '\r' ∉ e.2 ∧ 0 ∉ e.2 ∧ e.2.length < 64

section
variable {stop : UInt8 → Bool}

/-- The bytes up to the first at which `stop` says so. -/
lemma token_eq (w : List UInt8) : ∀ {c t : UInt8} {l l' : List UInt8}, c :: l = w ++ t :: l' →
    (∀ b ∈ w, stop b = false) → stop t = true → token stop c l = (w, t, l') := by
  induction w with
  | nil =>
    intro c t l l' heq _ ht
    obtain ⟨rfl, rfl⟩ := List.cons.inj heq
    cases l with
    | nil => simp [token, ht]
    | cons c' l => simp [token, ht]
  | cons b w ih =>
    intro c t l l' heq hw ht
    obtain ⟨rfl, hl⟩ := List.cons.inj heq
    cases l with
    | nil =>
      have hlen := congrArg List.length hl
      simp at hlen
    | cons c' l =>
      have hb := hw c List.mem_cons_self
      simp only [token, hb, Bool.false_eq_true, if_false,
        ih hl (fun b hb => hw b (List.mem_cons_of_mem _ hb)) ht]

/-- A field ends before its separator. -/
lemma token_stop (l : List UInt8) : ∀ {c : UInt8}, ∀ b ∈ (token stop c l).1, stop b = false := by
  induction l with
  | nil =>
    intro c b hb
    by_cases hc : stop c = true
    · simp [token, hc] at hb
    · simp only [token, hc, Bool.false_eq_true, if_false, List.mem_singleton] at hb
      rw [hb, Bool.not_eq_true] at *
      exact hc
  | cons c' l ih =>
    intro c b hb
    by_cases hc : stop c = true
    · simp [token, hc] at hb
    · simp only [token, hc, Bool.false_eq_true, if_false, List.mem_cons] at hb
      rcases hb with rfl | hb
      · exact Bool.eq_false_iff.mpr hc
      · exact ih b hb

end

lemma init_jump_table_cons (n : ℕ) {e : JumpEntry} (l : List UInt8) (he : Readable e) :
    init_jump_table (n + 1) (indexLine e ++ chr '\n' :: l) =
      (init_jump_table n l).map (e :: ·) := by
  obtain ⟨⟨hspace, hnl, hnul, hlen⟩, hnl', hcr, hnul', hlen'⟩ := he
  obtain ⟨name, path⟩ := e
  dsimp only at *
  have happ : indexLine (name, path) ++ chr '\n' :: l = name ++ chr ' ' :: (path ++ chr '\n' :: l) := by
    simp [indexLine]
  obtain ⟨c, l₁, hc⟩ : ∃ c l₁, c :: l₁ = name ++ chr ' ' :: (path ++ chr '\n' :: l) := by
    cases name with
    | nil => exact ⟨_, _, rfl⟩
    | cons b w => exact ⟨_, _, rfl⟩
  obtain ⟨c', l₂, hc'⟩ : ∃ c' l₂, c' :: l₂ = path ++ chr '\n' :: l := by
    cases path with
    | nil => exact ⟨_, _, rfl⟩
    | cons b w => exact ⟨_, _, rfl⟩
  -- the name ends at the space, and the path at the newline
  have hx : token (fun c => c = chr ' ' ∨ c = chr '\n') c l₁ = (name, chr ' ', c' :: l₂) := by
    rw [hc']
    apply token_eq name hc
    · intro b hb
      rw [decide_eq_false_iff_not, not_or]
      exact ⟨fun heq => hspace (heq ▸ hb), fun heq => hnl (heq ▸ hb)⟩
    · exact decide_eq_true (.inl rfl)
  have hz : token (fun c => c = chr '\n' ∨ c = chr '\r') c' l₂ = (path, chr '\n', l) := by
    apply token_eq path hc'
    · intro b hb
      rw [decide_eq_false_iff_not, not_or]
      exact ⟨fun heq => hnl' (heq ▸ hb), fun heq => hcr (heq ▸ hb)⟩
    · exact decide_eq_true (.inl rfl)
  have hentry : readEntry c l₁ = (name, path, l) := by
    have hskip : skipSpace (chr ' ') (c' :: l₂) = (c', l₂) := by simp [skipSpace]
    unfold readEntry
    dsimp only
    rw [hx]
    dsimp only
    rw [hskip]
    dsimp only
    rw [hz]
  rw [happ, ← hc]
  simp only [init_jump_table, hentry]
  rw [if_neg (by omega), takeWhile_ne_zero hnul, takeWhile_ne_zero hnul']

/-- Lines that were written are read, as long as there is room. -/
lemma init_jump_table_lines (R : List JumpEntry) : ∀ {n : ℕ} (l : List UInt8),
    (∀ e ∈ R, Readable e) → R.length ≤ n →
      init_jump_table n (join (chr '\n') (R.map indexLine) ++ l) =
        (init_jump_table (n - R.length) l).map (R ++ ·) := by
  induction R with
  | nil =>
    intro n l _ _
    simp
  | cons e R ih =>
    intro n l hR hn
    rw [List.length_cons] at hn
    obtain ⟨m, rfl⟩ : ∃ m, n = m + 1 := ⟨n - 1, by omega⟩
    have hrest := ih l (fun e he => hR e (List.mem_cons_of_mem _ he)) (Nat.le_of_succ_le_succ hn)
    rw [List.map_cons, join_cons, List.append_assoc, List.cons_append,
      init_jump_table_cons m _ (hR e List.mem_cons_self), hrest, Option.map_map, List.length_cons,
      Nat.add_sub_add_right]
    rfl

/-- What any table can hold. -/
lemma init_jump_table_some (n : ℕ) : ∀ {l : List UInt8} {table : List JumpEntry},
    init_jump_table n l = some table → table.length ≤ n ∧ (table = [] → n = 0 ∨ l = []) ∧
      ∀ e ∈ table, chr '\r' ∉ e.2 ∧ e.2.length < 64 := by
  induction n with
  | zero =>
    intro l table h
    cases h
    exact ⟨Nat.le_refl _, fun _ => .inl rfl, nofun⟩
  | succ n ih =>
    intro l table h
    cases l with
    | nil =>
      cases h
      exact ⟨Nat.zero_le _, fun _ => .inr rfl, nofun⟩
    | cons c l =>
      unfold init_jump_table at h
      dsimp only at h
      by_cases hlong : 32 ≤ (readEntry c l).1.length ∨ 64 ≤ (readEntry c l).2.1.length
      · rw [if_pos hlong] at h
        cases h
      · rw [if_neg hlong] at h
        obtain ⟨rest, hrest, rfl⟩ := Option.map_eq_some_iff.mp h
        obtain ⟨hlen, -, hall⟩ := ih hrest
        refine ⟨Nat.succ_le_succ hlen, fun hnil => absurd hnil (List.cons_ne_nil _ _),
          fun e he => ?_⟩
        rcases List.mem_cons.mp he with rfl | he
        · -- the path ends at a carriage return, and is cut at a NUL
          have hle := ((readEntry c l).2.1.takeWhile_sublist fun b => decide (b ≠ 0)).length_le
          refine ⟨fun hmem => ?_, ?_⟩
          · have hstop := token_stop _ _ (List.takeWhile_subset _ hmem)
            simp at hstop
          · show ((readEntry c l).2.1.takeWhile _).length < 64
            omega
        · exact hall e he

/-! ## Both together -/

/-- `"/"` -/
def rootPath : Str := [chr '/']

/-- The crawler runs, with `n` descriptors left, over an index with these bytes, and the shell reads the
index: its table holds the files of the tree, and `jump` finds each of them. -/
def RoundTrips (n : ℕ) (root : Dir) (old : List UInt8) : Prop :=
  ∃ new table, crawl rootPath n root = some new ∧
    init_jump_table MAX_JUMP_ENTRIES (overwrite old new) = some table ∧
    table.Perm (root.files rootPath) ∧
    ∀ e ∈ root.files rootPath, ∃ path, jump table e.1 = some path ∧ (e.1, path) ∈ root.files rootPath

/-- There are descriptors for all of the tree, the names have a NUL behind them, the paths fit into the
table and have no carriage return, there are 50 files at most, and the old index was not longer than the
new one (or is not read so far). -/
structure IndexFits (n : ℕ) (root : Dir) (old : List UInt8) : Prop where
  depth : root.depth ≤ n - 1
  names : ∀ e ∈ root.files rootPath, e.1.length < DIRSIZ
  paths : ∀ e ∈ root.files rootPath, chr '\r' ∉ e.2 ∧ e.2.length < 64
  count : (root.files rootPath).length ≤ MAX_JUMP_ENTRIES
  old : (root.files rootPath).length = MAX_JUMP_ENTRIES ∨
    old.length ≤ (join (chr '\n') ((root.files rootPath).map indexLine)).length

/-- The whole crawl, if it reaches all files. -/
lemma crawl_eq_some {n : ℕ} {root : Dir} {new : List UInt8} (hwf : root.WellFormed) (hn : n ≤ NOFILE)
    (hdepth : root.depth ≤ n - 1) : crawl rootPath n root = some new ↔
      (∀ e ∈ root.files rootPath, e.1.length < DIRSIZ) ∧
        new = join (chr '\n') ((root.files rootPath).map indexLine) := by
  unfold crawl
  by_cases h0 : n = 0
  · have hnone : root.files rootPath = [] := files_eq_nil root rootPath (by omega)
    rw [if_pos h0, hnone]
    simp [eq_comm]
  · have hlen : rootPath.length + 15 * (n - 1) + 16 ≤ 512 := by
      have hroot : rootPath.length = 1 := rfl
      have hn' : n ≤ 16 := hn
      omega
    rw [if_neg h0, crawlLoop_eq_some root hwf hlen, reached_eq_files root rootPath (n - 1) hdepth]

/-- The bytes of a path come from its parts. -/
lemma mem_subpath {path name : Str} {b : UInt8} (hb : b ∈ subpath path name) :
    b ∈ path ∨ b = chr '/' ∨ b ∈ name := by
  unfold subpath at hb
  split at hb
  · rcases List.mem_append.mp hb with hb | hb
    · exact .inl hb
    · exact .inr (.inr hb)
  · simp only [List.append_assoc, List.mem_append, List.mem_singleton] at hb
    exact hb

/-- Names and paths of a well-formed tree can be read back. -/
lemma files_clean (d : Dir) : ∀ {path : Str}, d.WellFormed → chr '\n' ∉ path → 0 ∉ path →
    ∀ e ∈ d.files path, FileName e.1 ∧ chr '\n' ∉ e.2 ∧ 0 ∉ e.2 := by
  induction d with
  | nil =>
    intro path _ _ _ e he
    cases he
  | free rest ih => exact fun hwf => ih hwf
  | dots name rest ih => exact fun hwf => ih hwf.2
  | dev name rest ih => exact fun hwf => ih hwf.2
  | file name rest ih =>
    intro path hwf hnl hnul e he
    rcases List.mem_cons.mp he with rfl | he
    · exact ⟨hwf.1, hnl, hnul⟩
    · exact ih hwf.2 hnl hnul e he
  | dir name sub rest ihs ihr =>
    intro path hwf hnl hnul e he
    rcases List.mem_append.mp he with he | he
    · apply ihs hwf.2.1 _ _ e he
      · intro hmem
        rcases mem_subpath hmem with hm | hm | hm
        · exact hnl hm
        · exact absurd hm (by decide)
        · exact hwf.1.newline hm
      · intro hmem
        rcases mem_subpath hmem with hm | hm | hm
        · exact hnul hm
        · exact absurd hm (by decide)
        · exact hwf.1.nul hm
    · exact ihr hwf.2.2 hnl hnul e he

/-- `jump` goes to a directory that has the file. -/
lemma jump_of_mem {table files : List JumpEntry} (hperm : table.Perm files) {e : JumpEntry}
    (he : e ∈ files) : ∃ path, jump table e.1 = some path ∧ (e.1, path) ∈ files := by
  obtain ⟨e', he'⟩ : ∃ e', table.find? (fun x => x.1 = e.1) = some e' := by
    rw [← Option.isSome_iff_exists, List.find?_isSome]
    exact ⟨e, hperm.mem_iff.mpr he, by simp⟩
  have hname : e'.1 = e.1 := by
    simpa using List.find?_some he'
  refine ⟨e'.2, by simp [jump, he'], ?_⟩
  rw [← hname]
  exact hperm.mem_iff.mp (List.mem_of_find?_eq_some he')

/-- An index is no longer than its lines. -/
lemma length_index_le (R : List JumpEntry) (hR : ∀ e ∈ R, e.1.length < DIRSIZ ∧ e.2.length < 64) :
    (join (chr '\n') (R.map indexLine)).length ≤ 78 * R.length := by
  induction R with
  | nil => simp
  | cons e R ih =>
    have hrest := ih fun e he => hR e (List.mem_cons_of_mem _ he)
    have hname : e.1.length < 14 := (hR e List.mem_cons_self).1
    have hpath := (hR e List.mem_cons_self).2
    simp only [List.map_cons, join_cons, indexLine, List.length_append, List.length_cons]
    omega

/-- What the shell reads when the index is all there. -/
lemma table_eq {root : Dir} (old : List UInt8) (hwf : root.WellFormed)
    (hnames : ∀ e ∈ root.files rootPath, e.1.length < DIRSIZ)
    (hpaths : ∀ e ∈ root.files rootPath, chr '\r' ∉ e.2 ∧ e.2.length < 64)
    (hcount : (root.files rootPath).length ≤ MAX_JUMP_ENTRIES) :
    init_jump_table MAX_JUMP_ENTRIES
        (overwrite old (join (chr '\n') ((root.files rootPath).map indexLine))) =
      (init_jump_table (MAX_JUMP_ENTRIES - (root.files rootPath).length)
        (old.drop (join (chr '\n') ((root.files rootPath).map indexLine)).length)).map
          (root.files rootPath ++ ·) := by
  have hreadable : ∀ e ∈ root.files rootPath, Readable e := by
    intro e he
    obtain ⟨hname, hnl, hnul⟩ := files_clean root hwf (by decide) (by decide) e he
    have hlen : e.1.length ≤ 14 := hname.length
    exact ⟨⟨hname.space, hname.newline, hname.nul, by omega⟩, hnl, (hpaths e he).1, hnul,
      (hpaths e he).2⟩
  have hlen := length_index_le _ fun e he => ⟨hnames e he, (hpaths e he).2⟩
  have hshort : (join (chr '\n') ((root.files rootPath).map indexLine)).length ≤ MAXFILE * BSIZE := by
    have h50 : (root.files rootPath).length ≤ 50 := hcount
    have hmax : MAXFILE * BSIZE = 71680 := rfl
    omega
  unfold overwrite
  rw [List.take_of_length_le hshort, init_jump_table_lines _ _ hreadable hcount]

/-- **The jump index round-trips**, and the crawler reaches all of the tree, if and only if the tree and
the old index fit. -/
theorem jump_index_round_trips {n : ℕ} {root : Dir} (old : List UInt8) (hwf : root.WellFormed)
    (hn : n ≤ NOFILE) :
    RoundTrips n root old ∧ root.depth ≤ n - 1 ↔ IndexFits n root old := by
  constructor
  · intro h
    obtain ⟨⟨new, table, hcrawl, htable, hperm, -⟩, hdepth⟩ := h
    obtain ⟨hnames, rfl⟩ := (crawl_eq_some hwf hn hdepth).mp hcrawl
    obtain ⟨hlen, -, hall⟩ := init_jump_table_some _ htable
    -- every file is in the table, so its path is one that the table can hold
    have hpaths : ∀ e ∈ root.files rootPath, chr '\r' ∉ e.2 ∧ e.2.length < 64 :=
      fun e he => hall e (hperm.mem_iff.mpr he)
    have hcount : (root.files rootPath).length ≤ MAX_JUMP_ENTRIES := by
      rw [← hperm.length_eq]
      exact hlen
    rw [table_eq old hwf hnames hpaths hcount] at htable
    obtain ⟨rest, hrest, rfl⟩ := Option.map_eq_some_iff.mp htable
    have hnil : rest = [] := by
      have hlength := hperm.length_eq
      rw [List.length_append] at hlength
      exact List.length_eq_zero_iff.mp (by omega)
    obtain ⟨-, hend, -⟩ := init_jump_table_some _ hrest
    refine ⟨hdepth, hnames, hpaths, hcount, ?_⟩
    rcases hend hnil with hfull | hdrop
    · exact .inl (by omega)
    · exact .inr (List.drop_eq_nil_iff.mp hdrop)
  · intro h
    obtain ⟨hdepth, hnames, hpaths, hcount, hold⟩ := h
    have hrest : init_jump_table (MAX_JUMP_ENTRIES - (root.files rootPath).length)
        (old.drop (join (chr '\n') ((root.files rootPath).map indexLine)).length) = some [] := by
      rcases hold with hfull | hshort
      · rw [hfull, Nat.sub_self]
        rfl
      · rw [List.drop_eq_nil_iff.mpr hshort]
        cases MAX_JUMP_ENTRIES - (root.files rootPath).length with
        | zero => rfl
        | succ k => rfl
    have htable := table_eq old hwf hnames hpaths hcount
    rw [hrest, Option.map_some, List.append_nil] at htable
    exact ⟨⟨_, _, (crawl_eq_some hwf hn hdepth).mpr ⟨hnames, rfl⟩, htable, List.Perm.refl _,
      fun e he => jump_of_mem (List.Perm.refl _) he⟩, hdepth⟩

/-- `a` and the index, and `b` in the directory `d`. -/
def smallTree : Dir :=
  .dots dotName (.dots dotdotName (.file [chr 'a'] (.free
    (.dir [chr 'd'] (.dots dotName (.dots dotdotName (.file [chr 'b'] .nil)))
      (.file INDEX_FILE .nil)))))

lemma fileName_of (c : UInt8) (h : c ≠ 0 ∧ c ≠ chr '/' ∧ c ≠ chr ' ' ∧ c ≠ chr '\n' ∧ c ≠ chr '.') :
    FileName [c] := by
  obtain ⟨hnul, hslash, hspace, hnl, hdot⟩ := h
  refine ⟨by simp [DIRSIZ], ?_, ?_, ?_, ?_, ?_, ?_⟩
  · simpa using hnul.symm
  · simpa using hslash.symm
  · simpa using hspace.symm
  · simpa using hnl.symm
  · simpa [dotName] using hdot
  · simp [dotdotName]

/-- `.jump_index` is a file's name. -/
lemma fileName_index : FileName INDEX_FILE := by
  constructor <;> decide +kernel

/-- The small tree is well formed. -/
lemma wellFormed_small : smallTree.WellFormed :=
  ⟨.inl rfl, .inr rfl, fileName_of _ (by decide), fileName_of _ (by decide),
    ⟨.inl rfl, .inr rfl, fileName_of _ (by decide), trivial⟩, fileName_index, trivial⟩

/-- The crawler that `init` starts has 12 descriptors left. There was no index before, so that it is
empty when the crawl begins. -/
theorem jump_index_round_trips_small :
    smallTree.WellFormed ∧ smallTree.HasIndex ∧ RoundTrips 12 smallTree [] := by
  refine ⟨wellFormed_small, ⟨_, .tail _ (.tail _ (.head _)), rfl⟩, ?_⟩
  have hiff := jump_index_round_trips (n := 12) [] wellFormed_small (by decide)
  exact (hiff.mpr ⟨by decide, by decide +kernel, by decide +kernel, by decide +kernel,
    .inr (Nat.zero_le _)⟩).1

/-- The index and `a`. -/
def flatTree : Dir := .file INDEX_FILE (.file [chr 'a'] .nil)

/-- What the crawler wrote when there was a file `b` as well. -/
def oldIndex : List UInt8 :=
  join (chr '\n') ((flatTree.files rootPath ++ [([chr 'b'], rootPath)]).map indexLine)

/-- The last line of the old index is left, and the table has a file that is gone. -/
theorem not_round_trips_longer : ¬ ∀ (root : Dir) (old : List UInt8), root.WellFormed →
    root.HasIndex → RoundTrips 12 root old := by
  intro hall
  have hwf : flatTree.WellFormed := ⟨fileName_index, fileName_of _ (by decide), trivial⟩
  have hindex : flatTree.HasIndex := ⟨_, .head _, rfl⟩
  obtain ⟨new, table, hcrawl, htable, hperm, -⟩ := hall flatTree oldIndex hwf hindex
  have hnew : new = join (chr '\n') ((flatTree.files rootPath).map indexLine) := by
    rw [← Option.some.injEq, ← hcrawl]
    decide +kernel
  have hthree : table = flatTree.files rootPath ++ [([chr 'b'], rootPath)] := by
    rw [← Option.some.injEq, ← htable, hnew]
    decide +kernel
  have hlen := hperm.length_eq
  rw [hthree, List.length_append] at hlen
  exact absurd hlen (by decide)

end Sh
end OhMyXv6
