import Mathlib.Data.List.GetD
import OhMyXv6.Shell.Sessions

/-!
# When `get_prev_command` returns

`load_history` lowers `history.pos` by a chunk, and raises it again to the first newline that it has found
in the chunk. In a chunk without one it raises it to where it was, so that nothing has changed, and
`get_prev_command` calls it for ever.
-/

namespace OhMyXv6
namespace Sh

open Console

/-! ## What the functions do -/

/-- The states in which `get_prev_command`, with fuel `n`, calls `load_history`. -/
def loadCalls : ℕ → History HistFile → List HistFile
  | 0, _ => []
  | n + 1, h =>
    match h.prev with
    | [] =>
      if h.file.topped then []
      else
        let x := load_history h.file
        h.file :: loadCalls n { h with file := x.1, prev := x.2 }
    | _ :: _ => []

/-- What `strlen(&buf[i])` reads. -/
def stringIndices (buf : List UInt8) (i : ℕ) : List ℕ :=
  (List.range ((cstr buf i).length + 1)).map (i + ·)

/-- The bytes of the buffer that the loop of `load_history` uses. -/
def scanIndices : ℕ → List UInt8 → List ℕ
  | 0, _ => []
  | pos + 1, buf =>
    (pos + 1) ::
      if buf.getD (pos + 1) 0 = chr '\n' then
        let buf := buf.set (pos + 1) 0
        stringIndices buf (pos + 2) ++ scanIndices pos buf
      else scanIndices pos buf

/-- The bytes of the buffer that `load_history` uses: those that are read into it, the two that it puts a
NUL into, those of its loop, and those of the string at its start. -/
def bufIndices (h : HistFile) : List ℕ :=
  let x := h.file.fileseek ((h.pos : ℤ) - DEFAULT_LOAD) .set
  let topped := h.topped || x.2 == 0
  let y := x.1.fileread (h.pos - x.2)
  let nread := y.2.length
  List.range nread ++
    if nread = 0 then []
    else
      let buf := y.2.set (nread - 1) 0 ++ [0]
      [nread - 1, nread] ++ scanIndices (nread - 2) buf ++
        if topped then stringIndices (scan (nread - 2) buf (nread - 1)).1 0 else []

/-- The call loads a command, reaches the start of the file, or comes nearer to it. -/
def Progresses (f : HistFile) : Prop :=
  (load_history f).2 ≠ [] ∨ (load_history f).1.topped = true ∨ (load_history f).1.pos < f.pos

/-- `get_prev_command` returns, and each `load_history` on its way does what it should, inside of its
buffer. -/
structure RecallEnds (h : History HistFile) : Prop where
  returns : ∃ n, (h.get_prev_command load n).isSome
  progress : ∀ n, ∀ f ∈ loadCalls n h, Progresses f
  bounds : ∀ n, ∀ f ∈ loadCalls n h, ∀ i ∈ bufIndices f, i < DEFAULT_LOAD + 1

/-- There is no command left to go back to, the start of the file is more than a chunk away, and there is no
newline in the chunk, but for its first and its last byte. -/
structure Stuck (h : History HistFile) : Prop where
  prev : h.prev = []
  topped : h.file.topped = false
  far : DEFAULT_LOAD < h.file.pos
  newline : ∀ i, 1 ≤ i → i < DEFAULT_LOAD - 1 →
    h.file.file.data.getD (h.file.pos - DEFAULT_LOAD + i) 0 ≠ chr '\n'

/-! ## The loop of `load_history` -/

section
variable {buf : List UInt8}

lemma scan_getD_zero {j : ℕ} (pos : ℕ) : ∀ (buf : List UInt8) nl, buf.getD j 0 = 0 →
    (scan pos buf nl).1.getD j 0 = 0 := by
  induction pos with
  | zero => exact fun _ _ h => h
  | succ pos ih =>
    intro buf nl h
    unfold scan
    split_ifs
    · refine ih _ _ ?_
      rw [List.getD_eq_getElem?_getD, List.getElem?_set]
      split_ifs
      · rfl
      · rfl
      · rw [← List.getD_eq_getElem?_getD, h]
    · exact ih _ _ h

lemma length_scan (pos : ℕ) : ∀ (buf : List UInt8) nl,
    (scan pos buf nl).1.length = buf.length := by
  induction pos with
  | zero => exact fun _ _ => rfl
  | succ pos ih =>
    intro buf nl
    unfold scan
    split_ifs
    · exact (ih _ _).trans List.length_set
    · exact ih _ _

/-- The newline found is not before the position. -/
lemma scan_nl_le (pos : ℕ) : ∀ (buf : List UInt8) nl, pos ≤ nl → (scan pos buf nl).2.1 ≤ nl := by
  induction pos with
  | zero => exact fun _ nl _ => Nat.le_refl nl
  | succ pos ih =>
    intro buf nl h
    unfold scan
    split_ifs
    · exact (ih _ (pos + 1) (Nat.le_succ pos)).trans h
    · exact ih _ nl (Nat.le_of_succ_le h)

/-- Nothing is found if there is no newline. -/
lemma scan_nil_iff (pos : ℕ) : ∀ (buf : List UInt8) nl, (scan pos buf nl).2.2 = [] ↔
    ∀ i, 1 ≤ i → i ≤ pos → buf.getD i 0 ≠ chr '\n' := by
  induction pos with
  | zero =>
    intro buf nl
    exact ⟨fun _ i h h' => by omega, fun _ => rfl⟩
  | succ pos ih =>
    intro buf nl
    unfold scan
    split_ifs with hc
    · exact ⟨fun h => by simp at h,
        fun h => (h (pos + 1) (by omega) (Nat.le_refl _) hc).elim⟩
    · rw [ih]
      refine ⟨fun h i hi hle => ?_, fun h i hi hle => h i hi (by omega)⟩
      rcases Nat.lt_or_eq_of_le hle with hlt | rfl
      · exact h i hi (by omega)
      · exact hc

/-- Then `last_nl` is as it was. -/
lemma scan_nl_eq (pos : ℕ) : ∀ (buf : List UInt8) nl, (scan pos buf nl).2.2 = [] →
    (scan pos buf nl).2.1 = nl := by
  induction pos with
  | zero => exact fun _ _ _ => rfl
  | succ pos ih =>
    intro buf nl h
    by_cases hc : buf.getD (pos + 1) 0 = chr '\n'
    · rw [scan, if_pos hc] at h
      cases h
    · rw [scan, if_neg hc] at h ⊢
      exact ih buf nl h

/-- A string ends at the next NUL. -/
lemma mem_stringIndices {i j n : ℕ} (hj : j ∈ stringIndices buf i) (hn : buf.getD n 0 = 0)
    (hlen : n < buf.length) (hi : i ≤ n) : j ≤ n := by
  obtain ⟨k, hk, rfl⟩ := List.mem_map.mp hj
  rw [List.mem_range] at hk
  have hle : (cstr buf i).length ≤ n - i := by
    by_contra hlt
    have hprefix := List.takeWhile_prefix (fun c : UInt8 => decide (c ≠ 0)) (l := buf.drop i)
    have hlt' : n - i < (buf.drop i).length := by
      rw [List.length_drop]
      omega
    have hget : (cstr buf i)[n - i] = (buf.drop i)[n - i] :=
      hprefix.getElem (show n - i < (cstr buf i).length by omega)
    have hne := List.mem_takeWhile_imp (List.getElem_mem (l := cstr buf i) (by omega : n - i < _))
    rw [hget, List.getElem_drop] at hne
    rw [List.getD_eq_getElem _ _ hlen] at hn
    simp [show i + (n - i) = n by omega, hn] at hne
  omega

/-- The commands found begin before the end. -/
lemma mem_scanIndices {n j : ℕ} (pos : ℕ) : ∀ buf : List UInt8, buf.getD n 0 = 0 → n < buf.length →
    pos + 2 ≤ n ∨ pos = 0 → j ∈ scanIndices pos buf → j ≤ n := by
  induction pos with
  | zero =>
    intro buf _ _ _ hj
    cases hj
  | succ pos ih =>
    intro buf hn hlen hpos hj
    have hnext : pos + 2 ≤ n := by omega
    unfold scanIndices at hj
    rcases List.mem_cons.mp hj with rfl | hj
    · omega
    split_ifs at hj
    · have hn' : (buf.set (pos + 1) 0).getD n 0 = 0 := by
        rw [List.getD_eq_getElem?_getD, List.getElem?_set_ne (by omega), ← List.getD_eq_getElem?_getD,
          hn]
      rcases List.mem_append.mp hj with hj | hj
      · exact mem_stringIndices hj hn' (by simpa using hlen) hnext
      · exact ih _ hn' (by simpa using hlen) (.inl (by omega)) hj
    · exact ih buf hn hlen (.inl (by omega)) hj

end

/-! ## `load_history` -/

section
variable {f : HistFile}

/-- The bytes that `load_history` reads. -/
def chunk (f : HistFile) : List UInt8 :=
  (f.file.data.drop (f.pos - DEFAULT_LOAD)).take (f.pos - (f.pos - DEFAULT_LOAD))

/-- The buffer that its loop starts with. -/
def chunkBuf (f : HistFile) : List UInt8 := (chunk f).set ((chunk f).length - 1) 0 ++ [0]

/-- A chunk has 255 bytes, or what is left. -/
lemma length_chunk (hle : f.pos ≤ f.file.data.length) :
    (chunk f).length = min f.pos DEFAULT_LOAD := by
  unfold chunk
  rw [List.length_take, List.length_drop]
  omega

lemma fileseek_load (hle : f.pos ≤ f.file.data.length) :
    f.file.fileseek ((f.pos : ℤ) - DEFAULT_LOAD) .set =
      (⟨f.file.data, f.pos - DEFAULT_LOAD⟩, f.pos - DEFAULT_LOAD) := by
  have hmin : min ((f.pos : ℤ) - DEFAULT_LOAD).toNat f.file.data.length = f.pos - DEFAULT_LOAD := by
    omega
  unfold File.fileseek
  dsimp only
  rw [hmin]

lemma fileread_load (f : HistFile) :
    (⟨f.file.data, f.pos - DEFAULT_LOAD⟩ : File).fileread (f.pos - (f.pos - DEFAULT_LOAD)) =
      (⟨f.file.data, f.pos - DEFAULT_LOAD + (chunk f).length⟩, chunk f) := rfl

/-- `load_history` works on one chunk. -/
lemma load_history_chunk (hle : f.pos ≤ f.file.data.length) :
    load_history f =
      let file : File := ⟨f.file.data, f.pos - DEFAULT_LOAD + (chunk f).length⟩
      let topped := f.topped || f.pos - DEFAULT_LOAD == 0
      let z := scan ((chunk f).length - 2) (chunkBuf f) ((chunk f).length - 1)
      if (chunk f).length = 0 then (⟨file, f.pos - DEFAULT_LOAD, topped⟩, [])
      else if topped then (⟨file, f.pos - DEFAULT_LOAD, topped⟩, z.2.2 ++ [cstr z.1 0])
      else (⟨file, f.pos - DEFAULT_LOAD + z.2.1 + 1, topped⟩, z.2.2) := by
  unfold load_history
  rw [fileseek_load hle]
  dsimp only
  rw [fileread_load]
  unfold chunkBuf
  dsimp only

lemma load_history_data (hle : f.pos ≤ f.file.data.length) :
    (load_history f).1.file.data = f.file.data := by
  rw [load_history_chunk hle]
  dsimp only
  split_ifs <;> rfl

lemma load_history_pos_le (hle : f.pos ≤ f.file.data.length) :
    (load_history f).1.pos ≤ f.pos := by
  have hlen := length_chunk hle
  have hnl := scan_nl_le ((chunk f).length - 2) (chunkBuf f) ((chunk f).length - 1) (by omega)
  rw [load_history_chunk hle]
  dsimp only
  split_ifs <;> dsimp only <;> omega

/-- The top of the file is reached at position 0. -/
lemma load_history_topped (hle : f.pos ≤ f.file.data.length) :
    (load_history f).1.topped = (f.topped || f.pos - DEFAULT_LOAD == 0) := by
  rw [load_history_chunk hle]
  dsimp only
  split_ifs <;> rfl

lemma getD_chunkBuf (hle : f.pos ≤ f.file.data.length) {i : ℕ} (hi : i + 1 < (chunk f).length) :
    (chunkBuf f).getD i 0 = f.file.data.getD (f.pos - DEFAULT_LOAD + i) 0 := by
  have hlen := length_chunk hle
  unfold chunkBuf
  rw [List.getD_append _ _ _ _ (by rw [List.length_set]; omega), List.getD_eq_getElem?_getD,
    List.getElem?_set_ne (by omega)]
  unfold chunk
  rw [List.getElem?_take_of_lt (by omega), List.getElem?_drop, ← List.getD_eq_getElem?_getD]

/-- There is nothing to be found in the chunk, and it is not the first of the file. -/
structure Fruitless (f : HistFile) : Prop where
  far : DEFAULT_LOAD < f.pos
  newline : ∀ i, 1 ≤ i → i < DEFAULT_LOAD - 1 →
    f.file.data.getD (f.pos - DEFAULT_LOAD + i) 0 ≠ chr '\n'

/-- A chunk without a whole line gives nothing. -/
lemma scan_chunk_nil_iff (hle : f.pos ≤ f.file.data.length) (hfar : DEFAULT_LOAD < f.pos) :
    (scan ((chunk f).length - 2) (chunkBuf f) ((chunk f).length - 1)).2.2 = [] ↔ Fruitless f := by
  have hlen : (chunk f).length = DEFAULT_LOAD := by
    rw [length_chunk hle]
    omega
  rw [scan_nil_iff]
  constructor
  · intro h
    refine ⟨hfar, fun i hi hlt => ?_⟩
    rw [← getD_chunkBuf hle (by omega)]
    exact h i hi (by omega)
  · intro h i hi hlt
    have hpos : 2 ≤ DEFAULT_LOAD := by decide
    rw [getD_chunkBuf hle (by omega)]
    exact h.newline i hi (by omega)

/-- A call without use changes neither the list nor the position. -/
theorem load_history_fruitless (hle : f.pos ≤ f.file.data.length) (htop : f.topped = false)
    (h : Fruitless f) : (load_history f).2 = [] ∧ (load_history f).1.pos = f.pos ∧
      (load_history f).1.topped = false := by
  have hfar := h.far
  have hpos : 0 < DEFAULT_LOAD := by decide
  have hlen : (chunk f).length = DEFAULT_LOAD := by
    rw [length_chunk hle]
    omega
  have hnil := (scan_chunk_nil_iff hle hfar).mpr h
  have hnl := scan_nl_eq _ _ _ hnil
  have htop' : (f.topped || f.pos - DEFAULT_LOAD == 0) = false := by
    rw [htop, Bool.false_or, beq_eq_false_iff_ne]
    omega
  refine ⟨?_, ?_, by rw [load_history_topped hle, htop']⟩
  · rw [load_history_chunk hle]
    dsimp only
    rw [if_neg (by omega), htop', if_neg Bool.false_ne_true]
    dsimp only
    exact hnil
  · rw [load_history_chunk hle]
    dsimp only
    rw [if_neg (by omega), htop', if_neg Bool.false_ne_true]
    dsimp only
    rw [hnl]
    omega

/-- Any other call loads a command, or there is nothing left to load. -/
theorem load_history_fruitful (hle : f.pos ≤ f.file.data.length) (h : ¬ Fruitless f) :
    (load_history f).2 ≠ [] ∨ (load_history f).1.topped = true := by
  by_cases hfar : DEFAULT_LOAD < f.pos
  · refine .inl fun hnil => h ((scan_chunk_nil_iff hle hfar).mp ?_)
    have hpos : 0 < DEFAULT_LOAD := by decide
    have hlen : (chunk f).length = DEFAULT_LOAD := by
      rw [length_chunk hle]
      omega
    rw [load_history_chunk hle] at hnil
    dsimp only at hnil
    rw [if_neg (by omega)] at hnil
    split_ifs at hnil
    · dsimp only at hnil
      exact (List.append_eq_nil_iff.mp hnil).1
    · dsimp only at hnil
      exact hnil
  · refine .inr ?_
    rw [load_history_topped hle, Nat.sub_eq_zero_of_le (by omega)]
    simp

/-- A load makes progress unless it is fruitless. -/
lemma progresses_iff (hle : f.pos ≤ f.file.data.length) (htop : f.topped = false) :
    Progresses f ↔ ¬ Fruitless f := by
  constructor
  · intro h hfruit
    obtain ⟨hnil, hpos, htop'⟩ := load_history_fruitless hle htop hfruit
    rcases h with h | h | h
    · exact h hnil
    · rw [htop'] at h
      cases h
    · omega
  · intro h
    rcases load_history_fruitful hle h with h | h
    · exact .inl h
    · exact .inr (.inl h)

/-- All bytes of the buffer that are used are there. -/
lemma bufIndices_lt (hle : f.pos ≤ f.file.data.length) : ∀ i ∈ bufIndices f, i < DEFAULT_LOAD + 1 := by
  have hlen := length_chunk hle
  have hindices : bufIndices f = List.range (chunk f).length ++
      if (chunk f).length = 0 then []
      else
        [(chunk f).length - 1, (chunk f).length] ++
          scanIndices ((chunk f).length - 2) (chunkBuf f) ++
          if f.topped || f.pos - DEFAULT_LOAD == 0 then
            stringIndices (scan ((chunk f).length - 2) (chunkBuf f) ((chunk f).length - 1)).1 0
          else [] := by
    unfold bufIndices
    rw [fileseek_load hle]
    dsimp only
    rw [fileread_load]
    unfold chunkBuf
    dsimp only
  have hbuf : (chunkBuf f).length = (chunk f).length + 1 := by simp [chunkBuf]
  -- the NUL behind what was read
  have hnul : (chunkBuf f).getD (chunk f).length 0 = 0 := by
    unfold chunkBuf
    rw [List.getD_append_right _ _ _ _ (by rw [List.length_set]), List.length_set, Nat.sub_self]
    rfl
  have hloop : ∀ i ∈ [(chunk f).length - 1, (chunk f).length] ++
      scanIndices ((chunk f).length - 2) (chunkBuf f), i ≤ (chunk f).length := by
    intro i hi
    rcases List.mem_append.mp hi with hi | hi
    · simp only [List.mem_cons, List.not_mem_nil, or_false] at hi
      omega
    · exact mem_scanIndices _ (chunkBuf f) hnul (by omega) (by omega) hi
  intro i hi
  rw [hindices] at hi
  rcases List.mem_append.mp hi with hi | hi
  · rw [List.mem_range] at hi
    omega
  split_ifs at hi with hzero htop
  · cases hi
  · rcases List.mem_append.mp hi with hi | hi
    · have hle := hloop i hi
      omega
    · have hscan := scan_getD_zero ((chunk f).length - 2) (chunkBuf f) ((chunk f).length - 1) hnul
      have hle := mem_stringIndices hi hscan (by rw [length_scan]; omega) (Nat.zero_le _)
      omega
  · rw [List.append_nil] at hi
    have hle := hloop i hi
    omega

end

/-! ## Runs -/

/-- `history.pos` is a place of the file. -/
def Placed (h : History HistFile) : Prop := h.file.pos ≤ h.file.file.data.length

/-- The position is at the end of the file. -/
lemma placed_init (data : List UInt8) : Placed (init_history data) := by
  have hle := load_history_pos_le (f := ⟨⟨data, 0⟩, data.length, false⟩) (Nat.le_refl _)
  have hdata := load_history_data (f := ⟨⟨data, 0⟩, data.length, false⟩) (Nat.le_refl _)
  show (load_history _).1.pos ≤ (load_history _).1.file.data.length
  rw [hdata]
  exact hle

lemma Placed.load {h : History HistFile} (hp : Placed h) (prev : List Str) :
    Placed { h with file := (load_history h.file).1, prev := prev } := by
  show (load_history h.file).1.pos ≤ (load_history h.file).1.file.data.length
  rw [load_history_data hp]
  exact (load_history_pos_le hp).trans hp

lemma get_prev_command_placed (n : ℕ) : ∀ {h h' : History HistFile} {com : Option Str}, Placed h →
    h.get_prev_command load n = some (h', com) → Placed h' := by
  induction n with
  | zero =>
    intro h h' com _ hget
    cases hget
  | succ n ih =>
    intro h h' com hp hget
    unfold History.get_prev_command at hget
    cases hprev : h.prev with
    | nil =>
      rw [hprev] at hget
      dsimp only at hget
      unfold load at hget
      split_ifs at hget
      · cases hget
        exact hp
      · exact ih (hp.load _) hget
    | cons c prev =>
      rw [hprev] at hget
      cases hget
      exact hp

lemma log_command_placed {h : History HistFile} (hp : Placed h) (buf : Str) :
    Placed (log_command buf h) := by
  unfold log_command
  dsimp only
  split_ifs
  · exact hp
  · show h.file.pos ≤ ((h.file.file.fileseek 0 .eof).1.filewrite _).data.length
    rw [write_eof]
    split_ifs
    · rw [List.length_append]
      exact hp.trans (Nat.le_add_right _ _)
    · exact hp

lemma step_placed {h h' : History HistFile} {op : HistoryOp} (hp : Placed h)
    (hstep : op.step h = some h') : Placed h' := by
  cases op with
  | log line =>
    cases hstep
    exact log_command_placed hp _
  | prev =>
    obtain ⟨x, hget, rfl⟩ := Option.map_eq_some_iff.mp hstep
    exact get_prev_command_placed 2 hp hget
  | next =>
    cases hstep
    unfold History.get_next_command
    split
    · exact hp
    · exact hp
  | restart =>
    cases hstep
    exact placed_init _

/-- By induction on the operations. -/
lemma run_placed (ops : List HistoryOp) : ∀ {h h' : History HistFile}, Placed h →
    ops.foldlM HistoryOp.step h = some h' → Placed h' := by
  induction ops with
  | nil =>
    intro h h' hp hrun
    cases hrun
    exact hp
  | cons op ops ih =>
    intro h h' hp hrun
    rw [List.foldlM_cons] at hrun
    obtain ⟨h₁, hstep, hrun⟩ := Option.bind_eq_some_iff.mp hrun
    exact ih (step_placed hp hstep) hrun

/-! ## Recalling -/

section
variable {h : History HistFile}

/-- Nothing older is loaded and nothing will be. -/
lemma stuck_iff : Stuck h ↔ h.prev = [] ∧ h.file.topped = false ∧ Fruitless h.file :=
  ⟨fun hs => ⟨hs.prev, hs.topped, hs.far, hs.newline⟩,
    fun hs => ⟨hs.1, hs.2.1, hs.2.2.far, hs.2.2.newline⟩⟩

/-- Nothing is loaded while there is an older command. -/
lemma loadCalls_of_not_nil (n : ℕ) (hprev : h.prev ≠ []) : loadCalls n h = [] := by
  cases n with
  | zero => rfl
  | succ n =>
    unfold loadCalls
    cases hp : h.prev with
    | nil => exact (hprev hp).elim
    | cons c prev => rfl

lemma loadCalls_of_topped (n : ℕ) (htop : h.file.topped = true) : loadCalls n h = [] := by
  cases n with
  | zero => rfl
  | succ n =>
    unfold loadCalls
    split
    · rw [if_pos htop]
    · rfl

/-- It loads once, and what is left then is no call to load. -/
lemma loadCalls_eq (n : ℕ) (hprev : h.prev = []) (htop : h.file.topped = false)
    (hnext : (load_history h.file).2 ≠ [] ∨ (load_history h.file).1.topped = true) :
    ∀ f ∈ loadCalls n h, f = h.file := by
  intro f hf
  cases n with
  | zero => cases hf
  | succ n =>
    unfold loadCalls at hf
    rw [hprev] at hf
    dsimp only at hf
    rw [htop, if_neg Bool.false_ne_true] at hf
    rcases List.mem_cons.mp hf with rfl | hf
    · rfl
    · rcases hnext with hnext | hnext
      · rw [loadCalls_of_not_nil n hnext] at hf
        cases hf
      · rw [loadCalls_of_topped n hnext] at hf
        cases hf

/-- In both cases it returns at once. -/
lemma get_prev_command_one (n : ℕ) (h : History HistFile)
    (hnext : h.prev ≠ [] ∨ h.file.topped = true) : (h.get_prev_command load (n + 1)).isSome := by
  unfold History.get_prev_command
  cases hprev : h.prev with
  | nil =>
    have htop := hnext.resolve_left fun hne => hne hprev
    rw [load, if_pos htop]
    rfl
  | cons c prev => rfl

/-- Otherwise it loads and tries again. -/
lemma get_prev_command_load (n : ℕ) (hprev : h.prev = []) (htop : h.file.topped = false) :
    h.get_prev_command load (n + 1) = History.get_prev_command load n
      { h with file := (load_history h.file).1, prev := (load_history h.file).2 } := by
  rw [History.get_prev_command, hprev]
  dsimp only
  rw [load, htop, if_neg Bool.false_ne_true]

/-- A call without use leaves the history stuck, so that there is another one. -/
theorem get_prev_command_stuck (n : ℕ) : ∀ {h : History HistFile}, Placed h → Stuck h →
    h.get_prev_command load n = none := by
  induction n with
  | zero => exact fun _ _ => rfl
  | succ n ih =>
    intro h hp hs
    obtain ⟨hprev, htop, hfruit⟩ := stuck_iff.mp hs
    obtain ⟨hnil, hpos, htop'⟩ := load_history_fruitless hp htop hfruit
    rw [get_prev_command_load n hprev htop]
    refine ih (hp.load _) (stuck_iff.mpr ⟨hnil, htop', ?_, ?_⟩)
    · exact hpos ▸ hfruit.far
    · intro i hi hlt
      show (load_history h.file).1.file.data.getD ((load_history h.file).1.pos - DEFAULT_LOAD + i) 0 ≠ _
      rw [hpos, load_history_data hp]
      exact hfruit.newline i hi hlt

/-- With a second try `get_prev_command` returns, unless the history is stuck. -/
theorem recall_isSome_iff (hp : Placed h) {n : ℕ} (hn : 2 ≤ n) :
    (h.get_prev_command load n).isSome ↔ ¬ Stuck h := by
  constructor
  · intro hsome hs
    rw [get_prev_command_stuck n hp hs] at hsome
    cases hsome
  · intro hs
    obtain ⟨n, rfl⟩ := Nat.exists_eq_add_of_le' hn
    by_cases hnone : h.prev ≠ [] ∨ h.file.topped = true
    · exact get_prev_command_one (n + 1) h hnone
    · rw [not_or, not_not, Bool.not_eq_true] at hnone
      obtain ⟨hprev, htop⟩ := hnone
      have hfruit : ¬ Fruitless h.file := fun hfruit => hs (stuck_iff.mpr ⟨hprev, htop, hfruit⟩)
      rw [get_prev_command_load (n + 1) hprev htop]
      exact get_prev_command_one n _ (load_history_fruitful hp hfruit)

/-- It returns unless it is stuck. -/
lemma recallEnds_iff (hp : Placed h) : RecallEnds h ↔ ¬ Stuck h := by
  constructor
  · intro hends hs
    obtain ⟨n, hn⟩ := hends.returns
    rw [get_prev_command_stuck n hp hs] at hn
    cases hn
  · intro hs
    have hreturns : ∃ n, (h.get_prev_command load n).isSome :=
      ⟨2, (recall_isSome_iff hp (Nat.le_refl 2)).mpr hs⟩
    by_cases hnone : h.prev ≠ [] ∨ h.file.topped = true
    · have hcalls : ∀ n, loadCalls n h = [] := by
        intro n
        rcases hnone with hprev | htop
        · exact loadCalls_of_not_nil n hprev
        · exact loadCalls_of_topped n htop
      refine ⟨hreturns, fun n f hf => ?_, fun n f hf => ?_⟩
      · rw [hcalls n] at hf
        cases hf
      · rw [hcalls n] at hf
        cases hf
    · rw [not_or, not_not, Bool.not_eq_true] at hnone
      obtain ⟨hprev, htop⟩ := hnone
      have hfruit : ¬ Fruitless h.file := fun hfruit => hs (stuck_iff.mpr ⟨hprev, htop, hfruit⟩)
      have hnext := load_history_fruitful hp hfruit
      refine ⟨hreturns, fun n f hf => ?_, fun n f hf => ?_⟩
      · rw [loadCalls_eq n hprev htop hnext f hf]
        exact (progresses_iff hp htop).mpr hfruit
      · rw [loadCalls_eq n hprev htop hnext f hf]
        exact bufIndices_lt hp

end

/-- In every state that a shell reaches, recalling a command ends if the history is not stuck, and only
then. The buffer is not overrun at the start either. -/
theorem recall_ends_iff (data : List UInt8) (ops : List HistoryOp) (h : History HistFile)
    (hrun : ops.foldlM HistoryOp.step (init_history data) = some h) :
    (∀ i ∈ bufIndices ⟨⟨data, 0⟩, data.length, false⟩, i < DEFAULT_LOAD + 1) ∧
    (RecallEnds h ↔ ¬ Stuck h) :=
  ⟨bufIndices_lt (Nat.le_refl _), recallEnds_iff (run_placed ops (placed_init data) hrun)⟩

/-- Three lines of 200 bytes. -/
@[irreducible] def threeLines : List UInt8 :=
  [chr 'a', chr 'b', chr 'c'].flatMap fun c => List.replicate 200 c ++ [chr '\n']

/-- The third line is recalled, so that the second one has to be loaded. Its newline is in the chunk. -/
theorem recall_ends_threeLines : ∃ h, [HistoryOp.prev].foldlM HistoryOp.step
    (init_history threeLines) = some h ∧ h.prev = [] ∧ h.file.topped = false ∧ RecallEnds h := by
  have hrun : (([HistoryOp.prev].foldlM HistoryOp.step (init_history threeLines)).map fun h =>
      (h.prev, h.file.topped, h.file.file.data.getD (h.file.pos - DEFAULT_LOAD + 53) 0)) =
        some ([], false, chr '\n') := by decide +kernel
  obtain ⟨h, hh, heq⟩ := Option.map_eq_some_iff.mp hrun
  simp only [Prod.mk.injEq] at heq
  obtain ⟨hprev, htop, hnl⟩ := heq
  refine ⟨h, hh, hprev, htop, (recall_ends_iff threeLines [.prev] h hh).2.mpr fun hs => ?_⟩
  exact hs.newline 53 (by decide) (by decide) hnl

/-- A line of 300 bytes. -/
@[irreducible] def longLine : List UInt8 := List.replicate 300 (chr 'a') ++ [chr '\n']

/-- A shell that starts may be stuck. -/
lemma stuck_init {data : List UInt8} (h : Fruitless ⟨⟨data, 0⟩, data.length, false⟩) :
    Stuck (init_history data) := by
  obtain ⟨hnil, hpos, htop⟩ := load_history_fruitless (Nat.le_refl _) rfl h
  refine stuck_iff.mpr ⟨hnil, htop, ?_, fun i hi hlt => ?_⟩
  · show DEFAULT_LOAD < (load_history _).1.pos
    rw [hpos]
    exact h.far
  · show (load_history _).1.file.data.getD ((load_history _).1.pos - DEFAULT_LOAD + i) 0 ≠ _
    rw [hpos, load_history_data (Nat.le_refl _)]
    exact h.newline i hi hlt

lemma stuck_longLine : Stuck (init_history longLine) := by
  have hlen : longLine.length = 301 := by
    rw [longLine, List.length_append, List.length_replicate]
    rfl
  refine stuck_init ⟨?_, fun i hi hlt => ?_⟩
  · show DEFAULT_LOAD < longLine.length
    rw [hlen]
    decide
  · dsimp only
    unfold DEFAULT_LOAD at hlt ⊢
    have hin : 301 - 255 + i < (List.replicate 300 (chr 'a')).length := by
      rw [List.length_replicate]
      omega
    rw [hlen, longLine, List.getD_append _ _ _ _ hin, List.getD_replicate _ (by omega)]
    exact show chr 'a' ≠ chr '\n' by decide

/-- The first recall does not return. -/
theorem not_recallEnds_longLine : ¬ RecallEnds (init_history longLine) :=
  fun hends => (recallEnds_iff (placed_init longLine)).mp hends stuck_longLine

end Sh
end OhMyXv6
