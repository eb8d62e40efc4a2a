import Mathlib.Data.List.GetD
import Mathlib.Logic.Function.Basic
import OhMyXv6.Lib.Runs

/-!
# `console.c`: the upload of a font

A process that wants another font puts the console into a loading mode with an ioctl and then writes
the glyphs to it. The mode belongs to the device and not to an open file, so the writes of all
processes are font data until the font is complete.

Each call holds `cons.lock` from its first access to the end, so a call is a single step. Of the console
the model has the font and what is printed; the colours that `consolewrite` prints with are an argument.
-/

namespace OhMyXv6
namespace Console
namespace Font

/-- 256 glyphs of 16 bytes. -/
def CONSOLE_FONT_BYTES : ℕ := 4096

/-- A call of `consputc_color`. `pid` is history: the process whose byte it is. -/
structure Cell where
  pid : ℕ
  byte : UInt8
  attr : ℕ
deriving DecidableEq

/-- A call of `vgaLoadFont`, or of `vgaLoadDefaultFont`. -/
inductive Load where
  | font (bytes : List UInt8)
  | default
deriving DecidableEq

/-- What the console keeps of a font that is being loaded. -/
structure Cons where
  font_buf : ℕ → UInt8
  font_loading : Bool
  font_offset : ℕ
  /-- What the display was loaded with, the last font last. -/
  loads : List Load
  /-- What was printed. -/
  shown : List Cell

/-- The requests of `consoleioctl` that are about fonts. -/
inductive Request where
  | CONSOLE_FONT_BEGIN
  | CONSOLE_FONT_CANCEL
  | CONSOLE_FONT_DEFAULT
deriving DecidableEq

/-- A call on the console, by one of the processes. -/
inductive Act where
  | ioctl (pid : ℕ) (request : Request)
  | write (pid : ℕ) (attr : ℕ) (buf : List UInt8)
deriving DecidableEq

namespace Cons

/-- `font_buf[font_offset++] = b`, and what follows when the font is complete. -/
def store (s : Cons) (b : UInt8) : Cons :=
  let buf := Function.update s.font_buf s.font_offset b
  -- the font is complete and is loaded
  if s.font_offset + 1 = CONSOLE_FONT_BYTES then
    { s with
      font_buf := buf
      font_loading := false
      font_offset := 0
      loads := s.loads ++ [.font ((List.range CONSOLE_FONT_BYTES).map buf)] }
  else { s with font_buf := buf, font_offset := s.font_offset + 1 }

/-- `for (int i = 0; i < n && font_loading; i++)`. -/
def storeLoop (s : Cons) : List UInt8 → Cons
  | [] => s
  | b :: bs => if s.font_loading then storeLoop (s.store b) bs else s

/-- `buf` has the `n` bytes that are to be written. -/
def consolewrite (s : Cons) (pid attr : ℕ) (buf : List UInt8) : Cons :=
  if s.font_loading then s.storeLoop buf
  else { s with shown := s.shown ++ buf.map fun b => ⟨pid, b, attr⟩ }

/-- `consoleioctl`, as far as it is about fonts. -/
def consoleioctl (s : Cons) : Request → Cons
  | .CONSOLE_FONT_BEGIN => { s with font_loading := true, font_offset := 0 }
  | .CONSOLE_FONT_CANCEL => { s with font_loading := false, font_offset := 0 }
  | .CONSOLE_FONT_DEFAULT =>
    { s with font_loading := false, font_offset := 0, loads := s.loads ++ [.default] }

/-- One call. None of them waits. -/
def next (s : Cons) : Act → Option Cons
  | .ioctl _ request => some (s.consoleioctl request)
  | .write pid attr buf => some (s.consolewrite pid attr buf)

end Cons

/-! ## What is asked of an upload -/

/-- The bytes that process `u` writes. -/
def sent (u : ℕ) : List Act → List UInt8
  | [] => []
  | .ioctl _ _ :: acts => sent u acts
  | .write pid _ buf :: acts => (if pid = u then buf else []) ++ sent u acts

/-- The bytes that the other processes write, as they are to be printed. -/
def output (u : ℕ) : List Act → List Cell
  | [] => []
  | .ioctl _ _ :: acts => output u acts
  | .write pid attr buf :: acts =>
    (if pid = u then [] else buf.map fun b => ⟨pid, b, attr⟩) ++ output u acts

/-- What is printed for the other processes. -/
def Cons.printed (s : Cons) (u : ℕ) : List Cell := s.shown.filter fun c => c.pid ≠ u

/-- Process `u` makes the ioctl once and writes only after it; the others only write. -/
def Orderly (u : ℕ) : Bool → List Act → Prop
  | _, [] => True
  | begun, .ioctl pid request :: acts =>
    pid = u ∧ request = .CONSOLE_FONT_BEGIN ∧ begun = false ∧ Orderly u true acts
  | begun, .write pid _ _ :: acts => (pid = u → begun = true) ∧ Orderly u begun acts

/-- Process `u` uploads a font, in pieces of any size, and the others write what they like. -/
structure Upload (u : ℕ) (acts : List Act) : Prop where
  orderly : Orderly u false acts
  begun : .ioctl u .CONSOLE_FONT_BEGIN ∈ acts
  length : (sent u acts).length = CONSOLE_FONT_BYTES

/-- The display gets the font that was sent and all that the others print. -/
def Isolated (u : ℕ) (s : Cons) (acts : List Act) : Prop :=
  ∃ t, Runs.run Cons.next s acts = some t ∧ t.loads = s.loads ++ [.font (sent u acts)] ∧
    t.printed u = s.printed u ++ output u acts

/-- The step is no write of another process into the font. -/
def Undisturbed (u : ℕ) (s : Cons) : Act → Prop
  | .ioctl _ _ => True
  | .write pid _ buf => pid ≠ u → buf ≠ [] → s.font_loading = false

instance (u : ℕ) (s : Cons) : (a : Act) → Decidable (Undisturbed u s a)
  | .ioctl _ _ => isTrue trivial
  | .write _ _ _ => inferInstanceAs (Decidable (_ → _ → _))

section
variable {s t : Cons} {u : ℕ} {a : Act} {acts : List Act}

/-! ## What is printed -/

lemma sent_cons (u : ℕ) (a : Act) (acts : List Act) :
    sent u (a :: acts) = sent u [a] ++ sent u acts := by
  cases a with
  | ioctl pid request => rfl
  | write pid attr buf => simp [sent]

lemma output_cons (u : ℕ) (a : Act) (acts : List Act) :
    output u (a :: acts) = output u [a] ++ output u acts := by
  cases a with
  | ioctl pid request => rfl
  | write pid attr buf => simp [output]

/-- Storing a byte of a font shows nothing. -/
lemma store_shown (s : Cons) (b : UInt8) : (s.store b).shown = s.shown := by
  unfold Cons.store
  dsimp only
  split <;> rfl

lemma storeLoop_shown (s : Cons) (buf : List UInt8) : (s.storeLoop buf).shown = s.shown := by
  induction buf generalizing s with
  | nil => rfl
  | cons b bs ih =>
    unfold Cons.storeLoop
    split
    · rw [ih, store_shown]
    · rfl

/-- While a font is loaded nothing is printed. -/
lemma printed_next (h : s.next a = some t) :
    t.printed u = s.printed u ++ if s.font_loading then [] else output u [a] := by
  cases a with
  | ioctl pid request =>
    obtain rfl := Option.some.inj h
    have hshown : (s.consoleioctl request).shown = s.shown := by cases request <;> rfl
    simp [Cons.printed, hshown, output]
  | write pid attr buf =>
    obtain rfl := Option.some.inj h
    unfold Cons.printed Cons.consolewrite
    by_cases hload : s.font_loading = true
    · rw [if_pos hload, if_pos hload, storeLoop_shown, List.append_nil]
    · rw [if_neg hload, if_neg hload, List.filter_append]
      congr 1
      by_cases hpid : pid = u
      · simp [output, hpid]
      · simp [output, hpid]

/-- Outside a load everything is printed. -/
lemma printed_idle (hload : s.font_loading = false) (h : s.next a = some t) :
    t.printed u = s.printed u ++ output u [a] := by
  rw [printed_next h, if_neg (by rw [hload]; exact Bool.false_ne_true)]

/-- No more is printed than was written. -/
lemma length_printed_le (hrun : Runs.run Cons.next s acts = some t) :
    (t.printed u).length ≤ (s.printed u).length + (output u acts).length := by
  induction acts generalizing s with
  | nil =>
    rw [Runs.run_nil, Option.some.injEq] at hrun
    rw [hrun]
    exact Nat.le_add_right _ _
  | cons a acts ih =>
    obtain ⟨r, hr, hrun⟩ := Runs.run_cons_eq_some.mp hrun
    have hstep := printed_next (u := u) hr
    have hrest := ih hrun
    have hlen : (if s.font_loading then [] else output u [a]).length ≤ (output u [a]).length := by
      split
      · exact Nat.zero_le _
      · exact Nat.le_refl _
    rw [hstep, List.length_append] at hrest
    rw [output_cons, List.length_append]
    omega

/-- What is written into the font is missing from the screen. -/
lemma length_printed_lt (hrun : Runs.run Cons.next s acts = some t)
    (h : ¬ Runs.Along Cons.next (Undisturbed u) s acts) :
    (t.printed u).length < (s.printed u).length + (output u acts).length := by
  induction acts generalizing s with
  | nil => exact absurd trivial h
  | cons a acts ih =>
    obtain ⟨r, hr, hrun⟩ := Runs.run_cons_eq_some.mp hrun
    have hstep := printed_next (u := u) hr
    rw [Runs.along_cons_of_some hr, not_and_or] at h
    rw [output_cons, List.length_append]
    rcases h with hnow | hlater
    · -- a write of another process while the font is loaded
      have hrest := length_printed_le (u := u) hrun
      have hlost : s.font_loading = true ∧ 0 < (output u [a]).length := by
        cases a with
        | ioctl pid request => exact absurd trivial hnow
        | write pid attr buf =>
          simp only [Undisturbed, Classical.not_imp, Bool.not_eq_false] at hnow
          obtain ⟨hpid, hbuf, hload⟩ := hnow
          refine ⟨hload, ?_⟩
          rw [output, if_neg hpid, output, List.append_nil, List.length_map]
          exact List.length_pos_iff.mpr hbuf
      rw [hstep, if_pos hlost.1, List.append_nil] at hrest
      have := hlost.2
      omega
    · have hrest := ih hrun hlater
      have hlen : (if s.font_loading then [] else output u [a]).length
          ≤ (output u [a]).length := by
        split
        · exact Nat.zero_le _
        · exact Nat.le_refl _
      rw [hstep, List.length_append] at hrest
      omega

/-! ## What is loaded -/

/-- The console is waiting for the rest of a font, and `got` has arrived. -/
structure Loading (s : Cons) (got : List UInt8) : Prop where
  font_loading : s.font_loading = true
  font_offset : s.font_offset = got.length
  lt : got.length < CONSOLE_FONT_BYTES
  font_buf : ∀ i < got.length, s.font_buf i = got.getD i 0

/-- The bytes read from a buffer are those stored. -/
lemma range_map_eq {buf : ℕ → UInt8} {got : List UInt8}
    (h : ∀ i < got.length, buf i = got.getD i 0) : (List.range got.length).map buf = got := by
  apply List.ext_getElem
  · simp
  · intro i hi hi'
    rw [List.getElem_map, List.getElem_range, h i hi', List.getD_eq_getElem got 0 hi']

/-- One more byte, and the font is not complete. -/
lemma Loading.store {got : List UInt8} {b : UInt8} (h : Loading s got)
    (hlt : got.length + 1 < CONSOLE_FONT_BYTES) :
    Loading (s.store b) (got ++ [b]) ∧ (s.store b).loads = s.loads := by
  have hstore : s.store b = { s with
      font_buf := Function.update s.font_buf s.font_offset b
      font_offset := s.font_offset + 1 } := by
    unfold Cons.store
    rw [if_neg (by rw [h.font_offset]; omega)]
  rw [hstore]
  refine ⟨⟨h.font_loading, ?_, by simpa using hlt, fun i hi => ?_⟩, rfl⟩
  · show s.font_offset + 1 = _
    rw [h.font_offset, List.length_append, List.length_singleton]
  · rw [List.length_append, List.length_singleton] at hi
    show Function.update s.font_buf s.font_offset b i = _
    rw [h.font_offset]
    by_cases heq : i = got.length
    · rw [heq, Function.update_self, List.getD_append_right _ _ _ _ (Nat.le_refl _), Nat.sub_self]
      rfl
    · rw [Function.update_of_ne heq, List.getD_append _ _ _ _ (by omega)]
      exact h.font_buf i (by omega)

/-- The last byte. -/
lemma Loading.store_last {got : List UInt8} {b : UInt8} (h : Loading s got)
    (hlast : got.length + 1 = CONSOLE_FONT_BYTES) :
    (s.store b).font_loading = false ∧ (s.store b).loads = s.loads ++ [.font (got ++ [b])] := by
  have hstore : s.store b = { s with
      font_buf := Function.update s.font_buf s.font_offset b
      font_loading := false
      font_offset := 0
      loads := s.loads ++ [.font ((List.range CONSOLE_FONT_BYTES).map
        (Function.update s.font_buf s.font_offset b))] } := by
    unfold Cons.store
    rw [if_pos (by rw [h.font_offset]; exact hlast)]
  have hfont : (List.range CONSOLE_FONT_BYTES).map (Function.update s.font_buf s.font_offset b)
      = got ++ [b] := by
    rw [← hlast, List.range_succ, List.map_append, List.map_singleton, h.font_offset,
      Function.update_self]
    congr 1
    conv_rhs => rw [← range_map_eq h.font_buf]
    apply List.map_congr_left
    intro i hi
    rw [List.mem_range] at hi
    rw [Function.update_of_ne (by omega)]
  rw [hstore, hfont]
  exact ⟨rfl, rfl⟩

/-- A piece of the font. -/
lemma Loading.storeLoop {got : List UInt8} (h : Loading s got) (buf : List UInt8)
    (hle : got.length + buf.length ≤ CONSOLE_FONT_BYTES) :
    (got.length + buf.length < CONSOLE_FONT_BYTES ∧ Loading (s.storeLoop buf) (got ++ buf) ∧
      (s.storeLoop buf).loads = s.loads) ∨
    (got.length + buf.length = CONSOLE_FONT_BYTES ∧ (s.storeLoop buf).font_loading = false ∧
      (s.storeLoop buf).loads = s.loads ++ [.font (got ++ buf)]) := by
  induction buf generalizing s got with
  | nil =>
    refine .inl ⟨by simpa using h.lt, ?_, rfl⟩
    rw [List.append_nil]
    exact h
  | cons b bs ih =>
    rw [List.length_cons] at hle ⊢
    have hloop : s.storeLoop (b :: bs) = (s.store b).storeLoop bs := if_pos h.font_loading
    rw [hloop, List.append_cons]
    by_cases hlast : got.length + 1 = CONSOLE_FONT_BYTES
    · obtain rfl : bs = [] := List.length_eq_zero_iff.mp (by omega)
      obtain ⟨hload, hloads⟩ := h.store_last (b := b) hlast
      rw [List.append_nil]
      exact .inr ⟨by simpa using hlast, hload, hloads⟩
    · obtain ⟨hstore, hloads⟩ := h.store (b := b) (by omega)
      have hrest := ih hstore (by rw [List.length_append, List.length_singleton]; omega)
      rw [List.length_append, List.length_singleton, hloads] at hrest
      rcases hrest with ⟨hlt, hl⟩ | ⟨heq, hl⟩
      · exact .inl ⟨by omega, hl⟩
      · exact .inr ⟨by omega, hl⟩

/-! ## Whole uploads -/

lemma output_own {attr : ℕ} {buf : List UInt8} : output u [.write u attr buf] = [] := by
  simp [output]

lemma sent_own {attr : ℕ} {buf : List UInt8} : sent u [.write u attr buf] = buf := by
  simp [sent]

lemma sent_other {pid attr : ℕ} {buf : List UInt8} (h : pid ≠ u) :
    sent u [.write pid attr buf] = [] := by
  simp [sent, h]

/-- Outside a load `consolewrite` begins none. -/
lemma consolewrite_idle (pid attr : ℕ) (buf : List UInt8) (h : s.font_loading = false) :
    (s.consolewrite pid attr buf).font_loading = false ∧
      (s.consolewrite pid attr buf).loads = s.loads := by
  unfold Cons.consolewrite
  rw [if_neg (by rw [h]; exact Bool.false_ne_true)]
  exact ⟨h, rfl⟩

/-- No font is loaded, and none is any more. -/
lemma run_complete (hload : s.font_loading = false) (hord : Orderly u true acts) :
    ∃ t, Runs.run Cons.next s acts = some t ∧ t.loads = s.loads ∧
      t.printed u = s.printed u ++ output u acts := by
  induction acts generalizing s with
  | nil => exact ⟨s, rfl, rfl, (List.append_nil _).symm⟩
  | cons a acts ih =>
    cases a with
    | ioctl pid request => exact absurd hord.2.2.1 (by decide)
    | write pid attr buf =>
      obtain ⟨hidle, hloads⟩ := consolewrite_idle pid attr buf hload
      obtain ⟨t, hrun, ht, hp⟩ := ih hidle hord.2
      have hstep := printed_idle (u := u) (a := .write pid attr buf) hload rfl
      refine ⟨t, Runs.run_cons_eq_some.mpr ⟨_, rfl, hrun⟩, ht.trans hloads, ?_⟩
      rw [hp, hstep, List.append_assoc, ← output_cons]

/-- The rest of a font arrives. -/
lemma run_loading {got : List UInt8} (h : Loading s got) (hord : Orderly u true acts)
    (hlen : got.length + (sent u acts).length = CONSOLE_FONT_BYTES)
    (hok : Runs.Along Cons.next (Undisturbed u) s acts) :
    ∃ t, Runs.run Cons.next s acts = some t ∧ t.loads = s.loads ++ [.font (got ++ sent u acts)] ∧
      t.printed u = s.printed u ++ output u acts := by
  induction acts generalizing s got with
  | nil =>
    have hlt := h.lt
    have hnil : (sent u []).length = 0 := rfl
    omega
  | cons a acts ih =>
    cases a with
    | ioctl pid request => exact absurd hord.2.2.1 (by decide)
    | write pid attr buf =>
      have hwrite : s.consolewrite pid attr buf = s.storeLoop buf := if_pos h.font_loading
      have hstep := printed_next (u := u) (a := .write pid attr buf) (s := s) rfl
      rw [if_pos h.font_loading, List.append_nil, hwrite] at hstep
      have hok' : Runs.Along Cons.next (Undisturbed u) (s.storeLoop buf) acts :=
        hok.2 _ (by rw [Cons.next, hwrite])
      have hnext : s.next (.write pid attr buf) = some (s.storeLoop buf) := by
        rw [Cons.next, hwrite]
      rw [sent_cons] at hlen ⊢
      rw [output_cons]
      by_cases hpid : pid = u
      · subst hpid
        rw [sent_own, List.length_append] at hlen
        rw [sent_own, output_own, List.nil_append]
        rcases h.storeLoop buf (by omega) with ⟨hlt, hnew, hloads⟩ | ⟨heq, hidle, hloads⟩
        · obtain ⟨t, hrun, ht, hp⟩ := ih hnew hord.2
            (by rw [List.length_append]; omega) hok'
          refine ⟨t, Runs.run_cons_eq_some.mpr ⟨_, hnext, hrun⟩, ?_, ?_⟩
          · rw [ht, hloads, List.append_assoc]
          · rw [hp, hstep]
        · -- the piece completes the font, and nothing is left to be sent
          have hnil : sent pid acts = [] := List.length_eq_zero_iff.mp (by omega)
          obtain ⟨t, hrun, ht, hp⟩ := run_complete hidle hord.2
          refine ⟨t, Runs.run_cons_eq_some.mpr ⟨_, hnext, hrun⟩, ?_, ?_⟩
          · rw [ht, hloads, hnil, List.append_nil]
          · rw [hp, hstep]
      · -- another process writes nothing
        have hbuf : buf = [] := by
          by_contra hne
          have hidle := hok.1 hpid hne
          rw [h.font_loading] at hidle
          cases hidle
        subst hbuf
        rw [sent_other hpid, List.nil_append] at hlen ⊢
        have hout : output u [.write pid attr []] = [] := by simp [output]
        rw [hout, List.nil_append]
        obtain ⟨t, hrun, ht, hp⟩ := ih h hord.2 hlen hok'
        exact ⟨t, Runs.run_cons_eq_some.mpr ⟨_, hnext, hrun⟩, ht, hp⟩

/-- From a console on which no font is loaded. -/
lemma run_upload (hload : s.font_loading = false) (hord : Orderly u false acts)
    (hbegun : .ioctl u .CONSOLE_FONT_BEGIN ∈ acts)
    (hlen : (sent u acts).length = CONSOLE_FONT_BYTES)
    (hok : Runs.Along Cons.next (Undisturbed u) s acts) : Isolated u s acts := by
  induction acts generalizing s with
  | nil => cases hbegun
  | cons a acts ih =>
    cases a with
    | ioctl pid request =>
      obtain ⟨-, rfl, -, hord⟩ := hord
      have hstart : Loading (s.consoleioctl .CONSOLE_FONT_BEGIN) [] :=
        ⟨rfl, rfl, by decide, fun i hi => absurd hi (Nat.not_lt_zero i)⟩
      obtain ⟨t, hrun, ht, hp⟩ := run_loading hstart hord ((Nat.zero_add _).trans hlen) (hok.2 _ rfl)
      exact ⟨t, Runs.run_cons_eq_some.mpr ⟨_, rfl, hrun⟩, ht, hp⟩
    | write pid attr buf =>
      have hpid : pid ≠ u := fun heq => Bool.false_ne_true (hord.1 heq)
      have hmem : .ioctl u .CONSOLE_FONT_BEGIN ∈ acts := by
        rcases List.mem_cons.mp hbegun with heq | hmem
        · cases heq
        · exact hmem
      obtain ⟨hidle, hloads⟩ := consolewrite_idle pid attr buf hload
      have hsent : sent u (.write pid attr buf :: acts) = sent u acts := by
        rw [sent_cons, sent_other hpid, List.nil_append]
      rw [hsent] at hlen
      obtain ⟨t, hrun, ht, hp⟩ := ih hidle hord.2 hmem hlen (hok.2 _ rfl)
      have hstep := printed_idle (u := u) (a := .write pid attr buf) hload rfl
      refine ⟨t, Runs.run_cons_eq_some.mpr ⟨_, rfl, hrun⟩, ?_, ?_⟩
      · rw [ht, hloads, hsent]
      · rw [hp, hstep, List.append_assoc, ← output_cons]

/-- **The upload is isolated exactly when nobody else writes while the font is loaded.** -/
theorem isolated_iff (hload : s.font_loading = false) (h : Upload u acts) :
    Isolated u s acts ↔ Runs.Along Cons.next (Undisturbed u) s acts := by
  constructor
  · rintro ⟨t, hrun, -, hp⟩
    by_contra hnot
    have hlt := length_printed_lt hrun hnot
    rw [hp, List.length_append] at hlt
    omega
  · exact run_upload hload h.orderly h.begun h.length

/-- A console that has just been set up. -/
def idle : Cons := ⟨fun _ => 0, false, 0, [], []⟩

/-- Process 2 writes a byte, and then process 1 uploads a font of zeros. -/
def quietActs : List Act :=
  [.write 2 7 [72], .ioctl 1 .CONSOLE_FONT_BEGIN, .write 1 7 (List.replicate CONSOLE_FONT_BYTES 0)]

lemma quietActs_upload : Upload 1 quietActs where
  orderly := by
    unfold quietActs
    simp [Orderly]
  begun := by
    unfold quietActs
    simp
  length := by
    unfold quietActs
    simp [sent]

theorem isolated_iff_quietActs :
    idle.font_loading = false ∧ Upload 1 quietActs ∧ Isolated 1 idle quietActs := by
  refine ⟨rfl, quietActs_upload, (isolated_iff rfl quietActs_upload).mpr ?_⟩
  exact ⟨fun _ _ => rfl, fun _ _ => ⟨trivial, fun _ _ => ⟨fun h => absurd rfl h, fun _ _ => trivial⟩⟩⟩

/-- The same with the byte after the ioctl: it becomes the first byte of the font. -/
def mixedActs : List Act :=
  [.ioctl 1 .CONSOLE_FONT_BEGIN, .write 2 7 [72], .write 1 7 (List.replicate CONSOLE_FONT_BYTES 0)]

lemma mixedActs_upload : Upload 1 mixedActs where
  orderly := by
    unfold mixedActs
    simp [Orderly]
  begun := List.mem_cons_self
  length := by
    unfold mixedActs
    simp [sent]

/-- Another one writes in between. -/
theorem not_isolated_mixedActs : Upload 1 mixedActs ∧ ¬ Isolated 1 idle mixedActs := by
  refine ⟨mixedActs_upload, ?_⟩
  rintro ⟨t, hrun, -, hp⟩
  have hnot : ¬ Runs.Along Cons.next (Undisturbed 1) idle mixedActs := by
    intro hok
    have hsecond := (hok.2 _ rfl).1 (by decide) (by decide)
    exact Bool.noConfusion hsecond
  have hlt := length_printed_lt hrun hnot
  rw [hp, List.length_append] at hlt
  omega

end

end Font
end Console
end OhMyXv6
