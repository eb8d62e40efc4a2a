import Mathlib.Data.List.Infix
import OhMyXv6.Console.Stream
import OhMyXv6.Shell.Getcmd

/-!
# The line editor

A command line is edited in two places: by the console, in the part of the ring that is not
submitted, and by `getcmd`, which handles the backspaces that the console passes on when its cursor
is at the start of the line. Together they should be an editor with a cursor.

They are, as long as the console passes on backspaces of an empty line only. A Backspace in front of
some text submits the text and then deletes its last character, since the shell appends the
backspace to what it was given.
-/

namespace OhMyXv6
namespace Console

open Input Sh

/-! ## An editor with a cursor -/

/-- The keys of the editor. -/
inductive Key where
  | char (c : UInt8)
  | left
  | right
  | backspace

/-- A text with a cursor in it, and how much of an escape sequence has come in. -/
structure Ideal where
  text : List UInt8
  cur : ℕ
  esc : ℕ

/-- The byte of a printable character. -/
def Printable (b : UInt8) : Prop := 32 ≤ b ∧ b ≤ 126

instance (b : UInt8) : Decidable (Printable b) := inferInstanceAs (Decidable (_ ∧ _))

/-- The byte of the Backspace key: Ctrl-H or DEL. -/
def Back (b : UInt8) : Prop := b = 8 ∨ b = 127

instance (b : UInt8) : Decidable (Back b) := inferInstanceAs (Decidable (_ ∨ _))

namespace Ideal

/-- A line with nothing in it. -/
def empty : Ideal := ⟨[], 0, 0⟩

/-- What a key does to the line. -/
def press (I : Ideal) : Key → Ideal
  | .char c => { I with text := I.text.insertIdx I.cur c, cur := I.cur + 1 }
  | .left => { I with cur := I.cur - 1 }
  | .right => { I with cur := min (I.cur + 1) I.text.length }
  | .backspace =>
    if I.cur = 0 then I else { I with text := I.text.eraseIdx (I.cur - 1), cur := I.cur - 1 }

/-- The bytes that the keys send. The arrow keys have a byte of their own on the keyboard and come
as `ESC [ C` and `ESC [ D` over the serial line; other bytes are none of these keys. -/
def byte (I : Ideal) (b : UInt8) : Option Ideal :=
  if b = KEY_LF then some (I.press .left)
  else if b = KEY_RT then some (I.press .right)
  else if I.esc = 1 then if b = chr '[' then some { I with esc := 2 } else none
  else if I.esc = 2 then
    if b = chr 'C' then some { I.press .right with esc := 0 }
    else if b = chr 'D' then some { I.press .left with esc := 0 }
    else none
  else if b = ESC then some { I with esc := 1 }
  else if Back b then some (I.press .backspace)
  else if Printable b then some (I.press (.char b))
  else none

end Ideal

/-! ## The console and the shell -/

/-- The console, the shell that waits in `getcmd`, and the text that should be there. -/
structure Session (H : Type) where
  input : Input
  shell : Getcmd H
  ideal : Ideal

/-- A byte comes in, or the shell takes its next step: `read` or `kbddecoy`. -/
inductive Step where
  | byte (b : UInt8)
  | read
  | decoy

/-- The number of bytes that come in. -/
def Step.bytes : Step → ℕ
  | .byte _ => 1
  | _ => 0

section
variable {H : Type}

namespace Session

/-- The byte is handled by the console. -/
def type (S : Session H) (b : UInt8) : Session H := { S with input := S.input.handle_input b }

/-- A step of the console, of the shell, or of both. -/
def next (env : Env H) (S : Session H) : Step → Option (Session H)
  | .byte b => (S.ideal.byte b).map fun I => { S.type b with ideal := I }
  | .read =>
    if S.shell.ret = none ∧ S.shell.decoy = none then
      match readLoop 1 1 S.input with
      | (s, [c], .done) => some { S with input := s, shell := S.shell.read env c }
      | _ => none
    else none
  | .decoy =>
    match S.shell.decoy with
    | none => none
    | some str =>
      some { S with input := replace_input str S.input, shell := { S.shell with decoy := none } }

/-- The session with an idle console, at the prompt. The shell's buffer has 100 bytes. -/
def start (s : Input) (hist : H) : Session H := ⟨s, .start hist 100, .empty⟩

end Session

/-- Nothing is submitted and the line is empty, in cooked mode. -/
structure Idle (s : Input) : Prop where
  w : s.w = s.r
  e : s.e = s.r
  cur : s.cur = s.r
  raw : s.raw = false
  esc : s.esc_state = 0

/-- Enter, when the shell then reads all that waits for it: `getcmd` returns 0 and its buffer holds
the text and a newline. -/
def Delivers (env : Env H) (S : Session H) : Prop :=
  ∀ b, b = chr '\n' ∨ b = chr '\r' → ∃ S',
    Runs.run (Session.next env) (S.type b)
      (List.replicate ((S.type b).input.w - (S.type b).input.r).toNat .read) = some S' ∧
    S'.shell.ret = some 0 ∧ S'.shell.buf = S.ideal.text ++ [chr '\n']

/-- One more byte does not fill the ring. -/
def Spare (s : Input) : Prop := s.e - s.r < INPUT_BUF - 1

instance (s : Input) : Decidable (Spare s) := inferInstanceAs (Decidable (_ < _))

/-- A Backspace at the start of the line finds the line empty, and no byte that enters the ring
fills it. -/
def Clean (S : Session H) : Step → Prop
  | .byte b => S.input.esc_state = 0 →
      (Back b → S.input.cur = S.input.w → S.input.e = S.input.w ∧ Spare S.input) ∧
      (Printable b → Spare S.input)
  | _ => True

instance (S : Session H) : ∀ a, Decidable (Clean S a)
  | .byte _ => inferInstanceAs (Decidable (_ → _))
  | .read => .isTrue trivial
  | .decoy => .isTrue trivial

end

/-! ## What the console does with the keys -/

section
variable {s : Input} {P Q T : List UInt8} {c c' : ℕ} {b : UInt8}

lemma printable_ne (h : Printable b) {x : UInt8} (hx : ¬ Printable x) : b ≠ x := by
  intro heq
  exact hx (heq ▸ h)

/-- A printable byte is put at the cursor. -/
lemma handle_input_char (h : Printable b) (hesc : s.esc_state = 0) (hraw : s.raw = false)
    (hroom : s.Room) : s.handle_input b = if s.cur = s.e then s.append b else s.insert b := by
  have hne : ∀ x : UInt8, ¬ Printable x → b ≠ x := fun x hx => printable_ne h hx
  have hkey : s.handle_input b = s.edit b := by
    unfold handle_input key
    rw [if_neg (hne _ (by decide)), if_neg (hne _ (by decide)), if_neg (hne _ (by decide)),
      if_neg (hne _ (by decide)), if_neg (by omega), if_neg (by omega), if_neg (hne _ (by decide)),
      if_neg (hne _ (by decide)), if_neg (by rw [hraw]; exact fun hr => Bool.false_ne_true hr.1)]
  have hctl : ∀ x y : UInt8, ¬ Printable x → ¬ Printable y → ¬ (b = x ∨ b = y) := by
    intro x y hx hy hor
    rcases hor with heq | heq
    · exact hne x hx heq
    · exact hne y hy heq
  rw [hkey]
  unfold edit
  rw [if_neg (hne _ (by decide)), if_neg (hne _ (by decide)),
    if_neg (hctl _ _ (by decide) (by decide)), if_neg (hctl _ _ (by decide) (by decide)), if_neg]
  · dsimp only
    rw [if_neg (hne _ (by decide)), if_neg (hctl _ _ (by decide) (by decide))]
  · intro hor
    rcases hor with heq | hno
    · exact hne 0 (by decide) heq
    · exact hno hroom

lemma handle_input_back (h : Back b) (hesc : s.esc_state = 0) (hraw : s.raw = false) :
    s.handle_input b = s.erase b := by
  unfold handle_input key edit
  rcases h with rfl | rfl
  · simp [hesc, hraw, KEY_LF, KEY_RT, KEY_UP, KEY_DN, ESC, ctrl, chr, DEL]
  · simp [hesc, hraw, KEY_LF, KEY_RT, KEY_UP, KEY_DN, ESC, ctrl, chr, DEL]

/-- Enter submits, if there is room. -/
lemma handle_input_enter (h : b = chr '\n' ∨ b = chr '\r') (hesc : s.esc_state = 0)
    (hraw : s.raw = false) :
    s.handle_input b = if s.Room then s.enter (chr '\n') else s := by
  unfold handle_input key edit
  by_cases hroom : s.Room
  · rcases h with rfl | rfl
    · simp [hesc, hraw, hroom, KEY_LF, KEY_RT, KEY_UP, KEY_DN, ESC, ctrl, chr, DEL]
    · simp [hesc, hraw, hroom, KEY_LF, KEY_RT, KEY_UP, KEY_DN, ESC, ctrl, chr, DEL]
  · rcases h with rfl | rfl
    · simp [hesc, hraw, hroom, KEY_LF, KEY_RT, KEY_UP, KEY_DN, ESC, ctrl, chr, DEL]
    · simp [hesc, hraw, hroom, KEY_LF, KEY_RT, KEY_UP, KEY_DN, ESC, ctrl, chr, DEL]

/-! ## What the shell does with the bytes -/

/-- The bytes `Q` wait to be read, and the shell has `B` in its buffer. -/
structure Reading {H : Type} (S : Session H) (Q T : List UInt8) (c : ℕ) (B : List UInt8) :
    Prop where
  line : Line S.input Q T c
  buf : S.shell.buf = B
  nbuf : S.shell.nbuf = 100
  decoy : S.shell.decoy = none
  ret : S.shell.ret = none

/-- What the shell makes of a list of bytes. -/
def fed (B L : List UInt8) : List UInt8 :=
  L.foldl (fun B x => if Back x then B.dropLast else B ++ [x]) B

variable {H : Type} (env : Env H) {S : Session H} {B L : List UInt8}

lemma readLoop_one (h : s.r ≠ s.w) :
    readLoop 1 1 s = ({ s with r := s.r + 1 }, [s.get s.r], .done) := by
  unfold readLoop
  rw [if_neg h]
  dsimp only
  split
  · rfl
  split
  · rfl
  · rfl

/-- The shell reads a byte that waits. -/
lemma Reading.next {x : UInt8} (h : Reading S (x :: Q) T c B) :
    S.next env .read = some { S with
      input := { S.input with r := S.input.r + 1 }
      shell := S.shell.read env x } := by
  have hne : S.input.r ≠ S.input.w := fun heq =>
    absurd (h.line.r_eq_w.mp heq) (List.cons_ne_nil x Q)
  unfold Session.next
  rw [if_pos ⟨h.ret, h.decoy⟩, readLoop_one hne, h.line.get_r]

/-- The shell takes its last byte back. -/
lemma Reading.back {x : UInt8} (h : Reading S (x :: Q) T c B) (hx : Back x) :
    ∃ S', S.next env .read = some S' ∧ Reading S' Q T c B.dropLast := by
  refine ⟨_, h.next env, h.line.take, ?_, ?_, ?_, ?_⟩
  all_goals
    dsimp only
    rw [Getcmd.read_backspace env hx]
  · rw [h.buf]
  · exact h.nbuf
  · exact h.decoy
  · exact h.ret

lemma Reading.char {x : UInt8} (h : Reading S (x :: Q) T c B) (hx : Printable x)
    (hlen : B.length + 1 < 100) :
    ∃ S', S.next env .read = some S' ∧ Reading S' Q T c (B ++ [x]) := by
  have hn : S.shell.buf.length + 1 < S.shell.nbuf := by
    rw [h.buf, h.nbuf]
    exact hlen
  refine ⟨_, h.next env, h.line.take, ?_, ?_, ?_, ?_⟩
  all_goals
    dsimp only
    rw [Getcmd.read_char env hx.1 hx.2 hn]
  · rw [h.buf]
  · exact h.nbuf
  · exact h.decoy
  · exact h.ret

lemma Reading.newline (h : Reading S (chr '\n' :: Q) T c B) (hB : ∀ x ∈ B, Printable x) :
    ∃ S', S.next env .read = some S' ∧ S'.shell.ret = some 0 ∧
      S'.shell.buf = B ++ [chr '\n'] := by
  have hhead : (B ++ [chr '\n']).headD 0 ≠ 0 := by
    rcases B with _ | ⟨x, B⟩
    · decide
    · exact printable_ne (hB x List.mem_cons_self) (by decide)
  refine ⟨_, h.next env, ?_, ?_⟩
  all_goals
    dsimp only
    rw [Getcmd.read_newline]
    unfold Getcmd.finish
    dsimp only
    rw [h.buf]
  rw [if_neg hhead]

/-- The shell reads all of `L`. Its buffer never holds more than the printable bytes among them. -/
theorem Reading.run : ∀ {L B : List UInt8} {S : Session H}, Reading S (L ++ Q) T c B →
    (∀ x ∈ L, Back x ∨ Printable x) → B.length + L.countP (Printable ·) < 100 →
    ∃ S', Runs.run (Session.next env) S (List.replicate L.length .read) = some S' ∧
      Reading S' Q T c (fed B L) := by
  intro L
  induction L with
  | nil => exact fun h _ _ => ⟨_, rfl, h⟩
  | cons x L ih =>
    intro B S h hL hlen
    rw [List.countP_cons] at hlen
    have htail : ∀ y ∈ L, Back y ∨ Printable y := fun y hy => hL y (List.mem_cons_of_mem _ hy)
    have hstep : ∃ S', S.next env .read = some S' ∧
        Reading S' (L ++ Q) T c (if Back x then B.dropLast else B ++ [x]) ∧
        (if Back x then B.dropLast else B ++ [x]).length + L.countP (Printable ·) < 100 := by
      by_cases hx : Back x
      · obtain ⟨S', hS', hr⟩ := h.back env hx
        rw [if_pos hx, List.length_dropLast]
        exact ⟨S', hS', hr, by omega⟩
      · have hp : Printable x := (hL x List.mem_cons_self).resolve_left hx
        rw [if_pos (decide_eq_true hp)] at hlen
        obtain ⟨S', hS', hr⟩ := h.char env hp (by omega)
        rw [if_neg hx, List.length_append, List.length_singleton]
        exact ⟨S', hS', hr, by omega⟩
    obtain ⟨S', hS', hr, hlen'⟩ := hstep
    obtain ⟨S'', hrun, hr'⟩ := ih hr htail hlen'
    refine ⟨S'', ?_, hr'⟩
    rw [List.length_cons, List.replicate_succ, Runs.run_cons_eq_some]
    exact ⟨S', hS', hrun⟩

/-- Two pieces, one after the other. -/
lemma fed_append (B L L' : List UInt8) : fed B (L ++ L') = fed (fed B L) L' :=
  List.foldl_append

/-- Backspaces alone leave nothing. -/
lemma fed_backs (h : ∀ x ∈ L, Back x) : fed [] L = [] := by
  induction L with
  | nil => rfl
  | cons x L ih =>
    have hx : fed [] (x :: L) = fed [] L := by
      show fed (if Back x then [] else [x]) L = _
      rw [if_pos (h x List.mem_cons_self)]
    rw [hx]
    exact ih fun y hy => h y (List.mem_cons_of_mem _ hy)

/-- A printable byte is no backspace. -/
lemma not_back (h : Printable b) : ¬ Back b := by
  intro hb
  rcases hb with rfl | rfl
  · exact absurd h (by decide)
  · exact absurd h (by decide)

lemma fed_chars (h : ∀ x ∈ L, Printable x) : fed B L = B ++ L := by
  induction L generalizing B with
  | nil => exact (List.append_nil B).symm
  | cons x L ih =>
    have hx : fed B (x :: L) = fed (B ++ [x]) L := by
      show fed (if Back x then B.dropLast else B ++ [x]) L = _
      rw [if_neg (not_back (h x List.mem_cons_self))]
    rw [hx, ih fun y hy => h y (List.mem_cons_of_mem _ hy), List.append_assoc]
    rfl

lemma countP_backs (h : ∀ x ∈ L, Back x) : L.countP (Printable ·) = 0 := by
  rw [List.countP_eq_zero]
  intro x hx hp
  exact not_back (of_decide_eq_true hp) (h x hx)

/-! ## Console and shell in step -/

/-- The console holds the text, and the shell was given nothing but backspaces. -/
structure Synced (S : Session H) (P : List UInt8) : Prop where
  reading : Reading S P S.ideal.text S.ideal.cur []
  spare : P.length + S.ideal.text.length < 128
  backs : ∀ x ∈ P, Back x
  text : ∀ x ∈ S.ideal.text, Printable x
  raw : S.input.raw = false
  esc : S.input.esc_state = S.ideal.esc
  esc_le : S.ideal.esc ≤ 2

/-- The shell has read the backspaces and then the text. -/
lemma Reading.text (h : Reading S (P ++ T ++ Q) L c []) (hP : ∀ x ∈ P, Back x)
    (hT : ∀ x ∈ T, Printable x) (hlen : T.length ≤ 98) :
    ∃ S', Runs.run (Session.next env) S (List.replicate (P ++ T).length .read) = some S' ∧
      Reading S' Q L c T := by
  have hbytes : ∀ x ∈ P ++ T, Back x ∨ Printable x := by
    intro x hx
    rcases List.mem_append.mp hx with hx | hx
    · exact .inl (hP x hx)
    · exact .inr (hT x hx)
  have hcount : (P ++ T).countP (Printable ·) ≤ T.length := by
    rw [List.countP_append, countP_backs hP, Nat.zero_add]
    exact List.countP_le_length
  obtain ⟨S', hrun, hr⟩ := h.run env hbytes (by rw [List.length_nil]; omega)
  rw [fed_append, fed_backs hP, fed_chars hT] at hr
  exact ⟨S', hrun, hr⟩

/-- The bytes between `r` and `w` wait for the reader. -/
lemma Line.waiting (h : Line s P T c) : (s.w - s.r).toNat = P.length := sub_toNat h.w

/-- Typing changes nothing for the shell. -/
lemma Reading.type {t : Input} {I : Ideal} (h : Reading S P T c B) (hline : Line t Q L c') :
    Reading ⟨t, S.shell, I⟩ Q L c' B :=
  ⟨hline, h.buf, h.nbuf, h.decoy, h.ret⟩

/-- What is shown is what the shell will get. -/
lemma Synced.delivers (h : Synced S P) (hesc : S.ideal.esc = 0)
    (hmax : S.input.e.toNat + 1 < 2 ^ 32) (hlen : S.ideal.text.length ≤ 98) :
    Delivers env S := by
  intro b hb
  have hroom : S.input.Room := h.reading.line.room_iff.mpr h.spare
  have htype : (S.type b).input = S.input.enter (chr '\n') := by
    show S.input.handle_input b = _
    rw [handle_input_enter hb (h.esc.trans hesc) h.raw, if_pos hroom]
  have hline : Line (S.type b).input (P ++ S.ideal.text ++ [chr '\n']) [] 0 := by
    rw [htype, List.append_assoc]
    exact h.reading.line.enter h.spare hmax _
  obtain ⟨S', hrun, hr⟩ := (h.reading.type hline).text env h.backs h.text hlen
  obtain ⟨S'', hnext, hret, hbuf⟩ := hr.newline env h.text
  refine ⟨S'', ?_, hret, hbuf⟩
  rw [hline.waiting, List.length_append, List.length_singleton, List.replicate_succ',
    Runs.run_concat_eq_some]
  exact ⟨S', hrun, hnext⟩

/-- What waits has no newline in it, and no Enter gets in. -/
lemma not_delivers_of_full (hread : Reading S (P ++ T ++ Q) [] 0 []) (hP : ∀ x ∈ P, Back x)
    (hT : ∀ x ∈ T, Printable x) (hQ : ∀ x ∈ Q, Back x) (hlen : T.length ≤ 98)
    (hfull : (P ++ T ++ Q).length = 128) (hesc : S.input.esc_state = 0)
    (hraw : S.input.raw = false) : ¬ Delivers env S := by
  intro hdel
  obtain ⟨S', hrun, hret, -⟩ := hdel (chr '\n') (.inl rfl)
  have hroom : ¬ S.input.Room := by
    rw [hread.line.room_iff, hfull]
    decide
  have htype : S.type (chr '\n') = S := by
    show { S with input := S.input.handle_input (chr '\n') } = S
    rw [handle_input_enter (.inl rfl) hesc hraw, if_neg hroom]
  have hbytes : ∀ x ∈ Q, Back x ∨ Printable x := fun x hx => .inl (hQ x hx)
  obtain ⟨S₁, hrun₁, hr₁⟩ := hread.text env hP hT hlen
  rw [← List.append_nil Q] at hr₁
  obtain ⟨S₂, hrun₂, hr₂⟩ := hr₁.run env hbytes (by rw [countP_backs hQ]; omega)
  have hall : Runs.run (Session.next env) S
      (List.replicate (S.input.w - S.input.r).toNat .read) = some S₂ := by
    rw [hread.line.waiting, List.length_append, List.replicate_add, Runs.run_append_eq_some]
    exact ⟨S₁, hrun₁, hrun₂⟩
  rw [htype, hall, Option.some.injEq] at hrun
  rw [← hrun, hr₂.ret] at hret
  exact nomatch hret

/-- The shell deletes the last character of the text. -/
lemma not_delivers_of_back (hread : Reading S (P ++ T ++ [b]) [] 0 []) (hP : ∀ x ∈ P, Back x)
    (hT : ∀ x ∈ T, Printable x) (hb : Back b) (hne : T ≠ []) (hlen : T.length ≤ 98)
    (hspare : (P ++ T ++ [b]).length < 128) (hmax : S.input.e.toNat + 1 < 2 ^ 32)
    (hesc : S.input.esc_state = 0) (hraw : S.input.raw = false) (htext : S.ideal.text = T) :
    ¬ Delivers env S := by
  intro hdel
  obtain ⟨S', hrun, -, hbuf⟩ := hdel (chr '\n') (.inl rfl)
  have hroom : S.input.Room := hread.line.room_iff.mpr (by simpa using hspare)
  have htype : (S.type (chr '\n')).input = S.input.enter (chr '\n') := by
    show S.input.handle_input (chr '\n') = _
    rw [handle_input_enter (.inl rfl) hesc hraw, if_pos hroom]
  have hline : Line (S.type (chr '\n')).input (P ++ T ++ ([b] ++ [chr '\n'])) [] 0 := by
    rw [htype, ← List.append_assoc]
    exact hread.line.enter (by simpa using hspare) hmax _
  obtain ⟨S₁, hrun₁, hr₁⟩ := (hread.type hline).text env hP hT hlen
  obtain ⟨S₂, hnext₂, hr₂⟩ := hr₁.back env hb
  obtain ⟨S₃, hnext₃, -, hbuf₃⟩ :=
    hr₂.newline env fun x hx => hT x (List.dropLast_subset T hx)
  have hall : Runs.run (Session.next env) (S.type (chr '\n')) (List.replicate
      ((S.type (chr '\n')).input.w - (S.type (chr '\n')).input.r).toNat .read) = some S₃ := by
    rw [hline.waiting, List.length_append, List.replicate_add, Runs.run_append_eq_some]
    refine ⟨S₁, hrun₁, ?_⟩
    show Runs.run (Session.next env) S₁ [.read, .read] = some S₃
    rw [Runs.run_cons_eq_some]
    refine ⟨S₂, hnext₂, ?_⟩
    rw [Runs.run_cons_eq_some]
    exact ⟨S₃, hnext₃, rfl⟩
  rw [hall, Option.some.injEq] at hrun
  rw [← hrun, hbuf₃, htext] at hbuf
  -- the two texts differ in length
  have hlens := congrArg List.length hbuf
  have hpos := List.length_pos_iff.mpr hne
  rw [List.length_append, List.length_append, List.length_dropLast] at hlens
  omega

/-! ## Steps -/

/-- The console and the ideal editor move on together. -/
lemma Synced.edit (h : Synced S P) {t : Input} {I : Ideal} (hline : Line t Q I.text I.cur)
    (hspare : Q.length + I.text.length < 128) (hQ : ∀ x ∈ Q, Back x)
    (htext : ∀ x ∈ I.text, Printable x) (hraw : t.raw = S.input.raw)
    (hesc : t.esc_state = I.esc) (hle : I.esc ≤ 2) : Synced ⟨t, S.shell, I⟩ Q :=
  ⟨h.reading.type hline, hspare, hQ, htext, hraw.trans h.raw, hesc, hle⟩

lemma left_esc (s : Input) : s.left.esc_state = s.esc_state := by
  unfold Input.left
  split
  · rfl
  · rfl

lemma right_esc (s : Input) : s.right.esc_state = s.esc_state := by
  unfold Input.right
  split
  · rfl
  · rfl

lemma erase_esc (hne : s.cur ≠ s.w) (ch : UInt8) : (s.erase ch).esc_state = s.esc_state := by
  obtain ⟨b, hb⟩ := shiftDown_eq ((s.e - 1).toNat - (s.cur - 1).toNat) (s.cur - 1) s
  unfold Input.erase
  rw [if_neg hne]
  dsimp only
  rw [hb]
  rfl

lemma append_esc (s : Input) (ch : UInt8) : (s.append ch).esc_state = s.esc_state := by
  unfold Input.append
  dsimp only
  split
  · rfl
  · rfl

lemma toEnd_esc (s : Input) : s.toEnd.esc_state = s.esc_state := by
  unfold Input.toEnd
  split
  · rfl
  · rfl

lemma insert_esc (s : Input) (ch : UInt8) : (s.insert ch).esc_state = s.esc_state := by
  obtain ⟨b, hb⟩ := shiftUp_eq (s.e.toNat - s.cur.toNat) s.e s
  have hat : (s.insertAt ch).esc_state = s.esc_state := by
    unfold Input.insertAt
    dsimp only
    rw [hb]
    rfl
  unfold Input.insert
  dsimp only
  split
  · exact (toEnd_esc _).trans hat
  · exact hat

lemma Synced.left (h : Synced S P) {n : ℕ} (hn : n ≤ 2) :
    Synced ⟨Input.left { S.input with esc_state := n }, S.shell,
      { S.ideal.press .left with esc := n }⟩ P := by
  have hline : Line { S.input with esc_state := n } P S.ideal.text S.ideal.cur :=
    h.reading.line.same rfl rfl rfl rfl rfl
  exact h.edit hline.left h.spare h.backs h.text (left_keeps _).2.2.1 (left_esc _) hn

lemma Synced.right (h : Synced S P) {n : ℕ} (hn : n ≤ 2) :
    Synced ⟨Input.right { S.input with esc_state := n }, S.shell,
      { S.ideal.press .right with esc := n }⟩ P := by
  have hline : Line { S.input with esc_state := n } P S.ideal.text S.ideal.cur :=
    h.reading.line.same rfl rfl rfl rfl rfl
  exact h.edit hline.right h.spare h.backs h.text (right_keeps _).2.2.1 (right_esc _) hn

/-- What a step does to a session in step: a clean one keeps it so, any other one spoils it. -/
def Outcome (env : Env H) (S S' : Session H) (a : Step) : Prop :=
  (Clean S a ∧ S'.input.e.toNat ≤ S.input.e.toNat + a.bytes ∧ ∃ P, Synced S' P) ∨
    (¬ Clean S a ∧ S'.ideal.esc = 0 ∧ ¬ Delivers env S')

/-- There is room for one byte and its newline. -/
lemma Line.spare_iff (h : Line s P T c) : Spare s ↔ P.length + T.length + 1 < 128 := by
  have hw := h.w
  have he := h.e
  have hle : s.r ≤ s.e := by
    rw [UInt32.le_iff_toNat_le]
    omega
  have hbuf : (INPUT_BUF - 1).toNat = 127 := rfl
  unfold Spare
  rw [UInt32.lt_iff_toNat_lt, UInt32.toNat_sub_of_le _ _ hle, hbuf]
  omega

lemma Line.e_eq_w (h : Line s P T c) : s.e = s.w ↔ T = [] := by
  have he := h.e
  rw [← UInt32.toNat_inj, ← List.length_eq_zero_iff]
  omega

/-- A Backspace with a character in front of the cursor. -/
lemma Synced.erase (h : Synced S P) (hb : Back b) (hesc : S.ideal.esc = 0)
    (hcur : S.ideal.cur ≠ 0) :
    Outcome env S { S.type b with ideal := S.ideal.press .backspace } (.byte b) := by
  have hline := h.reading.line
  have hne : S.input.cur ≠ S.input.w := fun heq => hcur (hline.cur_eq_w.mp heq)
  have htype : S.input.handle_input b = S.input.erase b :=
    handle_input_back hb (h.esc.trans hesc) h.raw
  have hpress : S.ideal.press .backspace = { S.ideal with
      text := S.ideal.text.eraseIdx (S.ideal.cur - 1), cur := S.ideal.cur - 1 } := if_neg hcur
  have hlen := List.length_eraseIdx_le S.ideal.text (S.ideal.cur - 1)
  have hspare := h.spare
  have hpos : 0 < S.input.e.toNat := by
    have he := hline.e
    have hle := hline.le
    omega
  refine .inl ⟨fun _ => ⟨fun _ heq => absurd heq hne, fun hp => absurd hb (not_back hp)⟩, ?_, P, ?_⟩
  · show (S.input.handle_input b).e.toNat ≤ S.input.e.toNat + 1
    rw [htype, (erase_keeps _ hne).2.1, toNat_pred hpos]
    omega
  · rw [hpress]
    show Synced ⟨S.input.handle_input b, S.shell, _⟩ P
    rw [htype]
    refine h.edit (hline.erase (by omega) b) (by dsimp only; omega) h.backs (fun x hx => ?_)
      (erase_keeps _ hne).2.2.1 ((erase_esc hne b).trans h.esc) h.esc_le
    exact h.text x (List.eraseIdx_subset hx)

/-- A Backspace at the start of the line. -/
lemma Synced.submit (h : Synced S P) (hb : Back b) (hesc : S.ideal.esc = 0)
    (hcur : S.ideal.cur = 0) (hmax : S.input.e.toNat + 2 < 2 ^ 32)
    (hlen : S.ideal.text.length ≤ 98) :
    Outcome env S { S.type b with ideal := S.ideal.press .backspace } (.byte b) := by
  have hline := h.reading.line
  have heq : S.input.cur = S.input.w := hline.cur_eq_w.mpr hcur
  have hroom : S.input.Room := hline.room_iff.mpr h.spare
  have hesc' : S.input.esc_state = 0 := h.esc.trans hesc
  have htype : S.input.handle_input b = S.input.submit b := by
    rw [handle_input_back hb hesc' h.raw]
    unfold Input.erase
    rw [if_pos heq, if_pos hroom]
  have hpress : S.ideal.press .backspace = S.ideal := if_pos hcur
  have hsub := hline.submit h.spare (by omega) b
  have he : (S.input.e + 1).toNat = S.input.e.toNat + 1 := toNat_succ (by omega)
  rw [hpress]
  show Outcome env S ⟨S.input.handle_input b, S.shell, S.ideal⟩ (.byte b)
  rw [htype]
  by_cases hclean : Clean S (.byte b)
  · obtain ⟨hempty, hspare⟩ := (hclean hesc').1 hb heq
    have hnil := hline.e_eq_w.mp hempty
    have hlt := hline.spare_iff.mp hspare
    refine .inl ⟨hclean, Nat.le_of_eq he, P ++ [b], ?_⟩
    rw [hnil] at hsub hlt
    have hsame : Line (S.input.submit b) (P ++ [b]) S.ideal.text S.ideal.cur := by
      rw [hnil, hcur]
      exact hsub
    refine h.edit hsame ?_ (fun x hx => ?_) h.text rfl h.esc h.esc_le
    · rw [hnil, List.length_append]
      exact hlt
    · rcases List.mem_append.mp hx with hx | hx
      · exact h.backs x hx
      · exact List.mem_singleton.mp hx ▸ hb
  · refine .inr ⟨hclean, hesc, ?_⟩
    rw [← List.append_assoc] at hsub
    have hread : Reading ⟨S.input.submit b, S.shell, S.ideal⟩ (P ++ S.ideal.text ++ [b]) [] 0 [] :=
      h.reading.type hsub
    have hback : ∀ x ∈ [b], Back x := fun x hx => List.mem_singleton.mp hx ▸ hb
    have hlong : (P ++ S.ideal.text ++ [b]).length = P.length + S.ideal.text.length + 1 := by
      rw [List.length_append, List.length_append, List.length_singleton]
    have hspare := h.spare
    by_cases hfull : P.length + S.ideal.text.length + 1 < 128
    · -- there is some text, or this would be clean
      have hne : S.ideal.text ≠ [] := by
        intro hnil
        refine hclean fun _ => ⟨fun _ _ => ⟨hline.e_eq_w.mpr hnil, hline.spare_iff.mpr hfull⟩, ?_⟩
        exact fun hp => absurd hb (not_back hp)
      exact not_delivers_of_back env hread h.backs h.text hb hne hlen (by omega)
        (by show (S.input.e + 1).toNat + 1 < _; omega) hesc' h.raw rfl
    · exact not_delivers_of_full env hread h.backs h.text hback hlen (by omega) hesc' h.raw

/-- A printable key. -/
lemma Synced.char (h : Synced S P) (hb : Printable b) (hesc : S.ideal.esc = 0)
    (hmax : S.input.e.toNat + 2 < 2 ^ 32) (hlen : (S.ideal.press (.char b)).text.length ≤ 98) :
    Outcome env S { S.type b with ideal := S.ideal.press (.char b) } (.byte b) := by
  have hline := h.reading.line
  have hroom : S.input.Room := hline.room_iff.mpr h.spare
  have hesc' : S.input.esc_state = 0 := h.esc.trans hesc
  have htype := handle_input_char hb hesc' h.raw hroom
  have he : (S.input.e + 1).toNat = S.input.e.toNat + 1 := toNat_succ (by omega)
  -- at the end of the line the character is appended, which is an insertion as well
  have hins : Line (S.input.handle_input b)
      (autoSubmit P (S.ideal.press (.char b)).text (S.ideal.cur + 1)).1
      (autoSubmit P (S.ideal.press (.char b)).text (S.ideal.cur + 1)).2.1
      (autoSubmit P (S.ideal.press (.char b)).text (S.ideal.cur + 1)).2.2 ∧
      (S.input.handle_input b).raw = S.input.raw ∧
      (S.input.handle_input b).esc_state = S.input.esc_state ∧
      (S.input.handle_input b).e = S.input.e + 1 := by
    rw [htype]
    by_cases hcur : S.input.cur = S.input.e
    · rw [if_pos hcur]
      obtain ⟨-, hraw, hse, -⟩ := append_keeps S.input b
      have hend := hline.cur_eq_e.mp hcur
      have happ := hline.append h.spare (by omega) b
      have htext : (S.ideal.press (.char b)).text = S.ideal.text ++ [b] := by
        show S.ideal.text.insertIdx S.ideal.cur b = _
        rw [hend, List.insertIdx_length_self]
      rw [htext, hend]
      exact ⟨happ, hraw, append_esc _ _, hse⟩
    · rw [if_neg hcur]
      obtain ⟨-, hraw, hse, -⟩ := insert_keeps S.input b
      exact ⟨hline.insert h.spare (by omega) b, hraw, insert_esc _ _, hse⟩
  obtain ⟨hauto, hraw, hsesc, hse⟩ := hins
  have htext : ∀ x ∈ (S.ideal.press (.char b)).text, Printable x := by
    intro x hx
    rcases (List.mem_insertIdx hline.le).mp hx with rfl | hx
    · exact hb
    · exact h.text x hx
  have hone : (S.ideal.press (.char b)).text.length = S.ideal.text.length + 1 :=
    List.length_insertIdx_of_le_length hline.le b
  have hspare := h.spare
  have hend : (S.input.handle_input b).e.toNat ≤ S.input.e.toNat + 1 := by
    rw [hse, he]
  show Outcome env S ⟨S.input.handle_input b, S.shell, S.ideal.press (.char b)⟩ (.byte b)
  unfold autoSubmit at hauto
  by_cases hlt : Spare S.input
  · have hlt' := hline.spare_iff.mp hlt
    rw [if_neg (by omega)] at hauto
    refine .inl ⟨fun _ => ⟨fun hback => absurd hback (not_back hb), fun _ => hlt⟩, hend, P, ?_⟩
    exact h.edit hauto (by omega) h.backs htext hraw (hsesc.trans h.esc) h.esc_le
  · have hge : ¬ P.length + S.ideal.text.length + 1 < 128 := fun hl =>
      hlt (hline.spare_iff.mpr hl)
    rw [if_pos (by omega)] at hauto
    refine .inr ⟨fun hclean => hlt ((hclean hesc').2 hb), hesc, ?_⟩
    rw [← List.append_nil (P ++ (S.ideal.press (.char b)).text)] at hauto
    apply not_delivers_of_full env (h.reading.type hauto) h.backs htext
      (fun x hx => absurd hx List.not_mem_nil) hlen _ (hsesc.trans hesc') (hraw.trans h.raw)
    rw [List.append_nil, List.length_append]
    omega

/-- A byte that enters nothing. -/
lemma outcome_move {I : Ideal} (hclean : Clean S (.byte b))
    (he : (S.input.handle_input b).e = S.input.e)
    (h : Synced ⟨S.input.handle_input b, S.shell, I⟩ P) :
    Outcome env S { S.type b with ideal := I } (.byte b) := by
  refine .inl ⟨hclean, ?_, P, h⟩
  show (S.input.handle_input b).e.toNat ≤ _
  rw [he]
  exact Nat.le_succ _

/-- Inside an escape sequence every byte is clean. -/
lemma clean_of_esc (h : S.input.esc_state ≠ 0) : Clean S (.byte b) := fun hesc => absurd hesc h

/-- And so is a byte that neither types nor erases. -/
lemma clean_of_ne (hb : ¬ Back b) (hp : ¬ Printable b) : Clean S (.byte b) :=
  fun _ => ⟨fun h => absurd h hb, fun h => absurd h hp⟩

/-- An arrow key of the keyboard, or a byte of an escape sequence. -/
theorem Synced.move (h : Synced S P) {I : Ideal} (hI : S.ideal.byte b = some I)
    (hmove : b = KEY_LF ∨ b = KEY_RT ∨ S.ideal.esc = 1 ∨ S.ideal.esc = 2 ∨ b = ESC) :
    Outcome env S { S.type b with ideal := I } (.byte b) := by
  have hesc := h.esc
  by_cases hlf : b = KEY_LF
  · subst hlf
    obtain rfl := Option.some.inj hI
    have htype : S.input.handle_input KEY_LF = S.input.left := rfl
    apply outcome_move env (clean_of_ne (by decide) (by decide))
    · rw [htype]
      exact (left_keeps _).2.1
    · rw [htype]
      have hleft := h.left h.esc_le
      rw [← hesc] at hleft
      exact h.edit hleft.reading.line h.spare h.backs h.text (left_keeps _).2.2.1
        ((left_esc _).trans hesc) h.esc_le
  by_cases hrt : b = KEY_RT
  · subst hrt
    obtain rfl := Option.some.inj hI
    have htype : S.input.handle_input KEY_RT = S.input.right := rfl
    apply outcome_move env (clean_of_ne (by decide) (by decide))
    · rw [htype]
      exact (right_keeps _).2.1
    · rw [htype]
      have hright := h.right h.esc_le
      rw [← hesc] at hright
      exact h.edit hright.reading.line h.spare h.backs h.text (right_keeps _).2.2.1
        ((right_esc _).trans hesc) h.esc_le
  -- what is left are the bytes of an escape sequence, by its state
  unfold Ideal.byte at hI
  rw [if_neg hlf, if_neg hrt] at hI
  have hline : ∀ n, Line { S.input with esc_state := n } P S.ideal.text S.ideal.cur := fun n =>
    h.reading.line.same rfl rfl rfl rfl rfl
  by_cases h1 : S.ideal.esc = 1
  · rw [if_pos h1] at hI
    by_cases hbr : b = chr '['
    · rw [if_pos hbr] at hI
      subst hbr
      obtain rfl := Option.some.inj hI
      have htype : S.input.handle_input (chr '[') = { S.input with esc_state := 2 } := by
        unfold handle_input
        rw [hesc, h1]
        rfl
      apply outcome_move env (clean_of_esc (by omega))
      · rw [htype]
      · rw [htype]
        exact h.edit (hline 2) h.spare h.backs h.text rfl rfl (Nat.le_refl 2)
    · rw [if_neg hbr] at hI
      exact nomatch hI
  rw [if_neg h1] at hI
  by_cases h2 : S.ideal.esc = 2
  · rw [if_pos h2] at hI
    by_cases hC : b = chr 'C'
    · rw [if_pos hC] at hI
      subst hC
      obtain rfl := Option.some.inj hI
      have htype : S.input.handle_input (chr 'C') =
          Input.right { S.input with esc_state := 0 } := by
        unfold handle_input
        rw [hesc, h2]
        rfl
      apply outcome_move env (clean_of_esc (by omega))
      · rw [htype]
        exact (right_keeps _).2.1
      · rw [htype]
        exact h.right (Nat.zero_le 2)
    rw [if_neg hC] at hI
    by_cases hD : b = chr 'D'
    · rw [if_pos hD] at hI
      subst hD
      obtain rfl := Option.some.inj hI
      have htype : S.input.handle_input (chr 'D') =
          Input.left { S.input with esc_state := 0 } := by
        unfold handle_input
        rw [hesc, h2]
        rfl
      apply outcome_move env (clean_of_esc (by omega))
      · rw [htype]
        exact (left_keeps _).2.1
      · rw [htype]
        exact h.left (Nat.zero_le 2)
    · rw [if_neg hD] at hI
      exact nomatch hI
  rw [if_neg h2] at hI
  have hE : b = ESC := by tauto
  subst hE
  obtain rfl := Option.some.inj hI
  have htype : S.input.handle_input ESC = { S.input with esc_state := 1 } := by
    unfold handle_input
    rw [if_neg (by decide), if_neg (by decide), if_neg (by decide), if_neg (by decide),
      if_neg (by omega), if_neg (by omega), if_pos rfl]
  apply outcome_move env (clean_of_ne (by decide) (by decide))
  · rw [htype]
  · rw [htype]
    exact h.edit (hline 1) h.spare h.backs h.text rfl rfl (Nat.le_succ 1)

/-- The shell reads a backspace on its empty buffer. -/
lemma Synced.read {S' : Session H} (h : Synced S P) (hnext : S.next env .read = some S') :
    Outcome env S S' .read := by
  rcases P with _ | ⟨x, P⟩
  · -- nothing waits, so the shell sleeps
    exfalso
    have heq := h.reading.line.r_eq_w.mpr rfl
    unfold Session.next at hnext
    rw [if_pos ⟨h.reading.ret, h.reading.decoy⟩] at hnext
    unfold readLoop at hnext
    rw [if_pos heq] at hnext
    cases hnext
  · obtain ⟨S₁, hS₁, hread⟩ := h.reading.back env (h.backs x List.mem_cons_self)
    have hform := h.reading.next env
    rw [hnext, Option.some.injEq] at hS₁ hform
    subst hS₁
    have hinput : S'.input = { S.input with r := S.input.r + 1 } := by rw [hform]
    have hideal : S'.ideal = S.ideal := by rw [hform]
    have hspare := h.spare
    rw [List.length_cons] at hspare
    refine .inl ⟨trivial, ?_, P, ?_⟩
    · rw [hinput]
      exact Nat.le_refl _
    · refine ⟨?_, ?_, fun y hy => h.backs y (List.mem_cons_of_mem _ hy), ?_, ?_, ?_, ?_⟩
      · rw [hideal]
        exact hread
      · rw [hideal]
        omega
      · rw [hideal]
        exact h.text
      · rw [hinput]
        exact h.raw
      · rw [hinput, hideal]
        exact h.esc
      · rw [hideal]
        exact h.esc_le

/-- Every step that meets the condition. -/
lemma Synced.next {S' : Session H} {a : Step} (h : Synced S P) (hnext : S.next env a = some S')
    (hmax : S.input.e.toNat + a.bytes + 1 < 2 ^ 32) (hlen : S'.ideal.text.length ≤ 98) :
    Outcome env S S' a := by
  rcases a with b | _ | _
  · obtain ⟨I, hI, rfl⟩ := Option.map_eq_some_iff.mp hnext
    by_cases hmove : b = KEY_LF ∨ b = KEY_RT ∨ S.ideal.esc = 1 ∨ S.ideal.esc = 2 ∨ b = ESC
    · exact h.move env hI hmove
    · simp only [not_or] at hmove
      obtain ⟨hlf, hrt, h1, h2, hE⟩ := hmove
      have hle := h.esc_le
      have hesc : S.ideal.esc = 0 := by omega
      unfold Ideal.byte at hI
      rw [if_neg hlf, if_neg hrt, if_neg h1, if_neg h2, if_neg hE] at hI
      by_cases hback : Back b
      · rw [if_pos hback] at hI
        obtain rfl := Option.some.inj hI
        by_cases hcur : S.ideal.cur = 0
        · have hsame : S.ideal.press .backspace = S.ideal := if_pos hcur
          have hlen' : (S.ideal.press .backspace).text.length ≤ 98 := hlen
          rw [hsame] at hlen'
          exact h.submit env hback hesc hcur hmax hlen'
        · exact h.erase env hback hesc hcur
      · rw [if_neg hback] at hI
        by_cases hp : Printable b
        · rw [if_pos hp] at hI
          obtain rfl := Option.some.inj hI
          exact h.char env hp hesc hmax hlen
        · rw [if_neg hp] at hI
          exact nomatch hI
  · exact h.read env hnext
  · -- the shell has no string to pass to `kbddecoy`
    unfold Session.next at hnext
    rw [h.reading.decoy] at hnext
    exact nomatch hnext

lemma synced_start {hist : H} (h : Idle s) : Synced (.start s hist) [] := by
  refine ⟨⟨⟨?_, ?_, ?_, Nat.le_refl _, Nat.zero_le _, Ring.holds_nil⟩, rfl, rfl, rfl, rfl⟩,
    Nat.zero_lt_succ _, fun x hx => absurd hx List.not_mem_nil,
    fun x hx => absurd hx List.not_mem_nil, h.raw, h.esc, Nat.zero_le _⟩
  · show s.w.toNat = s.r.toNat + 0
    rw [h.w, Nat.add_zero]
  · show s.e.toNat = s.w.toNat + 0
    rw [h.e, h.w, Nat.add_zero]
  · show s.cur.toNat = s.w.toNat + 0
    rw [h.cur, h.w, Nat.add_zero]

/-- **The line editor delivers what was edited**, whenever Enter is pressed during a run, exactly
when every step of the run is clean. -/
theorem delivers_iff {hist : H} {as : List Step} {S : Session H} (hidle : Idle s)
    (hrun : Runs.run (Session.next env) (.start s hist) as = some S)
    (hmax : s.e.toNat + (as.map Step.bytes).sum + 1 < 2 ^ 32)
    (hlen : ∀ as' S', as' <+: as → Runs.run (Session.next env) (.start s hist) as' = some S' →
      S'.ideal.text.length ≤ 98) :
    (∀ as' S', as' <+: as → Runs.run (Session.next env) (.start s hist) as' = some S' →
        S'.ideal.esc = 0 → Delivers env S') ↔
      Runs.Along (Session.next env) Clean (.start s hist) as := by
  have hall : ∀ (as : List Step) (S₀ : Session H) (P : List UInt8), Synced S₀ P →
      (∃ S, Runs.run (Session.next env) S₀ as = some S) →
      S₀.input.e.toNat + (as.map Step.bytes).sum + 1 < 2 ^ 32 →
      (∀ as' S', as' <+: as → Runs.run (Session.next env) S₀ as' = some S' →
        S'.ideal.text.length ≤ 98) →
      ((∀ as' S', as' <+: as → Runs.run (Session.next env) S₀ as' = some S' →
        S'.ideal.esc = 0 → Delivers env S') ↔
        Runs.Along (Session.next env) Clean S₀ as) := by
    intro as
    induction as with
    | nil =>
      intro S₀ P h _ hmax hlen
      refine ⟨fun _ => trivial, fun _ as' S' hpre hrun hesc => ?_⟩
      have htext := hlen as' S' hpre hrun
      rw [List.prefix_nil.mp hpre] at hrun
      obtain rfl := Option.some.inj hrun
      exact h.delivers env hesc hmax htext
    | cons a as ih =>
      intro S₀ P h hrun hmax hlen
      obtain ⟨S, hrun⟩ := hrun
      obtain ⟨S₁, hnext, hrun⟩ := Runs.run_cons_eq_some.mp hrun
      rw [List.map_cons, List.sum_cons] at hmax
      -- a run of the rest is a run of the whole
      have hcons : ∀ as' S', Runs.run (Session.next env) S₁ as' = some S' →
          Runs.run (Session.next env) S₀ (a :: as') = some S' := fun as' S' hr =>
        Runs.run_cons_eq_some.mpr ⟨S₁, hnext, hr⟩
      have hpre : ∀ as', as' <+: as → a :: as' <+: a :: as := fun as' hp =>
        List.cons_prefix_cons.mpr ⟨rfl, hp⟩
      have hlen₁ := hlen [a] S₁ (hpre [] List.nil_prefix) (hcons [] S₁ rfl)
      rw [Runs.along_cons_of_some hnext]
      rcases h.next env hnext (by omega) hlen₁ with ⟨hclean, he, P', hP'⟩ | ⟨hclean, hesc, hno⟩
      · have hih := ih S₁ P' hP' ⟨S, hrun⟩ (by omega) fun as' S' hp hr =>
          hlen (a :: as') S' (hpre as' hp) (hcons as' S' hr)
        rw [← hih]
        constructor
        · intro hdel
          exact ⟨hclean, fun as' S' hp hr => hdel (a :: as') S' (hpre as' hp) (hcons as' S' hr)⟩
        · intro hdel as' S' hp hr hesc
          rcases as' with _ | ⟨a', as'⟩
          · have htext := hlen [] S' hp hr
            obtain rfl := Option.some.inj hr
            exact h.delivers env hesc (by omega) htext
          · obtain ⟨rfl, htail⟩ := List.cons_prefix_cons.mp hp
            obtain ⟨S₂, hS₂, hr⟩ := Runs.run_cons_eq_some.mp hr
            rw [hnext, Option.some.injEq] at hS₂
            subst hS₂
            exact hdel.2 as' S' htail hr hesc
      · constructor
        · intro hdel
          exact absurd (hdel [a] S₁ (hpre [] List.nil_prefix) (hcons [] S₁ rfl) hesc) hno
        · exact fun hdel => absurd hdel.1 hclean
  exact hall as (.start s hist) [] (synced_start hidle) ⟨S, hrun⟩ hmax hlen

end

/-- A shell with no history and nothing to complete. -/
def bare : Env Unit where
  reset_autocomplete h := h
  get_prev_command h := (h, none)
  get_next_command h := (h, none)
  curr _ := none
  autocomplete h buf _ := (h, buf)

lemma idle_zero : Idle .zero := ⟨rfl, rfl, rfl, rfl, rfl⟩

/-- The text is `b`, then `b` with the cursor in front of it, then `ab`. -/
theorem delivers_iff_insert : ∃ S,
    Runs.run (Session.next bare) (.start .zero ())
      [.byte (chr 'b'), .byte ESC, .byte (chr '['), .byte (chr 'D'), .byte (chr 'a')] = some S ∧
    S.ideal.text = [chr 'a', chr 'b'] ∧ Delivers bare S := by
  let as : List Step :=
    [.byte (chr 'b'), .byte ESC, .byte (chr '['), .byte (chr 'D'), .byte (chr 'a')]
  have hsome : (Runs.run (Session.next bare) (.start .zero ()) as).map
      (fun S => (S.ideal.text, S.ideal.esc)) = some ([chr 'a', chr 'b'], 0) := by decide +kernel
  obtain ⟨S, hS, hideal⟩ := Option.map_eq_some_iff.mp hsome
  rw [Prod.mk.injEq] at hideal
  have hshort : ∀ as' ∈ as.inits, (Runs.run (Session.next bare) (.start .zero ()) as').all
      (fun S => S.ideal.text.length ≤ 98) := by decide +kernel
  have hdel := (delivers_iff bare idle_zero hS (by decide) fun as' S' hp hr => by
    have hall := hshort as' ((List.mem_inits as' as).mpr hp)
    rw [hr, Option.all_some] at hall
    exact of_decide_eq_true hall).mpr (by decide +kernel)
  exact ⟨S, hS, hideal.1, hdel as S (List.prefix_refl as) hS hideal.2⟩

/-- The text is `ab` and the cursor in front of it when Backspace is pressed: `getcmd` returns
`a`. -/
theorem not_delivers_backspace : ¬ ∀ (as : List Step) (S : Session Unit),
    Runs.run (Session.next bare) (.start .zero ()) as = some S → S.ideal.text.length ≤ 98 →
      S.ideal.esc = 0 → Delivers bare S := by
  intro hall
  let as : List Step :=
    [.byte (chr 'a'), .byte (chr 'b'), .byte KEY_LF, .byte KEY_LF, .byte (ctrl 'H')]
  have hsome : (Runs.run (Session.next bare) (.start .zero ()) as).map
      (fun S => (S.ideal.text, S.ideal.esc, (Runs.run (Session.next bare) (S.type (chr '\n'))
        (List.replicate ((S.type (chr '\n')).input.w - (S.type (chr '\n')).input.r).toNat
          .read)).map fun S' => S'.shell.buf)) =
      some ([chr 'a', chr 'b'], 0, some [chr 'a', chr '\n']) := by decide +kernel
  obtain ⟨S, hS, hideal⟩ := Option.map_eq_some_iff.mp hsome
  rw [Prod.mk.injEq, Prod.mk.injEq] at hideal
  obtain ⟨htext, hesc, hread⟩ := hideal
  obtain ⟨S', hrun, -, hbuf⟩ := hall as S hS (by rw [htext]; decide) hesc (chr '\n') (.inl rfl)
  rw [hrun, Option.map_some, Option.some.injEq, hbuf, htext] at hread
  exact absurd hread (by decide)

end Console
end OhMyXv6
