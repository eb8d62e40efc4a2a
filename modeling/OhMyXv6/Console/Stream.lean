import OhMyXv6.Console.Index
import OhMyXv6.Console.Text

/-!
# From the keys to the readers

In cooked mode the ring is a queue of submitted bytes with a line in front of it. Every key either
edits the line or submits it; every reader takes bytes from the other end. So the bytes that the
readers have taken, followed by those that wait in the ring, are the bytes that were submitted.

Readers of several processes may wait at the same time. Each byte goes to one of them, in the order
in which they get hold of the lock.
-/

namespace OhMyXv6
namespace Console

open Input

/-- The ring in cooked mode, as long as the indices have not wrapped around. -/
structure Cooked (s : Input) (P T : List UInt8) (c : ℕ) : Prop where
  line : Line s P T c
  raw : s.raw = false
  entered : s.e.toNat ≤ s.entered

/-- The step from `s` to `t` leaves the submitted bytes alone, but for new ones at their end. -/
def Submits (P : List UInt8) (s t : Input) : Prop :=
  t.r = s.r ∧ s.entered ≤ t.entered ∧ (t.entered < 2 ^ 32 → ∃ X T' c', Cooked t (P ++ X) T' c')

section
variable {s t : Input} {P T : List UInt8} {c : ℕ} {ch : UInt8}

/-- Nothing is submitted. -/
lemma submits_none {T' : List UInt8} {c' : ℕ} (hr : t.r = s.r) (hn : s.entered ≤ t.entered)
    (h : t.entered < 2 ^ 32 → Cooked t P T' c') : Submits P s t := by
  refine ⟨hr, hn, fun hmax => ⟨[], T', c', ?_⟩⟩
  rw [List.append_nil]
  exact h hmax

/-- A line that got no more bytes. -/
lemma Cooked.same {T' : List UInt8} {c' : ℕ} (h : Cooked s P T c) (hline : Line t P T' c')
    (hraw : t.raw = s.raw) (he : t.e.toNat ≤ s.e.toNat) (hn : t.entered = s.entered) :
    Cooked t P T' c' := by
  have hle := h.entered
  exact ⟨hline, by rw [hraw, h.raw], by omega⟩

lemma Cooked.max (h : Cooked s P T c) (hmax : s.entered + 1 < 2 ^ 32) :
    s.e.toNat + 1 < 2 ^ 32 := by
  have := h.entered
  omega

variable (ch) in
lemma submits_submit (h : Cooked s P T c) (hroom : s.Room) : Submits P s (s.submit ch) := by
  refine ⟨rfl, Nat.le_succ _, fun hmax => ⟨T ++ [ch], [], 0, ?_⟩⟩
  have hmax' : s.entered + 1 < 2 ^ 32 := hmax
  have hline := h.line.submit (h.line.room_iff.mp hroom) (h.max hmax') ch
  have hle := h.entered
  refine ⟨hline, h.raw, ?_⟩
  show (s.e + 1).toNat ≤ s.entered + 1
  rw [toNat_succ (h.max hmax')]
  omega

/-- The left arrow moves the cursor only. -/
lemma left_keeps (s : Input) : s.left.r = s.r ∧ s.left.e = s.e ∧ s.left.raw = s.raw ∧
    s.left.entered = s.entered := by
  unfold Input.left
  split
  · exact ⟨rfl, rfl, rfl, rfl⟩
  · exact ⟨rfl, rfl, rfl, rfl⟩

lemma right_keeps (s : Input) : s.right.r = s.r ∧ s.right.e = s.e ∧ s.right.raw = s.raw ∧
    s.right.entered = s.entered := by
  unfold Input.right
  split
  · exact ⟨rfl, rfl, rfl, rfl⟩
  · exact ⟨rfl, rfl, rfl, rfl⟩

lemma submits_left (h : Cooked s P T c) : Submits P s s.left := by
  obtain ⟨hr, he, hraw, hn⟩ := left_keeps s
  exact submits_none hr (by omega) fun _ => h.same h.line.left hraw (by rw [he]) hn

lemma submits_right (h : Cooked s P T c) : Submits P s s.right := by
  obtain ⟨hr, he, hraw, hn⟩ := right_keeps s
  exact submits_none hr (by omega) fun _ => h.same h.line.right hraw (by rw [he]) hn

/-- `clear` changes neither the mode nor the number of bytes that have entered. -/
theorem clear_keeps (s : Input) : s.clear.r = s.r ∧ s.clear.w = s.w ∧ s.clear.raw = s.raw ∧
    s.clear.entered = s.entered := by
  have hloop : ∀ (n : ℕ) (t : Input), (eraseLoop n t).r = t.r ∧ (eraseLoop n t).w = t.w ∧
      (eraseLoop n t).raw = t.raw ∧ (eraseLoop n t).entered = t.entered := by
    intro n
    induction n with
    | zero => exact fun t => ⟨rfl, rfl, rfl, rfl⟩
    | succ n ih =>
      intro t
      unfold eraseLoop
      split
      · exact ih _
      · exact ⟨rfl, rfl, rfl, rfl⟩
  have hend : s.toEnd.r = s.r ∧ s.toEnd.w = s.w ∧ s.toEnd.raw = s.raw ∧
      s.toEnd.entered = s.entered := by
    unfold toEnd
    split
    · exact ⟨rfl, rfl, rfl, rfl⟩
    · exact ⟨rfl, rfl, rfl, rfl⟩
  have hl := hloop (s.toEnd.e - s.toEnd.w).toNat s.toEnd
  exact ⟨hl.1.trans hend.1, hl.2.1.trans hend.2.1, hl.2.2.1.trans hend.2.2.1,
    hl.2.2.2.trans hend.2.2.2⟩

lemma Cooked.clear (h : Cooked s P T c) : Cooked s.clear P (kept T) (kept T).length := by
  obtain ⟨-, hw, hraw, hn⟩ := clear_keeps s
  have hline := h.line.clear
  have he := hline.e
  have he' := h.line.e
  have hle := length_kept_le T
  apply h.same hline hraw _ hn
  rw [he, hw]
  omega

lemma Cooked.draft (h : Cooked s P T c) : Cooked s.save_history_draft P T c :=
  ⟨h.line.same rfl rfl rfl rfl rfl, h.raw, h.entered⟩

variable (ch) in
lemma erase_keeps (hne : s.cur ≠ s.w) : (s.erase ch).r = s.r ∧ (s.erase ch).e = s.e - 1 ∧
    (s.erase ch).raw = s.raw ∧ (s.erase ch).entered = s.entered := by
  obtain ⟨b, hb⟩ := shiftDown_eq ((s.e - 1).toNat - (s.cur - 1).toNat) (s.cur - 1) s
  unfold Input.erase
  rw [if_neg hne]
  dsimp only
  rw [hb]
  exact ⟨rfl, rfl, rfl, rfl⟩

lemma submits_erase (h : Cooked s P T c) : Submits P s (s.erase ch) := by
  by_cases hc : c = 0
  · unfold Input.erase
    rw [if_pos (h.line.cur_eq_w.mpr hc)]
    by_cases hroom : s.Room
    · rw [if_pos hroom]
      exact submits_submit ch h hroom
    · rw [if_neg hroom]
      exact submits_none rfl (Nat.le_refl _) fun _ => h
  · obtain ⟨hr, he, hraw, hn⟩ := erase_keeps ch fun heq => hc (h.line.cur_eq_w.mp heq)
    have hpos : 0 < s.e.toNat := by
      have hse := h.line.e
      have hle := h.line.le
      omega
    refine submits_none hr (by omega) fun _ => h.same (h.line.erase (by omega) ch) hraw ?_ hn
    rw [he, toNat_pred hpos]
    omega

/-- The submit that happens when the ring is full. -/
lemma submits_auto {T' : List UInt8} {c' : ℕ} (h : Cooked s P T c)
    (hline : s.entered + 1 < 2 ^ 32 →
      Line t (autoSubmit P T' c').1 (autoSubmit P T' c').2.1 (autoSubmit P T' c').2.2)
    (hr : t.r = s.r) (hraw : t.raw = s.raw) (he : t.e = s.e + 1)
    (hn : t.entered = s.entered + 1) : Submits P s t := by
  refine ⟨hr, by omega, fun hmax => ?_⟩
  have hl := hline (by omega)
  have hle := h.entered
  have hent : t.e.toNat ≤ t.entered := by
    rw [he, toNat_succ (h.max (by omega))]
    omega
  unfold autoSubmit at hl
  by_cases hfull : P.length + T'.length = 128
  · rw [if_pos hfull] at hl
    exact ⟨T', [], 0, hl, by rw [hraw, h.raw], hent⟩
  · rw [if_neg hfull] at hl
    refine ⟨[], T', c', ?_, by rw [hraw, h.raw], hent⟩
    rw [List.append_nil]
    exact hl

lemma append_keeps (s : Input) (ch : UInt8) : (s.append ch).r = s.r ∧
    (s.append ch).raw = s.raw ∧ (s.append ch).e = s.e + 1 ∧
    (s.append ch).entered = s.entered + 1 := by
  unfold Input.append
  dsimp only
  split
  · exact ⟨rfl, rfl, rfl, rfl⟩
  · exact ⟨rfl, rfl, rfl, rfl⟩

/-- A byte at the end; a full ring is submitted. -/
lemma submits_append (h : Cooked s P T c) (hroom : s.Room) : Submits P s (s.append ch) := by
  obtain ⟨hr, hraw, he, hn⟩ := append_keeps s ch
  have hline : s.entered + 1 < 2 ^ 32 → _ := fun hmax =>
    h.line.append (h.line.room_iff.mp hroom) (h.max hmax) ch
  exact submits_auto h hline hr hraw he hn

lemma toEnd_keeps (s : Input) : s.toEnd.r = s.r ∧ s.toEnd.raw = s.raw ∧
    s.toEnd.entered = s.entered := by
  unfold Input.toEnd
  split
  · exact ⟨rfl, rfl, rfl⟩
  · exact ⟨rfl, rfl, rfl⟩

lemma insert_keeps (s : Input) (ch : UInt8) : (s.insert ch).r = s.r ∧
    (s.insert ch).raw = s.raw ∧ (s.insert ch).e = s.e + 1 ∧
    (s.insert ch).entered = s.entered + 1 := by
  obtain ⟨b, hb⟩ := shiftUp_eq (s.e.toNat - s.cur.toNat) s.e s
  have hat : (s.insertAt ch).r = s.r ∧ (s.insertAt ch).raw = s.raw ∧
      (s.insertAt ch).e = s.e + 1 ∧ (s.insertAt ch).entered = s.entered + 1 := by
    unfold Input.insertAt
    dsimp only
    rw [hb]
    exact ⟨rfl, rfl, rfl, rfl⟩
  have hend := toEnd_keeps (s.insertAt ch)
  unfold Input.insert
  dsimp only
  split
  · exact ⟨hend.1.trans hat.1, hend.2.1.trans hat.2.1, (toEnd_e _).trans hat.2.2.1,
      hend.2.2.trans hat.2.2.2⟩
  · exact hat

/-- A byte in the middle; a full ring is submitted. -/
lemma submits_insert (h : Cooked s P T c) (hroom : s.Room) : Submits P s (s.insert ch) := by
  obtain ⟨hr, hraw, he, hn⟩ := insert_keeps s ch
  have hline : s.entered + 1 < 2 ^ 32 → _ := fun hmax =>
    h.line.insert (h.line.room_iff.mp hroom) (h.max hmax) ch
  exact submits_auto h hline hr hraw he hn

lemma submits_enter (h : Cooked s P T c) (hroom : s.Room) : Submits P s (s.enter ch) := by
  obtain ⟨hr, hraw, hn⟩ := toEnd_keeps s
  have hend : Cooked s.toEnd P T T.length := h.same h.line.toEnd hraw (by rw [toEnd_e]) hn
  have hroom' : s.toEnd.Room := by
    unfold Room
    rw [toEnd_e, hr]
    exact hroom
  obtain ⟨hr', hn', hsub⟩ := submits_submit ch hend hroom'
  have hent : (s.enter ch).entered = (s.toEnd.submit ch).entered := rfl
  refine ⟨hr, by omega, fun hmax => ?_⟩
  obtain ⟨X, T', c', hcooked⟩ := hsub (by omega)
  exact ⟨X, T', c', hcooked.same (hcooked.line.same rfl rfl rfl rfl rfl) rfl (Nat.le_refl _) rfl⟩

lemma submits_clear (h : Cooked s P T c) : Submits P s s.clear := by
  obtain ⟨hr, -, -, hn⟩ := clear_keeps s
  exact submits_none hr (by omega) fun _ => h.clear

/-- A flag that is no part of the ring. -/
lemma Submits.flag {u : Input} (h : Submits P s t) (hr : u.r = t.r) (hw : u.w = t.w)
    (he : u.e = t.e) (hcur : u.cur = t.cur) (hbuf : u.buf = t.buf) (hraw : u.raw = t.raw)
    (hn : u.entered = t.entered) : Submits P s u := by
  refine ⟨hr.trans h.1, by rw [hn]; exact h.2.1, fun hmax => ?_⟩
  obtain ⟨X, T', c', hc⟩ := h.2.2 (by omega)
  exact ⟨X, T', c', hc.same (hc.line.same hr hw he hcur hbuf) hraw (by rw [he]) hn⟩

lemma submits_edit (h : Cooked s P T c) : Submits P s (s.edit ch) := by
  apply edit_cases s ch
  · exact submits_none rfl (Nat.le_refl _) fun _ => h
  · exact (submits_clear h).flag rfl rfl rfl rfl rfl rfl rfl
  · exact submits_submit ch h
  · -- the draft is saved first, if it is not
    intro t ht
    have hdraft : ∃ u, (if s.history_draft_active then s else s.save_history_draft) = u ∧
        Cooked u P T c ∧ u.r = s.r ∧ u.entered = s.entered := by
      split
      · exact ⟨s, rfl, h, rfl, rfl⟩
      · exact ⟨_, rfl, h.draft, rfl, rfl⟩
    obtain ⟨u, hu, hcooked, hur, hun⟩ := hdraft
    rw [ht, hu]
    obtain ⟨hr, -, -, hn⟩ := clear_keeps u
    by_cases hroom : u.clear.Room
    · rw [if_pos hroom]
      obtain ⟨hr', hn', hsub⟩ := submits_submit ch hcooked.clear hroom
      exact ⟨hr'.trans (hr.trans hur), by omega, hsub⟩
    · rw [if_neg hroom]
      exact submits_none (hr.trans hur) (by omega) fun _ => hcooked.clear
  · exact fun _ => submits_erase h
  · exact fun _ hroom => submits_enter h hroom
  · exact fun _ hroom _ => submits_append h hroom
  · exact fun _ hroom _ => submits_insert h hroom

lemma submits_key (h : Cooked s P T c) : Submits P s (s.key ch) := by
  unfold key
  split
  · exact submits_none rfl (Nat.le_refl _) fun _ => h
  · rw [h.raw, if_neg fun hr => Bool.false_ne_true hr.1]
    exact submits_edit h

lemma submits_handle_input (h : Cooked s P T c) : Submits P s (s.handle_input ch) := by
  have hesc : ∀ n, Cooked { s with esc_state := n } P T c := fun n =>
    h.same (h.line.same rfl rfl rfl rfl rfl) rfl (Nat.le_refl _) rfl
  have hkeep : ∀ n, Submits P s { s with esc_state := n } := fun n =>
    submits_none rfl (Nat.le_refl _) fun _ => hesc n
  -- the ring does not see the state of an escape sequence
  have hsub : ∀ {n : ℕ} {t : Input}, Submits P { s with esc_state := n } t → Submits P s t :=
    fun hs => hs
  apply handle_input_cases s ch hkeep
  · exact fun n => hsub (submits_left (hesc n))
  · exact fun n => hsub (submits_right (hesc n))
  · exact fun n k => hsub (submits_key (hesc n))

/-- The number of bytes that the loop of `replace_input` puts into the ring: it leaves one cell. -/
def filled (P T cs : List UInt8) : ℕ := min cs.length (127 - (P.length + T.length))

/-- The bytes that replace the line. -/
lemma fill_keeps (cs : List UInt8) (s : Input) : (Input.fill cs s).r = s.r ∧
    s.entered ≤ (Input.fill cs s).entered := by
  induction cs generalizing s with
  | nil => exact ⟨rfl, Nat.le_refl _⟩
  | cons ch cs ih =>
    unfold Input.fill
    split
    · obtain ⟨hr, hn⟩ := ih ((s.push ch).emit [.putc ch])
      exact ⟨hr, Nat.le_trans (Nat.le_succ _) hn⟩
    · exact ⟨rfl, Nat.le_refl _⟩

lemma Cooked.fill (cs : List UInt8) : ∀ {T : List UInt8} {s : Input}, Cooked s P T T.length →
    (Input.fill cs s).entered < 2 ^ 32 → Cooked (Input.fill cs s) P
      (T ++ cs.take (filled P T cs)) (T ++ cs.take (filled P T cs)).length := by
  induction cs with
  | nil =>
    intro T s h _
    have h0 : filled P T [] = 0 := Nat.zero_min _
    rw [h0, List.take_nil, List.append_nil]
    exact h
  | cons ch cs ih =>
    intro T s h hmax
    have hw := h.line.w
    have he := h.line.e
    have hlt : s.e - s.r < INPUT_BUF - 1 ↔ P.length + T.length < 127 := by
      have hle : s.r ≤ s.e := by
        rw [UInt32.le_iff_toNat_le]
        omega
      have hbuf : (INPUT_BUF - 1).toNat = 127 := rfl
      rw [UInt32.lt_iff_toNat_lt, UInt32.toNat_sub_of_le _ _ hle, hbuf]
      omega
    unfold Input.fill at hmax ⊢
    by_cases hroom : P.length + T.length < 127
    · rw [if_pos (hlt.mpr hroom)] at hmax ⊢
      have hmore : filled P T (ch :: cs) = filled P (T ++ [ch]) cs + 1 := by
        unfold filled
        rw [List.length_cons, List.length_append, List.length_singleton]
        omega
      -- what is left still enters, so this byte does not reach the limit
      have hone : s.entered + 1 < 2 ^ 32 :=
        Nat.lt_of_le_of_lt (fill_keeps cs ((s.push ch).emit [.putc ch])).2 hmax
      have hadd : (s.e + 1).toNat = s.e.toNat + 1 := toNat_succ (h.max hone)
      have hent := h.entered
      have hpush : Cooked ((s.push ch).emit [.putc ch]) P (T ++ [ch]) (T ++ [ch]).length := by
        have hp := h.line.push (by omega) (h.max hone) ch
        rw [List.length_append, List.length_singleton]
        refine ⟨hp.same rfl rfl rfl rfl rfl, h.raw, ?_⟩
        show (s.e + 1).toNat ≤ s.entered + 1
        omega
      rw [hmore, List.take_succ_cons, List.append_cons]
      exact ih hpush hmax
    · have h0 : filled P T (ch :: cs) = 0 := by
        unfold filled
        omega
      rw [if_neg fun hl => hroom (hlt.mp hl), h0, List.take_zero, List.append_nil]
      exact h

lemma submits_replace_input (h : Cooked s P T c) (str : List UInt8) :
    Submits P s (replace_input str s) := by
  have hfill : ∀ (cs : List UInt8) (u : Input), Cooked u P T c → u.r = s.r →
      u.entered = s.entered → Submits P s (Input.fill cs u.clear) := by
    intro cs u hu hur hun
    obtain ⟨hr, -, -, hn⟩ := clear_keeps u
    obtain ⟨hr', hn'⟩ := fill_keeps cs u.clear
    exact submits_none (hr'.trans (hr.trans hur)) (by omega) fun hmax => hu.clear.fill cs hmax
  have hdraft : ∀ (Q : Prop) [Decidable Q] (cs : List UInt8),
      Submits P s (Input.fill cs (if Q then s.save_history_draft else s).clear) := by
    intro Q _ cs
    split
    · exact hfill cs _ h.draft rfl rfl
    · exact hfill cs s h rfl rfl
  unfold replace_input
  dsimp only
  split
  · exact (hdraft _ _).flag rfl rfl rfl rfl rfl rfl rfl
  · exact hdraft _ _

/-! ## Readers -/

lemma Line.get_r {x : UInt8} (h : Line s (x :: P) T c) : s.get s.r = x := by
  have hcell := h.buf 0 (by simp)
  rw [List.cons_append, List.getElem?_cons_zero, Nat.add_zero] at hcell
  rw [get_eq]
  exact (Option.some.inj hcell).symm

/-- The first submitted byte is taken. -/
lemma Line.take {x : UInt8} (h : Line s (x :: P) T c) :
    Line { s with r := s.r + 1 } P T c := by
  have hw := h.w
  have hlen := h.len
  rw [List.length_cons] at hw hlen
  have hmax := UInt32.toNat_lt s.w
  have hr : (s.r + 1).toNat = s.r.toNat + 1 := toNat_succ (by omega)
  refine ⟨?_, h.e, h.cur, h.le, by omega, ?_⟩
  · show s.w.toNat = (s.r + 1).toNat + P.length
    omega
  · show Ring.Holds 128 s.buf (s.r + 1).toNat (P ++ T)
    have hall : Ring.Holds 128 s.buf s.r.toNat ([x] ++ (P ++ T)) := h.buf
    rw [hr]
    exact hall.of_append_right

lemma Cooked.take {x : UInt8} (h : Cooked s (x :: P) T c) :
    Cooked { s with r := s.r + 1 } P T c :=
  ⟨h.line.take, h.raw, h.entered⟩

lemma Line.r_eq_w (h : Line s P T c) : s.r = s.w ↔ P = [] := by
  have hw := h.w
  rw [← UInt32.toNat_inj, ← List.length_eq_zero_iff]
  omega

/-- A reader takes the first of the submitted bytes. -/
lemma Cooked.readLoop (target n : ℕ) : ∀ {P : List UInt8} {s : Input}, Cooked s P T c →
    ∃ P', P = (Input.readLoop target n s).2.1 ++ P' ∧
      Cooked (Input.readLoop target n s).1 P' T c ∧
      (Input.readLoop target n s).1.entered = s.entered := by
  induction n with
  | zero => exact fun h => ⟨_, rfl, h, rfl⟩
  | succ n ih =>
    intro P s h
    unfold Input.readLoop
    rcases P with _ | ⟨x, P⟩
    · rw [if_pos (h.line.r_eq_w.mpr rfl)]
      exact ⟨[], rfl, h, rfl⟩
    · rw [if_neg fun heq => absurd (h.line.r_eq_w.mp heq) (List.cons_ne_nil x P)]
      have hx : s.get s.r = x := h.line.get_r
      dsimp only
      rw [hx]
      split
      · split
        · exact ⟨x :: P, rfl, h, rfl⟩
        · exact ⟨P, rfl, h.take, rfl⟩
      split
      · exact ⟨P, rfl, h.take, rfl⟩
      · obtain ⟨P', hP, hcooked, hn⟩ := ih h.take
        exact ⟨P', by rw [List.cons_append, ← hP], hcooked, hn⟩

end

/-! ## Keyboard and readers together -/

/-- A process in `consoleread` that sleeps: it has got some of the `target` bytes and `n` are left. -/
structure Reader where
  target : ℕ
  n : ℕ
  got : List UInt8

/-- The console and the processes that read from it. -/
structure Sys where
  input : Input
  reader : ℕ → Option Reader
  /-- History: the bytes that were submitted. -/
  submitted : List UInt8
  /-- History: the bytes that the readers have taken out of the ring, and who took them. -/
  taken : List (ℕ × UInt8)
  /-- History: what the calls of a process have returned, one after the other. A call that returns
  nothing because of a Ctrl-D counts as the Ctrl-D. -/
  returned : ℕ → List UInt8

/-- What may happen next: a key, a line put in by the shell, or a step of a reader. -/
inductive Act where
  | key (c : UInt8)
  | replace (str : List UInt8)
  /-- A process calls `consoleread`. -/
  | read (p n : ℕ)
  /-- A process that sleeps in `consoleread` goes on. -/
  | resume (p : ℕ)

namespace Sys

/-- The console with an empty buffer, and nobody reading. -/
def init : Sys := ⟨.zero, fun _ => none, [], [], fun _ => []⟩

/-- The bytes that are submitted and not yet read. -/
def pending (S : Sys) : List UInt8 := S.input.span S.input.r (S.input.w - S.input.r).toNat

/-- The bytes that a sleeping process has got so far. -/
def inHand (S : Sys) (p : ℕ) : List UInt8 :=
  match S.reader p with
  | none => []
  | some rd => rd.got

/-- The input is edited: what lies between the old and the new `w` is submitted. -/
def edit (S : Sys) (t : Input) : Sys :=
  { S with
    input := t
    submitted := S.submitted ++ t.span S.input.w (t.w - S.input.w).toNat }

/-- A process runs in `consoleread` until it returns or sleeps. -/
def runReader (S : Sys) (p : ℕ) (rd : Reader) : Sys :=
  let x := readLoop rd.target rd.n S.input
  let got := rd.got ++ x.2.1
  match x.2.2 with
  | .done =>
    { S with
      input := x.1
      taken := S.taken ++ x.2.1.map fun c => (p, c)
      reader := Function.update S.reader p none
      returned := Function.update S.returned p (S.returned p ++ got) }
  -- the ring is empty: the call waits with what it has
  | .sleep n =>
    { S with
      input := x.1
      taken := S.taken ++ x.2.1.map fun c => (p, c)
      reader := Function.update S.reader p (some ⟨rd.target, n, got⟩) }

/-- One step of the system. -/
def next (S : Sys) : Act → Option Sys
  | .key c => some (S.edit (S.input.handle_input c))
  | .replace str => some (S.edit (replace_input str S.input))
  | .read p n =>
    match S.reader p with
    | none => some (S.runReader p ⟨n, n, []⟩)
    | some _ => none
  | .resume p =>
    match S.reader p with
    | none => none
    | some rd => some (S.runReader p rd)

end Sys

/-- An action of the keyboard or of `kbddecoy`. -/
def Edits : Act → Prop
  | .key _ => True
  | .replace _ => True
  | _ => False

/-- What holds of the system as long as the indices have not wrapped around. -/
structure Delivered (S : Sys) (P T : List UInt8) (c : ℕ) : Prop where
  cooked : Cooked S.input P T c
  log : S.taken.map Prod.snd ++ P = S.submitted
  own : ∀ p, S.returned p ++ S.inHand p = (S.taken.filter fun x => x.1 = p).map Prod.snd

section
variable {S S' : Sys} {P T : List UInt8} {c : ℕ}

/-- The bytes between two indices. -/
lemma span_of_holds {s : Input} {x : UInt32} {L : List UInt8} (hmax : x.toNat + L.length < 2 ^ 32)
    (h : Ring.Holds 128 s.buf x.toNat L) : s.span x L.length = L := by
  rw [h.eq_map]
  unfold Input.span
  rw [List.length_map, List.length_range]
  apply List.map_congr_left
  intro i hi
  rw [List.mem_range] at hi
  rw [get_eq, UInt32.toNat_add]
  have hi' : i.toUInt32.toNat = i := by
    simp only [Nat.toUInt32_eq, UInt32.toNat_ofNat']
    omega
  have hsum : (x.toNat + i) % 2 ^ 32 = x.toNat + i := Nat.mod_eq_of_lt (by omega)
  rw [hi', hsum]

lemma sub_toNat {x y : UInt32} {n : ℕ} (h : y.toNat = x.toNat + n) : (y - x).toNat = n := by
  have hle : x ≤ y := by
    rw [UInt32.le_iff_toNat_le]
    omega
  rw [UInt32.toNat_sub_of_le _ _ hle]
  omega

/-- What waits is what was submitted and not read. -/
lemma Delivered.pending (h : Delivered S P T c) : S.pending = P := by
  have hw := h.cooked.line.w
  have hmax := UInt32.toNat_lt S.input.w
  unfold Sys.pending
  rw [sub_toNat hw]
  exact span_of_holds (by omega) h.cooked.line.buf.of_append_left

/-- Editing appends to what is submitted. -/
lemma Delivered.edit (h : Delivered S P T c) {t : Input} (hsub : Submits P S.input t)
    (hmax : t.entered < 2 ^ 32) : ∃ P' T' c', Delivered (S.edit t) P' T' c' := by
  obtain ⟨hr, -, hX⟩ := hsub
  obtain ⟨X, T', c', hcooked⟩ := hX hmax
  have hw := h.cooked.line.w
  have hw' := hcooked.line.w
  rw [hr, List.length_append] at hw'
  have hnew : t.w.toNat = S.input.w.toNat + X.length := by omega
  have hlt := UInt32.toNat_lt t.w
  have hspan : t.span S.input.w (t.w - S.input.w).toNat = X := by
    rw [sub_toNat hnew]
    apply span_of_holds (by omega)
    have hbuf := hcooked.line.buf.of_append_left.of_append_right
    rw [hr, ← hw] at hbuf
    exact hbuf
  refine ⟨P ++ X, T', c', hcooked, ?_, h.own⟩
  show S.taken.map Prod.snd ++ (P ++ X) = S.submitted ++ t.span S.input.w _
  rw [hspan, ← h.log, List.append_assoc]

lemma filter_own (p : ℕ) (l : List UInt8) :
    ((l.map fun c => (p, c)).filter fun x => x.1 = p).map Prod.snd = l := by
  rw [List.filter_eq_self.mpr]
  · rw [List.map_map]
    exact List.map_id _
  · intro x hx
    obtain ⟨c, -, rfl⟩ := List.mem_map.mp hx
    exact decide_eq_true rfl

lemma filter_other {p q : ℕ} (hne : p ≠ q) (l : List UInt8) :
    (l.map fun c => (p, c)).filter (fun x => x.1 = q) = [] := by
  rw [List.filter_eq_nil_iff]
  intro x hx
  obtain ⟨c, -, rfl⟩ := List.mem_map.mp hx
  simpa using hne

/-- A reader moves bytes from the ring to its process. -/
lemma Delivered.runReader (h : Delivered S P T c) {p : ℕ} (rd : Reader)
    (hrd : S.inHand p = rd.got) : ∃ P', Delivered (S.runReader p rd) P' T c ∧
      (S.runReader p rd).input.entered = S.input.entered := by
  obtain ⟨P', hP, hcooked, hn⟩ := h.cooked.readLoop rd.target rd.n
  refine ⟨P', ?_⟩
  have hlog : (S.taken ++ (readLoop rd.target rd.n S.input).2.1.map fun c => (p, c)).map Prod.snd ++
      P' = S.submitted := by
    rw [List.map_append, List.map_map, ← h.log, List.append_assoc]
    congr 1
    show (readLoop rd.target rd.n S.input).2.1.map id ++ P' = P
    rw [List.map_id, ← hP]
  have hown := h.own
  have hmine := h.own p
  rw [hrd] at hmine
  unfold Sys.runReader
  dsimp only
  rcases (readLoop rd.target rd.n S.input).2.2 with _ | n
  · refine ⟨⟨hcooked, hlog, fun q => ?_⟩, hn⟩
    rw [List.filter_append, List.map_append]
    by_cases hq : q = p
    · subst hq
      rw [filter_own, ← hmine]
      simp [Sys.inHand]
    · rw [filter_other (Ne.symm hq), List.map_nil, List.append_nil, ← hown q]
      simp [Sys.inHand, hq]
  · refine ⟨⟨hcooked, hlog, fun q => ?_⟩, hn⟩
    rw [List.filter_append, List.map_append]
    by_cases hq : q = p
    · subst hq
      rw [filter_own, ← hmine]
      simp [Sys.inHand]
    · rw [filter_other (Ne.symm hq), List.map_nil, List.append_nil, ← hown q]
      simp [Sys.inHand, hq]

/-! ## Runs -/

/-- The count of bytes entered only grows. -/
lemma entered_le_edit (s : Input) (ch : UInt8) : s.entered ≤ (s.edit ch).entered := by
  have hsubmit : ∀ t : Input, t.entered ≤ (t.submit ch).entered := fun t => Nat.le_succ _
  apply edit_cases (P := fun t => s.entered ≤ t.entered) s ch
  · exact Nat.le_refl _
  · exact Nat.le_of_eq (clear_keeps s).2.2.2.symm
  · exact fun _ => hsubmit s
  · intro t ht
    have hdraft : (if s.history_draft_active then s else s.save_history_draft).entered =
        s.entered := by
      split
      · rfl
      · rfl
    have hclear : t.entered = s.entered := by
      rw [ht, (clear_keeps _).2.2.2, hdraft]
    split
    · exact Nat.le_trans (Nat.le_of_eq hclear.symm) (hsubmit t)
    · exact Nat.le_of_eq hclear.symm
  · exact fun hw => Nat.le_of_eq (erase_keeps _ hw).2.2.2.symm
  · exact fun k _ => Nat.le_trans (Nat.le_of_eq (toEnd_keeps s).2.2.symm) (Nat.le_succ _)
  · exact fun k _ _ => Nat.le_trans (Nat.le_succ _) (Nat.le_of_eq (append_keeps s k).2.2.2.symm)
  · exact fun k _ _ => Nat.le_trans (Nat.le_succ _) (Nat.le_of_eq (insert_keeps s k).2.2.2.symm)

lemma entered_le_key (s : Input) (ch : UInt8) : s.entered ≤ (s.key ch).entered := by
  unfold key
  split
  · exact Nat.le_refl _
  split
  · exact Nat.le_succ _
  · exact entered_le_edit s ch

lemma entered_le_handle_input (s : Input) (ch : UInt8) :
    s.entered ≤ (s.handle_input ch).entered := by
  apply handle_input_cases (P := fun t => s.entered ≤ t.entered) s ch
  · exact fun _ => Nat.le_refl _
  · exact fun n => Nat.le_of_eq (left_keeps { s with esc_state := n }).2.2.2.symm
  · exact fun n => Nat.le_of_eq (right_keeps { s with esc_state := n }).2.2.2.symm
  · exact fun n k => entered_le_key { s with esc_state := n } k

lemma entered_le_replace_input (s : Input) (str : List UInt8) :
    s.entered ≤ (replace_input str s).entered := by
  have hfill : ∀ (Q : Prop) [Decidable Q] (cs : List UInt8),
      s.entered ≤ (Input.fill cs (if Q then s.save_history_draft else s).clear).entered := by
    intro Q _ cs
    refine Nat.le_trans ?_ (fill_keeps cs _).2
    rw [(clear_keeps _).2.2.2]
    split
    · exact Nat.le_refl _
    · exact Nat.le_refl _
  unfold replace_input
  dsimp only
  split
  · exact hfill _ _
  · exact hfill _ _

lemma entered_readLoop (target n : ℕ) (s : Input) :
    (readLoop target n s).1.entered = s.entered := by
  induction n generalizing s with
  | zero => rfl
  | succ n ih =>
    unfold readLoop
    split
    · rfl
    dsimp only
    split
    · split
      · rfl
      · rfl
    split
    · rfl
    · exact ih _

/-- One action, in a system in which it does not reach the limit. -/
theorem Delivered.next (h : Delivered S P T c) {a : Act} (hnext : S.next a = some S')
    (hmax : S'.input.entered < 2 ^ 32) : ∃ P' T' c', Delivered S' P' T' c' := by
  rcases a with ch | str | ⟨p, n⟩ | p
  · obtain rfl := Option.some.inj hnext
    exact h.edit (submits_handle_input h.cooked) hmax
  · obtain rfl := Option.some.inj hnext
    exact h.edit (submits_replace_input h.cooked str) hmax
  · simp only [Sys.next] at hnext
    rcases hrd : S.reader p with _ | rd
    · rw [hrd] at hnext
      obtain rfl := Option.some.inj hnext
      have hhand : S.inHand p = [] := by
        unfold Sys.inHand
        rw [hrd]
      obtain ⟨P', hP', -⟩ := h.runReader ⟨n, n, []⟩ hhand
      exact ⟨P', T, c, hP'⟩
    · rw [hrd] at hnext
      exact nomatch hnext
  · simp only [Sys.next] at hnext
    rcases hrd : S.reader p with _ | rd
    · rw [hrd] at hnext
      exact nomatch hnext
    · rw [hrd] at hnext
      obtain rfl := Option.some.inj hnext
      have hhand : S.inHand p = rd.got := by
        unfold Sys.inHand
        rw [hrd]
      obtain ⟨P', hP', -⟩ := h.runReader rd hhand
      exact ⟨P', T, c, hP'⟩

lemma entered_le_next {a : Act} (hnext : S.next a = some S') :
    S.input.entered ≤ S'.input.entered := by
  have hread : ∀ (p : ℕ) (rd : Reader), (S.runReader p rd).input.entered = S.input.entered := by
    intro p rd
    have hloop := entered_readLoop rd.target rd.n S.input
    unfold Sys.runReader
    dsimp only
    rcases (readLoop rd.target rd.n S.input).2.2 with _ | n
    · exact hloop
    · exact hloop
  rcases a with ch | str | ⟨p, n⟩ | p
  · obtain rfl := Option.some.inj hnext
    exact entered_le_handle_input _ ch
  · obtain rfl := Option.some.inj hnext
    exact entered_le_replace_input _ str
  · simp only [Sys.next] at hnext
    rcases hrd : S.reader p with _ | rd
    · rw [hrd] at hnext
      obtain rfl := Option.some.inj hnext
      exact Nat.le_of_eq (hread _ _).symm
    · rw [hrd] at hnext
      exact nomatch hnext
  · simp only [Sys.next] at hnext
    rcases hrd : S.reader p with _ | rd
    · rw [hrd] at hnext
      exact nomatch hnext
    · rw [hrd] at hnext
      obtain rfl := Option.some.inj hnext
      exact Nat.le_of_eq (hread _ _).symm

lemma delivered_init : Delivered .init [] [] 0 :=
  ⟨⟨⟨rfl, rfl, rfl, Nat.le_refl _, Nat.zero_le _, Ring.holds_nil⟩, rfl, Nat.le_refl _⟩, rfl,
    fun _ => rfl⟩

lemma delivered_run {as : List Act} (hrun : Runs.run Sys.next .init as = some S)
    (hmax : S.input.entered < 2 ^ 32) : ∃ P T c, Delivered S P T c := by
  -- while the limit is not reached the invariant holds, and it is never left again
  have hinv : S.input.entered < 2 ^ 32 → ∃ P T c, Delivered S P T c := by
    apply Runs.invariant (I := fun S => S.input.entered < 2 ^ 32 → ∃ P T c, Delivered S P T c) _ _
      hrun
    · intro S a S' hS hnext hlt
      have hmono := entered_le_next hnext
      obtain ⟨P, T, c, h⟩ := hS (by omega)
      exact h.next hnext hlt
    · exact fun _ => ⟨[], [], 0, delivered_init⟩
  exact hinv hmax

/-- An edit leaves the submitted bytes where they are. -/
lemma Delivered.unchanged (h : Delivered S P T c) {a : Act} (ha : Edits a)
    (hnext : S.next a = some S') (hmax : S'.input.entered < 2 ^ 32) {x : UInt32}
    (hx : ahead S.input.r x < ahead S.input.r S.input.w) :
    S'.input.get x = S.input.get x := by
  have hsub : Submits P S.input S'.input := by
    rcases a with ch | str | ⟨p, n⟩ | p
    · obtain rfl := Option.some.inj hnext
      exact submits_handle_input h.cooked
    · obtain rfl := Option.some.inj hnext
      exact submits_replace_input h.cooked str
    · exact absurd ha id
    · exact absurd ha id
  obtain ⟨hr, -, hX⟩ := hsub
  obtain ⟨X, T', c', hcooked⟩ := hX hmax
  have hw : ahead S.input.r S.input.w = P.length := sub_toNat h.cooked.line.w
  rw [hw] at hx
  -- the cell of `x` holds a byte of `P` before and after
  have hcell : x.toNat = S.input.r.toNat + ahead S.input.r x := by
    have hwr := h.cooked.line.w
    have hwlt := UInt32.toNat_lt S.input.w
    have hxlt := UInt32.toNat_lt x
    have hrlt := UInt32.toNat_lt S.input.r
    unfold ahead at hx ⊢
    rw [UInt32.toNat_sub] at hx ⊢
    omega
  have hold := h.cooked.line.buf.of_append_left _ hx
  have hnew := hcooked.line.buf.of_append_left.of_append_left _ hx
  rw [hr] at hnew
  rw [get_eq, get_eq, hcell]
  exact Option.some.inj (hnew.symm.trans hold)

/-- **Submitted input is immutable and delivered once, in order.** In every run from the start with
fewer than `2 ^ 32` bytes entering the ring, the bytes that the readers have taken and those that
are pending are the bytes that were submitted; every process has got, from the calls that returned
and the one it sleeps in, exactly the bytes it took; if only one process reads, what its calls
returned comes first; and no edit changes a byte between `r` and `w`. -/
theorem delivered_once {as : List Act} (hrun : Runs.run Sys.next .init as = some S)
    (hmax : S.input.entered < 2 ^ 32) :
    S.taken.map Prod.snd ++ S.pending = S.submitted ∧
      (∀ p, S.returned p ++ S.inHand p = (S.taken.filter fun x => x.1 = p).map Prod.snd) ∧
      (∀ p, (∀ q, q ≠ p → S.returned q = [] ∧ S.inHand q = []) →
        S.returned p ++ S.inHand p ++ S.pending = S.submitted) ∧
      ∀ a S', Edits a → S.next a = some S' → S'.input.entered < 2 ^ 32 →
        ∀ x, ahead S.input.r x < ahead S.input.r S.input.w → S'.input.get x = S.input.get x := by
  obtain ⟨P, T, c, h⟩ := delivered_run hrun hmax
  have hlog : S.taken.map Prod.snd ++ S.pending = S.submitted := by
    rw [h.pending]
    exact h.log
  refine ⟨hlog, h.own, fun p hp => ?_, fun a S' ha hnext hlt x hx => h.unchanged ha hnext hlt hx⟩
  -- nobody else has taken anything
  have hall : (S.taken.filter fun x => x.1 = p) = S.taken := by
    rw [List.filter_eq_self]
    intro x hx
    by_contra hne
    have hq : x.1 ≠ p := by simpa using hne
    have hnone := h.own x.1
    rw [(hp x.1 hq).1, (hp x.1 hq).2] at hnone
    have hmem : x ∈ S.taken.filter fun y => y.1 = x.1 := List.mem_filter.mpr ⟨hx, by simp⟩
    rw [List.map_eq_nil_iff.mp hnone.symm] at hmem
    exact absurd hmem List.not_mem_nil
  rw [h.own p, hall]
  exact hlog

/-- A process that waits for a line gets it. -/
theorem delivered_once_line : ∃ S,
    Runs.run Sys.next .init [.key (chr 'a'), .read 0 5, .key (chr '\n'), .resume 0] = some S ∧
      S.returned 0 = [chr 'a', chr '\n'] ∧
      S.taken.map Prod.snd ++ S.pending = S.submitted := by
  let as : List Act := [.key (chr 'a'), .read 0 5, .key (chr '\n'), .resume 0]
  have hsome : (Runs.run Sys.next .init as).isSome := by decide +kernel
  obtain ⟨S, hS⟩ := Option.isSome_iff_exists.mp hsome
  have hgot : (Runs.run Sys.next .init as).map (fun S => (S.returned 0, S.input.entered)) =
      some ([chr 'a', chr '\n'], 2) := by decide +kernel
  rw [hS, Option.map_some, Option.some.injEq, Prod.mk.injEq] at hgot
  have hmax : S.input.entered < 2 ^ 32 := by
    rw [hgot.2]
    omega
  exact ⟨S, hS, hgot.1, (delivered_once hS hmax).1⟩

end

end Console
end OhMyXv6
