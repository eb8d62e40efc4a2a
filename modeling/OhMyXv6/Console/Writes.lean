import OhMyXv6.Console.Font

/-!
# `consolewrite` and the bytes it counts

`consolewrite` returns `n`. A `Device` takes the bytes one at a time: each of them is the next byte of
the upload in progress, or it is displayed. The console does the same with the bytes that are counted,
until a write goes past the end of an upload: the loop stops at `font_loading = 0`, and the rest of the
buffer is neither stored nor displayed.
-/

namespace OhMyXv6
namespace Console
namespace Font

/-! ## A device that drops nothing -/

/-- The display as its users see it: the fonts that it was loaded with and the cells that it shows.
-/
structure Device where
  /-- What has arrived of the upload in progress. -/
  upload : Option (List UInt8)
  loads : List Load
  shown : List Cell

namespace Device

/-- A byte that `pid` has written. -/
def put (d : Device) (c : Cell) : Device :=
  match d.upload with
  | none => { d with shown := d.shown ++ [c] }
  | some got =>
    if got.length + 1 = CONSOLE_FONT_BYTES then
      { d with upload := none, loads := d.loads ++ [.font (got ++ [c.byte])] }
    else { d with upload := some (got ++ [c.byte]) }

/-- What the display does with a list of cells. -/
def feed (d : Device) (cells : List Cell) : Device := cells.foldl put d

/-- What the display does with a request. -/
def ioctl (d : Device) : Request → Device
  | .CONSOLE_FONT_BEGIN => { d with upload := some [] }
  | .CONSOLE_FONT_CANCEL => { d with upload := none }
  | .CONSOLE_FONT_DEFAULT => { d with upload := none, loads := d.loads ++ [.default] }

end Device

/-- What `consolewrite` returns. -/
def Cons.written (_ : Cons) (buf : List UInt8) : ℕ := buf.length

/-- The bytes of a call that the return value counts. -/
def Cons.counted (s : Cons) : Act → List Cell
  | .ioctl _ _ => []
  | .write pid attr buf => (buf.take (s.written buf)).map fun b => ⟨pid, b, attr⟩

/-- The device gets the ioctls and the bytes that the console counts. -/
def Device.next (d : Device) (s : Cons) : Act → Device
  | .ioctl _ request => d.ioctl request
  | .write pid attr buf => d.feed (s.counted (.write pid attr buf))

/-- The console and the device side by side. -/
def both (p : Cons × Device) (a : Act) : Option (Cons × Device) :=
  (p.1.next a).map fun t => (t, p.2.next p.1 a)

/-- The console stands where the device does. -/
structure Stands (s : Cons) (d : Device) : Prop where
  upload : match d.upload with
    | none => s.font_loading = false
    | some got => Loading s got
  font_offset : s.font_offset < CONSOLE_FONT_BYTES
  loads : s.loads = d.loads
  shown : s.shown = d.shown

/-- Before anything is written. -/
def start : Cons × Device := (idle, ⟨none, [], []⟩)

/-- After each call the counted bytes are where the device has them. -/
def DropsNothing (acts : List Act) : Prop :=
  ∀ before p, before <+: acts → Runs.run both start before = some p → Stands p.1 p.2

/-- A write into an upload does not go past its end. -/
def Within (p : Cons × Device) : Act → Prop
  | .ioctl _ _ => True
  | .write _ _ buf => p.1.font_loading = true → p.1.font_offset + buf.length ≤ CONSOLE_FONT_BYTES

section
variable {s t : Cons} {d : Device} {p q : Cons × Device} {a : Act} {acts : List Act}

@[simp] lemma feed_nil (d : Device) : d.feed [] = d := rfl

@[simp] lemma feed_cons (d : Device) (c : Cell) (cells : List Cell) :
    d.feed (c :: cells) = (d.put c).feed cells := rfl

/-- Two writes, one after the other. -/
lemma feed_append (d : Device) (cells cells' : List Cell) :
    d.feed (cells ++ cells') = (d.feed cells).feed cells' := List.foldl_append

/-- The bytes of a write, each with its writer. -/
lemma counted_write (s : Cons) (pid attr : ℕ) (buf : List UInt8) :
    s.counted (.write pid attr buf) = buf.map fun b => ⟨pid, b, attr⟩ := by
  rw [Cons.counted, Cons.written, List.take_length]

/-- Without an upload all bytes are displayed. -/
lemma feed_idle (h : d.upload = none) (cells : List Cell) :
    d.feed cells = { d with shown := d.shown ++ cells } := by
  induction cells generalizing d with
  | nil => simp
  | cons c cells ih =>
    have hput : d.put c = { d with shown := d.shown ++ [c] } := by
      unfold Device.put
      rw [h]
    have hnext : ({ d with shown := d.shown ++ [c] } : Device).upload = none := h
    rw [feed_cons, hput, ih hnext]
    simp

/-- One byte of an upload. -/
lemma put_upload {got : List UInt8} (h : d.upload = some got) (c : Cell) :
    d.put c = if got.length + 1 = CONSOLE_FONT_BYTES then
      { d with upload := none, loads := d.loads ++ [.font (got ++ [c.byte])] }
    else { d with upload := some (got ++ [c.byte]) } := by
  unfold Device.put
  rw [h]

/-- Bytes that do not complete the upload. -/
lemma feed_upload {got : List UInt8} {cells : List Cell} (h : d.upload = some got)
    (hlt : got.length + cells.length < CONSOLE_FONT_BYTES) :
    d.feed cells = { d with upload := some (got ++ cells.map Cell.byte) } := by
  induction cells generalizing d got with
  | nil => simp [← h]
  | cons c cells ih =>
    rw [List.length_cons] at hlt
    rw [feed_cons, put_upload h, if_neg (by omega), ih rfl (by simp; omega)]
    simp

/-- Bytes that complete it; those after them are displayed. -/
lemma feed_complete {got : List UInt8} {cells rest : List Cell} (h : d.upload = some got)
    (hlt : got.length < CONSOLE_FONT_BYTES)
    (hlen : got.length + cells.length = CONSOLE_FONT_BYTES) :
    d.feed (cells ++ rest) = { d with
      upload := none
      loads := d.loads ++ [.font (got ++ cells.map Cell.byte)]
      shown := d.shown ++ rest } := by
  have hne : cells ≠ [] := by
    intro hnil
    rw [hnil] at hlen
    simp at hlen
    omega
  obtain ⟨init, c, rfl⟩ := (List.eq_nil_or_concat cells).resolve_left hne
  rw [List.concat_eq_append, List.length_append, List.length_singleton] at hlen
  have hlast : (got ++ init.map Cell.byte).length + 1 = CONSOLE_FONT_BYTES := by
    simp
    omega
  rw [List.concat_eq_append, List.append_assoc, feed_append, feed_upload h (by omega),
    List.singleton_append, feed_cons,
    put_upload rfl, if_pos hlast, feed_idle rfl]
  simp

/-! ## One call -/

/-- A write while nothing is uploaded. -/
lemma Stands.show (h : Stands s d) (hup : d.upload = none) (pid attr : ℕ) (buf : List UInt8) :
    Stands (s.consolewrite pid attr buf) (d.next s (.write pid attr buf)) := by
  have hidle : s.font_loading = false := by
    have := h.upload
    rwa [hup] at this
  have hwrite : s.consolewrite pid attr buf =
      { s with shown := s.shown ++ buf.map fun b => ⟨pid, b, attr⟩ } := by
    unfold Cons.consolewrite
    rw [if_neg (by rw [hidle]; exact Bool.false_ne_true)]
  rw [Device.next, counted_write, feed_idle hup, hwrite]
  refine ⟨?_, h.font_offset, h.loads, ?_⟩
  · show match d.upload with
      | none => s.font_loading = false
      | some got => _
    rw [hup]
    exact hidle
  · rw [h.shown]

/-- The offset stays inside `font_buf`. -/
lemma store_offset_lt (h : s.font_offset < CONSOLE_FONT_BYTES) (b : UInt8) :
    (s.store b).font_offset < CONSOLE_FONT_BYTES := by
  unfold Cons.store
  dsimp only
  split
  · show 0 < CONSOLE_FONT_BYTES
    decide
  · show s.font_offset + 1 < CONSOLE_FONT_BYTES
    omega

/-- The offset stays inside the font. -/
lemma storeLoop_offset_lt (h : s.font_offset < CONSOLE_FONT_BYTES) (buf : List UInt8) :
    (s.storeLoop buf).font_offset < CONSOLE_FONT_BYTES := by
  induction buf generalizing s with
  | nil => exact h
  | cons b bs ih =>
    unfold Cons.storeLoop
    split
    · exact ih (store_offset_lt h b)
    · exact h

/-- A write into an upload, up to its end. -/
lemma Stands.store {got : List UInt8} (h : Stands s d) (hup : d.upload = some got) (pid attr : ℕ)
    {buf : List UInt8} (hle : s.font_offset + buf.length ≤ CONSOLE_FONT_BYTES) :
    Stands (s.consolewrite pid attr buf) (d.next s (.write pid attr buf)) := by
  have hload : Loading s got := by
    have := h.upload
    rwa [hup] at this
  have hwrite : s.consolewrite pid attr buf = s.storeLoop buf := if_pos hload.font_loading
  have hbytes : ∀ l : List UInt8, (l.map fun b => (⟨pid, b, attr⟩ : Cell)).map Cell.byte = l := by
    intro l
    simp [Function.comp_def]
  have hoffset := storeLoop_offset_lt h.font_offset buf
  have hshown : (s.storeLoop buf).shown = d.shown := (storeLoop_shown s buf).trans h.shown
  rw [hload.font_offset] at hle
  rw [Device.next, counted_write, hwrite]
  rcases hload.storeLoop buf hle with ⟨hlt, hmore, hloads⟩ | ⟨heq, hidle, hloads⟩
  · rw [feed_upload hup (by simpa using hlt), hbytes]
    exact ⟨hmore, hoffset, hloads.trans h.loads, hshown⟩
  · have hall : d.feed ((buf.map fun b => ⟨pid, b, attr⟩) ++ []) = _ :=
      feed_complete hup hload.lt (by simpa using heq)
    rw [List.append_nil, List.append_nil, hbytes] at hall
    rw [hall]
    refine ⟨hidle, hoffset, ?_, hshown⟩
    rw [hloads, h.loads]

lemma Stands.ioctl (h : Stands s d) (pid : ℕ) (request : Request) :
    Stands (s.consoleioctl request) (d.next s (.ioctl pid request)) := by
  have hzero : 0 < CONSOLE_FONT_BYTES := by decide
  cases request with
  | CONSOLE_FONT_BEGIN =>
    exact ⟨⟨rfl, rfl, hzero, fun i hi => absurd hi (Nat.not_lt_zero i)⟩, hzero, h.loads, h.shown⟩
  | CONSOLE_FONT_CANCEL => exact ⟨rfl, hzero, h.loads, h.shown⟩
  | CONSOLE_FONT_DEFAULT =>
    have hloads : s.loads ++ [.default] = d.loads ++ [.default] := by rw [h.loads]
    exact ⟨rfl, hzero, hloads, h.shown⟩

/-- What a write leaves over is missing from the screen. -/
lemma Stands.drop {got : List UInt8} (h : Stands s d) (hup : d.upload = some got) (pid attr : ℕ)
    {buf : List UInt8} (hgt : CONSOLE_FONT_BYTES < s.font_offset + buf.length) :
    ¬ Stands (s.consolewrite pid attr buf) (d.next s (.write pid attr buf)) := by
  have hload : Loading s got := by
    have := h.upload
    rwa [hup] at this
  have hwrite : s.consolewrite pid attr buf = s.storeLoop buf := if_pos hload.font_loading
  have hlt := hload.lt
  rw [hload.font_offset] at hgt
  -- the first `k` bytes complete the upload
  obtain ⟨k, hk⟩ : ∃ k, got.length + k = CONSOLE_FONT_BYTES := ⟨_, Nat.add_sub_of_le (Nat.le_of_lt hlt)⟩
  have hsplit : buf.map (fun b => (⟨pid, b, attr⟩ : Cell)) =
      (buf.take k).map (fun b => ⟨pid, b, attr⟩) ++ (buf.drop k).map (fun b => ⟨pid, b, attr⟩) := by
    rw [← List.map_append, List.take_append_drop]
  intro hnot
  have hshown := hnot.shown
  rw [Device.next, counted_write, hwrite, hsplit,
    feed_complete hup hlt (by simp; omega), storeLoop_shown, h.shown] at hshown
  have hlen := congrArg List.length hshown
  simp at hlen
  omega

/-- A call ends where the device does just if it does not write past the end of an upload. -/
theorem Stands.next_iff (h : Stands s d) (ht : s.next a = some t) :
    Stands t (d.next s a) ↔ Within (s, d) a := by
  cases a with
  | ioctl pid request =>
    obtain rfl := Option.some.inj ht
    exact iff_of_true (h.ioctl pid request) trivial
  | write pid attr buf =>
    obtain rfl := Option.some.inj ht
    cases hup : d.upload with
    | none =>
      have hidle : s.font_loading = false := by
        have := h.upload
        rwa [hup] at this
      refine iff_of_true (h.show hup pid attr buf) fun hload => ?_
      rw [hidle] at hload
      cases hload
    | some got =>
      have hload : Loading s got := by
        have := h.upload
        rwa [hup] at this
      by_cases hle : s.font_offset + buf.length ≤ CONSOLE_FONT_BYTES
      · exact iff_of_true (h.store hup pid attr hle) fun _ => hle
      · refine iff_of_false (h.drop hup pid attr (Nat.lt_of_not_le hle)) fun hok => ?_
        exact hle (hok hload.font_loading)

/-! ## Whole runs -/

lemma stands_start : Stands start.1 start.2 := ⟨rfl, Nat.zero_lt_succ _, rfl, rfl⟩

/-- The console and its reference take the same step. -/
lemma both_eq_some : both p a = some q ↔ p.1.next a = some q.1 ∧ q.2 = p.2.next p.1 a := by
  unfold both
  rw [Option.map_eq_some_iff]
  constructor
  · rintro ⟨t, ht, rfl⟩
    exact ⟨ht, rfl⟩
  · rintro ⟨ht, hd⟩
    exact ⟨q.1, ht, Prod.ext rfl hd.symm⟩

/-- No call waits. -/
lemma exists_next (s : Cons) (a : Act) : ∃ t, s.next a = some t := by
  cases a with
  | ioctl pid request => exact ⟨_, rfl⟩
  | write pid attr buf => exact ⟨_, rfl⟩

/-- A step is within bounds if the reference follows. -/
lemma Stands.within_iff (h : Stands p.1 p.2) :
    Within p a ↔ ∀ q, both p a = some q → Stands q.1 q.2 := by
  constructor
  · intro hok q hq
    obtain ⟨ht, hd⟩ := both_eq_some.mp hq
    rw [hd]
    exact (h.next_iff ht).mpr hok
  · intro hall
    obtain ⟨t, ht⟩ := exists_next p.1 a
    exact (h.next_iff ht).mp (hall (t, p.2.next p.1 a) (both_eq_some.mpr ⟨ht, rfl⟩))

/-- **No byte is dropped exactly when no write goes past the end of an upload.** -/
theorem dropsNothing_iff (acts : List Act) : DropsNothing acts ↔ Runs.Along both Within start acts := by
  constructor
  · intro h
    have hall := Runs.along_of_prefixes h
    exact (Runs.along_congr (I := fun p => Stands p.1 p.2) (fun _ _ hp => hp.within_iff)
      (fun _ _ q _ hok hq => hok q hq) stands_start acts).mpr hall
  · intro hok before p hbefore hrun
    have hstep : ∀ p a q, Stands p.1 p.2 → Within p a → both p a = some q → Stands q.1 q.2 :=
      fun p a q hp hwithin => hp.within_iff.mp hwithin q
    exact (hok.of_prefix hbefore).invariant hstep stands_start hrun

/-- A font is uploaded, and the last write has one byte more. -/
def longActs : List Act :=
  [.ioctl 1 .CONSOLE_FONT_BEGIN, .write 1 7 (List.replicate (CONSOLE_FONT_BYTES + 1) 0)]

/-- Its last byte is counted, and it is neither stored nor displayed. -/
theorem not_dropsNothing_longActs : ¬ DropsNothing longActs := by
  intro h
  have hbegun : Stands (idle.consoleioctl .CONSOLE_FONT_BEGIN) ⟨some [], [], []⟩ :=
    stands_start.ioctl 1 .CONSOLE_FONT_BEGIN
  have hwrite : ∀ buf, DropsNothing [.ioctl 1 .CONSOLE_FONT_BEGIN, .write 1 7 buf] →
      0 + buf.length ≤ CONSOLE_FONT_BYTES := by
    intro buf hdrops
    by_contra hgt
    exact hbegun.drop rfl 1 7 (Nat.lt_of_not_le hgt) (hdrops _ _ List.prefix_rfl rfl)
  have hle := hwrite _ h
  rw [List.length_replicate, Nat.zero_add] at hle
  exact Nat.not_succ_le_self _ hle

end

end Font
end Console
end OhMyXv6
