import OhMyXv6.Console.Font

/-!
# `font.c`: `loadfont` and the mode of the console

`loadfont` puts the console into its loading mode, copies the font file to it, and leaves with an error
after any call that fails. What its calls give is an argument; the calls on `/dev/console` also act on
the console, which other processes print to meanwhile.

The kernel leaves the mode when the font is complete or cancelled. All error exits cancel it, except the
one of a file that ends too early.
-/

namespace OhMyXv6
namespace Console
namespace Font

/-- `loadfont.c`: bytes of the header. -/
def PSF1_HEADER_BYTES : ℕ := 4
/-- `loadfont.c`: first byte of the file. -/
def PSF1_MAGIC0 : UInt8 := 0x36
/-- `loadfont.c`: second byte of the file. -/
def PSF1_MAGIC1 : UInt8 := 0x04
/-- `loadfont.c`: the mode of a font with 256 glyphs. -/
def PSF1_MODE256 : UInt8 := 0x00
/-- `loadfont.c`: bytes of a glyph. -/
def PSF1_CHARSIZE16 : UInt8 := 0x10

/-- `struct font`. The strings are without their NULs. -/
structure FontFile where
  name : List UInt8
  path : List UInt8

/-- A write of another process to the console. -/
structure Talk where
  pid : ℕ
  attr : ℕ
  buf : List UInt8

/-- What one turn of the loop meets. -/
structure Round where
  /-- What the others write before `loadfont` makes the next call on the console. -/
  talk : List Talk
  /-- What `read(fontfd, buf, sizeof(buf))` gives: the bytes, or a negative number. -/
  read : Option (List UInt8)
  /-- What `write(consfd, buf, n)` gives: that many bytes arrive, or it is a negative number. -/
  write : Option ℕ

/-- What the calls of `loadfont` give. -/
structure Calls where
  /-- `st.size`, if `stat` does not fail. -/
  stat : Option ℕ
  /-- The font file can be opened. -/
  fontfd : Bool
  /-- What the read of the header gives. -/
  header : Option (List UInt8)
  /-- Whether `/dev/console` is the console and knows the ioctls, if it can be opened. -/
  consfd : Option Bool
  rounds : ℕ → Round

/-- How `loadfont` ends, and what it leaves of the console. -/
structure Outcome where
  ret : Int
  cons : Cons
  /-- The glyph bytes that the writes to the console took. -/
  sent : List UInt8

/-- The four bytes are there and they are those of a 256 glyph 8x16 font. -/
def isPsf1 : Option (List UInt8) → Bool
  | some header => header = [PSF1_MAGIC0, PSF1_MAGIC1, PSF1_MODE256, PSF1_CHARSIZE16]
  | none => false

section
variable (pid attr : ℕ)

end

/-! ## What is asked of it -/

/-- The others are silent. -/
def Quiet (rounds : ℕ → Round) : Prop := ∀ k, (rounds k).talk = []

/-- All goes well up to `CONSOLE_FONT_BEGIN`. -/
structure Begins (fonts : List FontFile) (name : List UInt8) (calls : Calls) : Prop where
  found : ∃ f, fonts.find? (fun f => f.name = name) = some f ∧ f.path ≠ []
  stat : calls.stat = some CONSOLE_FONT_BYTES ∨
    calls.stat = some (CONSOLE_FONT_BYTES + PSF1_HEADER_BYTES) ∧ isPsf1 calls.header = true
  fontfd : calls.fontfd = true
  consfd : calls.consfd = some true

/-- The bytes that others write. -/
def heard (talk : List Talk) : List UInt8 := talk.flatMap Talk.buf

/-- The file ends before it is complete: with `m` bytes in `font_buf`, the reads give bytes that are all
written, and then 0 while the font still lacks some. -/
inductive EndsEarly : ℕ → (ℕ → Round) → Prop
  | stop {m : ℕ} {rounds : ℕ → Round} (hread : (rounds 0).read = some [])
      (hlt : m + (heard (rounds 0).talk).length < CONSOLE_FONT_BYTES) : EndsEarly m rounds
  | more {m : ℕ} {rounds : ℕ → Round} {b : UInt8} {bs : List UInt8}
      (hread : (rounds 0).read = some (b :: bs)) (hwrite : (rounds 0).write = some (bs.length + 1))
      (hrest : EndsEarly (m + (heard (rounds 0).talk).length + (bs.length + 1)) fun k => rounds (k + 1)) :
      EndsEarly m rounds

/-! ## What has arrived -/

/-- Since the mode was entered `got` has arrived, from whom ever, and the display was loaded with
`loads` before. -/
def Arrived (loads : List Load) (got : List UInt8) (s : Cons) : Prop :=
  (Loading s got ∧ s.loads = loads) ∨
    (CONSOLE_FONT_BYTES ≤ got.length ∧ s.font_loading = false ∧
      s.loads = loads ++ [.font (got.take CONSOLE_FONT_BYTES)])

section
variable {s : Cons} {loads : List Load} {got : List UInt8}

/-- It ends when all of the font is there. -/
lemma Arrived.font_loading (h : Arrived loads got s) :
    s.font_loading = false ↔ CONSOLE_FONT_BYTES ≤ got.length := by
  rcases h with ⟨hload, -⟩ | ⟨hle, hidle, -⟩
  · have hlt := hload.lt
    rw [hload.font_loading]
    refine iff_of_false Bool.noConfusion (by omega)
  · exact iff_of_true hidle hle

lemma storeLoop_cons (s : Cons) (b : UInt8) (bs : List UInt8) :
    s.storeLoop (b :: bs) = if s.font_loading then (s.store b).storeLoop bs else s := rfl

/-- Outside a load nothing is stored. -/
lemma storeLoop_idle (h : s.font_loading = false) (buf : List UInt8) : s.storeLoop buf = s := by
  cases buf with
  | nil => rfl
  | cons b bs => rw [storeLoop_cons, if_neg (by rw [h]; exact Bool.false_ne_true)]

/-- Two writes, one after the other. -/
lemma storeLoop_append (s : Cons) (buf buf' : List UInt8) :
    s.storeLoop (buf ++ buf') = (s.storeLoop buf).storeLoop buf' := by
  induction buf generalizing s with
  | nil => rfl
  | cons b bs ih =>
    by_cases hload : s.font_loading = true
    · rw [List.cons_append, storeLoop_cons, if_pos hload, ih, storeLoop_cons, if_pos hload]
    · have hidle : s.font_loading = false := by simpa using hload
      rw [storeLoop_idle hidle, storeLoop_idle hidle, storeLoop_idle hidle]

/-- A write, by whom ever. -/
lemma Arrived.write (h : Arrived loads got s) (pid attr : ℕ) (buf : List UInt8) :
    Arrived loads (got ++ buf) (s.consolewrite pid attr buf) := by
  rcases h with ⟨hload, hloads⟩ | ⟨hle, hidle, hloads⟩
  · have hlt := hload.lt
    have hwrite : s.consolewrite pid attr buf = s.storeLoop buf := if_pos hload.font_loading
    rw [hwrite]
    by_cases hfits : got.length + buf.length ≤ CONSOLE_FONT_BYTES
    · rcases hload.storeLoop buf hfits with ⟨-, hmore, hnew⟩ | ⟨heq, hidle, hnew⟩
      · exact .inl ⟨hmore, hnew.trans hloads⟩
      · have hlen : (got ++ buf).length = CONSOLE_FONT_BYTES := by rw [List.length_append, heq]
        refine .inr ⟨Nat.le_of_eq hlen.symm, hidle, ?_⟩
        rw [hnew, hloads, ← hlen, List.take_length]
    · -- the first `k` bytes complete the font, and the loop stops there
      obtain ⟨k, hk⟩ : ∃ k, got.length + k = CONSOLE_FONT_BYTES :=
        ⟨_, Nat.add_sub_of_le (Nat.le_of_lt hlt)⟩
      have hlen : (buf.take k).length = k := by
        rw [List.length_take]
        omega
      rcases hload.storeLoop (buf.take k) (by omega) with ⟨hlt', -, -⟩ | ⟨-, hidle, hnew⟩
      · omega
      · have hstop : s.storeLoop buf = s.storeLoop (buf.take k) := by
          conv_lhs => rw [← List.take_append_drop k buf]
          rw [storeLoop_append, storeLoop_idle hidle]
        have htake : (got ++ buf).take CONSOLE_FONT_BYTES = got ++ buf.take k := by
          rw [← hk, List.take_length_add_append]
        rw [hstop]
        refine .inr ⟨by rw [List.length_append]; omega, hidle, ?_⟩
        rw [hnew, hloads, htake]
  · obtain ⟨hkeep, hkept⟩ := consolewrite_idle pid attr buf hidle
    refine .inr ⟨by rw [List.length_append]; omega, hkeep, ?_⟩
    rw [hkept, hloads, List.take_append_of_le_length hle]

variable {m total : ℕ} {rounds : ℕ → Round}

/-- A load that ends early is not full. -/
lemma EndsEarly.lt (h : EndsEarly m rounds) : m < CONSOLE_FONT_BYTES := by
  induction h with
  | stop _ hlt => omega
  | more _ _ _ ih => omega

lemma Quiet.heard (h : Quiet rounds) (k : ℕ) : heard (rounds k).talk = [] := by
  rw [h k]
  rfl

end

end Font
end Console
end OhMyXv6
