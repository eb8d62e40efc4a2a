import OhMyXv6.Shell.Complete

/-!
# `getcmd` and the end of its buffer

The line is kept shorter than the buffer by everything but the bytes that are typed: one of them may be
stored in the last place, and then the NUL behind the line is not in the buffer any more.
-/

namespace OhMyXv6
namespace Sh

open Console

/-! ## Stores -/

namespace LineBuf

section
variable {b : LineBuf} {i j len nbuf : ℕ} {c : UInt8} {s : Str}

/-- All writes are in front of the place `nbuf`. -/
def Within (nbuf : ℕ) (b : LineBuf) : Prop := ∀ i ∈ b.writes, i < nbuf

lemma Within.store (hb : b.Within nbuf) (hi : i < nbuf) : (b.store i c).Within nbuf := by
  intro j hj
  rcases List.mem_cons.mp hj with rfl | hj
  · exact hi
  · exact hb j hj

lemma Within.memset (len : ℕ) : ∀ {b : LineBuf} {i : ℕ}, b.Within nbuf → i + len ≤ nbuf →
    (b.memset i len).Within nbuf := by
  induction len with
  | zero => exact fun hb _ => hb
  | succ len ih => exact fun hb hi => ih (hb.store (by omega)) (by omega)

lemma Within.memmove (s : Str) : ∀ {b : LineBuf} {i : ℕ}, b.Within nbuf → i + s.length ≤ nbuf →
    (b.memmove i s).Within nbuf := by
  induction s with
  | nil => exact fun hb _ => hb
  | cons c s ih =>
    intro b i hb hi
    rw [List.length_cons] at hi
    exact ih (hb.store (by omega)) (by omega)

lemma mem_store_self : (b.store i c).mem i = c := Function.update_self ..

lemma mem_store_of_ne (h : j ≠ i) : (b.store i c).mem j = b.mem j := Function.update_of_ne h ..

lemma mem_writes_store : i ∈ (b.store i c).writes := List.mem_cons_self

end

end LineBuf

/-! ## The completion -/

section
variable {b : LineBuf} {n nbuf : ℕ} {state : AutoState}

open LineBuf

/-- The next candidate is put inside the buffer. -/
lemma replace_within (hb : b.Within nbuf) (hn : n < nbuf) :
    (replace_autocomplete b n nbuf state).1.Within nbuf ∧
      (replace_autocomplete b n nbuf state).2 < nbuf := by
  unfold replace_autocomplete
  split
  · exact ⟨hb, hn⟩
  · split_ifs with hlong
    · exact ⟨hb, hn⟩
    · have hlt : state.prefix_start + (_ : Str).length < nbuf := Nat.lt_of_not_le hlong
      exact ⟨(hb.memmove _ hlt.le).store hlt, hlt⟩

/-- A completion stays inside the buffer. -/
lemma autocomplete_within (fs : Dirs) (hb : b.Within nbuf) (hn : n < nbuf) :
    (autocomplete fs state b n nbuf).2.1.Within nbuf ∧
      (autocomplete fs state b n nbuf).2.2 < nbuf := by
  unfold autocomplete
  by_cases hactive : state.active = true
  · rw [if_pos hactive]
    exact replace_within hb hn
  rw [if_neg hactive]
  cases completed b n with
  | none => exact ⟨hb, hn⟩
  | some x =>
    dsimp only
    by_cases hlen : DIRSIZ < n - x.2
    · rw [if_pos hlen]
      exact ⟨hb, hn⟩
    rw [if_neg hlen]
    cases fs.read x.1 with
    | none => exact ⟨hb, hn⟩
    | some entries =>
      dsimp only
      by_cases hnone : findMatches fs x.1 b.mem x.2 (n - x.2) entries = []
      · rw [if_pos hnone]
        exact ⟨hb, hn⟩
      · rw [if_neg hnone]
        exact replace_within hb hn

end

/-! ## The loop -/

/-- A byte that `getcmd` stores, newlines included. -/
def Ordinary (c : UInt8) : Prop :=
  ¬ (c = 0x10 ∨ c = 0x0e) ∧ c ≠ chr '\t' ∧ ¬ (c = 8 ∨ c = 127)

instance (c : UInt8) : Decidable (Ordinary c) := inferInstanceAs (Decidable (_ ∧ _))

/-- What is written is in the buffer, and so is a NUL if `getcmd` returns 0. -/
structure InBuffer (nbuf : ℕ) (r : Typing × Option Int) : Prop where
  writes : r.1.buf.Within nbuf
  terminated : r.2 = some 0 → ∃ i < nbuf, r.1.buf.mem i = 0

namespace Typing

/-- Whenever an ordinary byte is read, there is room for it and a NUL behind it. -/
def Roomy (nbuf : ℕ) : List Key → Typing → Prop
  | .byte c fs :: keys, t =>
    (Ordinary c → t.n + 1 < nbuf) ∧
      let x := t.byte nbuf c fs
      x.2 = false → Roomy nbuf keys x.1
  | _, _ => True

section
variable {t : Typing} {nbuf : ℕ} {c : UInt8} {fs : Dirs}

lemma byte_ordinary (hc : Ordinary c) : t.byte nbuf c fs =
    (⟨t.buf.store t.n c, t.n + 1, reset_autocomplete t.auto⟩, decide (c = chr '\n' ∨ c = chr '\r')) := by
  unfold byte
  rw [if_neg hc.1, if_neg hc.2.1, if_neg hc.2.2]

/-- Any other byte keeps the line in the buffer, and the loop goes on. -/
theorem byte_within (hc : ¬ Ordinary c) (hb : t.buf.Within nbuf) (hn : t.n < nbuf) :
    (t.byte nbuf c fs).1.buf.Within nbuf ∧ (t.byte nbuf c fs).1.n < nbuf ∧
      (t.byte nbuf c fs).2 = false := by
  unfold byte
  split_ifs with h₁ h₂ h₃ h₄
  · exact ⟨hb, hn, rfl⟩
  · obtain ⟨hb', hn'⟩ := @autocomplete_within _ _ _ t.auto fs hb hn
    exact ⟨hb'.memset _ (by omega), hn', rfl⟩
  · exact ⟨hb.memset _ (by omega), by dsimp only; omega, rfl⟩
  · exact ⟨hb, hn, rfl⟩
  · exact (hc ⟨h₁, h₂, h₃⟩).elim

lemma finish_inBuffer (hb : t.buf.Within nbuf) (hn : t.n < nbuf) : InBuffer nbuf t.finish :=
  ⟨hb.store hn, fun _ => ⟨t.n, hn, LineBuf.mem_store_self⟩⟩

/-- The NUL is written behind the buffer. -/
lemma not_finish_inBuffer (hn : nbuf ≤ t.n) : ¬ InBuffer nbuf t.finish :=
  fun h => absurd (h.writes t.n LineBuf.mem_writes_store) (Nat.not_lt.mpr hn)

/-- By induction on the keys. -/
lemma loop_inBuffer_iff (keys : List Key) : ∀ {t : Typing}, t.buf.Within nbuf → t.n < nbuf →
    (InBuffer nbuf (loop nbuf keys t) ↔ Roomy nbuf keys t) := by
  induction keys with
  | nil =>
    intro t hb hn
    rw [loop, if_neg (Nat.not_le.mpr hn)]
    exact ⟨fun _ => trivial, fun _ => ⟨hb, nofun⟩⟩
  | cons key keys ih =>
    intro t hb hn
    cases key with
    | eof =>
      rw [loop, if_neg (Nat.not_le.mpr hn)]
      exact ⟨fun _ => trivial, fun _ => ⟨hb, fun h => by cases h⟩⟩
    | byte c fs =>
      rw [loop, if_neg (Nat.not_le.mpr hn)]
      dsimp only
      rw [Roomy]
      by_cases hc : Ordinary c
      · rw [byte_ordinary hc]
        dsimp only
        by_cases hroom : t.n + 1 < nbuf
        · have hb' := hb.store (c := c) hn
          by_cases hend : c = chr '\n' ∨ c = chr '\r'
          · rw [if_pos (decide_eq_true hend)]
            exact ⟨fun _ => ⟨fun _ => hroom, fun h => absurd hend (of_decide_eq_false h)⟩,
              fun _ => finish_inBuffer hb' hroom⟩
          · rw [if_neg (by simpa using hend), ih hb' hroom]
            exact ⟨fun h => ⟨fun _ => hroom, fun _ => h⟩, fun h => h.2 (decide_eq_false hend)⟩
        · -- the byte is stored in the last place, and the loop ends in either case
          refine ⟨fun h => ?_, fun h => absurd (h.1 hc) hroom⟩
          have hfull : nbuf ≤ t.n + 1 := Nat.le_of_not_lt hroom
          split_ifs at h
          · exact (not_finish_inBuffer hfull h).elim
          · have hloop : ∀ t' : Typing, nbuf ≤ t'.n → loop nbuf keys t' = t'.finish := by
              intro t' ht'
              unfold loop
              exact if_pos ht'
            rw [hloop _ hfull] at h
            exact (not_finish_inBuffer hfull h).elim
      · obtain ⟨hb', hn', hgo⟩ := @byte_within _ _ _ fs hc hb hn
        rw [hgo, if_neg Bool.false_ne_true, ih hb' hn']
        exact ⟨fun h => ⟨fun hc' => (hc hc').elim, fun _ => h⟩, fun h => h.2 hgo⟩

end

end Typing

/-- `getcmd` stays in its buffer if there is always room for two bytes when one is typed, and only then. -/
theorem getcmd_inBuffer_iff {nbuf : ℕ} (hnbuf : 1 ≤ nbuf) (mem : ℕ → UInt8) (auto : AutoState)
    (keys : List Key) :
    InBuffer nbuf (getcmd nbuf mem auto keys) ↔
      Typing.Roomy nbuf keys (Typing.start nbuf mem auto) := by
  refine Typing.loop_inBuffer_iff keys ?_ hnbuf
  exact LineBuf.Within.memset nbuf (b := ⟨mem, []⟩) nofun (Nat.zero_add nbuf).le

/-- No directory can be read. -/
def noDirs : Dirs := ⟨fun _ => none, fun _ => false⟩

/-- Nothing is being completed. -/
def noCompletion : AutoState := ⟨false, 0, 0, 0, 0, [], [], []⟩

/-- A short line, with a byte taken back. -/
theorem getcmd_inBuffer_short : InBuffer 4 (getcmd 4 (fun _ => 7) noCompletion
    ([chr 'l', chr 's', 127, chr '\n'].map fun c => Key.byte c noDirs)) :=
  (getcmd_inBuffer_iff (by decide) _ _ _).mpr (by
    refine ⟨fun _ => by decide, fun _ => ⟨fun _ => by decide, fun _ => ⟨fun _ => by decide, fun _ => ?_⟩⟩⟩
    exact ⟨fun _ => by decide, fun _ => trivial⟩)

/-- A line that fills the buffer. -/
lemma Typing.not_loop_inBuffer (fs : Dirs) {nbuf : ℕ} (k : ℕ) : ∀ {t : Typing}, t.n + k = nbuf →
    ¬ InBuffer nbuf (Typing.loop nbuf (List.replicate k (.byte (chr 'a') fs)) t) := by
  induction k with
  | zero =>
    intro t ht
    rw [List.replicate_zero, Typing.loop, if_pos (by omega)]
    exact Typing.not_finish_inBuffer (by omega)
  | succ k ih =>
    intro t ht
    rw [List.replicate_succ, Typing.loop, if_neg (by omega), Typing.byte_ordinary (by decide)]
    dsimp only
    rw [if_neg (by decide)]
    exact ih (by dsimp only; omega)

theorem not_getcmd_inBuffer_full : ¬ InBuffer 100 (getcmd 100 (fun _ => 0) noCompletion
    (List.replicate 100 (.byte (chr 'a') noDirs))) :=
  Typing.not_loop_inBuffer noDirs 100 (Nat.zero_add 100)

end Sh
end OhMyXv6
