import OhMyXv6.Kernel.WriteSection

/-!
# `filewrite`

What the whole call leaves behind, and what it reports.
-/

namespace OhMyXv6
namespace Kernel

open Bytes Prog

section
variable {s t : State} {p f ip : ℕ} {X : ℕ → Dinode} {A : Nodes} {src : List UInt8}

/-! ## The whole call -/

/-- The state after `end_op`. -/
def State.ended (s : State) (p : ℕ) : State :=
  { s with
    outstanding := s.outstanding - 1
    lh := if s.outstanding - 1 = 0 then [] else s.lh
    inOp := s.inOp.erase p }

/-- A transaction in which `writei` refuses leaves the state as it was. -/
lemma OpenFile.ended_of_refused (h : OpenFile s f X A) :
    ((s.entered p (s.ftable f).ip).left f (s.ftable f).ip 0).ended p = s := by
  have hlock := h.unlocked
  have hlh := h.lh
  have hout := h.outstanding
  unfold State.entered State.left State.ended
  simp only [Function.update_self, Function.update_idem, List.erase_cons_head, Nat.add_zero,
    Function.update_eq_self, Nat.add_sub_cancel, hout, if_true]
  rw [← hlh, ← hout, ← hlock]
  simp only [Function.update_eq_self]

/-- The file after a write, unlocked and with its offset moved. `b` is the state in which `writei` was
called. -/
theorem RegularFile.left {b w : State} {A' : Nodes} {off : ℕ} (h : RegularFile s f X A)
    (hip : (s.ftable f).ip = ip) (htable : b.ftable = s.ftable)
    (hcache : b.icache ip = { s.icache ip with lock := some p })
    (hw : Holds w ip X A') (hwr : Written b w ip off src) (n : ℕ) :
    RegularFile (w.left f ip n) f X A' ∧ (w.left f ip n).ftable = Function.update s.ftable f
      { s.ftable f with off := (s.ftable f).off + n } := by
  have hregular := h.regular
  have hvalid := h.valid
  have href := h.ref
  rw [hip] at hregular hvalid href
  -- of the cached inode `writei` changes the addresses and the size
  have hwip : w.icache ip = { s.icache ip with
      lock := some p
      din := { (s.icache ip).din with
        addrs := (w.icache ip).din.addrs
        size := (w.icache ip).din.size } } := by
    conv_lhs => rw [hwr.frame]
    simp only [Function.update_self, hcache]
  have hztable : (w.left f ip n).ftable = Function.update s.ftable f
      { s.ftable f with off := (s.ftable f).off + n } := by
    have hwtable : w.ftable = s.ftable := by rw [hwr.frame, ← htable]
    rw [← hwtable]
    rfl
  have hzf : (w.left f ip n).ftable f = { s.ftable f with off := (s.ftable f).off + n } := by
    rw [hztable, Function.update_self]
  have hzip : (w.left f ip n).icache ip = { w.icache ip with lock := none } :=
    Function.update_self _ _ _
  have hip' : ((w.left f ip n).ftable f).ip = ip := by rw [hzf, hip]
  refine ⟨⟨?_, ?_, ?_, ?_, ?_, ?_⟩, hztable⟩
  · rw [hip']
    refine ⟨?_, ?_, ?_, hw.nodup⟩
    · rw [hzip]
      exact hw.image
    · rw [hzip]
      exact hw.inum
    · rw [hzip]
      exact hw.type
  · rw [hzf]
    exact h.type
  · rw [hip', hzip, hwip]
    exact hregular
  · rw [hip', hzip, hwip]
    exact hvalid
  · rw [hip', hzip, hwip]
    exact href
  · rw [hip', hzip]

/-- The end of a transaction leaves the file open. -/
lemma RegularFile.ended (h : RegularFile s f X A) : RegularFile (s.ended p) f X A := by
  refine ⟨⟨h.holds.image, h.holds.inum, h.holds.type, ?_⟩, h.type, h.regular, h.valid, h.ref,
    h.unlocked⟩
  show (if s.outstanding - 1 = 0 then [] else s.lh).Nodup
  split
  · exact List.nodup_nil
  · exact h.holds.nodup

/-- The slots of a file do not depend on its lock. -/
lemma Filled.left_ended {w : State} {S : Finset ℕ} {n : ℕ}
    (h : Filled (s.entered p ip) w ip S) : Filled s ((w.left f ip n).ended p) ip S := by
  have hbase : (s.entered p ip).icache ip = { s.icache ip with lock := some p } :=
    Function.update_self _ _ _
  have hzip : ((w.left f ip n).ended p).icache ip = { w.icache ip with lock := none } :=
    Function.update_self _ _ _
  have hzslot : ∀ u, ((w.left f ip n).ended p).slot ip u = w.slot ip u := by
    intro u
    unfold State.slot
    rw [hzip]
    rfl
  refine ⟨h.sb, ?_, ?_, ?_, ?_⟩
  · rw [hzip]
    show (w.icache ip).inum = _
    rw [h.inum, hbase]
  · intro u hu
    rw [hzslot]
    have hkeep := h.keep u
    rw [slot_entered] at hkeep
    exact hkeep hu
  · intro u
    rw [hzslot]
    have hslots := h.slots u
    rwa [slot_entered] at hslots
  · have hfree := h.free
    rw [missing_entered] at hfree
    exact hfree

/-- The file after a transaction in which `writei` has written all. -/
lemma OpenFile.written {w : State} (h : OpenFile s f X A)
    (hw : Holds w (s.ftable f).ip X (A.write (s.icache (s.ftable f).ip).inum (s.ftable f).off src))
    (hwr : Written (s.entered p (s.ftable f).ip) w (s.ftable f).ip (s.ftable f).off src) :
    OpenFile ((w.left f (s.ftable f).ip src.length).ended p) f X
        (A.write (s.icache (s.ftable f).ip).inum (s.ftable f).off src) ∧
      Filled s ((w.left f (s.ftable f).ip src.length).ended p) (s.ftable f).ip
        (slots (blocks (s.ftable f).off src.length)) ∧
      ((w.left f (s.ftable f).ip src.length).ended p).ftable = Function.update s.ftable f
        { s.ftable f with off := (s.ftable f).off + src.length } := by
  have hwout : w.outstanding = 1 := by
    rw [hwr.frame]
    show s.outstanding + 1 = 1
    rw [h.outstanding]
  obtain ⟨hfile, htable⟩ := h.toRegularFile.left (b := s.entered p (s.ftable f).ip) rfl rfl
    (Function.update_self _ _ _) hw hwr src.length
  refine ⟨⟨hfile.ended, ?_, ?_, ?_⟩, hwr.toFilled.left_ended, htable⟩
  · show (if w.outstanding - 1 = 0 then [] else w.lh) = []
    rw [hwout]
    rfl
  · show w.outstanding - 1 = 0
    rw [hwout]
  · show w.sb.nlog = LOGSIZE
    rw [hwr.sb]
    exact h.nlog

/-- One round of the loop of `filewrite`. -/
lemma filewriteRound_spec (h : OpenFile s f X A) (hlen : src.length ≤ filewriteMax) :
    Ends (fun e => e = .ballocOutOfBlocks ∧
        ¬ Refused (s.icache (s.ftable f).ip).din (s.ftable f).off src.length ∧
        freeCount s.sb s.disk <
          (missing s (s.ftable f).ip (slots (blocks (s.ftable f).off src.length))).card)
      (filewriteRound p f (s.ftable f).ip src)
      (fun r t => if Refused (s.icache (s.ftable f).ip).din (s.ftable f).off src.length then
          r = none ∧ t = s
        else r = some src.length ∧
          OpenFile t f X (A.write (s.icache (s.ftable f).ip).inum (s.ftable f).off src) ∧
          Filled s t (s.ftable f).ip (slots (blocks (s.ftable f).off src.length)) ∧
          t.ftable = Function.update s.ftable f
            { s.ftable f with off := (s.ftable f).off + src.length }) s := by
  rw [filewriteRound_eq]
  refine Ends.seq (filewriteSection_spec h hlen) fun r t hq => Ends.after (t := t.ended p) rfl ?_
  rw [ends_pure]
  by_cases hr : Refused (s.icache (s.ftable f).ip).din (s.ftable f).off src.length
  · rw [if_pos hr] at hq ⊢
    obtain ⟨rfl, rfl⟩ := hq
    exact ⟨rfl, h.ended_of_refused⟩
  · rw [if_neg hr] at hq ⊢
    obtain ⟨rfl, w, hw, hwr, rfl⟩ := hq
    exact ⟨rfl, h.written hw hwr⟩

/-- The blocks of a range are those of its two parts. -/
lemma blocks_append {off a b : ℕ} : blocks off (a + b) = blocks off a ∪ blocks (off + a) b := by
  ext bn
  unfold blocks
  rw [Finset.mem_union, Finset.mem_image, Finset.mem_image, Finset.mem_image]
  constructor
  · rintro ⟨j, hj, rfl⟩
    rw [Finset.mem_range] at hj
    by_cases hja : j < a
    · exact .inl ⟨j, Finset.mem_range.mpr hja, rfl⟩
    · refine .inr ⟨j - a, Finset.mem_range.mpr (by omega), ?_⟩
      congr 1
      omega
  · rintro (⟨j, hj, rfl⟩ | ⟨j, hj, rfl⟩)
    · rw [Finset.mem_range] at hj
      exact ⟨j, Finset.mem_range.mpr (by omega), rfl⟩
    · rw [Finset.mem_range] at hj
      refine ⟨a + j, Finset.mem_range.mpr (by omega), ?_⟩
      rw [Nat.add_assoc]

/-- The slots for blocks of two sets. -/
lemma slots_union {B C : Finset ℕ} : slots (B ∪ C) = slots B ∪ slots C := Finset.union_biUnion

/-- Two writes, one behind the other. -/
lemma Nodes.write_write {i off k : ℕ} :
    (A.write i off (src.take k)).write i (off + (src.take k).length) (src.drop k)
      = A.write i off src := by
  have hlen : (src.take k).length + (src.drop k).length = src.length := by
    rw [← List.length_append, List.take_append_drop]
  have htake : blit (A i).data off (src.take k).length (ofList (src.take k))
      = blit (A i).data off (src.take k).length (ofList src) := by
    funext j
    unfold blit
    split
    · next hin =>
      unfold ofList
      rw [List.getD_eq_getElem?_getD, List.getD_eq_getElem?_getD,
        List.getElem?_take_of_lt (by rw [List.length_take] at hin; omega)]
    · rfl
  have hdrop : src.drop k = src.drop (src.take k).length := by
    rw [List.length_take]
    by_cases hk : k ≤ src.length
    · rw [Nat.min_eq_left hk]
    · rw [Nat.min_eq_right (by omega), List.drop_length, List.drop_eq_nil_of_le (by omega)]
  have hdata : blit (blit (A i).data off (src.take k).length (ofList (src.take k)))
      (off + (src.take k).length) (src.drop k).length (ofList (src.drop k))
      = blit (A i).data off src.length (ofList src) := by
    rw [htake, hdrop]
    exact blit_append (by omega)
  have hsize : max (max (A i).size (off + (src.take k).length))
      (off + (src.take k).length + (src.drop k).length) = max (A i).size (off + src.length) := by
    omega
  unfold Nodes.write
  simp only [Function.update_self, Function.update_idem]
  rw [hdata, hsize]

/-- The size of a file that has been written to reaches up to the end of what was written. -/
theorem OpenFile.le_size {i off : ℕ} (h : OpenFile t f X (A.write i off src))
    (hi : (t.icache (t.ftable f).ip).inum = i) :
    off + src.length ≤ (t.icache (t.ftable f).ip).din.size := by
  rw [← h.holds.size, hi, Nodes.write_size]
  exact Nat.le_max_right _ _

/-- All the bytes have been stored in open file `f`. -/
structure Stored (s t : State) (f : ℕ) (X : ℕ → Dinode) (A : Nodes) (src : List UInt8) : Prop where
  fits : (s.ftable f).off + src.length ≤ MAXFILE * BSIZE
  file : OpenFile t f X (A.write (s.icache (s.ftable f).ip).inum (s.ftable f).off src)
  filled : Filled s t (s.ftable f).ip (slots (blocks (s.ftable f).off src.length))
  ftable : t.ftable = Function.update s.ftable f
    { s.ftable f with off := (s.ftable f).off + src.length }

/-- How the loop of `filewrite` can end, from state `s`. -/
inductive LoopEnds (s : State) (f : ℕ) (X : ℕ → Dinode) (A : Nodes) (src : List UInt8) :
    Bool → State → Prop
  | nothing (hlen : src.length = 0) : LoopEnds s f X A src true s
  | stored {t : State} (hlen : src.length ≠ 0) (ht : Stored s t f X A src) :
      LoopEnds s f X A src true t
  /-- The first round is refused. -/
  | refused (hr : Refused (s.icache (s.ftable f).ip).din (s.ftable f).off
      (min src.length filewriteMax)) : LoopEnds s f X A src false s
  /-- A later round is refused. -/
  | short {t : State} (hr : ¬ Refused (s.icache (s.ftable f).ip).din (s.ftable f).off
      (min src.length filewriteMax)) (hbig : MAXFILE * BSIZE < (s.ftable f).off + src.length)
      (hoff : (s.ftable f).off < (t.ftable f).off) : LoopEnds s f X A src false t

/-- What the rest of the loop does, after a transaction that has written something. -/
lemma LoopEnds.after {all : Bool} {u : State} {k : ℕ} (hne : (src.take k).length ≠ 0)
    (hr : ¬ Refused (s.icache (s.ftable f).ip).din (s.ftable f).off (min src.length filewriteMax))
    (h : Stored s t f X A (src.take k))
    (hu : LoopEnds t f X (A.write (s.icache (s.ftable f).ip).inum (s.ftable f).off (src.take k))
      (src.drop k) all u) : LoopEnds s f X A src all u := by
  have htf : t.ftable f = { s.ftable f with off := (s.ftable f).off + (src.take k).length } := by
    rw [h.ftable, Function.update_self]
  have hip : (t.ftable f).ip = (s.ftable f).ip := by rw [htf]
  have hoff : (t.ftable f).off = (s.ftable f).off + (src.take k).length := by rw [htf]
  have hinum : (t.icache (t.ftable f).ip).inum = (s.icache (s.ftable f).ip).inum := by
    rw [hip]
    exact h.filled.inum
  have hlen : (src.take k).length + (src.drop k).length = src.length := by
    rw [← List.length_append, List.take_append_drop]
  have hsize := h.file.le_size hinum
  cases hu with
  | nothing hnil =>
    have hall : src.take k = src := by
      rw [List.length_drop] at hnil
      exact List.take_of_length_le (by omega)
    rw [hall] at h hne
    exact .stored hne h
  | stored _ hs =>
    refine .stored (by omega) ⟨?_, ?_, ?_, ?_⟩
    · have := hs.fits
      omega
    · have hfile := hs.file
      rw [hinum, hoff, Nodes.write_write] at hfile
      exact hfile
    · have hboth := hs.filled
      rw [hip, hoff] at hboth
      have hsum := h.filled.trans hboth
      rwa [← slots_union, ← blocks_append, hlen] at hsum
    · rw [hs.ftable, h.ftable]
      simp only [Function.update_self, Function.update_idem]
      rw [Nat.add_assoc, hlen]
  | refused hr' =>
    -- the file reaches up to the offset, so it is the largest size that is in the way
    have hbig := hr'.resolve_left (by omega)
    refine .short hr ?_ ?_
    · omega
    · omega
  | short _ hbig hlt =>
    refine .short hr ?_ ?_
    · omega
    · omega

/-- By induction on the fuel: either all is written, or a part and the rest is refused. -/
lemma filewriteLoop_ends {fuel : ℕ} (h : OpenFile s f X A) (hfuel : src.length ≤ fuel) :
    Ends (fun _ => ¬ Refused (s.icache (s.ftable f).ip).din (s.ftable f).off
          (min src.length filewriteMax) ∧
        freeCount s.sb s.disk <
          (missing s (s.ftable f).ip (slots (blocks (s.ftable f).off src.length))).card)
      (filewriteLoop p f (s.ftable f).ip fuel src) (LoopEnds s f X A src) s := by
  induction fuel generalizing s A src with
  | zero => exact LoopEnds.nothing (by omega)
  | succ fuel ih =>
    unfold filewriteLoop
    by_cases hlen : src.length = 0
    · rw [if_pos hlen]
      exact LoopEnds.nothing hlen
    rw [if_neg hlen]
    have hmax : filewriteMax = 6656 := rfl
    have htake : (src.take filewriteMax).length = min src.length filewriteMax := by
      rw [List.length_take, Nat.min_comm]
    have hdrop : (src.drop filewriteMax).length = src.length - filewriteMax := List.length_drop
    have hround := filewriteRound_spec (p := p) h (Nat.le_trans (Nat.le_of_eq htake) (Nat.min_le_right _ _))
    -- the blocks of the first round and of the rest
    have hblocks : blocks (s.ftable f).off src.length
        = blocks (s.ftable f).off (src.take filewriteMax).length ∪
          blocks ((s.ftable f).off + (src.take filewriteMax).length) (src.drop filewriteMax).length := by
      rw [← blocks_append, ← List.length_append, List.take_append_drop]
    rw [htake] at hround
    refine Ends.seq (hround.mono ?_ fun _ _ hq => hq) ?_
    · rintro e ⟨-, hr, hfree⟩
      refine ⟨hr, Nat.lt_of_lt_of_le hfree (missing_mono ?_)⟩
      rw [hblocks, slots_union, htake]
      exact Finset.subset_union_left
    intro r t hq
    -- a round is refused as a whole, or stores all it was given
    by_cases hr : Refused (s.icache (s.ftable f).ip).din (s.ftable f).off
        (min src.length filewriteMax)
    · rw [if_pos hr] at hq
      obtain ⟨rfl, rfl⟩ := hq
      exact LoopEnds.refused hr
    rw [if_neg hr, ← htake] at hq
    obtain ⟨rfl, ht, hfill, htable⟩ := hq
    have hstored : Stored s t f X A (src.take filewriteMax) :=
      ⟨Nat.not_lt.mp fun hlt => hr (.inr (by rwa [← htake])), ht, hfill, htable⟩
    have htf : t.ftable f
        = { s.ftable f with off := (s.ftable f).off + (src.take filewriteMax).length } := by
      rw [htable, Function.update_self]
    have hfuel' : (src.drop filewriteMax).length ≤ fuel := by omega
    -- the rest is written from where the first round ended
    have hrest := ih ht hfuel'
    rw [htf] at hrest
    show Ends _ (if (src.take filewriteMax).length ≠ (src.take filewriteMax).length then _ else _) _ t
    rw [if_neg (by simp)]
    refine hrest.mono ?_ ?_
    · rintro e ⟨-, hfree⟩
      refine ⟨hr, ?_⟩
      have hused := hfill.free
      rw [hblocks, slots_union, hfill.missing_union]
      dsimp only at hfree
      omega
    · intro all u hu
      exact LoopEnds.after (by omega) hr hstored hu

/-! ### What the call reports -/

/-- A file after bytes have been stored at an offset. -/
def Node.store (x : Node) (off : ℕ) (src : List UInt8) : Node :=
  if src.length = 0 then x
  else { x with
    data := blit x.data off src.length (ofList src)
    size := max x.size (off + src.length) }

/-- `filewrite` returns the number of bytes, which are stored at the old offset with the offset behind
them, or it returns `-1` and the file and the offset are as before. -/
def Reports (s : State) (p f : ℕ) (src : List UInt8) (ext : Ret) : Prop :=
  ∃ r t, Prog.exec (filewrite p f src ext) s = .done r t ∧
    (r.1 = src.length ∧
        t.cached (s.ftable f).ip = (s.cached (s.ftable f).ip).store (s.ftable f).off src ∧
        (t.ftable f).off = (s.ftable f).off + src.length ∨
      r.1 = -1 ∧ t.cached (s.ftable f).ip = s.cached (s.ftable f).ip ∧
        (t.ftable f).off = (s.ftable f).off)

/-- The whole call: what is stored is a prefix, and the answer says whether it is all. -/
lemma filewrite_ends {ext : Ret} (h : OpenFile s f X A) (hw : (s.ftable f).writable = true) :
    Ends (fun _ => ¬ Refused (s.icache (s.ftable f).ip).din (s.ftable f).off
          (min src.length filewriteMax) ∧
        freeCount s.sb s.disk <
          (missing s (s.ftable f).ip (slots (blocks (s.ftable f).off src.length))).card)
      (filewrite p f src ext)
      (fun r t => ∃ all, LoopEnds s f X A src all t ∧
        r = if all then ((src.length : ℤ), []) else failed) s := by
  have hdev : (s.icache (s.ftable f).ip).din.type ≠ T_DEV := by
    rw [h.regular]
    decide
  unfold filewrite
  refine Ends.after rfl ?_
  rw [if_neg (by rw [hw]; simp), h.type]
  refine Ends.after rfl ?_
  rw [if_neg hdev]
  refine Ends.seq (filewriteLoop_ends h (Nat.le_refl _)) fun all t ht => ?_
  exact ⟨all, ht, rfl⟩

/-- The stored bytes are in the file at the old offset. -/
lemma Stored.cached (h : OpenFile s f X A) (ht : Stored s t f X A src) (hlen : src.length ≠ 0) :
    t.cached (s.ftable f).ip = (s.cached (s.ftable f).ip).store (s.ftable f).off src := by
  have hip : (t.ftable f).ip = (s.ftable f).ip := by rw [ht.ftable, Function.update_self]
  have hnode := ht.file.holds.node
  rw [hip, ht.filled.inum, Nodes.write_self, h.holds.node] at hnode
  unfold Node.store
  rw [if_neg hlen, ← hnode]

/-- A write that does not fit below the largest size stores a part and reports a failure. -/
lemma not_reports {ext : Ret} (h : OpenFile s f X A) (hw : (s.ftable f).writable = true)
    (hr : ¬ Refused (s.icache (s.ftable f).ip).din (s.ftable f).off (min src.length filewriteMax))
    (hbad : MAXFILE * BSIZE < (s.ftable f).off + src.length ∨ freeCount s.sb s.disk <
      (missing s (s.ftable f).ip (slots (blocks (s.ftable f).off src.length))).card) :
    ¬ Reports s p f src ext := by
  rintro ⟨r, t, hexec, hrep⟩
  obtain ⟨all, hend, rfl⟩ := (filewrite_ends h hw).of_done hexec
  cases hend with
  | nothing hlen =>
    rw [hlen] at hbad hr
    rcases hbad with hbig | hfree
    · exact hr (.inr (by rwa [Nat.zero_min]))
    · exact absurd hfree (Nat.not_lt_zero _)
  | stored _ ht =>
    rcases hbad with hbig | hfree
    · have := ht.fits
      omega
    · have := ht.filled.free
      omega
  | refused hr' => exact hr hr'
  | short _ _ hoff =>
    rcases hrep with ⟨hret, -⟩ | ⟨-, -, hsame⟩
    · have hneg : (-1 : ℤ) = src.length := hret
      omega
    · omega

/-- `filewrite` does what it reports exactly when the file is not writable, the first round is refused,
or the bytes fit under the largest size and there are blocks for them. Otherwise it panics, or a
later round is refused when earlier ones have been stored. -/
theorem reports_iff {ext : Ret} (h : OpenFile s f X A) : Reports s p f src ext ↔
    (s.ftable f).writable = false ∨
    Refused (s.icache (s.ftable f).ip).din (s.ftable f).off (min src.length filewriteMax) ∨
    (s.ftable f).off + src.length ≤ MAXFILE * BSIZE ∧
      (missing s (s.ftable f).ip (slots (blocks (s.ftable f).off src.length))).card
        ≤ freeCount s.sb s.disk := by
  cases hw : (s.ftable f).writable with
  | false =>
    have hexec : Prog.exec (filewrite p f src ext) s = .done failed s := by
      unfold filewrite
      rw [exec_get, if_pos (by rw [hw]; simp)]
      rfl
    exact ⟨fun _ => .inl rfl, fun _ => ⟨failed, s, hexec, .inr ⟨rfl, rfl, rfl⟩⟩⟩
  | true =>
    constructor
    · intro hrep
      by_contra hnot
      rw [not_or, not_or, not_and_or, Nat.not_le, Nat.not_le] at hnot
      exact not_reports h hw hnot.2.1 hnot.2.2 hrep
    · intro hcond
      have hgood := hcond.resolve_left (by simp)
      obtain ⟨r, t, hexec, all, hend, rfl⟩ := (filewrite_ends h hw).returns fun e he =>
        hgood.elim (fun hr => he.1 hr) fun hfit => Nat.not_lt.mpr hfit.2 he.2
      refine ⟨_, t, hexec, ?_⟩
      cases hend with
      | nothing hlen =>
        refine .inl ⟨rfl, ?_, by rw [hlen]; rfl⟩
        unfold Node.store
        rw [if_pos hlen]
      | stored hlen ht =>
        refine .inl ⟨rfl, ht.cached h hlen, ?_⟩
        rw [ht.ftable, Function.update_self]
      | refused hr' => exact .inr ⟨rfl, rfl, rfl⟩
      | short hr hbig _ =>
        rcases hgood with hr' | hfit
        · exact absurd hr' hr
        · omega

/-- Two bytes, written to the empty file. -/
theorem reports_iff_oneFile : OpenFile oneFile 0 oneFileInodes oneFileNodes ∧
    Reports oneFile 1 0 [104, 105] failed := by
  refine ⟨openFile_oneFile, (reports_iff openFile_oneFile).mpr (.inr (.inr ⟨by decide, ?_⟩))⟩
  have hmissing := card_missing_le oneFile 0 (slots (blocks 0 2))
  have hslots := card_slots_le (blocks 0 2)
  have hblocks : (blocks 0 2).card ≤ 1 + 1 := card_blocks_le (by decide)
  have hfree := le_freeCount_oneFile
  show (missing oneFile 0 (slots (blocks 0 2))).card ≤ freeCount oneFileSb oneFileDisk
  omega

/-- A file can not have more than 71680 bytes. Of 71681 bytes that are written to the empty file, the
first ten rounds store 66560, the eleventh is refused, and the answer is `-1`. -/
theorem not_reports_oneFile : ¬ Reports oneFile 1 0 (List.replicate 71681 0) failed := by
  have hlen : (List.replicate 71681 (0 : UInt8)).length = 71681 := List.length_replicate
  generalize List.replicate 71681 (0 : UInt8) = src at hlen ⊢
  refine not_reports openFile_oneFile rfl ?_ (.inl ?_)
  · rw [hlen]
    decide
  · rw [hlen]
    decide

end

end Kernel
end OhMyXv6
