import OhMyXv6.Kernel.Alloc

/-!
# `writei`

`writei_ends` says when `writei` refuses a write, what it leaves behind when it does not, which
blocks it logs on the way, and what it can panic with.
-/

namespace OhMyXv6
namespace Kernel

open Bytes Prog

section
variable {s t w : State} {ip bn off : ℕ} {X : ℕ → Dinode} {A : Nodes}

/-- The files after bytes have been put into the blocks of file `i`, its size left as it is. -/
def Nodes.fill (A : Nodes) (i off : ℕ) (src : List UInt8) : Nodes :=
  Function.update A i { A i with data := blit (A i).data off src.length (ofList src) }

/-- A part of one block of the file is overwritten. -/
lemma Holds.write (h : Holds s ip X A) {n : ℕ} (f : ℕ → UInt8)
    (hne : s.slot ip (off / BSIZE) ≠ 0) (hlt : off / BSIZE < MAXFILE)
    (hn : off % BSIZE + n ≤ BSIZE) :
    Holds (s.logged (s.slot ip (off / BSIZE))
        (blit (s.disk (s.slot ip (off / BSIZE))) (off % BSIZE) n f)) ip X
      (Function.update A (s.icache ip).inum
        { A (s.icache ip).inum with data := blit (A (s.icache ip).inum).data off n f }) ∧
    Grown s (s.logged (s.slot ip (off / BSIZE))
        (blit (s.disk (s.slot ip (off / BSIZE))) (off % BSIZE) n f)) ip {off / BSIZE}
      {s.slot ip (off / BSIZE)} := by
  have hgeo := h.image.geometry
  have hmap := hgeo.bmapstart
  have hrange := h.slot_range hne
  have haddr : s.slot ip (off / BSIZE) = dataAddr s.disk (s.icache ip).din (off / BSIZE) :=
    ref_of_lt hlt
  have himage := h.image.write h.live f
    (by rw [Function.update_self, ← haddr]; exact hne) hn
  rw [Function.update_self, ← haddr] at himage
  -- the block that is written is not the indirect block
  have hslot : ∀ v, (s.logged (s.slot ip (off / BSIZE))
      (blit (s.disk (s.slot ip (off / BSIZE))) (off % BSIZE) n f)).slot ip v = s.slot ip v := by
    intro v
    apply ref_congr
    intro h0
    apply Function.update_of_ne
    rw [← slot_maxfile]
    intro heq
    have := h.slot_inj (by rw [slot_maxfile]; exact h0) heq
    omega
  constructor
  · exact ⟨himage, h.inum, h.type, nodup_addLog h.nodup⟩
  · refine ⟨⟨rfl, rfl, fun v _ => hslot v, fun v => ?_, ?_⟩, ?_, fun b hb => ?_, fun b => ?_⟩
    · rw [hslot v, Finset.mem_singleton]
      constructor
      · exact .inl
      · rintro (hv | rfl)
        · exact hv
        · exact hne
    · have hnone : missing s ip {off / BSIZE} = ∅ := by
        rw [Finset.eq_empty_iff_forall_notMem]
        intro v hv
        rw [mem_missing, Finset.mem_singleton] at hv
        exact hne (hv.1 ▸ hv.2)
      rw [hnone, Finset.card_empty, Nat.add_zero]
      unfold freeCount
      congr 1
      apply Finset.filter_congr
      intro c hc
      rw [Finset.mem_range] at hc
      have := hgeo.bitmap c hc
      show bit s.sb (Function.update s.disk _ _) c = false ↔ _
      rw [bit_congr (Function.update_of_ne (by omega) _ _)]
    · unfold State.logged
      simp only [Function.update_eq_self]
    · exact Function.update_of_ne (by omega) _ _
    · show b ∈ addLog s.lh _ ↔ _
      rw [mem_addLog, Finset.mem_singleton]

/-- The blocks that hold the bytes `[off, off + n)` of a file. -/
def blocks (off n : ℕ) : Finset ℕ := (Finset.range n).image fun j => (off + j) / BSIZE

/-- The slots for some blocks of a file. -/
def slots (B : Finset ℕ) : Finset ℕ := B.biUnion slotsOf

/-- The blocks that are logged when blocks `B` of a file are written on the way from `s` to `t`: the
data blocks, the bitmap block if one of them is new, and the indirect block if one of its entries
is. -/
def writeLog (s t : State) (ip : ℕ) (B : Finset ℕ) : Finset ℕ :=
  B.image (t.slot ip) ∪ (if ∃ bn ∈ B, s.slot ip bn = 0 then {s.sb.bmapstart} else ∅)
    ∪ (if ∃ bn ∈ B, NDIRECT ≤ bn ∧ s.slot ip bn = 0 then {t.slot ip MAXFILE} else ∅)

/-- The blocks that a write may log. -/
lemma mem_writeLog {B : Finset ℕ} {b : ℕ} : b ∈ writeLog s t ip B ↔
    (∃ bn ∈ B, t.slot ip bn = b) ∨ ((∃ bn ∈ B, s.slot ip bn = 0) ∧ b = s.sb.bmapstart) ∨
      ((∃ bn ∈ B, NDIRECT ≤ bn ∧ s.slot ip bn = 0) ∧ b = t.slot ip MAXFILE) := by
  unfold writeLog
  rw [Finset.mem_union, Finset.mem_union, Finset.mem_image, or_assoc]
  refine or_congr_right (or_congr ?_ ?_)
  · split
    · next h => simp [h]
    · next h => simp [h]
  · split
    · next h => simp [h]
    · next h => simp [h]

/-- They are two more than those written, at most. -/
lemma card_writeLog_le {B : Finset ℕ} : (writeLog s t ip B).card ≤ B.card + 2 := by
  have h1 : (B.image (t.slot ip)).card ≤ B.card := Finset.card_image_le
  have h2 : (if ∃ bn ∈ B, s.slot ip bn = 0 then {s.sb.bmapstart} else ∅ : Finset ℕ).card ≤ 1 := by
    split <;> simp
  have h3 : (if ∃ bn ∈ B, NDIRECT ≤ bn ∧ s.slot ip bn = 0 then {t.slot ip MAXFILE} else ∅ :
      Finset ℕ).card ≤ 1 := by
    split <;> simp
  have h4 := Finset.card_union_le (B.image (t.slot ip) ∪
    (if ∃ bn ∈ B, s.slot ip bn = 0 then {s.sb.bmapstart} else ∅))
    (if ∃ bn ∈ B, NDIRECT ≤ bn ∧ s.slot ip bn = 0 then {t.slot ip MAXFILE} else ∅)
  have h5 := Finset.card_union_le (B.image (t.slot ip))
    (if ∃ bn ∈ B, s.slot ip bn = 0 then {s.sb.bmapstart} else ∅)
  unfold writeLog
  omega

lemma self_mem_slotsOf : bn ∈ slotsOf bn := by
  unfold slotsOf
  split <;> simp

lemma mem_slots_of_mem {B : Finset ℕ} (h : bn ∈ B) : bn ∈ slots B :=
  Finset.mem_biUnion.mpr ⟨bn, h, self_mem_slotsOf⟩

/-- The slots of blocks that a file can have are these blocks. -/
lemma mem_slots {B : Finset ℕ} (hlt : bn < MAXFILE) : bn ∈ slots B ↔ bn ∈ B := by
  constructor
  · intro h
    obtain ⟨c, hc, hbn⟩ := Finset.mem_biUnion.mp h
    unfold slotsOf at hbn
    split at hbn
    · rw [Finset.mem_singleton] at hbn
      rwa [hbn]
    · rw [Finset.mem_insert, Finset.mem_singleton] at hbn
      rcases hbn with rfl | rfl
      · omega
      · exact hc
  · exact mem_slots_of_mem

/-- A block behind the direct ones needs the indirect block. -/
lemma maxfile_mem_slots {B : Finset ℕ} (h : bn ∈ B) (hd : NDIRECT ≤ bn) : MAXFILE ∈ slots B := by
  refine Finset.mem_biUnion.mpr ⟨bn, h, ?_⟩
  unfold slotsOf
  rw [if_neg (by omega)]
  exact Finset.mem_insert_self _ _

lemma slots_insert {B : Finset ℕ} : slots (insert bn B) = slots B ∪ slotsOf bn := by
  unfold slots
  rw [Finset.biUnion_insert, Finset.union_comm]

/-- The blocks that `bmap` logs if it allocates. -/
lemma mem_bmapLog {b : ℕ} : b ∈ bmapLog s t ip bn ↔ s.slot ip bn = 0 ∧
    (b = s.sb.bmapstart ∨ b = t.slot ip bn ∨ NDIRECT ≤ bn ∧ b = t.slot ip MAXFILE) := by
  unfold bmapLog
  split
  · next h0 =>
    split
    · next hd =>
      rw [Finset.mem_insert, Finset.mem_singleton]
      simp [h0, Nat.not_le.mpr hd]
    · next hd =>
      rw [Finset.mem_insert, Finset.mem_insert, Finset.mem_singleton]
      simp [h0, Nat.not_lt.mp hd]
  · next h0 => simp [h0]

/-- One more block: what has been logged altogether. -/
lemma Grown.writeLog_insert {B : Finset ℕ} (hbn : bn < MAXFILE)
    (h : Grown s t ip (slots B) (writeLog s t ip B))
    (h' : Grown t w ip (slotsOf bn) (insert (w.slot ip bn) (bmapLog t w ip bn))) :
    Grown s w ip (slots (insert bn B)) (writeLog s w ip (insert bn B)) := by
  have hsum := h.trans h'
  rw [← slots_insert] at hsum
  refine ⟨hsum.toFilled, hsum.frame, hsum.low, fun b => ?_⟩
  have hkeep : ∀ c ∈ B, w.slot ip c = t.slot ip c := fun c hc =>
    h'.keep c ((h.slots c).mpr (.inr (mem_slots_of_mem hc)))
  have hind : (∃ c ∈ B, NDIRECT ≤ c ∧ s.slot ip c = 0) → w.slot ip MAXFILE = t.slot ip MAXFILE := by
    rintro ⟨c, hc, hd, -⟩
    exact h'.keep MAXFILE ((h.slots MAXFILE).mpr (.inr (maxfile_mem_slots hc hd)))
  have hnew : t.slot ip bn = 0 ↔ s.slot ip bn = 0 ∧ bn ∉ B := by
    have hiff := h.slots bn
    rw [mem_slots hbn] at hiff
    rw [← not_iff_not, not_and_or, not_not]
    exact hiff
  rw [hsum.log, Finset.mem_union, Finset.mem_insert, mem_writeLog, mem_writeLog, mem_bmapLog, h.sb]
  refine or_congr_right ⟨?_, ?_⟩
  · rintro ((⟨c, hc, hb⟩ | ⟨⟨c, hc, h0⟩, hb⟩ | ⟨⟨c, hc, hd, h0⟩, hb⟩) | hb | ⟨h0, hb | hb | ⟨hd, hb⟩⟩)
    · exact .inl ⟨c, Finset.mem_insert_of_mem hc, by rw [hkeep c hc, hb]⟩
    · exact .inr (.inl ⟨⟨c, Finset.mem_insert_of_mem hc, h0⟩, hb⟩)
    · exact .inr (.inr ⟨⟨c, Finset.mem_insert_of_mem hc, hd, h0⟩, by rw [hb, hind ⟨c, hc, hd, h0⟩]⟩)
    · exact .inl ⟨bn, Finset.mem_insert_self _ _, hb.symm⟩
    · exact .inr (.inl ⟨⟨bn, Finset.mem_insert_self _ _, (hnew.mp h0).1⟩, hb⟩)
    · exact .inl ⟨bn, Finset.mem_insert_self _ _, hb.symm⟩
    · exact .inr (.inr ⟨⟨bn, Finset.mem_insert_self _ _, hd, (hnew.mp h0).1⟩, hb⟩)
  · -- a block that was missing is missing at `t`, or among those that are there already
    rintro (⟨c, hc, hb⟩ | ⟨⟨c, hc, h0⟩, hb⟩ | ⟨⟨c, hc, hd, h0⟩, hb⟩)
    · by_cases hcB : c ∈ B
      · exact .inl (.inl ⟨c, hcB, by rw [← hkeep c hcB, hb]⟩)
      · obtain rfl := (Finset.mem_insert.mp hc).resolve_right hcB
        exact .inr (.inl hb.symm)
    · by_cases hcB : c ∈ B
      · exact .inl (.inr (.inl ⟨⟨c, hcB, h0⟩, hb⟩))
      · obtain rfl := (Finset.mem_insert.mp hc).resolve_right hcB
        exact .inr (.inr ⟨hnew.mpr ⟨h0, hcB⟩, .inl hb⟩)
    · by_cases hcB : c ∈ B
      · exact .inl (.inr (.inr ⟨⟨c, hcB, hd, h0⟩, by rw [hb, hind ⟨c, hcB, hd, h0⟩]⟩))
      · obtain rfl := (Finset.mem_insert.mp hc).resolve_right hcB
        exact .inr (.inr ⟨hnew.mpr ⟨h0, hcB⟩, .inr (.inr ⟨hd, hb⟩)⟩)

end

section
variable {s t w : State} {ip bn off : ℕ} {X : ℕ → Dinode} {A : Nodes} {src : List UInt8}

/-- Two chunks, one behind the other. -/
lemma blit_append {D : ℕ → UInt8} {c : ℕ} (hc : c ≤ src.length) :
    blit (blit D off c (ofList src)) (off + c) (src.drop c).length (ofList (src.drop c))
      = blit D off src.length (ofList src) := by
  funext k
  have hlen : (src.drop c).length = src.length - c := List.length_drop
  have hdrop : ∀ j, ofList (src.drop c) j = ofList src (c + j) := by
    intro j
    unfold ofList
    rw [List.getD_eq_getElem?_getD, List.getD_eq_getElem?_getD, List.getElem?_drop]
  rw [hlen]
  by_cases h1 : off + c ≤ k ∧ k < off + src.length
  · rw [blit_in h1.1 (by omega), blit_in (by omega) h1.2, hdrop]
    congr 1
    omega
  · rw [blit_out (by omega)]
    by_cases h2 : off ≤ k ∧ k < off + c
    · rw [blit_in h2.1 h2.2, blit_in h2.1 (by omega)]
    · rw [blit_out (by omega), blit_out (by omega)]

/-- A chunk is not empty, and it stays inside of one block. -/
lemma chunk_spec (off : ℕ) {n : ℕ} (hn : n ≠ 0) :
    0 < chunk off n ∧ chunk off n ≤ n ∧ off % BSIZE + chunk off n ≤ BSIZE := by
  have hB : BSIZE = 512 := rfl
  unfold chunk
  rw [hB]
  omega

/-- The blocks of a range, from the first chunk on. -/
lemma blocks_chunk {n : ℕ} (hn : n ≠ 0) :
    blocks off n = insert (off / BSIZE) (blocks (off + chunk off n) (n - chunk off n)) := by
  obtain ⟨hpos, hle, hend⟩ := chunk_spec off hn
  ext b
  unfold blocks
  rw [Finset.mem_insert, Finset.mem_image, Finset.mem_image]
  constructor
  · rintro ⟨j, hj, rfl⟩
    rw [Finset.mem_range] at hj
    by_cases hjc : j < chunk off n
    · exact .inl (div_add_chunk hend hjc).1
    · refine .inr ⟨j - chunk off n, Finset.mem_range.mpr (by omega), ?_⟩
      congr 1
      omega
  · rintro (rfl | ⟨j, hj, rfl⟩)
    · exact ⟨0, Finset.mem_range.mpr (by omega), rfl⟩
    · rw [Finset.mem_range] at hj
      refine ⟨chunk off n + j, Finset.mem_range.mpr (by omega), ?_⟩
      rw [Nat.add_assoc]

/-- One round of the loop: `bmap`, then the bytes for this block. -/
theorem writeiRound_ends (h : Holds t ip X A) (hout : 1 ≤ t.outstanding) {n : ℕ} {f : ℕ → UInt8}
    (hlt : off / BSIZE < MAXFILE) (hn : off % BSIZE + n ≤ BSIZE) :
    Ends (Fails t ip (slotsOf (off / BSIZE)) 4)
      (bmap ip (off / BSIZE) >>= fun addr => logBlock (fun _ => addr) fun s =>
        blit (s.disk addr) (off % BSIZE) n f)
      (fun _ w => Holds w ip X (Function.update A (t.icache ip).inum
          { A (t.icache ip).inum with data := blit (A (t.icache ip).inum).data off n f }) ∧
        Grown t w ip (slotsOf (off / BSIZE))
          (insert (w.slot ip (off / BSIZE)) (bmapLog t w ip (off / BSIZE)))) t := by
  refine Ends.seq (bmap_ends h hout hlt) ?_
  rintro b u ⟨rfl, hu, hg⟩
  have hne : u.slot ip (off / BSIZE) ≠ 0 := (hg.slots _).mpr (.inr self_mem_slotsOf)
  -- at most the bitmap, the block itself and the indirect block
  have hcard : (bmapLog t u ip (off / BSIZE)).card ≤ 3 := by
    unfold bmapLog
    split
    · split
      · exact Nat.le_trans Finset.card_le_two (by omega)
      · exact Finset.card_le_three
    · simp
  have hlen := hg.length_le h.nodup hu.nodup
  refine (logBlock_ends (by rwa [hg.outstanding]) fun hfull => ?_).mono (fun _ he => he) ?_
  · rw [hg.logLimit] at hfull
    exact .inr ⟨rfl, by omega⟩
  · rintro _ w rfl
    obtain ⟨hw, hg'⟩ := hu.write f hne hlt hn
    rw [hg.inum] at hw
    refine ⟨hw, ?_⟩
    have hsum := hg.trans hg'
    have hslots : slotsOf (off / BSIZE) ∪ {off / BSIZE} = slotsOf (off / BSIZE) :=
      Finset.union_eq_left.mpr (Finset.singleton_subset_iff.mpr self_mem_slotsOf)
    have hkeep := hg'.keep _ hne
    have hlog : bmapLog t u ip (off / BSIZE) = bmapLog t (u.logged (u.slot ip (off / BSIZE))
        (blit (u.disk (u.slot ip (off / BSIZE))) (off % BSIZE) n f)) ip (off / BSIZE) := by
      unfold bmapLog
      rw [hkeep]
      split
      · split
        · rfl
        · next hd =>
          have hind := slot_indirect_of_ne (Nat.not_lt.mp hd) hlt hne
          rw [hg'.keep _ hind]
      · rfl
    rw [hslots, Finset.union_comm, ← Finset.insert_eq, hlog] at hsum
    rw [hkeep]
    exact hsum

lemma Nodes.fill_nil {i : ℕ} (hlen : src.length = 0) : A.fill i off src = A := by
  have hdata : blit (A i).data off src.length (ofList src) = (A i).data := by
    funext k
    rw [blit_out (by omega)]
  unfold Nodes.fill
  rw [hdata]
  exact Function.update_eq_self _ _

/-- Two chunks, one behind the other. -/
lemma Nodes.fill_fill {i c : ℕ} (hc : c ≤ src.length) :
    Nodes.fill (Function.update A i { A i with data := blit (A i).data off c (ofList src) }) i
      (off + c) (src.drop c) = A.fill i off src := by
  unfold Nodes.fill
  simp only [Function.update_self, Function.update_idem]
  rw [blit_append hc]

/-- The loop of `writei`, after blocks `B` have been written since `s`. -/
theorem writeiLoop_ends {fuel : ℕ} {B : Finset ℕ} (hs : s.lh.Nodup) (h : Holds t ip X A)
    (hout : 1 ≤ t.outstanding) (hfuel : src.length ≤ fuel)
    (hend : off + src.length ≤ MAXFILE * BSIZE)
    (hg : Grown s t ip (slots B) (writeLog s t ip B)) :
    Ends (Fails s ip (slots (B ∪ blocks off src.length)) ((B ∪ blocks off src.length).card + 6))
      (writeiLoop ip fuel off src)
      (fun _ w => Holds w ip X (A.fill (t.icache ip).inum off src) ∧
        Grown s w ip (slots (B ∪ blocks off src.length))
          (writeLog s w ip (B ∪ blocks off src.length))) t := by
  have hBS : BSIZE = 512 := rfl
  have hM : MAXFILE = 140 := rfl
  induction fuel generalizing t A off src B with
  | zero =>
    have hlen : src.length = 0 := by omega
    have hnone : blocks off src.length = ∅ := by rw [hlen]; rfl
    rw [hnone, Finset.union_empty]
    show Holds t ip X _ ∧ _
    rw [Nodes.fill_nil hlen]
    exact ⟨h, hg⟩
  | succ fuel ih =>
    unfold writeiLoop
    by_cases hlen : src.length = 0
    · have hnone : blocks off src.length = ∅ := by rw [hlen]; rfl
      rw [if_pos hlen, hnone, Finset.union_empty, ends_pure, Nodes.fill_nil hlen]
      exact ⟨h, hg⟩
    rw [if_neg hlen]
    obtain ⟨hpos, hle, hfit⟩ := chunk_spec off hlen
    have hlt : off / BSIZE < MAXFILE := by
      rw [hM, hBS] at hend
      rw [hM, hBS]
      omega
    -- this round's block, then those of the rest
    have hblocks : B ∪ blocks off src.length = insert (off / BSIZE) B ∪
        blocks (off + chunk off src.length) (src.drop (chunk off src.length)).length := by
      rw [blocks_chunk hlen, List.length_drop, Finset.insert_union, Finset.union_insert]
    have hsub : insert (off / BSIZE) B ⊆ B ∪ blocks off src.length := by
      rw [hblocks]
      exact Finset.subset_union_left
    have hcard := Nat.le_trans (hg.length_le hs h.nodup) (Nat.add_le_add_left card_writeLog_le _)
    have hBcard : B.card ≤ (B ∪ blocks off src.length).card :=
      Finset.card_le_card Finset.subset_union_left
    -- a failure of this round is one of the whole loop
    have hfail : ∀ e, Fails t ip (slotsOf (off / BSIZE)) 4 e →
        Fails s ip (slots (B ∪ blocks off src.length)) ((B ∪ blocks off src.length).card + 6) e := by
      intro e he
      have hafter := he.after hg (m := (B ∪ blocks off src.length).card + 6) (by omega)
      rw [← slots_insert] at hafter
      exact hafter.mono (Finset.biUnion_subset_biUnion_of_subset_left _ hsub) (Nat.le_refl _)
    have hround := (writeiRound_ends h hout (f := ofList src) hlt hfit).mono hfail fun _ _ hq => hq
    refine ends_bind.mpr ((ends_bind.mp hround).mono (fun _ he => he) fun addr u hu =>
      Ends.seq hu ?_)
    rintro _ w ⟨hw, hg'⟩
    have hdrop : (src.drop (chunk off src.length)).length = src.length - chunk off src.length :=
      List.length_drop
    have hfuel' : (src.drop (chunk off src.length)).length ≤ fuel := by omega
    have hend' : off + chunk off src.length + (src.drop (chunk off src.length)).length
        ≤ MAXFILE * BSIZE := by omega
    have htail := ih hw (by rwa [hg'.outstanding]) hfuel' hend' (hg.writeLog_insert hlt hg')
    rw [← hblocks, hg'.inum, Nodes.fill_fill hle] at htail
    exact htail

end

section
variable {s t w : State} {ip bn off n : ℕ} {X : ℕ → Dinode} {A : Nodes} {src : List UInt8}

/-- The file of an entry that is held. -/
lemma Holds.node (h : Holds s ip X A) : A (s.icache ip).inum = s.cached ip := by
  rw [h.image.node_live h.live, Function.update_self]
  rfl

/-- What `writei` leaves behind when it has written the bytes `src` at offset `off`. -/
structure Written (s t : State) (ip off : ℕ) (src : List UInt8) : Prop extends
    Filled s t ip (slots (blocks off src.length)) where
  frame : t = { s with
    disk := t.disk
    lh := t.lh
    icache := Function.update s.icache ip { s.icache ip with din := { (s.icache ip).din with
      addrs := (t.icache ip).din.addrs, size := (t.icache ip).din.size } } }
  log : ∀ b, b ∈ t.lh ↔ b ∈ s.lh ∨ b ∈ writeLog s t ip (blocks off src.length) ∨
    (s.icache ip).din.size < off + src.length ∧ b = IBLOCK s.sb (s.icache ip).inum

/-- The blocks that a range touches. -/
lemma mem_blocks {n : ℕ} : bn ∈ blocks off n ↔ off < (bn + 1) * BSIZE ∧ bn * BSIZE < off + n ∧ 0 < n := by
  have hB : BSIZE = 512 := rfl
  unfold blocks
  rw [Finset.mem_image, hB]
  constructor
  · rintro ⟨j, hj, rfl⟩
    rw [Finset.mem_range] at hj
    omega
  · rintro ⟨h1, h2, h3⟩
    by_cases hle : off ≤ bn * 512
    · exact ⟨bn * 512 - off, Finset.mem_range.mpr (by omega), by omega⟩
    · exact ⟨0, Finset.mem_range.mpr h3, by omega⟩

/-- The state after the size of a file has been changed and written to the disk. -/
def State.resized (s : State) (ip size : ℕ) : State :=
  { s with
    icache := Function.update s.icache ip
      { s.icache ip with din := { (s.icache ip).din with size := size } }
    disk := setDinode s.sb s.disk (s.icache ip).inum { (s.icache ip).din with size := size }
    lh := addLog s.lh (IBLOCK s.sb (s.icache ip).inum) }

/-- The last part of `writei`: the size is written if the file has grown. -/
lemma writeiSize_ends {E : Panic → Prop} (hout : 1 ≤ s.outstanding)
    (hfull : s.logLimit ≤ s.lh.length → E .tooBigATransaction) :
    Ends E (writeiSize ip off n) (fun _ t => t = if 0 < n ∧ (s.icache ip).din.size < off then
      s.resized ip off else s) s := by
  unfold writeiSize get
  rw [ends_bind, ends_act]
  show Ends _ (if 0 < n ∧ (s.icache ip).din.size < off then _ else _) _ s
  split
  · rw [ends_bind]
    unfold modifyDin modify
    rw [ends_act]
    show Ends _ (iupdate ip) _ (s.setInode ip _)
    unfold iupdate
    rw [ends_act]
    have hip : (s.setInode ip { s.icache ip with din := { (s.icache ip).din with size := off } }).icache ip
      = { s.icache ip with din := { (s.icache ip).din with size := off } } := Function.update_self _ _ _
    refine log_write_ends ?_ ?_ ?_
    · exact hout
    · exact hfull
    · rw [hip]
      rfl
  · rfl

/-- Only the block of the inode is written. -/
lemma disk_resized (h : Geometry s.sb) (hi : (s.icache ip).inum < s.sb.ninodes) {b : ℕ}
    (hb : s.sb.bmapstart ≤ b) : (s.resized ip n).disk b = s.disk b := by
  have := h.inodes _ hi
  exact setDinode_of_ne (by omega) _ _

/-- The blocks of the file are the same. -/
lemma Holds.slot_resized (h : Holds s ip X A) (v : ℕ) : (s.resized ip n).slot ip v = s.slot ip v := by
  have hmap := h.image.geometry.bmapstart
  have hdin : ((s.resized ip n).icache ip).din = { (s.icache ip).din with size := n } := by
    show (Function.update s.icache ip _ ip).din = _
    rw [Function.update_self]
  have haddrs : ref (s.resized ip n).disk ((s.resized ip n).icache ip).din v
      = ref (s.resized ip n).disk (s.icache ip).din v := ref_of_addrs (by rw [hdin]) _ _
  refine haddrs.trans (ref_congr ?_ v)
  intro h0
  have hr := h.slot_range (u := MAXFILE) (by rw [slot_maxfile]; exact h0)
  rw [slot_maxfile] at hr
  exact disk_resized h.image.geometry h.inum (by omega)

/-- A file may grow over blocks that it has. -/
lemma Holds.resize (h : Holds s ip X A) (hshort : n ≤ MAXFILE * BSIZE)
    (hdense : ∀ bn, bn * BSIZE < n → s.slot ip bn ≠ 0) :
    Holds (s.resized ip n) ip X (Function.update A (s.icache ip).inum
      { A (s.icache ip).inum with size := n }) ∧ Filled s (s.resized ip n) ip ∅ := by
  have hBS : BSIZE = 512 := rfl
  have hM : MAXFILE = 140 := rfl
  have hgeo := h.image.geometry
  have hip : (s.resized ip n).icache ip
      = { s.icache ip with din := { (s.icache ip).din with size := n } } := Function.update_self _ _ _
  have hfits := h.image.fits _ h.inum
  rw [Function.update_self] at hfits
  -- only the size changes, and the blocks below it are there
  have himage := h.image.setMeta h.live (y := { (s.icache ip).din with size := n })
    (by rw [Function.update_self]) h.type
    ⟨hfits.type, hfits.major, hfits.minor, hfits.nlink,
      show n < 2 ^ 32 by rw [hM, hBS] at hshort; omega, hfits.addrs⟩ hshort
    (by
      intro bn (hbn : bn * BSIZE < n)
      have hlt : bn < MAXFILE := by
        rw [hM, hBS] at hshort
        rw [hBS] at hbn
        omega
      rw [Function.update_self, ← ref_of_lt hlt]
      exact hdense bn hbn)
  rw [Function.update_idem] at himage
  have hnode := h.node
  constructor
  · refine ⟨?_, by rw [hip]; exact h.inum, by rw [hip]; exact h.type, nodup_addLog h.nodup⟩
    rw [hip]
    have hdisk := himage.setDinode h.inum { (s.icache ip).din with size := n }
    rw [hnode] at hdisk ⊢
    exact hdisk
  · refine ⟨rfl, by rw [hip], fun v _ => h.slot_resized v, fun v => ?_, ?_⟩
    · rw [h.slot_resized]
      simp
    · show freeCount s.sb (s.resized ip n).disk + 0 = _
      unfold freeCount
      rw [Nat.add_zero]
      congr 1
      apply Finset.filter_congr
      intro c _
      rw [bit_congr (disk_resized hgeo h.inum (Nat.le_add_left _ _))]

/-- `writei` refuses to leave a gap, and to go beyond the largest size. -/
def Refused (x : Dinode) (off n : ℕ) : Prop := x.size < off ∨ MAXFILE * BSIZE < off + n

instance (x : Dinode) (off n : ℕ) : Decidable (Refused x off n) := instDecidableOr

/-- The size of the file is that of its inode. -/
lemma Holds.size (h : Holds s ip X A) : (A (s.icache ip).inum).size = (s.icache ip).din.size := by
  rw [h.node]
  rfl

/-- A block below the size is there. -/
lemma Holds.dense (h : Holds s ip X A) (hlt : bn * BSIZE < (s.icache ip).din.size) :
    s.slot ip bn ≠ 0 := by
  have hd := h.image.dense _ bn h.live
  rw [Function.update_self] at hd
  have hne := hd hlt
  unfold State.slot
  rw [ref_of_lt (lt_of_dataAddr_ne_zero hne)]
  exact hne

/-- Blocks alone do not make a file longer. -/
lemma Grown.size {A' : Nodes} {S L : Finset ℕ} (h : Holds s ip X A) (hg : Grown s t ip S L)
    (ht : Holds t ip X A') (hA : (A' (s.icache ip).inum).size = (A (s.icache ip).inum).size) :
    (t.icache ip).din.size = (s.icache ip).din.size := by
  rw [← h.size, ← hA, ← hg.inum, ht.size]

lemma Written.of_grown (hg : Grown s t ip (slots (blocks off src.length))
    (writeLog s t ip (blocks off src.length)))
    (hle : ¬ (s.icache ip).din.size < off + src.length) : Written s t ip off src := by
  refine ⟨hg.toFilled, hg.frame, fun b => ?_⟩
  rw [hg.log]
  simp [hle]

/-- A write behind the end of the file. -/
lemma Written.of_resized (ht : Holds t ip X A) (hg : Grown s t ip (slots (blocks off src.length))
    (writeLog s t ip (blocks off src.length))) (hlt : (s.icache ip).din.size < off + src.length)
    (hf : Filled t (t.resized ip (off + src.length)) ip ∅) :
    Written s (t.resized ip (off + src.length)) ip off src := by
  have hfill := hg.toFilled.trans hf
  rw [Finset.union_empty] at hfill
  refine ⟨hfill, ?_, fun b => ?_⟩
  · unfold State.resized
    simp only [Function.update_self]
    rw [hg.frame]
    simp only [Function.update_self, Function.update_idem]
  · have hlog : writeLog s (t.resized ip (off + src.length)) ip (blocks off src.length)
        = writeLog s t ip (blocks off src.length) := by
      unfold writeLog
      rw [show (t.resized ip (off + src.length)).slot ip = t.slot ip from
        funext fun v => ht.slot_resized v]
    show b ∈ addLog t.lh (IBLOCK t.sb (t.icache ip).inum) ↔ _
    rw [mem_addLog, hg.log, hlog, hg.sb, hg.inum, or_assoc]
    simp [hlt]

/-- The same, with the inodes: no other one has changed on the disk, and the disk has all of this one
if it had before. -/
structure Wrote (s t : State) (ip off : ℕ) (src : List UInt8) : Prop extends
    Written s t ip off src where
  others : ∀ j < s.sb.ninodes, j ≠ (s.icache ip).inum →
    dinode s.sb t.disk j = dinode s.sb s.disk j
  synced : dinode s.sb s.disk (s.icache ip).inum = (s.icache ip).din →
    dinode s.sb t.disk (s.icache ip).inum = (t.icache ip).din

/-- A file that has got no blocks has its addresses as before. -/
lemma Filled.addrs {S : Finset ℕ} (hf : Filled s t ip S) (hS : ∀ u ∈ S, s.slot ip u ≠ 0) :
    (t.icache ip).din.addrs = (s.icache ip).din.addrs := by
  funext k
  have hk : (k : ℕ) ≤ NDIRECT := Nat.le_of_lt_succ k.isLt
  have haddr : ∀ x : Dinode, x.addrs k = x.addr k := by
    intro x
    unfold Dinode.addr
    rw [dif_pos k.isLt]
  rw [haddr, haddr, ← slot_addrSlot hk, ← slot_addrSlot hk]
  by_cases h0 : s.slot ip (addrSlot k) = 0
  · rw [h0]
    by_contra hne
    rcases (hf.slots _).mp hne with hne' | hmem
    · exact hne' h0
    · exact hS _ hmem h0
  · exact hf.keep _ h0

/-- No other inode on the disk has changed. -/
lemma Grown.dinode {S L : Finset ℕ} (h : Holds s ip X A) (hg : Grown s t ip S L) {j : ℕ}
    (hj : j < s.sb.ninodes) : dinode s.sb t.disk j = dinode s.sb s.disk j :=
  dinode_congr (hg.low _ (h.image.geometry.inodes j hj))

/-- The part of a file that is there has all its blocks. -/
lemma Holds.slot_ne_zero (h : Holds s ip X A) (hle : off + n ≤ (s.icache ip).din.size) {u : ℕ}
    (hu : u ∈ slots (blocks off n)) : s.slot ip u ≠ 0 := by
  have hBS : BSIZE = 512 := rfl
  have hM : MAXFILE = 140 := rfl
  have hshort := h.image.short _ h.live
  rw [Function.update_self] at hshort
  obtain ⟨bn, hbn, hmem⟩ := Finset.mem_biUnion.mp hu
  have hne : s.slot ip bn ≠ 0 := h.dense (Nat.lt_of_lt_of_le (mem_blocks.mp hbn).2.1 hle)
  unfold slotsOf at hmem
  split at hmem
  · exact Finset.mem_singleton.mp hmem ▸ hne
  · next hind =>
    rcases Finset.mem_insert.mp hmem with heq | hmem
    · have hlt : bn < MAXFILE := by
        have hlt' := (mem_blocks.mp hbn).2.1
        rw [hBS] at hlt' hshort
        omega
      exact heq ▸ slot_indirect_of_ne (Nat.not_lt.mp hind) hlt hne
    · exact Finset.mem_singleton.mp hmem ▸ hne

/-- Below the size nothing is missing. -/
lemma Holds.missing_eq_empty (h : Holds s ip X A) (hle : off + n ≤ (s.icache ip).din.size) :
    missing s ip (slots (blocks off n)) = ∅ := by
  rw [Finset.eq_empty_iff_forall_notMem]
  intro u hu
  rw [mem_missing] at hu
  exact h.slot_ne_zero hle hu.1 hu.2

/-- The same with the inodes on the disk, inside of the file. -/
lemma Wrote.of_grown (h : Holds s ip X A)
    (hg : Grown s t ip (slots (blocks off src.length)) (writeLog s t ip (blocks off src.length)))
    (hsize : (t.icache ip).din.size = (s.icache ip).din.size)
    (hle : off + src.length ≤ (s.icache ip).din.size) : Wrote s t ip off src := by
  refine ⟨.of_grown hg (Nat.not_lt.mpr hle), fun j hj _ => hg.dinode h hj, fun hsync => ?_⟩
  rw [hg.dinode h h.inum, hsync, hg.frame]
  simp only [Function.update_self]
  rw [hg.toFilled.addrs fun u hu => h.slot_ne_zero hle hu, hsize]

/-- The same with the inodes on the disk, behind its end. -/
lemma Wrote.of_resized (h : Holds s ip X A)
    (hg : Grown s t ip (slots (blocks off src.length)) (writeLog s t ip (blocks off src.length)))
    (hw : Written s (t.resized ip (off + src.length)) ip off src)
    (hfits : ((t.resized ip (off + src.length)).icache ip).din.Fits) :
    Wrote s (t.resized ip (off + src.length)) ip off src := by
  have hself : ((t.resized ip (off + src.length)).icache ip).din
      = { (t.icache ip).din with size := off + src.length } := by
    show (Function.update t.icache ip _ ip).din = _
    rw [Function.update_self]
  refine ⟨hw, fun j hj hne => ?_, fun _ => ?_⟩
  · rw [← hg.dinode h hj, ← hg.sb]
    exact dinode_setDinode_of_ne (by rw [hg.inum]; exact hne) _ _
  · rw [hself] at hfits ⊢
    rw [← hg.sb, ← hg.inum]
    exact dinode_setDinode hfits _ _

/-- All that `writei` does to a file, and all it can panic with. -/
lemma writei_wrote (h : Holds s ip X A) (hout : 1 ≤ s.outstanding)
    (htype : (s.icache ip).din.type ≠ T_DEV) :
    Ends (fun e => ¬ Refused (s.icache ip).din off src.length ∧
        Fails s ip (slots (blocks off src.length)) ((blocks off src.length).card + 6) e)
      (writei ip src off)
      (fun r t => if Refused (s.icache ip).din off src.length then r = none ∧ t = s
        else r = some src.length ∧ Holds t ip X (A.write (s.icache ip).inum off src) ∧
          Wrote s t ip off src) s := by
  have hBS : BSIZE = 512 := rfl
  have hM : MAXFILE = 140 := rfl
  unfold writei get
  rw [ends_bind, ends_act]
  show Ends _ (if (s.icache ip).din.type = T_DEV then _ else if (s.icache ip).din.size < off ∨
    2 ^ 32 ≤ off + src.length then _ else if MAXFILE * BSIZE < off + src.length then _ else _) _ s
  rw [if_neg htype]
  -- refused, nothing has happened; else the loop goes through
  by_cases href : Refused (s.icache ip).din off src.length
  · simp only [if_pos href]
    split
    · exact ⟨rfl, rfl⟩
    · next h1 =>
      have hbig : MAXFILE * BSIZE < off + src.length := href.resolve_left fun hlt => h1 (.inl hlt)
      rw [if_pos hbig]
      exact ⟨rfl, rfl⟩
  · simp only [if_neg href]
    have hle : off + src.length ≤ MAXFILE * BSIZE := Nat.not_lt.mp fun hlt => href (.inr hlt)
    have hoff : off ≤ (s.icache ip).din.size := Nat.not_lt.mp fun hlt => href (.inl hlt)
    rw [if_neg (by rw [hM, hBS] at hle; omega), if_neg (by omega)]
    -- before the first round nothing has grown
    have hrefl : Grown s s ip (slots ∅) (writeLog s s ip ∅) :=
      Grown.refl fun v hv => absurd hv (Finset.notMem_empty v)
    have hloop := writeiLoop_ends h.nodup h hout (Nat.le_refl src.length) hle hrefl
    rw [Finset.empty_union] at hloop
    refine Ends.seq (hloop.mono (fun e he => ⟨href, he⟩) fun _ _ hq => hq) ?_
    rintro _ t ⟨ht, hg⟩
    have hlen := Nat.le_trans (hg.length_le h.nodup ht.nodup)
      (Nat.add_le_add_left card_writeLog_le _)
    have hsize : (t.icache ip).din.size = (s.icache ip).din.size := by
      refine hg.size h ht ?_
      unfold Nodes.fill
      rw [Function.update_self]
    -- every block up to the new end is there, old or just allocated
    have hblock : ∀ bn, bn * BSIZE < off + src.length → t.slot ip bn ≠ 0 := by
      intro bn hbn
      by_cases hold : bn * BSIZE < (s.icache ip).din.size
      · exact ht.dense (by rwa [hsize])
      · refine (hg.slots bn).mpr (.inr (mem_slots_of_mem (mem_blocks.mpr ⟨?_, hbn, ?_⟩)))
        · rw [hBS] at hold ⊢
          omega
        · omega
    refine Ends.seq (writeiSize_ends (by rwa [hg.outstanding]) fun hfull => ⟨href, .inr ⟨rfl, ?_⟩⟩) ?_
    · rw [hg.logLimit] at hfull
      omega
    rintro _ w rfl
    rw [ends_pure, hsize]
    refine ⟨rfl, ?_⟩
    -- the size changes only where the write ends behind it
    by_cases hgrow : (s.icache ip).din.size < off + src.length
    · have hpos : 0 < src.length := by omega
      rw [if_pos ⟨hpos, hgrow⟩]
      obtain ⟨hw, hf⟩ := ht.resize hle hblock
      have hfits := hw.image.fits _ hw.inum
      rw [Function.update_self] at hfits
      refine ⟨?_, .of_resized h hg (.of_resized ht hg hgrow hf) hfits⟩
      have hnodes : Function.update (A.fill (s.icache ip).inum off src) (t.icache ip).inum
          { A.fill (s.icache ip).inum off src (t.icache ip).inum with size := off + src.length }
          = A.write (s.icache ip).inum off src := by
        have hmax : max (A (s.icache ip).inum).size (off + src.length) = off + src.length := by
          rw [h.size]
          omega
        unfold Nodes.fill Nodes.write
        rw [hg.inum, Function.update_self, Function.update_idem, hmax]
      rw [hnodes] at hw
      exact hw
    · rw [if_neg fun hh => hgrow hh.2]
      refine ⟨?_, .of_grown h hg hsize (Nat.not_lt.mp hgrow)⟩
      have hnodes : A.fill (s.icache ip).inum off src = A.write (s.icache ip).inum off src := by
        have hmax : max (A (s.icache ip).inum).size (off + src.length) = (A (s.icache ip).inum).size := by
          rw [h.size]
          omega
        unfold Nodes.fill Nodes.write
        rw [hmax]
      rw [← hnodes]
      exact ht

/-- The whole of `writei`: it refuses, writes all, or finds no free block or no room in the log. -/
lemma writei_ends (h : Holds s ip X A) (hout : 1 ≤ s.outstanding)
    (htype : (s.icache ip).din.type ≠ T_DEV) :
    Ends (fun e => ¬ Refused (s.icache ip).din off src.length ∧
        Fails s ip (slots (blocks off src.length)) ((blocks off src.length).card + 6) e)
      (writei ip src off)
      (fun r t => if Refused (s.icache ip).din off src.length then r = none ∧ t = s
        else r = some src.length ∧ Holds t ip X (A.write (s.icache ip).inum off src) ∧
          Written s t ip off src) s := by
  refine (writei_wrote h hout htype).mono (fun _ he => he) fun r t hrt => ?_
  split
  · next href =>
    rw [if_pos href] at hrt
    exact hrt
  · next href =>
    rw [if_neg href] at hrt
    exact ⟨hrt.1, hrt.2.1, hrt.2.2.toWritten⟩

end

end Kernel
end OhMyXv6
