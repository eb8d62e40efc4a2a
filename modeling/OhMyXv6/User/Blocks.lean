import OhMyXv6.User.Umalloc

/-!
# The blocks of `umalloc.c`

The blocks, free or not, cover the memory that `sbrk` has given and do not overlap. This stays so when a
block takes in the one behind it, when it is cut in two, and when `sbrk` gives more.
-/

namespace OhMyXv6
namespace Umalloc
namespace Heap

variable {P : Program} {h h' : Heap} {B F L : Finset ℕ} {a b c d n p q r : ℕ}

/-! ## Heaps -/

@[simp] lemma setPtr_ptr (h : Heap) (p q : ℕ) : (h.setPtr p q).ptr = Function.update h.ptr p q := rfl
@[simp] lemma setPtr_size (h : Heap) (p q : ℕ) : (h.setPtr p q).size = h.size := rfl
@[simp] lemma setPtr_freep (h : Heap) (p q : ℕ) : (h.setPtr p q).freep = h.freep := rfl
@[simp] lemma setPtr_obtained (h : Heap) (p q : ℕ) : (h.setPtr p q).obtained = h.obtained := rfl
@[simp] lemma setPtr_stop (h : Heap) (p q : ℕ) : (h.setPtr p q).stop = h.stop := rfl
@[simp] lemma setSize_ptr (h : Heap) (p n : ℕ) : (h.setSize p n).ptr = h.ptr := rfl
@[simp] lemma setSize_freep (h : Heap) (p n : ℕ) : (h.setSize p n).freep = h.freep := rfl
@[simp] lemma setSize_obtained (h : Heap) (p n : ℕ) : (h.setSize p n).obtained = h.obtained := rfl
@[simp] lemma setSize_size (h : Heap) (p n : ℕ) :
    (h.setSize p n).size = Function.update h.size p (n % 2 ^ 32) := rfl

lemma stop_congr (heq : h'.size b = h.size b) : h'.stop b = h.stop b := by
  unfold stop
  rw [heq]

lemma setPtr_setPtr (h : Heap) (p q r : ℕ) : (h.setPtr p q).setPtr p r = h.setPtr p r := by
  simp [setPtr]

lemma setPtr_comm (hne : p ≠ b) (h : Heap) : (h.setPtr p q).setPtr b r = (h.setPtr b r).setPtr p q := by
  simp [setPtr, Function.update_comm hne]

lemma setPtr_setSize (h : Heap) : (h.setPtr p q).setSize b n = (h.setSize b n).setPtr p q := rfl

/-! ## Blocks -/

/-- The blocks of `B` do not overlap, and are the memory that there is. -/
structure Blocks (P : Program) (h : Heap) (B : Finset ℕ) : Prop where
  base : P.base ∉ B
  pos : ∀ b ∈ B, 0 < h.size b
  apart : ∀ a ∈ B, ∀ b ∈ B, a ≠ b → h.stop a ≤ b ∨ h.stop b ≤ a
  inside : ∀ b ∈ B, h.Inside b
  total : ∑ b ∈ B, h.size b = h.units
  off : ∀ r ∈ h.obtained, 0 < r.1 ∧
    (r.1 + r.2 * sizeofHeader < P.base ∨ P.base + sizeofHeader ≤ r.1)
  small : h.units < 2 ^ 32

/-- A block has a header at least. -/
lemma Blocks.lt_stop (h : Blocks P h' B) (hb : b ∈ B) : b + sizeofHeader ≤ h'.stop b := by
  have hpos := h.pos b hb
  unfold stop sizeofHeader
  omega

lemma Blocks.congr (hB : Blocks P h B) (hsize : ∀ b ∈ B, h'.size b = h.size b)
    (hobtained : h'.obtained = h.obtained) : Blocks P h' B := by
  have hstop : ∀ b ∈ B, h'.stop b = h.stop b := fun b hb => stop_congr (hsize b hb)
  have hunits : h'.units = h.units := by rw [units, units, hobtained]
  constructor
  · exact hB.base
  · intro b hb
    rw [hsize b hb]
    exact hB.pos b hb
  · intro a ha b hb
    rw [hstop a ha, hstop b hb]
    exact hB.apart a ha b hb
  · intro b hb x
    rw [hstop b hb, hobtained]
    exact hB.inside b hb x
  · rw [Finset.sum_congr rfl hsize, hunits]
    exact hB.total
  · rw [hobtained]
    exact hB.off
  · rw [hunits]
    exact hB.small

/-- No block reaches `base` from below, and none begins in its header. -/
theorem Blocks.off_base (hB : Blocks P h B) (hb : b ∈ B) :
    h.stop b < P.base ∨ P.base + sizeofHeader ≤ b := by
  have hlt := hB.lt_stop hb
  by_contra hnot
  simp only [not_or, not_lt, not_le] at hnot
  -- The byte of the block that is at `base` or nearest to it is of some region.
  have hbyte : ∃ x, b ≤ x ∧ x < h.stop b ∧ (P.base ≤ x + 1 ∧ x < P.base + sizeofHeader) := by
    unfold sizeofHeader at hlt hnot ⊢
    by_cases hle : b ≤ P.base
    · have hpos := P.base_pos
      by_cases heq : b = P.base
      · exact ⟨b, by omega⟩
      · exact ⟨P.base - 1, by omega⟩
    · exact ⟨b, by omega⟩
  obtain ⟨x, hbx, hx, hxbase⟩ := hbyte
  obtain ⟨r, hr, hrx⟩ := hB.inside b hb x hbx hx
  have hoff := (hB.off r hr).2
  omega

lemma Blocks.pos_addr (hB : Blocks P h B) (hb : b ∈ B) : 0 < b := by
  have hlt := hB.lt_stop hb
  unfold sizeofHeader at hlt
  obtain ⟨r, hr, hrb⟩ := hB.inside b hb b le_rfl (by omega)
  have hoff := hB.off r hr
  omega

/-- There are no more blocks than units. -/
lemma Blocks.card_le (hB : Blocks P h B) : B.card ≤ h.units := by
  rw [← hB.total, Finset.card_eq_sum_ones]
  exact Finset.sum_le_sum fun b hb => hB.pos b hb

lemma Blocks.size_add_le (hB : Blocks P h B) (ha : a ∈ B) (hr : r ∈ B) (har : a ≠ r) :
    h.size a + h.size r ≤ h.units := by
  rw [← hB.total, ← Finset.sum_pair har]
  apply Finset.sum_le_sum_of_subset
  intro x hx
  rcases Finset.mem_insert.mp hx with rfl | hx
  · exact ha
  · exact Finset.mem_singleton.mp hx ▸ hr

lemma Blocks.size_le (hB : Blocks P h B) (ha : a ∈ B) : h.size a ≤ h.units := by
  rw [← hB.total]
  exact Finset.single_le_sum (fun _ _ => Nat.zero_le _) ha

/-- A block takes in the one behind it. -/
lemma Blocks.merge (hB : Blocks P h B) (ha : a ∈ B) (hr : r ∈ B) (har : a ≠ r) (hstop : h.stop a = r)
    (hsize : h'.size a = h.size a + h.size r) (heq : ∀ c ∈ B, c ≠ a → h'.size c = h.size c)
    (hobtained : h'.obtained = h.obtained) : Blocks P h' (B.erase r) := by
  have hunits : h'.units = h.units := by rw [units, units, hobtained]
  have hstop_a : h'.stop a = h.stop r := by
    unfold stop sizeofHeader at *
    rw [hsize]
    omega
  have hstop_ne : ∀ c ∈ B, c ≠ a → h'.stop c = h.stop c := fun c hc hca => stop_congr (heq c hc hca)
  have hlt_a := hB.lt_stop ha
  have hlt_r := hB.lt_stop hr
  unfold sizeofHeader at hlt_a hlt_r
  constructor
  · exact fun hmem => hB.base (Finset.mem_of_mem_erase hmem)
  · intro b hb
    by_cases hba : b = a
    · have hpos := hB.pos a ha
      rw [hba, hsize]
      omega
    · rw [heq b (Finset.mem_of_mem_erase hb) hba]
      exact hB.pos b (Finset.mem_of_mem_erase hb)
  · -- Whoever is apart from both is apart from what they become.
    have hboth : ∀ c ∈ B, c ≠ a → c ≠ r → h.stop r ≤ c ∨ h.stop c ≤ a := by
      intro c hc hca hcr
      have hac := hB.apart a ha c hc hca.symm
      have hrc := hB.apart r hr c hc hcr.symm
      have hlt_c := hB.lt_stop hc
      unfold sizeofHeader at hlt_c
      omega
    intro c hc d hd hcd
    obtain ⟨hcr, hcB⟩ := Finset.mem_erase.mp hc
    obtain ⟨hdr, hdB⟩ := Finset.mem_erase.mp hd
    by_cases hca : c = a
    · subst hca
      rw [hstop_a, hstop_ne d hdB hcd.symm]
      exact hboth d hdB hcd.symm hdr
    · rw [hstop_ne c hcB hca]
      by_cases hda : d = a
      · subst hda
        rw [hstop_a]
        exact (hboth c hcB hca hcr).symm
      · rw [hstop_ne d hdB hda]
        exact hB.apart c hcB d hdB hcd
  · intro b hb x hbx hx
    obtain ⟨hbr, hbB⟩ := Finset.mem_erase.mp hb
    rw [hobtained]
    by_cases hba : b = a
    · subst hba
      rw [hstop_a] at hx
      by_cases hxr : x < r
      · exact hB.inside b ha x hbx (by omega)
      · exact hB.inside r hr x (by omega) hx
    · rw [hstop_ne b hbB hba] at hx
      exact hB.inside b hbB x hbx hx
  · have ha' : a ∈ B.erase r := Finset.mem_erase.mpr ⟨har, ha⟩
    have hrest : ∑ c ∈ (B.erase r).erase a, h'.size c = ∑ c ∈ (B.erase r).erase a, h.size c := by
      apply Finset.sum_congr rfl
      intro c hc
      obtain ⟨hca, hc⟩ := Finset.mem_erase.mp hc
      exact heq c (Finset.mem_of_mem_erase hc) hca
    have hsum_r := Finset.add_sum_erase B h.size hr
    have hsum_a := Finset.add_sum_erase (B.erase r) h.size ha'
    have hsum_a' := Finset.add_sum_erase (B.erase r) h'.size ha'
    have htotal := hB.total
    omega
  · rw [hobtained]
    exact hB.off
  · rw [hunits]
    exact hB.small

/-- No block begins within another one. -/
lemma Blocks.not_mem (hB : Blocks P h B) (hp : p ∈ B) (hpq : p < q) (hq : q < h.stop p) :
    q ∉ B ∧ q ≠ P.base := by
  constructor
  · intro hmem
    have hlt := hB.lt_stop hmem
    have hapart := hB.apart p hp q hmem hpq.ne
    unfold sizeofHeader at hlt
    omega
  · have hoff := hB.off_base hp
    unfold sizeofHeader at hoff
    omega

/-- A block is cut in two. -/
lemma Blocks.split (hB : Blocks P h B) (hp : p ∈ B) (hn : 0 < n) (hlt : n < h.size p)
    (hsize : h'.size p = h.size p - n) (hq : q = p + (h.size p - n) * sizeofHeader)
    (hsize_q : h'.size q = n) (heq : ∀ c ∈ B, c ≠ p → h'.size c = h.size c)
    (hobtained : h'.obtained = h.obtained) : Blocks P h' (insert q B) := by
  have hunits : h'.units = h.units := by rw [units, units, hobtained]
  have hpq : p < q := by
    unfold sizeofHeader at hq
    omega
  have hstop_p : h'.stop p = q := by
    rw [stop, hsize, hq]
  have hstop_q : h'.stop q = h.stop p := by
    unfold stop sizeofHeader at *
    rw [hsize_q]
    omega
  have hstop_ne : ∀ c ∈ B, c ≠ p → h'.stop c = h.stop c := fun c hc hcp => stop_congr (heq c hc hcp)
  have hqstop : q + sizeofHeader ≤ h.stop p := by
    unfold stop sizeofHeader at *
    omega
  obtain ⟨hqB, hqbase⟩ := hB.not_mem hp hpq (by unfold sizeofHeader at hqstop; omega)
  constructor
  · rw [Finset.mem_insert, not_or]
    exact ⟨hqbase.symm, hB.base⟩
  · intro b hb
    rcases Finset.mem_insert.mp hb with rfl | hb
    · rw [hsize_q]
      exact hn
    · by_cases hbp : b = p
      · rw [hbp, hsize]
        omega
      · rw [heq b hb hbp]
        exact hB.pos b hb
  · -- Whoever is apart from the block is apart from its parts.
    have hpart : ∀ c ∈ B, c ≠ p → h.stop p ≤ c ∨ h'.stop c ≤ p := by
      intro c hc hcp
      rw [hstop_ne c hc hcp]
      exact hB.apart p hp c hc hcp.symm
    have hsym : ∀ c ∈ insert q B, ∀ d ∈ B, d ≠ c → h'.stop c ≤ d ∨ h'.stop d ≤ c := by
      intro c hc d hd hdc
      rcases Finset.mem_insert.mp hc with rfl | hc
      · by_cases hdp : d = p
        · rw [hdp, hstop_p]
          exact .inr le_rfl
        · rw [hstop_q]
          exact (hpart d hd hdp).imp id fun hle => hle.trans hpq.le
      · by_cases hcp : c = p
        · subst hcp
          have hd' := hpart d hd hdc
          rw [hstop_p]
          omega
        · by_cases hdp : d = p
          · subst hdp
            have hc' := hpart c hc hcp
            rw [hstop_p]
            omega
          · rw [hstop_ne c hc hcp, hstop_ne d hd hdp]
            exact hB.apart c hc d hd hdc.symm
    intro c hc d hd hcd
    rcases Finset.mem_insert.mp hd with rfl | hdB
    · rcases Finset.mem_insert.mp hc with rfl | hcB
      · exact absurd rfl hcd
      · exact (hsym d hd c hcB hcd).symm
    · exact hsym c hc d hdB hcd.symm
  · intro b hb x hbx hx
    rw [hobtained]
    rcases Finset.mem_insert.mp hb with rfl | hb
    · rw [hstop_q] at hx
      exact hB.inside p hp x (hpq.le.trans hbx) hx
    · by_cases hbp : b = p
      · subst hbp
        rw [hstop_p] at hx
        exact hB.inside b hb x hbx (by omega)
      · rw [hstop_ne b hb hbp] at hx
        exact hB.inside b hb x hbx hx
  · have hrest : ∑ c ∈ B.erase p, h'.size c = ∑ c ∈ B.erase p, h.size c := by
      apply Finset.sum_congr rfl
      intro c hc
      obtain ⟨hcp, hc⟩ := Finset.mem_erase.mp hc
      exact heq c hc hcp
    have hsum := Finset.add_sum_erase B h.size hp
    have hsum' := Finset.add_sum_erase B h'.size hp
    have htotal := hB.total
    rw [Finset.sum_insert hqB, hsize_q, hunits]
    omega
  · rw [hobtained]
    exact hB.off
  · rw [hunits]
    exact hB.small

section
variable (hB : Blocks P h B) (hfresh : Fresh P h (a, n)) (hn : 0 < n)
include hB hfresh hn

/-- New memory is apart from the blocks. -/
lemma Blocks.apart_fresh (hb : b ∈ B) : a + n * sizeofHeader ≤ b ∨ h.stop b ≤ a := by
  -- A byte of a block is of older memory.
  have hold : ∀ x, b ≤ x → x < h.stop b → ¬ (a ≤ x ∧ x < a + n * sizeofHeader) := by
    intro x hbx hx hax
    obtain ⟨r, hr, hrx⟩ := hB.inside b hb x hbx hx
    have hapart := hfresh.apart r hr
    simp only at hapart
    omega
  have hlt := hB.lt_stop hb
  have hold_b := hold b
  have hold_a := hold a
  unfold sizeofHeader at *
  omega

/-- Memory that is new is no block yet. -/
lemma Blocks.not_mem_fresh : a ∉ B ∧ a ≠ P.base := by
  constructor
  · intro hmem
    have hlt := hB.lt_stop hmem
    have hapart := hB.apart_fresh hfresh hn hmem
    unfold sizeofHeader at *
    omega
  · have hoff := hfresh.off
    unfold sizeofHeader at hoff
    simp only at hoff
    omega

/-- New memory is one more block. -/
lemma Blocks.grow (hsize : h'.size a = n) (heq : ∀ c ∈ B, h'.size c = h.size c)
    (hobtained : h'.obtained = h.obtained ++ [(a, n)]) : Blocks P h' (insert a B) := by
  obtain ⟨haB, habase⟩ := hB.not_mem_fresh hfresh hn
  have hunits : h'.units = h.units + n := by simp [units, hobtained]
  have hstop_a : h'.stop a = a + n * sizeofHeader := by rw [stop, hsize]
  have hstop_ne : ∀ c ∈ B, h'.stop c = h.stop c := fun c hc => stop_congr (heq c hc)
  constructor
  · rw [Finset.mem_insert, not_or]
    exact ⟨habase.symm, hB.base⟩
  · intro b hb
    rcases Finset.mem_insert.mp hb with rfl | hb
    · rw [hsize]
      exact hn
    · rw [heq b hb]
      exact hB.pos b hb
  · intro c hc d hd hcd
    -- the new block lies apart from every old one
    rcases Finset.mem_insert.mp hc with rfl | hcB
    · rcases Finset.mem_insert.mp hd with rfl | hdB
      · exact absurd rfl hcd
      · rw [hstop_a, hstop_ne d hdB]
        exact hB.apart_fresh hfresh hn hdB
    · rw [hstop_ne c hcB]
      rcases Finset.mem_insert.mp hd with rfl | hdB
      · rw [hstop_a]
        exact (hB.apart_fresh hfresh hn hcB).symm
      · rw [hstop_ne d hdB]
        exact hB.apart c hcB d hdB hcd
  · intro b hb x hbx hx
    rw [hobtained]
    rcases Finset.mem_insert.mp hb with rfl | hb
    · rw [hstop_a] at hx
      exact ⟨(b, n), List.mem_append_right _ List.mem_cons_self, hbx, hx⟩
    · rw [hstop_ne b hb] at hx
      obtain ⟨r, hr, hrx⟩ := hB.inside b hb x hbx hx
      exact ⟨r, List.mem_append_left _ hr, hrx⟩
  · rw [Finset.sum_insert haB, hsize, Finset.sum_congr rfl heq, hB.total, hunits]
    omega
  · intro r hr
    rw [hobtained] at hr
    rcases List.mem_append.mp hr with hr | hr
    · exact hB.off r hr
    · rw [List.mem_singleton.mp hr]
      exact ⟨hfresh.pos, hfresh.off⟩
  · have hsmall := hfresh.small
    rw [hunits]
    exact hsmall

end

end Heap
end Umalloc
end OhMyXv6
