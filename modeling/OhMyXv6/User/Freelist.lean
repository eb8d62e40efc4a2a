import OhMyXv6.User.Blocks

/-!
# `free` of `umalloc.c`

`free` moves a block to the free list and joins it there to its neighbours. That the list is a sorted circle
is what lets the loop find the place, and what makes the links the only neighbours to look at.
-/

namespace OhMyXv6
namespace Umalloc
namespace Heap

variable {P : Program} {h h' : Heap} {F L : Finset ℕ} {a b c d n p r : ℕ}

/-- The free blocks `F`, with `base` among them, are in a circle, and the other blocks are those of `L`. -/
structure Layout (P : Program) (h : Heap) (F L : Finset ℕ) : Prop where
  sorted : Circular.Sorted h.ptr F
  base_mem : P.base ∈ F
  base_size : h.size P.base = 0
  disjoint : Disjoint F L
  blocks : Blocks P h (F.erase P.base ∪ L)

/-- A free block takes in the next one. -/
def absorb (h : Heap) (a : ℕ) : Heap :=
  (h.setSize a (h.size a + h.size (h.ptr a))).setPtr a (h.ptr (h.ptr a))

namespace Layout

lemma mem_of_free (_ : Layout P h F L) (ha : a ∈ F) (hne : a ≠ P.base) : a ∈ F.erase P.base ∪ L :=
  Finset.mem_union_left _ (Finset.mem_erase.mpr ⟨hne, ha⟩)

lemma mem_of_live (_ : Layout P h F L) (ha : a ∈ L) : a ∈ F.erase P.base ∪ L :=
  Finset.mem_union_right _ ha

lemma ne_base (hl : Layout P h F L) (ha : a ∈ L) : a ≠ P.base := by
  intro heq
  exact hl.blocks.base (heq ▸ hl.mem_of_live ha)

lemma not_mem_free (hl : Layout P h F L) (ha : a ∈ L) : a ∉ F := fun hmem =>
  Finset.disjoint_left.mp hl.disjoint hmem ha

lemma pos_addr (hl : Layout P h F L) (ha : a ∈ F) : 0 < a := by
  by_cases hne : a = P.base
  · rw [hne]
    exact P.base_pos
  · exact hl.blocks.pos_addr (hl.mem_of_free ha hne)

/-- There are no more free blocks than units, but for the base. -/
lemma card_le (hl : Layout P h F L) : F.card ≤ h.units + 1 := by
  have hcard := Finset.card_erase_add_one hl.base_mem
  have hsub : (F.erase P.base).card ≤ (F.erase P.base ∪ L).card :=
    Finset.card_le_card Finset.subset_union_left
  have hle := hl.blocks.card_le
  omega

/-- Free and live blocks make up all of the memory. -/
lemma total (hl : Layout P h F L) : ∑ b ∈ F, h.size b + ∑ b ∈ L, h.size b = h.units := by
  have hdisjoint : Disjoint (F.erase P.base) L := hl.disjoint.mono_left (Finset.erase_subset _ _)
  rw [← hl.blocks.total, Finset.sum_union hdisjoint, ← Finset.add_sum_erase F h.size hl.base_mem,
    hl.base_size, Nat.zero_add]

/-- What is not of the list may change. -/
lemma congr (hl : Layout P h F L) (hptr : ∀ a ∈ F, h'.ptr a = h.ptr a)
    (hbase : h'.size P.base = h.size P.base) (hsize : ∀ b ∈ F.erase P.base ∪ L, h'.size b = h.size b)
    (hobtained : h'.obtained = h.obtained) : Layout P h' F L where
  sorted := hl.sorted.congr hptr
  base_mem := hl.base_mem
  base_size := hbase.trans hl.base_size
  disjoint := hl.disjoint
  blocks := hl.blocks.congr hsize hobtained

/-- A free block that begins where another one ends is the next one of the list. -/
theorem ptr_of_adjacent (hl : Layout P h F L) (hadj : h.Adjacent F c d) : h.ptr c = d := by
  obtain ⟨hc, hd, hcd, hstop⟩ := hadj
  have hcbase : c ≠ P.base := by
    intro heq
    subst heq
    rw [stop, hl.base_size] at hstop
    omega
  have hcB := hl.mem_of_free hc hcbase
  have hlt := hl.blocks.lt_stop hcB
  have hoff := hl.blocks.off_base hcB
  obtain ⟨hmem, hnext⟩ := hl.sorted c hc
  unfold sizeofHeader at hlt hoff
  by_contra hne
  -- The next one would be between them.
  have hlt_next : c < h.ptr c ∧ h.ptr c < d := by
    rcases hnext with ⟨hlt', hbtw⟩ | ⟨hle, hbtw⟩
    · have hor := hbtw d hd
      omega
    · have hor := hbtw d hd
      omega
  by_cases hnbase : h.ptr c = P.base
  · omega
  · have hnB := hl.mem_of_free hmem hnbase
    have hltn := hl.blocks.lt_stop hnB
    have hapart := hl.blocks.apart c hcB (h.ptr c) hnB hlt_next.1.ne
    unfold sizeofHeader at hltn
    omega

/-- A block is put into the list. -/
lemma enter (hl : Layout P h F L) (hb : b ∈ L) (hp : p ∈ F) (hbtw : Circular.Between p b (h.ptr p)) :
    Layout P ((h.setPtr b (h.ptr p)).setPtr p b) (insert b F) (L.erase b) := by
  have hbF := hl.not_mem_free hb
  have hbp : b ≠ p := fun heq => hbF (heq ▸ hp)
  have hbbase := hl.ne_base hb
  have hset : (insert b F).erase P.base ∪ L.erase b = F.erase P.base ∪ L := by
    ext c
    simp only [Finset.mem_union, Finset.mem_erase, Finset.mem_insert]
    by_cases hcb : c = b
    · subst hcb
      simp [hb, hbbase]
    · simp [hcb]
  constructor
  · apply hl.sorted.insert hp hbF hbtw
    · simp
    · simp [Function.update_of_ne hbp]
    · intro c hc hcp
      have hcb : c ≠ b := fun heq => hbF (heq ▸ hc)
      simp [Function.update_of_ne hcp, Function.update_of_ne hcb]
  · exact Finset.mem_insert_of_mem hl.base_mem
  · exact hl.base_size
  · rw [Finset.disjoint_left]
    intro c hc hcL
    obtain ⟨hcb, hcL⟩ := Finset.mem_erase.mp hcL
    exact hl.not_mem_free hcL (Finset.mem_of_mem_insert_of_ne hc hcb)
  · rw [hset]
    exact hl.blocks.congr (fun _ _ => rfl) rfl

/-- What a block that is joined to the next one is not. -/
lemma joined (hl : Layout P h F L) (ha : a ∈ F) (habase : a ≠ P.base) (hstop : h.stop a = h.ptr a) :
    h.ptr a ≠ a ∧ h.ptr a ≠ P.base := by
  have hlt := hl.blocks.lt_stop (hl.mem_of_free ha habase)
  have hoff := hl.blocks.off_base (hl.mem_of_free ha habase)
  unfold sizeofHeader at *
  omega

/-- Two neighbours become one block. -/
lemma size_absorb (hl : Layout P h F L) (ha : a ∈ F) (habase : a ≠ P.base) (hstop : h.stop a = h.ptr a) :
    (absorb h a).size a = h.size a + h.size (h.ptr a) := by
  obtain ⟨hne, hrbase⟩ := hl.joined ha habase hstop
  have hle := hl.blocks.size_add_le (hl.mem_of_free ha habase)
    (hl.mem_of_free (hl.sorted.mem ha) hrbase) hne.symm
  have hsmall := hl.blocks.small
  simp only [absorb, setPtr_size, setSize_size, Function.update_self]
  omega

lemma size_absorb_of_ne (h : Heap) (hca : c ≠ a) : (absorb h a).size c = h.size c := by
  simp only [absorb, setPtr_size, setSize_size, Function.update_of_ne hca]

lemma absorb_layout (hl : Layout P h F L) (ha : a ∈ F) (habase : a ≠ P.base)
    (hstop : h.stop a = h.ptr a) : Layout P (absorb h a) (F.erase (h.ptr a)) L := by
  obtain ⟨hne, hrbase⟩ := hl.joined ha habase hstop
  have hr := hl.sorted.mem ha
  have hrL : h.ptr a ∉ L := fun hmem => hl.not_mem_free hmem hr
  have hset : (F.erase (h.ptr a)).erase P.base ∪ L = (F.erase P.base ∪ L).erase (h.ptr a) := by
    ext c
    simp only [Finset.mem_union, Finset.mem_erase]
    by_cases hcr : c = h.ptr a
    · subst hcr
      simp [hrL]
    · simp [hcr]
  constructor
  · apply hl.sorted.erase ha hne
    · simp [absorb]
    · intro c _ hca _
      simp [absorb, Function.update_of_ne hca]
  · exact Finset.mem_erase.mpr ⟨hrbase.symm, hl.base_mem⟩
  · rw [size_absorb_of_ne h habase.symm]
    exact hl.base_size
  · exact hl.disjoint.mono_left (Finset.erase_subset _ _)
  · rw [hset]
    apply hl.blocks.merge (hl.mem_of_free ha habase) (hl.mem_of_free hr hrbase) hne.symm hstop
      (hl.size_absorb ha habase hstop)
    · exact fun c _ hca => size_absorb_of_ne h hca
    · rfl

/-- The neighbours that are left are those of the two blocks. -/
lemma adjacent_absorb (hl : Layout P h F L) (ha : a ∈ F) (habase : a ≠ P.base)
    (hstop : h.stop a = h.ptr a) (hadj : (absorb h a).Adjacent (F.erase (h.ptr a)) c d) :
    c ≠ a ∧ h.Adjacent F c d ∨ c = a ∧ h.Adjacent F (h.ptr a) d := by
  obtain ⟨hc, hd, hcd, hcstop⟩ := hadj
  obtain ⟨hdr, hdF⟩ := Finset.mem_erase.mp hd
  by_cases hca : c = a
  · right
    subst hca
    refine ⟨rfl, hl.sorted.mem ha, hdF, hdr.symm, ?_⟩
    rw [stop, hl.size_absorb ha habase hstop] at hcstop
    unfold stop at hstop ⊢
    unfold sizeofHeader at *
    omega
  · left
    refine ⟨hca, Finset.mem_of_mem_erase hc, hdF, hcd, ?_⟩
    rw [stop_congr (size_absorb_of_ne h hca)] at hcstop
    exact hcstop

end Layout

/-! ## `free` -/

/-- A layout with the list as `malloc` and `free` leave it. -/
structure Ok (P : Program) (h : Heap) (F L : Finset ℕ) : Prop extends Layout P h F L where
  freep : h.freep ∈ F
  merged : ∀ a b, ¬ h.Adjacent F a b

lemma Ok.freeList (hok : Ok P h F L) : FreeList P h F where
  base := ⟨hok.base_mem, hok.base_size⟩
  freep := hok.freep
  sorted := hok.sorted
  circular := fun _ ha _ hb => hok.sorted.reach ha hb
  merged := hok.merged

/-- What is in the blocks may change. -/
lemma Ok.congr (hok : Ok P h F L) (hptr : ∀ a ∈ F, h'.ptr a = h.ptr a)
    (hsize : ∀ b ∈ F ∪ L, h'.size b = h.size b) (hfreep : h'.freep = h.freep)
    (hobtained : h'.obtained = h.obtained) : Ok P h' F L := by
  have hfree : ∀ b ∈ F, h'.size b = h.size b := fun b hb => hsize b (Finset.mem_union_left L hb)
  constructor
  · apply hok.toLayout.congr hptr (hfree P.base hok.base_mem) ?_ hobtained
    exact fun b hb => hsize b (Finset.union_subset_union_left (Finset.erase_subset _ _) hb)
  · rw [hfreep]
    exact hok.freep
  · rintro c d ⟨hc, hd, hcd, hstop⟩
    rw [stop_congr (hfree c hc)] at hstop
    exact hok.merged c d ⟨hc, hd, hcd, hstop⟩

/-- The loop stops at a place, if there is one ahead. -/
lemma findPlace_eq (h : Heap) (b : ℕ) {k n : ℕ} (hk : k < n)
    (hplace : Circular.Between (h.ptr^[k] p) b (h.ptr^[k + 1] p)) :
    ∃ i ≤ k, Circular.Between (h.ptr^[i] p) b (h.ptr^[i + 1] p) ∧
      h.findPlace b n p = some (h.ptr^[i] p) := by
  induction k generalizing n p with
  | zero =>
    obtain ⟨m, rfl⟩ : ∃ m, n = m + 1 := ⟨n - 1, by omega⟩
    refine ⟨0, le_rfl, hplace, ?_⟩
    simp only [Function.iterate_zero, id_eq, Function.iterate_succ, Function.comp_apply] at hplace
    unfold findPlace
    split
    · rfl
    · rename_i hnot
      rw [if_pos (hplace.resolve_left hnot)]
      rfl
  | succ k ih =>
    obtain ⟨m, rfl⟩ : ∃ m, n = m + 1 := ⟨n - 1, by omega⟩
    by_cases hp : Circular.Between p b (h.ptr p)
    · refine ⟨0, Nat.zero_le _, hp, ?_⟩
      unfold findPlace
      split
      · rfl
      · rename_i hnot
        rw [if_pos (hp.resolve_left hnot)]
        rfl
    · obtain ⟨i, hi, hbtw, hfind⟩ := ih (n := m) (p := h.ptr p) (by omega) hplace
      refine ⟨i + 1, by omega, hbtw, ?_⟩
      unfold Circular.Between at hp
      rw [not_or] at hp
      rw [findPlace, if_neg hp.1, if_neg hp.2]
      exact hfind

/-- `free` finds the place in the order of addresses. -/
lemma Ok.findPlace (hok : Ok P h F L) (hb : b ∉ F) (hn : F.card ≤ n) :
    ∃ p ∈ F, Circular.Between p b (h.ptr p) ∧ h.findPlace b n h.freep = some p := by
  obtain ⟨a, ha, hbtw⟩ := hok.sorted.exists_between ⟨_, hok.freep⟩ hb
  obtain ⟨m, hm, hcard, hround, -, hall⟩ := hok.sorted.round hok.freep
  obtain ⟨i, hi, hia⟩ := hall a ha
  -- `freep` itself is the last of the round, and comes first here.
  obtain ⟨k, hk, hka⟩ : ∃ k < m, h.ptr^[k] h.freep = a := by
    by_cases hlast : i + 1 = m
    · exact ⟨0, hm, by rw [← hia, hlast, hround]; rfl⟩
    · exact ⟨i + 1, by omega, hia⟩
  have hplace : Circular.Between (h.ptr^[k] h.freep) b (h.ptr^[k + 1] h.freep) := by
    rw [Function.iterate_succ_apply', hka]
    exact hbtw
  obtain ⟨j, -, hj, hfind⟩ := findPlace_eq h b (n := n) (by omega) hplace
  rw [Function.iterate_succ_apply'] at hj
  exact ⟨_, hok.sorted.iterate_mem hok.freep j, hj, hfind⟩

/-- The heap between the two halves of `free`, with the link to the block that the second one makes or
leaves out. -/
def halfway (h : Heap) (p b : ℕ) : Heap := (h.joinNext p b).setPtr p b

/-- No block is its own successor, but for the base alone. -/
lemma Ok.ptr_ne (hok : Ok P h F L) (hp : p ∈ F) (hne : h.ptr p ≠ P.base) : h.ptr p ≠ p := by
  intro heq
  have hnext := (hok.sorted p hp).2
  rw [heq] at hnext hne
  rcases hnext with hlt | hall
  · exact absurd hlt.1 (lt_irrefl p)
  · have hbase := hall.2 P.base hok.base_mem
    omega

/-- Only the new block may touch its neighbours. -/
lemma Ok.adjacent_enter (hok : Ok P h F L) (hb : b ∈ L) (hp : p ∈ F)
    (hbtw : Circular.Between p b (h.ptr p))
    (hadj : ((h.setPtr b (h.ptr p)).setPtr p b).Adjacent (insert b F) c d) :
    c = b ∧ d = h.ptr p ∨ c = p ∧ d = b := by
  have hbF := hok.not_mem_free hb
  have hbp : b ≠ p := fun heq => hbF (heq ▸ hp)
  have hptr := (hok.enter hb hp hbtw).ptr_of_adjacent hadj
  obtain ⟨hc, hd, hcd, hstop⟩ := hadj
  by_cases hcp : c = p
  · subst hcp
    simp only [setPtr_ptr, Function.update_self] at hptr
    exact .inr ⟨rfl, hptr.symm⟩
  by_cases hcb : c = b
  · subst hcb
    simp only [setPtr_ptr, Function.update_of_ne hbp, Function.update_self] at hptr
    exact .inl ⟨rfl, hptr.symm⟩
  · -- The others were neighbours before.
    simp only [setPtr_ptr, Function.update_of_ne hcp, Function.update_of_ne hcb] at hptr
    have hcF := Finset.mem_of_mem_insert_of_ne hc hcb
    have hdF : d ∈ F := hptr ▸ hok.sorted.mem hcF
    exact absurd ⟨hcF, hdF, hcd, hstop⟩ (hok.merged c d)

/-- The first half: the block is in the list, joined to what is behind it. -/
theorem Ok.halfway (hok : Ok P h F L) (hb : b ∈ L) (hp : p ∈ F)
    (hbtw : Circular.Between p b (h.ptr p)) :
    ∃ F₁ ⊆ insert b F, p ∈ F₁ ∧ b ∈ F₁ ∧ Layout P (h.halfway p b) F₁ (L.erase b) ∧
      (∀ c d, (h.halfway p b).Adjacent F₁ c d → c = p ∧ d = b) ∧
      h.size b ≤ (h.halfway p b).size b ∧ ∀ c ∈ L, c ≠ b → (h.halfway p b).size c = h.size c := by
  have hbF := hok.not_mem_free hb
  have hbp : b ≠ p := fun heq => hbF (heq ▸ hp)
  have hbmem : b ∈ insert b F := Finset.mem_insert_self b F
  have hlayout := hok.enter hb hp hbtw
  have hadj := fun c d => hok.adjacent_enter (c := c) (d := d) hb hp hbtw
  by_cases hstop : h.stop b = h.ptr p
  · have hrb : h.ptr p ≠ b := fun heq => hbF (heq ▸ hok.sorted.mem hp)
    have hptr_b : ((h.setPtr b (h.ptr p)).setPtr p b).ptr b = h.ptr p := by
      simp [Function.update_of_ne hbp]
    have hstop_b : ((h.setPtr b (h.ptr p)).setPtr p b).stop b
        = ((h.setPtr b (h.ptr p)).setPtr p b).ptr b := hstop.trans hptr_b.symm
    have hrbase := (hlayout.joined hbmem (hok.ne_base hb) hstop_b).2
    rw [hptr_b] at hrbase
    have hrp := hok.ptr_ne hp hrbase
    have hhalf : h.halfway p b = absorb ((h.setPtr b (h.ptr p)).setPtr p b) b := by
      rw [absorb, hptr_b]
      simp only [Heap.halfway, Heap.joinNext, hstop, ↓reduceIte, setPtr_ptr, setPtr_size,
        Function.update_of_ne hrp, Function.update_of_ne hrb]
      rw [setPtr_comm hbp, setPtr_setSize, setPtr_setSize, setPtr_comm hbp, setPtr_setPtr,
        setPtr_comm hbp.symm]
    have habsorb := hlayout.absorb_layout hbmem (hok.ne_base hb) hstop_b
    have hsize := hlayout.size_absorb hbmem (hok.ne_base hb) hstop_b
    have hleft := fun c d => hlayout.adjacent_absorb (c := c) (d := d) hbmem (hok.ne_base hb) hstop_b
    rw [← hhalf] at habsorb hsize hleft
    rw [hptr_b] at habsorb hsize hleft
    refine ⟨(insert b F).erase (h.ptr p), Finset.erase_subset _ _, ?_, ?_, habsorb, ?_, ?_, ?_⟩
    · exact Finset.mem_erase.mpr ⟨hrp.symm, Finset.mem_insert_of_mem hp⟩
    · exact Finset.mem_erase.mpr ⟨hrb.symm, hbmem⟩
    · intro c d hcd
      rcases hleft c d hcd with ⟨hcb, hold⟩ | ⟨hcb, hold⟩
      · exact (hadj c d hold).resolve_left fun hnext => hcb hnext.1
      · -- Of what the block has taken in nothing is adjacent to another one.
        rcases hadj _ d hold with hnext | hprev
        · exact absurd hnext.1 hrb
        · exact absurd hprev.1 hrp
    · rw [hsize]
      exact Nat.le_add_right _ _
    · intro c _ hcb
      rw [hhalf, Layout.size_absorb_of_ne _ hcb]
      rfl
  · have hhalf : h.halfway p b = (h.setPtr b (h.ptr p)).setPtr p b := by
      simp only [Heap.halfway, Heap.joinNext, hstop, ↓reduceIte]
    rw [hhalf]
    refine ⟨insert b F, subset_rfl, Finset.mem_insert_of_mem hp, hbmem, hlayout, ?_, le_rfl,
      fun _ _ _ => rfl⟩
    intro c d hcd
    rcases hadj c d hcd with hnext | hprev
    · -- The block does not end where the next one begins.
      have hcstop := hcd.2.2.2
      rw [hnext.1, hnext.2] at hcstop
      exact absurd hcstop hstop
    · exact hprev

/-- The second half: what is in front has taken in the block, or is linked to it. -/
theorem joinPrev_eq (h : Heap) (hbp : b ≠ p) : (h.joinNext p b).joinPrev p b =
    if (h.halfway p b).stop p = b then absorb (h.halfway p b) p else h.halfway p b := by
  have hptr_b : (h.halfway p b).ptr b = (h.joinNext p b).ptr b := by
    simp [Heap.halfway, Function.update_of_ne hbp]
  have hptr_p : (h.halfway p b).ptr p = b := by simp [Heap.halfway]
  rw [absorb, hptr_p, hptr_b]
  simp only [Heap.halfway, Heap.joinPrev, setPtr_stop, setPtr_size, setPtr_setSize, setPtr_setPtr]

/-- **`free`.** The block is free, and the list is as before otherwise. -/
theorem Ok.free (hok : Ok P h F L) (hb : b ∈ L) (hn : F.card ≤ n) :
    ∃ h' F', h.free n (b + sizeofHeader) = some h' ∧ F' ⊆ insert b F ∧ Ok P h' F' (L.erase b) ∧
      h'.obtained = h.obtained ∧ (∀ c ∈ L, c ≠ b → h'.size c = h.size c) ∧
      ∃ c ∈ F', h.size b ≤ h'.size c := by
  have hbF := hok.not_mem_free hb
  obtain ⟨p, hp, hbtw, hfind⟩ := hok.findPlace hbF hn
  have hbp : b ≠ p := fun heq => hbF (heq ▸ hp)
  obtain ⟨F₁, hsub, hp₁, hb₁, hlayout, hadj, hsize, hframe⟩ := hok.halfway hb hp hbtw
  have hfree : h.free n (b + sizeofHeader) = some { (h.joinNext p b).joinPrev p b with freep := p } := by
    simp [Heap.free, hfind]
  have hobtained : (h.halfway p b).obtained = h.obtained := by
    unfold Heap.halfway Heap.joinNext
    split <;> rfl
  have hptr_p : (h.halfway p b).ptr p = b := by simp [Heap.halfway]
  -- the block before touches this one and absorbs it
  by_cases hstop : (h.halfway p b).stop p = b
  · have hpbase : p ≠ P.base := by
      intro heq
      subst heq
      rw [stop, hlayout.base_size] at hstop
      exact hbp (by omega)
    have hstop_p := hstop.trans hptr_p.symm
    have habsorb := hlayout.absorb_layout hp₁ hpbase hstop_p
    have hleft := fun c d => hlayout.adjacent_absorb (c := c) (d := d) hp₁ hpbase hstop_p
    have hgrown := hlayout.size_absorb hp₁ hpbase hstop_p
    rw [hptr_p] at habsorb hleft hgrown
    rw [joinPrev_eq h hbp, if_pos hstop] at hfree
    have hpmem : p ∈ F₁.erase b := Finset.mem_erase.mpr ⟨hbp.symm, hp₁⟩
    refine ⟨_, F₁.erase b, hfree, (Finset.erase_subset _ _).trans hsub, ⟨?_, hpmem, ?_⟩, hobtained, ?_,
      p, hpmem, ?_⟩
    · exact habsorb.congr (fun _ _ => rfl) rfl (fun _ _ => rfl) rfl
    · intro c d hcd
      rcases hleft c d hcd with ⟨hcp, hold⟩ | ⟨-, hold⟩
      · exact hcp (hadj c d hold).1
      · exact hbp (hadj b d hold).1
    · intro c hc hcb
      have hcp : c ≠ p := fun heq => hok.not_mem_free hc (heq ▸ hp)
      exact (Layout.size_absorb_of_ne _ hcp).trans (hframe c hc hcb)
    · exact hsize.trans ((Nat.le_add_left _ _).trans hgrown.ge)
  · rw [joinPrev_eq h hbp, if_neg hstop] at hfree
    refine ⟨_, F₁, hfree, hsub, ⟨?_, hp₁, ?_⟩, hobtained, hframe, b, hb₁, hsize⟩
    · exact hlayout.congr (fun _ _ => rfl) rfl (fun _ _ => rfl) rfl
    · intro c d hcd
      obtain ⟨rfl, rfl⟩ := hadj c d hcd
      exact hstop hcd.2.2.2

end Heap
end Umalloc
end OhMyXv6
