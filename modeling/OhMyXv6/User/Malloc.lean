import OhMyXv6.Lib.Runs
import OhMyXv6.User.Freelist

/-!
# `malloc` of `umalloc.c`, and programs that use it

The loop of `malloc` goes round the free list once and takes the first block that is large enough. If there is
none it calls `morecore`, and after that there is one, so it does not call it again.
-/

namespace OhMyXv6
namespace Umalloc
namespace Heap

variable {P : Program} {h h' : Heap} {F L : Finset ℕ} {a b j k m n p q : ℕ}

/-! ## Taking a block -/

/-- All of the block is taken. -/
lemma Ok.take_all (hok : Ok P h F L) (hq : q ∈ F) (hpbase : h.ptr q ≠ P.base) :
    Ok P { h.setPtr q (h.ptr (h.ptr q)) with freep := q } (F.erase (h.ptr q)) (insert (h.ptr q) L) := by
  have hp := hok.sorted.mem hq
  have hpq := hok.ptr_ne hq hpbase
  have hset : (F.erase (h.ptr q)).erase P.base ∪ insert (h.ptr q) L = F.erase P.base ∪ L := by
    ext c
    simp only [Finset.mem_union, Finset.mem_erase, Finset.mem_insert]
    by_cases hcp : c = h.ptr q
    · rw [hcp]
      simp [hp, hpbase]
    · simp [hcp]
  constructor
  · constructor
    · apply hok.sorted.erase hq hpq
      · simp
      · intro c _ hcq _
        simp [Function.update_of_ne hcq]
    · exact Finset.mem_erase.mpr ⟨hpbase.symm, hok.base_mem⟩
    · exact hok.base_size
    · rw [Finset.disjoint_left]
      intro c hc hcL
      obtain ⟨hcp, hcF⟩ := Finset.mem_erase.mp hc
      exact hok.not_mem_free (Finset.mem_of_mem_insert_of_ne hcL hcp) hcF
    · rw [hset]
      exact hok.blocks.congr (fun _ _ => rfl) rfl
  · exact Finset.mem_erase.mpr ⟨hpq.symm, hq⟩
  · rintro c d ⟨hc, hd, hcd, hstop⟩
    exact hok.merged c d ⟨Finset.mem_of_mem_erase hc, Finset.mem_of_mem_erase hd, hcd, hstop⟩

/-- The end of the block is taken. -/
lemma Ok.take_end (hok : Ok P h F L) (hq : q ∈ F) (hp : p ∈ F) (hpbase : p ≠ P.base) (hn : 0 < n)
    (hlt : n < h.size p) (hb : b = (h.setSize p (h.size p - n)).stop p) :
    b ∉ F ∪ L ∧ Ok P { (h.setSize p (h.size p - n)).setSize b n with freep := q } F (insert b L) ∧
      ((h.setSize p (h.size p - n)).setSize b n).size b = n ∧
      ∀ c ∈ L, ((h.setSize p (h.size p - n)).setSize b n).size c = h.size c := by
  have hpB := hok.mem_of_free hp hpbase
  have hle := hok.blocks.size_le hpB
  have hsmall := hok.blocks.small
  have hpb : b = p + (h.size p - n) * sizeofHeader := by
    have hmod : (h.size p - n) % 2 ^ 32 = h.size p - n := Nat.mod_eq_of_lt (by omega)
    rw [hb, stop, setSize_size, Function.update_self, hmod]
  have hlt_b : p < b ∧ b < h.stop p := by
    unfold stop sizeofHeader at *
    omega
  obtain ⟨hbB, hbbase⟩ := hok.blocks.not_mem hpB hlt_b.1 hlt_b.2
  have hbFL : b ∉ F ∪ L := by
    simp only [Finset.mem_union, Finset.mem_erase, not_or, not_and] at hbB ⊢
    exact ⟨hbB.1 hbbase, hbB.2⟩
  have hsize : ((h.setSize p (h.size p - n)).setSize b n).size p = h.size p - n := by
    simp only [setSize_size, Function.update_of_ne hlt_b.1.ne, Function.update_self]
    omega
  have hsize_b : ((h.setSize p (h.size p - n)).setSize b n).size b = n := by
    simp only [setSize_size, Function.update_self]
    omega
  have hframe : ∀ c, c ≠ b → c ≠ p → ((h.setSize p (h.size p - n)).setSize b n).size c = h.size c := by
    intro c hcb hcp
    simp only [setSize_size, Function.update_of_ne hcb, Function.update_of_ne hcp]
  have hne_b : ∀ c ∈ F ∪ L, c ≠ b := fun c hc heq => hbFL (heq ▸ hc)
  refine ⟨hbFL, ⟨?_, hq, ?_⟩, hsize_b, ?_⟩
  · constructor
    · exact hok.sorted
    · exact hok.base_mem
    · exact (hframe P.base hbbase.symm hpbase.symm).trans hok.base_size
    · rw [Finset.disjoint_insert_right]
      exact ⟨fun hmem => hbFL (Finset.mem_union_left L hmem), hok.disjoint⟩
    · rw [Finset.union_insert]
      have hsplit := hok.blocks.split hpB hn hlt hsize hpb hsize_b
        (fun c hc hcp => hframe c (fun heq => hbB (heq ▸ hc)) hcp) rfl
      exact hsplit.congr (fun _ _ => rfl) rfl
  · rintro c d ⟨hc, hd, hcd, hstop⟩
    by_cases hcp : c = p
    · -- What is left of the block ends where the new one begins.
      have hstop_p : ((h.setSize p (h.size p - n)).setSize b n).stop p = b := by
        rw [stop, hsize, ← hpb]
      have hbd : b = d := hstop_p.symm.trans (hcp ▸ hstop)
      exact hbFL (Finset.mem_union_left L (hbd ▸ hd))
    · apply hok.merged c d ⟨hc, hd, hcd, ?_⟩
      rw [← hstop]
      exact (stop_congr (hframe c (hne_b c (Finset.mem_union_left L hc)) hcp)).symm
  · intro c hc
    apply hframe c (hne_b c (Finset.mem_union_right F hc))
    rintro rfl
    exact hok.not_mem_free hc hp

/-- A block of the list that is large enough is taken, or its end. -/
theorem Ok.take (hok : Ok P h F L) (hq : q ∈ F) (hn : 0 < n) (hle : n ≤ h.size (h.ptr q)) :
    ∃ h' b F', h.take q (h.ptr q) n = (h', b + sizeofHeader) ∧ b ∉ L ∧ Ok P h' F' (insert b L) ∧
      h'.obtained = h.obtained ∧ h'.size b = n ∧ ∀ c ∈ L, h'.size c = h.size c := by
  have hp := hok.sorted.mem hq
  have hpbase : h.ptr q ≠ P.base := by
    intro heq
    rw [heq, hok.base_size] at hle
    omega
  by_cases hall : h.size (h.ptr q) = n
  · refine ⟨_, h.ptr q, _, ?_, ?_, hok.take_all hq hpbase, rfl, hall, fun _ _ => rfl⟩
    · simp [Heap.take, hall]
    · exact fun hmem => hok.not_mem_free hmem hp
  · have hlt : n < h.size (h.ptr q) := lt_of_le_of_ne hle (Ne.symm hall)
    obtain ⟨hb, hok', hsize, hframe⟩ := hok.take_end hq hp hpbase hn hlt rfl
    refine ⟨_, _, F, ?_, fun hmem => hb (Finset.mem_union_right F hmem), hok', rfl, hsize, hframe⟩
    simp only [Heap.take, hall, ↓reduceIte]

/-! ## The search -/

section
variable {answer : Option ℕ} {answers : List (Option ℕ)}

lemma search_large (hle : n ≤ h.size p) :
    search m n (k + 1) h answers q p = some (h.take q p n) := by
  rw [search.eq_def]
  exact if_pos hle

lemma search_next (hlt : h.size p < n) (hne : p ≠ h.freep) :
    search m n (k + 1) h answers q p = search m n k h answers p (h.ptr p) := by
  rw [search.eq_def]
  simp only [hne, ↓reduceIte, Nat.not_le_of_lt hlt]

/-- Once around without one: more memory, or none. -/
lemma search_freep (hlt : h.size h.freep < n) :
    search m n (k + 1) h (answer :: answers) q h.freep = (h.morecore m n answer).bind fun (h, p) =>
      if p = 0 then some (h, 0) else search m n k h answers p (h.ptr p) := by
  rw [search.eq_def]
  simp only [↓reduceIte, Nat.not_le_of_lt hlt]

/-- If a block is large enough and comes not after `freep`, one is taken. -/
theorem search_found (m : ℕ) (answers : List (Option ℕ)) (hsorted : Circular.Sorted h.ptr F) (hq : q ∈ F)
    (hlarge : n ≤ h.size (h.ptr^[j] (h.ptr q))) (hne : ∀ i < j, h.ptr^[i] (h.ptr q) ≠ h.freep)
    (hk : j < k) :
    ∃ q' ∈ F, n ≤ h.size (h.ptr q') ∧
      search m n k h answers q (h.ptr q) = some (h.take q' (h.ptr q') n) := by
  induction j generalizing q k with
  | zero =>
    obtain ⟨k, rfl⟩ : ∃ l, k = l + 1 := ⟨k - 1, by omega⟩
    exact ⟨q, hq, hlarge, search_large hlarge⟩
  | succ j ih =>
    obtain ⟨k, rfl⟩ : ∃ l, k = l + 1 := ⟨k - 1, by omega⟩
    by_cases hfirst : n ≤ h.size (h.ptr q)
    · exact ⟨q, hq, hfirst, search_large hfirst⟩
    · have hnot : h.ptr q ≠ h.freep := hne 0 (by omega)
      obtain ⟨q', hq', hlarge', heq⟩ := ih (hsorted.mem hq) hlarge (fun i hi => hne (i + 1) (by omega))
        (by omega : j < k)
      refine ⟨q', hq', hlarge', ?_⟩
      rw [search_next (by omega) hnot]
      exact heq

/-- If no block is large enough, `morecore` is called when the loop is at `freep`. -/
theorem search_core (hsmall : ∀ i ≤ j, h.size (h.ptr^[i] (h.ptr q)) < n)
    (hne : ∀ i < j, h.ptr^[i] (h.ptr q) ≠ h.freep) (heq : h.ptr^[j] (h.ptr q) = h.freep) (hk : j < k) :
    search m n k h (answer :: answers) q (h.ptr q) = (h.morecore m n answer).bind fun (h, p) =>
      if p = 0 then some (h, 0) else search m n (k - j - 1) h answers p (h.ptr p) := by
  induction j generalizing q k with
  | zero =>
    obtain ⟨k, rfl⟩ : ∃ l, k = l + 1 := ⟨k - 1, by omega⟩
    have hnot : h.size (h.ptr q) < n := hsmall 0 le_rfl
    have heq' : h.ptr q = h.freep := heq
    rw [heq'] at hnot ⊢
    rw [search_freep hnot]
    rfl
  | succ j ih =>
    obtain ⟨k, rfl⟩ : ∃ l, k = l + 1 := ⟨k - 1, by omega⟩
    have hnot : h.size (h.ptr q) < n := hsmall 0 (Nat.zero_le _)
    have hnot' : h.ptr q ≠ h.freep := hne 0 (by omega)
    rw [search_next hnot hnot', ih (fun i hi => hsmall (i + 1) (by omega))
      (fun i hi => hne (i + 1) (by omega)) heq (by omega),
      show k + 1 - (j + 1) - 1 = k - j - 1 by omega]

end

/-- A block is taken if one is large enough. -/
lemma Ok.search_take (hok : Ok P h F L) (hn : 0 < n) (hlarge : ∃ c ∈ F, n ≤ h.size c)
    (hk : F.card ≤ k) (answers : List (Option ℕ)) :
    ∃ h' b F', search m n k h answers h.freep (h.ptr h.freep) = some (h', b + sizeofHeader) ∧ b ∉ L ∧
      Ok P h' F' (insert b L) ∧ h'.obtained = h.obtained ∧ h'.size b = n ∧
      ∀ c ∈ L, h'.size c = h.size c := by
  obtain ⟨c, hc, hsize⟩ := hlarge
  obtain ⟨l, -, hcard, -, hne, hall⟩ := hok.sorted.round hok.freep
  obtain ⟨i, hi, hic⟩ := hall c hc
  have hlarge : n ≤ h.size (h.ptr^[i] (h.ptr h.freep)) := hic ▸ hsize
  have hne' : ∀ j < i, h.ptr^[j] (h.ptr h.freep) ≠ h.freep := fun j hj => hne (j + 1) (by omega) (by omega)
  obtain ⟨q, hq, hle, hsearch⟩ := search_found m answers hok.sorted hok.freep hlarge hne'
    (by omega : i < k)
  rw [hsearch]
  obtain ⟨h', b, F', htake, hrest⟩ := hok.take hq hn hle
  exact ⟨h', b, F', by rw [htake], hrest⟩

/-! ## More memory -/

lemma le_coreUnits (n : ℕ) : n ≤ coreUnits n ∧ 0 < coreUnits n := by
  unfold coreUnits NALLOC
  split <;> omega

/-- New memory is a free block, or part of one. -/
lemma Ok.morecore (hok : Ok P h F L) (hfresh : Fresh P h (a, coreUnits n)) (hm : F.card ≤ m) :
    ∃ h' F', h.morecore m n (some a) = some (h', h'.freep) ∧ Ok P h' F' L ∧ F'.card ≤ F.card + 1 ∧
      h'.obtained = h.obtained ++ [(a, coreUnits n)] ∧ (∀ c ∈ L, h'.size c = h.size c) ∧
      ∃ c ∈ F', n ≤ h'.size c := by
  obtain ⟨hle, hpos⟩ := le_coreUnits n
  have hsmall := hfresh.small
  obtain ⟨g, hg⟩ : ∃ g, g = ({ h with obtained := h.obtained ++ [(a, coreUnits n)] } : Heap).setSize a
    (coreUnits n) := ⟨_, rfl⟩
  have hsize : g.size a = coreUnits n := by
    rw [hg, setSize_size, Function.update_self]
    exact Nat.mod_eq_of_lt (by simp only at hsmall; omega)
  have hframe : ∀ c, c ≠ a → g.size c = h.size c := by
    intro c hca
    rw [hg, setSize_size, Function.update_of_ne hca]
  have hobtained : g.obtained = h.obtained ++ [(a, coreUnits n)] := by rw [hg, setSize_obtained]
  obtain ⟨haB, habase⟩ := hok.blocks.not_mem_fresh hfresh hpos
  have hneB : ∀ c ∈ F.erase P.base ∪ L, c ≠ a := fun c hc heq => haB (heq ▸ hc)
  have haF : a ∉ F := fun hmem => haB (hok.mem_of_free hmem habase)
  have haL : a ∉ L := fun hmem => haB (hok.mem_of_live hmem)
  have hgrow := hok.blocks.grow hfresh hpos hsize (fun c hc => hframe c (hneB c hc)) hobtained
  have hptr : g.ptr = h.ptr := by rw [hg, setSize_ptr]
  -- the new block counts as one in use, which `free` then gives back
  have hok' : Ok P g F (insert a L) := by
    constructor
    · constructor
      · rw [hptr]
        exact hok.sorted
      · exact hok.base_mem
      · rw [hframe P.base habase.symm]
        exact hok.base_size
      · exact Finset.disjoint_insert_right.mpr ⟨haF, hok.disjoint⟩
      · rw [Finset.union_insert]
        exact hgrow
    · rw [hg]
      exact hok.freep
    · rintro c d ⟨hc, hd, hcd, hstop⟩
      have hca : c ≠ a := fun heq => haF (heq ▸ hc)
      rw [stop_congr (hframe c hca)] at hstop
      exact hok.merged c d ⟨hc, hd, hcd, hstop⟩
  obtain ⟨h', F', hfree, hsub, hok'', hobt, hsame, c, hc, hlarge⟩ := hok'.free (Finset.mem_insert_self a L) hm
  rw [Finset.erase_insert haL] at hok''
  refine ⟨h', F', ?_, hok'', ?_, hobt.trans hobtained, ?_, c, hc, ?_⟩
  · simp only [Heap.morecore, ← hg, hfree, Option.map_some]
  · have hcard := Finset.card_le_card hsub
    rw [Finset.card_insert_of_notMem haF] at hcard
    exact hcard
  · intro e he
    have hea : e ≠ a := fun heq => haL (heq ▸ he)
    rw [hsame e (Finset.mem_insert_of_mem he) hea, hframe e hea]
  · rw [hsize] at hlarge
    exact hle.trans hlarge

/-- **The loop of `malloc`.** It returns, and calls `sbrk` at most once. -/
theorem Ok.search (hok : Ok P h F L) (hn : 0 < n) {answer : Option ℕ}
    (hanswer : ∀ a ∈ answer, Fresh P h (a, coreUnits n)) (hm : F.card ≤ m) (hk : 2 * F.card + 1 ≤ k) :
    (∃ F', Heap.search m n k h [answer] h.freep (h.ptr h.freep) = some (h, 0) ∧ Ok P h F' L) ∨
      ∃ h' b F', Heap.search m n k h [answer] h.freep (h.ptr h.freep) = some (h', b + sizeofHeader) ∧
        b ∉ L ∧ Ok P h' F' (insert b L) ∧ h'.size b = n ∧ ∀ c ∈ L, h'.size c = h.size c := by
  by_cases hlarge : ∃ c ∈ F, n ≤ h.size c
  · obtain ⟨h', b, F', hsearch, hb, hok', -, hrest⟩ := hok.search_take (m := m) hn hlarge
      (by omega : F.card ≤ k) [answer]
    exact .inr ⟨h', b, F', hsearch, hb, hok', hrest⟩
  · obtain ⟨l, hl, hcard, hround, hne, -⟩ := hok.sorted.round hok.freep
    obtain ⟨l, rfl⟩ : ∃ l', l = l' + 1 := ⟨l - 1, by omega⟩
    have hsmall : ∀ i ≤ l, h.size (h.ptr^[i] (h.ptr h.freep)) < n := by
      intro i _
      by_contra hnot
      exact hlarge ⟨_, hok.sorted.iterate_mem (hok.sorted.mem hok.freep) i, by omega⟩
    have hne' : ∀ i < l, h.ptr^[i] (h.ptr h.freep) ≠ h.freep := fun i hi => hne (i + 1) (by omega) (by omega)
    rw [search_core hsmall hne' hround (by omega)]
    cases answer with
    | none =>
      left
      exact ⟨F, rfl, hok.toLayout, hok.freep, hok.merged⟩
    | some a =>
      right
      obtain ⟨h', F', hcore, hok', hcard', -, hframe, hlarge'⟩ := hok.morecore (hanswer a rfl) hm
      have hnull : h'.freep ≠ 0 := (hok'.pos_addr hok'.freep).ne'
      obtain ⟨t, b, F'', hsearch, hb, hok'', -, hsize, hframe'⟩ := hok'.search_take (m := m) hn hlarge'
        (by omega : F'.card ≤ k - l - 1) []
      refine ⟨t, b, F'', ?_, hb, hok'', hsize, ?_⟩
      · simp only [hcore, Option.bind_some, hnull, ↓reduceIte]
        exact hsearch
      · intro c hc
        rw [hframe' c hc, hframe c hc]

/-! ## The first call -/

/-- A free list of `base` alone. -/
lemma ok_start (hfreep : h.freep = 0) (hobtained : h.obtained = []) :
    Ok P (h.start P.base) {P.base} ∅ := by
  have hstart : h.start P.base = { (h.setPtr P.base P.base).setSize P.base 0 with freep := P.base } :=
    if_pos hfreep
  have hunits : h.units = 0 := by simp [units, hobtained]
  rw [hstart]
  constructor
  · constructor
    · exact Circular.sorted_singleton (Function.update_self _ _ _)
    · exact Finset.mem_singleton_self _
    · exact Function.update_self _ _ _
    · exact Finset.disjoint_empty_right _
    · have hnone : ({P.base} : Finset ℕ).erase P.base ∪ ∅ = ∅ := by simp
      rw [hnone]
      constructor
      · exact Finset.notMem_empty _
      · exact fun b hb => absurd hb (Finset.notMem_empty b)
      · exact fun b hb => absurd hb (Finset.notMem_empty b)
      · exact fun b hb => absurd hb (Finset.notMem_empty b)
      · exact hunits.symm
      · intro r hr
        have hr' : r ∈ h.obtained := hr
        rw [hobtained] at hr'
        exact absurd hr' List.not_mem_nil
      · exact hunits.trans_lt (by omega)
  · exact Finset.mem_singleton_self _
  · rintro c d ⟨hc, hd, hcd, -⟩
    exact hcd ((Finset.mem_singleton.mp hc).trans (Finset.mem_singleton.mp hd).symm)

lemma start_of_ne (hfreep : h.freep ≠ 0) : h.start a = h := if_neg hfreep

/-- The first call takes no memory. -/
lemma start_obtained : (h.start a).obtained = h.obtained := by
  unfold start
  split <;> rfl

/-- The units hold the header and the bytes. -/
lemma unitsFor_bounds (hn : n < 2 ^ 32) :
    0 < unitsFor n ∧ n + sizeofHeader ≤ unitsFor n * sizeofHeader := by
  unfold unitsFor sizeofHeader
  omega

end Heap

/-! ## Runs -/

variable {P : Program} {s t : State} {F : Finset ℕ} {b n : ℕ}

/-- What every step keeps. -/
structure Inv (P : Program) (s : State) : Prop where
  list : ∃ F, Heap.Ok P (s.heap.start P.base) F s.live
  room : ∀ b ∈ s.live, s.asked b + sizeofHeader ≤ s.heap.size b * sizeofHeader
  unused : s.heap.freep = 0 → s.live = ∅ ∧ s.heap.obtained = []

lemma inv_boot (P : Program) (ptr size : ℕ → ℕ) : Inv P (boot ptr size) where
  list := ⟨_, Heap.ok_start rfl rfl⟩
  room := fun b hb => absurd hb (Finset.notMem_empty b)
  unused := fun _ => ⟨rfl, rfl⟩

/-- Once there is a block there is a free list. -/
lemma Inv.ok_of_live (h : Inv P s) (hb : b ∈ s.live) :
    s.heap.freep ≠ 0 ∧ ∃ F, Heap.Ok P s.heap F s.live := by
  have hfreep : s.heap.freep ≠ 0 := by
    intro heq
    rw [(h.unused heq).1] at hb
    exact Finset.notMem_empty b hb
  have hlist := h.list
  rw [Heap.start_of_ne hfreep] at hlist
  exact ⟨hfreep, hlist⟩

/-- The invariant from a heap that is in order. -/
lemma Inv.of_ok (hok : Heap.Ok P s.heap F s.live)
    (hroom : ∀ b ∈ s.live, s.asked b + sizeofHeader ≤ s.heap.size b * sizeofHeader) : Inv P s := by
  have hfreep : s.heap.freep ≠ 0 := (hok.pos_addr hok.freep).ne'
  refine ⟨⟨F, ?_⟩, hroom, fun heq => absurd heq hfreep⟩
  rw [Heap.start_of_ne hfreep]
  exact hok

lemma Heap.Ok.sound (hok : Heap.Ok P s.heap F s.live)
    (hroom : ∀ b ∈ s.live, s.asked b + sizeofHeader ≤ s.heap.size b * sizeofHeader) : Sound P s F where
  free := hok.freeList
  room := hroom
  inside := hok.blocks.inside
  apart := hok.blocks.apart
  base := fun _ hb => (hok.blocks.off_base hb).imp le_of_lt id
  disjoint := hok.disjoint
  total := hok.total

lemma Inv.sound (h : Inv P s) : Unused s ∨ ∃ F, Sound P s F := by
  by_cases hfreep : s.heap.freep = 0
  · exact .inl ⟨hfreep, h.unused hfreep⟩
  · obtain ⟨F, hok⟩ := h.list
    rw [Heap.start_of_ne hfreep] at hok
    exact .inr ⟨F, hok.sound h.room⟩

lemma Inv.free (h : Inv P s) (hb : b ∈ s.live) :
    ∃ t, exec P s (.free b) = some t ∧ Gives s t (.free b) ∧ Inv P t := by
  obtain ⟨-, F, hok⟩ := h.ok_of_live hb
  have hcard := hok.card_le
  have hturns : F.card ≤ s.turns := by
    unfold State.turns
    omega
  obtain ⟨h', F', hfree, -, hok', -, hframe, -⟩ := hok.free hb hturns
  refine ⟨{ s with heap := h', live := s.live.erase b }, ?_, rfl, Inv.of_ok hok' ?_⟩
  · simp only [exec, hfree, Option.map_some]
  intro c hc
  obtain ⟨hcb, hc⟩ := Finset.mem_erase.mp hc
  have hroom := h.room c hc
  rw [← hframe c hc hcb] at hroom
  exact hroom

/-- What a program writes into its blocks is not of the list. -/
lemma Inv.write (h : Inv P s) {x : ℕ} (hb : b ∈ s.live) (hbx : b < x) (hx : x < s.heap.stop b)
    (ptr size : ℕ) : Inv P { s with heap := (s.heap.setPtr x ptr).setSize x size } := by
  obtain ⟨-, F, hok⟩ := h.ok_of_live hb
  obtain ⟨hxB, hxbase⟩ := hok.blocks.not_mem (hok.mem_of_live hb) hbx hx
  have hne : ∀ c ∈ F ∪ s.live, c ≠ x := by
    rintro c hc rfl
    rcases Finset.mem_union.mp hc with hc | hc
    · exact hxB (hok.mem_of_free hc hxbase)
    · exact hxB (hok.mem_of_live hc)
  have hsize : ∀ c ∈ F ∪ s.live, ((s.heap.setPtr x ptr).setSize x size).size c = s.heap.size c := by
    intro c hc
    rw [Heap.setSize_size, Function.update_of_ne (hne c hc), Heap.setPtr_size]
  have hptr : ∀ c ∈ F, ((s.heap.setPtr x ptr).setSize x size).ptr c = s.heap.ptr c := by
    intro c hc
    rw [Heap.setSize_ptr, Heap.setPtr_ptr, Function.update_of_ne (hne c (Finset.mem_union_left _ hc))]
  have hok' : Heap.Ok P ((s.heap.setPtr x ptr).setSize x size) F s.live := hok.congr hptr hsize rfl rfl
  refine Inv.of_ok hok' ?_
  intro c hc
  rw [hsize c (Finset.mem_union_right F hc)]
  exact h.room c hc

lemma Inv.malloc (h : Inv P s) (hn : n < 2 ^ 32) {answer : Option ℕ}
    (hanswer : ∀ a ∈ answer, Fresh P s.heap (a, Heap.coreUnits (Heap.unitsFor n))) :
    ∃ t, exec P s (.malloc n answer) = some t ∧ Gives s t (.malloc n answer) ∧ Inv P t := by
  obtain ⟨F, hok⟩ := h.list
  obtain ⟨hpos, hbytes⟩ := Heap.unitsFor_bounds hn
  have hcard := hok.card_le
  have hunits : (s.heap.start P.base).units = s.heap.units := by
    rw [Heap.units, Heap.units, Heap.start_obtained]
  have hturns : 2 * F.card + 1 ≤ s.turns := by
    unfold State.turns
    omega
  have hanswer' : ∀ a ∈ answer,
      Fresh P (s.heap.start P.base) (a, Heap.coreUnits (Heap.unitsFor n)) := by
    intro a ha
    have hfresh := hanswer a ha
    refine ⟨hfresh.pos, hfresh.top, hfresh.off, ?_, ?_⟩
    · rw [Heap.start_obtained]
      exact hfresh.apart
    · rw [hunits]
      exact hfresh.small
  have hstart : ∀ c ∈ s.live, (s.heap.start P.base).size c = s.heap.size c := by
    intro c hc
    rw [Heap.start_of_ne (h.ok_of_live hc).1]
  -- no memory to be had, or a block that is large enough
  rcases hok.search (m := s.turns) hpos hanswer' (by omega) hturns with
    ⟨F', hsearch, hok'⟩ | ⟨h', b, F', hsearch, hb, hok', hsize, hframe⟩
  · refine ⟨{ s with heap := s.heap.start P.base }, ?_, .inl rfl, Inv.of_ok hok' ?_⟩
    · simp only [exec, Heap.malloc, hsearch, Option.map_some, ↓reduceIte]
    · intro c hc
      rw [hstart c hc]
      exact h.room c hc
  · refine ⟨{ heap := h', live := insert b s.live, asked := Function.update s.asked b n }, ?_,
      .inr ⟨b, hb, rfl, Function.update_self _ _ _⟩, Inv.of_ok hok' ?_⟩
    · have hnull : b + sizeofHeader ≠ 0 := by simp [sizeofHeader]
      simp only [exec, Heap.malloc, hsearch, Option.map_some, hnull, ↓reduceIte, Nat.add_sub_cancel]
    · intro c hc
      rcases Finset.mem_insert.mp hc with rfl | hc
      · simp only [Function.update_self, hsize]
        exact hbytes
      · have hcb : c ≠ b := fun heq => hb (heq ▸ hc)
        simp only [Function.update_of_ne hcb, hframe c hc, hstart c hc]
        exact h.room c hc

/-- **Step lemma.** Every call returns. -/
theorem Inv.step (h : Inv P s) {a : Act} (ha : Allowed P s a) :
    ∃ t, step P s a = some t ∧ Gives s t a ∧ Inv P t := by
  unfold Umalloc.step
  rw [if_pos ha]
  cases a with
  | malloc n answer => exact h.malloc ha.1 ha.2
  | free b => exact h.free ha
  | write b x ptr size => exact ⟨_, rfl, rfl, h.write ha.1 ha.2.1 ha.2.2 ptr size⟩

/-- In every run, `malloc` and `free` return, and leave the blocks apart and the free list in order. -/
theorem sound_run (P : Program) (ptr size : ℕ → ℕ) (as : List Act) :
    Runs.Along (step P) (fun s a => Allowed P s a →
      ∃ t, step P s a = some t ∧ Gives s t a ∧ (Unused t ∨ ∃ F, Sound P t F)) (boot ptr size) as := by
  apply Runs.along_of_invariant (I := Inv P) _ _ (inv_boot P ptr size)
  · intro s a h ha
    obtain ⟨t, ht, hgives, h'⟩ := h.step ha
    exact ⟨t, ht, hgives, h'.sound⟩
  · intro s a t h ht
    by_cases ha : Allowed P s a
    · obtain ⟨t', ht', -, h'⟩ := h.step ha
      rw [ht] at ht'
      exact Option.some.inj ht' ▸ h'
    · simp [step, ha] at ht

/-- Two blocks are cut off the end of what `sbrk` gives, and the first one is freed. -/
example : (Runs.run (step ⟨4096, by decide⟩) (boot (fun _ => 0) fun _ => 0)
    [.malloc 100 (some 65536), .malloc 50 none, .free 130944]).map State.live = some {130864} := by
  decide +kernel

end Umalloc
end OhMyXv6
