import OhMyXv6.Lib.Simulation
import OhMyXv6.Vm.Mapping

/-!
# The words behind the entries

`Vm.Model` has the entries of the tables by their parts, `Vm.Entries` has the words that are in memory. Here
the two are put side by side: where the words show the entries, a function on the words ends as the one on the
entries does, and the words show the entries again.
-/

namespace OhMyXv6
namespace Paging

open Vm Fallible

variable {K : Kernel} {m : Mem} {s : Memory} {f p t i va n a pa perm e : ℕ} {w u alloc : Bool} {is : List ℕ}

/-! ## Frames and entries -/

/-- How many frames an entry can name. -/
def frames : ℕ := 2 ^ 52

/-- The address of a frame, as a pointer of the kernel. -/
def addr (f : ℕ) : ℕ := P2V (f * PGSIZE)

/-- The parts of an entry. -/
def decode (e : ℕ) : Pte := ⟨e % 2 ^ 64 / PGSIZE, e.testBit 0, e.testBit 1, e.testBit 2⟩

/-- A frame, and the address that it is known by. -/
def IsFrame (f p : ℕ) : Prop := f < frames ∧ p = addr f

/-- The place of an entry, and its slot. -/
def IsSlot (ti : ℕ × ℕ) (a : ℕ) : Prop := ti.1 < frames ∧ ti.2 < NPDENTRIES ∧ a = slot (addr ti.1) ti.2

/-- The words show the entries of all tables, and the addresses show the frames that are free. -/
structure Shows (m : Mem) (s : Memory) : Prop where
  freelist : s.freelist = m.freelist.map addr
  free : ∀ f ∈ m.freelist, f < frames
  table : ∀ f < frames, ∀ i < NPDENTRIES, m.table f i = decode (s.word (slot (addr f) i))

/-- A frame is at a page. -/
lemma page_addr (f : ℕ) : Page (addr f) := by
  unfold Page addr P2V KERNBASE PGSIZE
  omega

/-- Frames are at different addresses. -/
lemma addr_inj (hf : f < frames) (hp : p < frames) (h : addr f = addr p) : f = p := by
  unfold addr P2V KERNBASE PGSIZE at h
  unfold frames at hf hp
  omega

/-- The physical address of a frame. -/
lemma V2P_addr (hf : f < frames) : V2P (addr f) = f * PGSIZE := by
  unfold V2P addr P2V KERNBASE PGSIZE
  unfold frames at hf
  omega

/-- An entry is present, if it is so in its word. -/
lemma decode_p : (decode e).p = true ↔ e &&& PTE_P ≠ 0 := by
  rw [present_iff, decode, Nat.testBit_zero]
  exact decide_eq_true_iff

/-- An entry names one of the frames. -/
lemma decode_frame_lt (e : ℕ) : (decode e).frame < frames := by
  show e % 2 ^ 64 / PGSIZE < frames
  unfold frames PGSIZE
  omega

/-- Where an entry leads. -/
lemma addr_decode (e : ℕ) : addr (decode e).frame = P2V (PTE_ADDR e) := by
  rw [PTE_ADDR_eq]
  rfl

/-- The test of `deallocuvm` before it frees a page. -/
lemma decode_frame_eq_zero : (decode e).frame = 0 ↔ PTE_ADDR e = 0 := by
  rw [PTE_ADDR_eq]
  show e % 2 ^ 64 / PGSIZE = 0 ↔ _
  unfold PGSIZE
  omega

/-- A word that is a frame with the flags below it. -/
lemma decode_or (hf : f < frames) (he : e < PGSIZE) :
    decode (f * PGSIZE ||| e) = ⟨f, e.testBit 0, e.testBit 1, e.testBit 2⟩ := by
  have hshift : f * PGSIZE = f <<< 12 := (Nat.shiftLeft_eq f 12).symm
  have hsum : f * PGSIZE ||| e = f * PGSIZE + e := by
    rw [hshift, ← Nat.shiftLeft_add_eq_or_of_lt he]
  have hbit (k : ℕ) (hk : k < 12) : (f * PGSIZE ||| e).testBit k = e.testBit k := by
    have hle : ¬ 12 ≤ k := by omega
    rw [hshift, Nat.testBit_or, Nat.testBit_shiftLeft, decide_eq_false hle, Bool.false_and, Bool.false_or]
  have hframe : (f * PGSIZE ||| e) % 2 ^ 64 / PGSIZE = f := by
    rw [hsum]
    unfold frames at hf
    unfold PGSIZE at he ⊢
    omega
  rw [decode, hframe, hbit 0 (by omega), hbit 1 (by omega), hbit 2 (by omega)]

/-- The entry that `mappages` writes. -/
lemma decode_map (hf : f < frames) (hperm : perm < PGSIZE) :
    decode (f * PGSIZE ||| perm ||| PTE_P) = ⟨f, true, perm.testBit 1, perm.testBit 2⟩ := by
  have hlt : perm ||| PTE_P < PGSIZE := Nat.or_lt_two_pow (n := 12) hperm (by decide)
  have hone : PTE_P.testBit 0 = true ∧ PTE_P.testBit 1 = false ∧ PTE_P.testBit 2 = false := by decide
  rw [Nat.or_assoc, decode_or hf hlt, Nat.testBit_or, Nat.testBit_or, Nat.testBit_or, hone.1, hone.2.1,
    hone.2.2, Bool.or_true, Bool.or_false, Bool.or_false]

/-- Every page is a frame. -/
lemma isFrame_of_page (hp : Page p) : IsFrame (V2P p / PGSIZE) p := by
  obtain ⟨halign, hlt⟩ := hp
  unfold IsFrame frames addr P2V V2P KERNBASE
  unfold PGSIZE at halign ⊢
  omega

/-- All words show some entries. -/
lemma exists_shows (hfree : ∀ p ∈ s.freelist, Page p) : ∃ m, Shows m s := by
  refine ⟨⟨s.freelist.map fun p => V2P p / PGSIZE, fun f i => decode (s.word (slot (addr f) i)), fun _ _ => 0⟩,
    ?_, ?_, fun _ _ _ _ => rfl⟩
  · have hback : ∀ p ∈ s.freelist, (addr ∘ fun p => V2P p / PGSIZE) p = id p := by
      intro p hp
      rw [Function.comp_apply, id_eq]
      exact (isFrame_of_page (hfree p hp)).2.symm
    rw [List.map_map, List.map_congr_left hback, List.map_id]
  · intro f hf
    obtain ⟨p, hp, rfl⟩ := List.mem_map.mp hf
    exact (isFrame_of_page (hfree p hp)).1

/-! ## What is written -/

-- these addresses are never computed here
attribute [local irreducible] addr frames

/-- An entry is written. -/
lemma Shows.setEntry (h : Shows m s) (hf : f < frames) (hi : i < NPDENTRIES) :
    Shows (m.setEntry f i (decode e)) (s.store (slot (addr f) i) e) where
  freelist := h.freelist
  free := h.free
  table := by
    intro g hg j hj
    show Function.update m.table f (Function.update (m.table f) i (decode e)) g j = _
    by_cases hsame : slot (addr g) j = slot (addr f) i
    · obtain ⟨haddr, rfl⟩ := slot_inj (page_addr g) (page_addr f) hj hi hsame
      obtain rfl := addr_inj hg hf haddr
      rw [word_store_self, Function.update_self, Function.update_self]
    · rw [word_store_of_ne hsame, ← h.table g hg j hj]
      by_cases hgf : g = f
      · subst hgf
        have hji : j ≠ i := fun hji => hsame (by rw [hji])
        rw [Function.update_self, Function.update_of_ne hji]
      · rw [Function.update_of_ne hgf]

/-- `memset` leaves the free list alone. -/
lemma freelist_fill : (s.fill p e).freelist = s.freelist := rfl

/-- A page is filled. -/
lemma Shows.fill (h : Shows m s) (hf : f < frames) {bytes : ℕ → UInt8} :
    Shows (m.fill f (fun _ => decode e) bytes) (s.fill (addr f) e) where
  freelist := freelist_fill.trans h.freelist
  free := h.free
  table := by
    intro g hg j hj
    show Function.update m.table f (fun _ => decode e) g j = _
    by_cases hgf : g = f
    · subst hgf
      rw [word_fill_self (page_addr g) hj, Function.update_self]
    · rw [word_fill_of_ne (page_addr g) (page_addr f) hj fun heq => hgf (addr_inj hg hf heq),
        Function.update_of_ne hgf, h.table g hg j hj]

/-- The entries of a cleared page. -/
lemma decode_zero : decode 0 = .zero := by decide

/-- The entries of a page that `kfree` has filled. -/
lemma decode_junk : decode 0x0101010101010101 = .junk := by decide

/-! ## The functions -/

/-- `kalloc`, which takes the first page of both lists. -/
lemma kalloc_simulates (h : Shows m s) :
    Simulates Shows id (Option.Rel IsFrame) Vm.kalloc kalloc m s := by
  unfold Vm.kalloc kalloc
  rw [simulates_get_left, simulates_get_right, h.freelist]
  cases hfree : m.freelist with
  | nil => exact simulates_throw _
  | cons f next =>
    have hframes := h.free
    rw [hfree, List.forall_mem_cons] at hframes
    refine (simulates_modify ?_).bind fun _ _ _ _ _ h₁ => simulates_pure (.some ⟨hframes.1, rfl⟩) h₁
    exact ⟨rfl, hframes.2, h.table⟩

/-- `memset` of a page with zeros. -/
lemma zeroPage_simulates (h : Shows m s) (hf : IsFrame f p) :
    Simulates Shows id (fun _ _ => True) (Vm.zeroPage f) (zeroPage p) m s := by
  obtain ⟨hf, rfl⟩ := hf
  refine simulates_modify ?_
  rw [← decode_zero]
  exact h.fill hf

/-- `*pte = e`. -/
lemma setEntry_simulates (h : Shows m s) (hf : IsFrame f p) (hi : i < NPDENTRIES) {pte : Pte}
    (he : decode e = pte) :
    Simulates Shows id (fun _ _ => True) (setPte f i pte) (setEntry (slot p i) e) m s := by
  obtain ⟨hf, rfl⟩ := hf
  subst he
  exact simulates_modify (h.setEntry hf hi)

/-- `kfree`, of a kernel that ends inside physical memory. -/
lemma kfree_simulates (h : Shows m s) (hfirst : K.first ≤ topFrame) (hf : IsFrame f p) :
    Simulates Shows id (fun _ _ => True) (Vm.kfree K f) (kfree K p) m s := by
  obtain ⟨hf, rfl⟩ := hf
  have hguard : (f < K.first ∨ topFrame ≤ f) ↔ (addr f % PGSIZE ≠ 0 ∨ addr f < P2V (K.first * PGSIZE) ∨
      PHYSTOP ≤ V2P (addr f)) := by
    rw [V2P_addr hf]
    have hpage := (page_addr f).1
    unfold addr P2V KERNBASE PGSIZE at *
    unfold topFrame PHYSTOP PGSIZE at *
    unfold frames at hf
    omega
  unfold Vm.kfree kfree
  by_cases hbad : f < K.first ∨ topFrame ≤ f
  · rw [if_pos hbad, if_pos (hguard.mp hbad)]
    exact simulates_throw _
  · rw [if_neg hbad, if_neg fun hbad' => hbad (hguard.mpr hbad')]
    have hfill : Shows (m.fill f (fun _ => .junk) fun _ => 1) (s.fill (addr f) 0x0101010101010101) := by
      rw [← decode_junk]
      exact h.fill hf
    refine Simulates.bind (simulates_modify hfill) fun _ _ m₁ s₁ _ h₁ => simulates_modify ?_
    exact ⟨by rw [h₁.freelist, List.map_cons], List.forall_mem_cons.mpr ⟨hf, h₁.free⟩, h₁.table⟩

/-- `setupkvm`: a cleared table with the one entry for the kernel half. -/
theorem setupkvm_simulates (h : Shows m s) (hkpdpt : K.kpdpt < frames) :
    Simulates Shows id (Option.Rel IsFrame) (Vm.setupkvm K) (setupkvm K) m s := by
  unfold Vm.setupkvm setupkvm
  refine (kalloc_simulates h).bind fun o o' m₁ s₁ ho h₁ => ?_
  cases ho with
  | none => exact simulates_pure .none h₁
  | some hf =>
    refine (zeroPage_simulates h₁ hf).bind fun _ _ m₂ s₂ _ h₂ => ?_
    have hentry : decode (K.kpdpt * PGSIZE ||| PTE_P ||| PTE_W) = ⟨K.kpdpt, true, true, false⟩ := by
      rw [Nat.or_assoc, decode_or hkpdpt (by decide)]
      rfl
    exact (setEntry_simulates h₂ hf (by decide) hentry).bind fun _ _ _ _ _ h₃ => simulates_pure (.some hf) h₃

/-- One level of `walkpgdir`: the entries agree on whether there is a table and on which it is. -/
theorem walkLevel_simulates (h : Shows m s) (hf : IsFrame f p) (hi : i < NPDENTRIES) :
    Simulates Shows id (Option.Rel IsFrame) (Vm.walkLevel alloc f i) (walkLevel alloc p i) m s := by
  have hread : m.table f i = decode (s.word (slot p i)) := by
    rw [h.table f hf.1 i hi, hf.2]
  unfold Vm.walkLevel walkLevel
  rw [simulates_get_left, simulates_get_right]
  simp only
  rw [hread]
  by_cases hp : s.word (slot p i) &&& PTE_P ≠ 0
  · rw [if_pos (decode_p.mpr hp), if_pos hp]
    exact simulates_pure (.some ⟨decode_frame_lt _, (addr_decode _).symm⟩) h
  · rw [if_neg fun hd => hp (decode_p.mp hd), if_neg hp]
    cases alloc with
    | false => exact simulates_pure .none h
    | true =>
      refine (kalloc_simulates h).bind fun o o' m₁ s₁ ho h₁ => ?_
      cases ho with
      | none => exact simulates_pure .none h₁
      | some hg =>
        refine (zeroPage_simulates h₁ hg).bind fun _ _ m₂ s₂ _ h₂ => ?_
        refine (setEntry_simulates h₂ hf hi ?_).bind fun _ _ _ _ _ h₃ => simulates_pure (.some hg) h₃
        rw [hg.2, V2P_addr hg.1, Nat.or_assoc, Nat.or_assoc, decode_or hg.1 (by decide)]
        rfl

/-- By induction on the levels. -/
lemma walkLevels_simulates (h : Shows m s) (hf : IsFrame f p) (his : ∀ i ∈ is, i < NPDENTRIES) :
    Simulates Shows id (Option.Rel IsFrame) (Vm.walkLevels alloc f is) (walkLevels alloc p is) m s := by
  induction is generalizing f p m s with
  | nil => exact simulates_pure (.some hf) h
  | cons i is ih =>
    rw [List.forall_mem_cons] at his
    unfold Vm.walkLevels walkLevels
    refine (walkLevel_simulates h hf his.1).bind fun o o' m₁ s₁ ho h₁ => ?_
    cases ho with
    | none => exact simulates_pure .none h₁
    | some hg => exact ih h₁ hg his.2

/-- `walkpgdir`; the walks are only kept for the words. -/
lemma walkpgdir_simulates (h : Shows m s) (hf : IsFrame f p) :
    Simulates Shows id (Option.Rel IsSlot) (Vm.walkpgdir f va alloc) (walkpgdir p va alloc) m s := by
  unfold Vm.walkpgdir walkpgdir
  refine (walkLevels_simulates h hf (indices_lt va)).bind fun o o' m₁ s₁ ho h₁ => ?_
  cases ho with
  | none => exact simulates_pure .none h₁
  | some hg =>
    rw [simulates_modify_right]
    exact simulates_pure (.some ⟨hg.1, PTX_lt va, by rw [hg.2]⟩) ⟨h₁.freelist, h₁.free, h₁.table⟩

/-- The entry of a slot. -/
lemma Shows.entry (h : Shows m s) {ti : ℕ × ℕ} {pte : ℕ} (hslot : IsSlot ti pte) :
    m.table ti.1 ti.2 = decode (s.word pte) := by
  rw [hslot.2.2]
  exact h.table ti.1 hslot.1 ti.2 hslot.2.1

/-- A slot that is to be mapped, and what is done next. -/
lemma mapEntry_simulates (h : Shows m s) {pte : ℕ} (hslot : IsSlot (t, i) pte) (hperm : perm < PGSIZE)
    (hpa : pa < frames) {x : V Bool} {y : W Bool}
    (hnext : ∀ m' s', Shows m' s' → Simulates Shows id Eq x y m' s') :
    Simulates Shows id Eq (do
      if ((← get).table t i).p then throw .remap
      setPte t i ⟨pa, true, perm.testBit 1, perm.testBit 2⟩
      x) (do
      if (← get).word pte &&& PTE_P ≠ 0 then throw .remap
      setEntry pte (pa * PGSIZE ||| perm ||| PTE_P)
      y) m s := by
  rw [simulates_get_left, simulates_get_right]
  have hentry : m.table t i = decode (s.word pte) := h.entry hslot
  simp only
  rw [hentry]
  by_cases hp : s.word pte &&& PTE_P ≠ 0
  · rw [if_pos (decode_p.mpr hp), if_pos hp]
    exact simulates_throw _
  · rw [if_neg fun hd => hp (decode_p.mp hd), if_neg hp]
    obtain ⟨ht, hi, rfl⟩ := hslot
    exact (setEntry_simulates h ⟨ht, rfl⟩ hi (decode_map hpa hperm)).bind fun _ _ m₁ s₁ _ h₁ => hnext m₁ s₁ h₁

/-- By induction on the pages behind this one. -/
lemma mappagesLoop_simulates (h : Shows m s) (hf : IsFrame f p) (hperm : perm < PGSIZE)
    (ha : a + n * PGSIZE < 2 ^ 64) (hpa : pa + n < frames) :
    Simulates Shows id Eq (Vm.mappagesLoop f (perm.testBit 1) (perm.testBit 2) n a pa)
      (mappagesLoop p perm n a (pa * PGSIZE)) m s := by
  induction n generalizing a pa m s with
  | zero =>
    unfold Vm.mappagesLoop mappagesLoop
    refine (walkpgdir_simulates h hf).bind fun o o' m₁ s₁ ho h₁ => ?_
    cases ho with
    | none => exact simulates_pure rfl h₁
    | @some ti pte hslot => exact mapEntry_simulates h₁ hslot hperm hpa fun _ _ h₂ => simulates_pure rfl h₂
  | succ n ih =>
    unfold Vm.mappagesLoop mappagesLoop
    refine (walkpgdir_simulates h hf).bind fun o o' m₁ s₁ ho h₁ => ?_
    cases ho with
    | none => exact simulates_pure rfl h₁
    | @some ti pte hslot =>
      refine mapEntry_simulates h₁ hslot hperm (by omega) fun m₂ s₂ h₂ => ?_
      have hnext : (a + PGSIZE) % 2 ^ 64 = a + PGSIZE := by
        rw [Nat.add_mul] at ha
        omega
      have hframe : (pa * PGSIZE + PGSIZE) % 2 ^ 64 = (pa + 1) * PGSIZE := by
        unfold frames at hpa
        unfold PGSIZE
        omega
      rw [hnext, hframe]
      refine ih h₂ ?_ (by omega)
      rw [Nat.add_mul] at ha
      omega

/-- `mappages`, where the addresses and the frames do not wrap. -/
lemma mappages_simulates {size : ℕ} (h : Shows m s) (hf : IsFrame f p) (hperm : perm < PGSIZE)
    (hsize : 0 < size) (hva : va + size ≤ 2 ^ 64) (hpa : pa * PGSIZE + size + PGSIZE ≤ 2 ^ 64) :
    Simulates Shows id Eq (Vm.mappages f va size pa (perm.testBit 1) (perm.testBit 2))
      (mappages p va size (pa * PGSIZE) perm) m s := by
  have hmore : mappagesMore va size = (PGROUNDDOWN (va + size - 1) - PGROUNDDOWN va) / PGSIZE := by
    unfold mappagesMore PGROUNDDOWN PGSIZE
    dsimp only
    omega
  unfold Vm.mappages mappages
  rw [hmore]
  refine mappagesLoop_simulates h hf hperm ?_ ?_
  · unfold PGROUNDDOWN PGSIZE
    omega
  · clear hmore
    unfold frames PGROUNDDOWN
    unfold PGSIZE at hpa ⊢
    omega

/-- By induction on the pages that are left. -/
lemma deallocuvmLoop_simulates (h : Shows m s) (hf : IsFrame f p) (hfirst : K.first ≤ topFrame) :
    Simulates Shows id (fun _ _ => True) (Vm.deallocuvmLoop K f n a) (deallocuvmLoop K p n a) m s := by
  induction n generalizing a m s with
  | zero => exact simulates_pure trivial h
  | succ n ih =>
    unfold Vm.deallocuvmLoop deallocuvmLoop
    refine (walkpgdir_simulates h hf).bind fun o o' m₁ s₁ ho h₁ => ?_
    cases ho with
    | none => exact ih h₁
    | @some ti pte hslot =>
      simp only
      rw [simulates_get_left, simulates_get_right]
      rw [h₁.entry hslot]
      by_cases hp : s₁.word pte &&& PTE_P ≠ 0
      · rw [if_pos (decode_p.mpr hp), if_pos hp]
        by_cases hzero : PTE_ADDR (s₁.word pte) = 0
        · rw [if_pos (decode_frame_eq_zero.mpr hzero), if_pos hzero]
          exact simulates_throw _
        · rw [if_neg fun hd => hzero (decode_frame_eq_zero.mp hd), if_neg hzero]
          refine (kfree_simulates h₁ hfirst ⟨decode_frame_lt _, (addr_decode _).symm⟩).bind
            fun _ _ m₂ s₂ _ h₂ => ?_
          obtain ⟨ht, hi, rfl⟩ := hslot
          exact (setEntry_simulates h₂ ⟨ht, rfl⟩ hi decode_zero).bind fun _ _ _ _ _ h₃ => ih h₃
      · rw [if_neg fun hd => hp (decode_p.mp hd), if_neg hp]
        exact ih h₁

/-- `deallocuvm`. -/
lemma deallocuvm_simulates {oldsz newsz : ℕ} (h : Shows m s) (hf : IsFrame f p) (hfirst : K.first ≤ topFrame) :
    Simulates Shows id Eq (Vm.deallocuvm K f oldsz newsz) (deallocuvm K p oldsz newsz) m s := by
  unfold Vm.deallocuvm deallocuvm
  split
  · exact simulates_pure rfl h
  · exact (deallocuvmLoop_simulates h hf hfirst).bind fun _ _ _ _ _ h₁ => simulates_pure rfl h₁

/-! ## Addresses -/

/-- The tables that entries refer to. -/
lemma Shows.child (h : Shows m s) (hf : f < frames) (hi : i < NPDENTRIES) :
    child s (addr f) i = (Vm.child m f i).map addr := by
  unfold Paging.child Vm.child
  rw [h.table f hf i hi]
  by_cases hp : s.word (slot (addr f) i) &&& PTE_P ≠ 0
  · rw [if_pos ⟨page_addr f, hi, present_iff.mp hp⟩, if_pos (decode_p.mpr hp), Option.map_some, addr_decode]
  · rw [if_neg fun hall => hp (present_iff.mpr hall.2.2), if_neg fun hd => hp (decode_p.mp hd), Option.map_none]

/-- No entry leads out of the frames. -/
lemma Shows.child_lt (h : Shows m s) (hf : f < frames) (hi : i < NPDENTRIES) {g : ℕ}
    (hg : Vm.child m f i = some g) : g < frames := by
  unfold Vm.child at hg
  rw [h.table f hf i hi] at hg
  split at hg
  · obtain rfl := Option.some.inj hg
    exact decode_frame_lt _
  · cases hg

/-- By induction on the path. -/
lemma Shows.reach (h : Shows m s) (hf : f < frames) (his : ∀ i ∈ is, i < NPDENTRIES) :
    Radix.reach (Paging.child s) (addr f) is = (Radix.reach (Vm.child m) f is).map addr ∧
      ∀ g ∈ Radix.reach (Vm.child m) f is, g < frames := by
  induction is generalizing f with
  | nil => exact ⟨rfl, by rintro g ⟨rfl⟩; exact hf⟩
  | cons i is ih =>
    rw [List.forall_mem_cons] at his
    unfold Radix.reach
    rw [h.child hf his.1]
    cases hg : Vm.child m f i with
    | none => exact ⟨rfl, by rintro g ⟨⟩⟩
    | some g => exact ih (h.child_lt hf his.1 hg) his.2

/-- **The words translate addresses as the tables do.** An address is translated with an entry for the frame
that is found for it, or neither is there. -/
theorem Shows.translation (h : Shows m s) (hf : f < frames) :
    (translation s (addr f) va).map (fun e => (decode e).frame) = find m f (indices va ++ [PTX va]) := by
  obtain ⟨hpgtab, hlt⟩ := h.reach hf (indices_lt va)
  rw [translation_eq (page_addr f), find, Radix.reach_append]
  unfold mapped pgtab
  rw [hpgtab]
  cases htable : Radix.reach (Vm.child m) f (indices va) with
  | none => rfl
  | some t =>
    rw [htable] at hlt
    show (s.entry (slot (addr t) (PTX va))).map _ = (Vm.child m t (PTX va)).bind some
    rw [Option.bind_fun_some, Memory.entry, Vm.child, h.table t (hlt t rfl) _ (PTX_lt va)]
    by_cases hp : s.word (slot (addr t) (PTX va)) &&& PTE_P ≠ 0
    · rw [if_pos (present_iff.mp hp), if_pos (decode_p.mpr hp), Option.map_some]
    · rw [if_neg fun hd => hp (present_iff.mpr hd), if_neg fun hd => hp (decode_p.mp hd), Option.map_none]

end Paging
end OhMyXv6
