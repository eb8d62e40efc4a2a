import OhMyXv6.Vm.Entries
import OhMyXv6.Vm.Table

/-!
# The tree of tables

The tables of a page table are a radix tree with three levels of entries between them; the entries of the
tables at the end are the slots. What a slot holds never makes it a reference to a table, so it does not
matter there whether a page is mapped twice.
-/

namespace OhMyXv6
namespace Paging

open Vm Radix Fallible

variable {s s' : Memory} {r p q i j va vb e : ℕ} {is : List ℕ}

/-! ## Words -/

/-- An address of a page, as a pointer of the kernel. -/
def Page (p : ℕ) : Prop := p % PGSIZE = 0 ∧ p < 2 ^ 64

instance : Decidable (Page p) := inferInstanceAs (Decidable (_ ∧ _))

lemma present_iff : e &&& PTE_P ≠ 0 ↔ e % 2 = 1 := by
  rw [show PTE_P = 1 from rfl, Nat.and_one_is_mod]
  omega

/-- The address in an entry, without its flags. -/
lemma PTE_ADDR_eq (e : ℕ) : PTE_ADDR e = e % 2 ^ 64 / 2 ^ 12 * 2 ^ 12 := by
  have hmask : 0xFFFFFFFFFFFFF000 = (2 ^ 52 - 1) <<< 12 := by decide
  apply Nat.eq_of_testBit_eq
  intro k
  rw [PTE_ADDR, hmask, Nat.testBit_and, Nat.testBit_shiftLeft, Nat.testBit_two_pow_sub_one,
    ← Nat.shiftLeft_eq, Nat.testBit_shiftLeft, ← Nat.shiftRight_eq_div_pow, Nat.testBit_shiftRight,
    Nat.testBit_mod_two_pow]
  by_cases hk : 12 ≤ k
  · have hlt : k - 12 < 52 ↔ k < 64 := by omega
    rw [show 12 + (k - 12) = k by omega]
    simp [hk, hlt, Bool.and_comm]
  · simp [hk]

lemma page_P2V (e : ℕ) : Page (P2V (PTE_ADDR e)) := by
  rw [PTE_ADDR_eq]
  unfold Page P2V KERNBASE PGSIZE
  omega

/-- What `walkpgdir` stores for a new table leads back to it. -/
lemma newEntry (hp : Page p) : (V2P p ||| PTE_P ||| PTE_W ||| PTE_U) % 2 = 1 ∧
    P2V (PTE_ADDR (V2P p ||| PTE_P ||| PTE_W ||| PTE_U)) = p := by
  obtain ⟨halign, hlt⟩ := hp
  unfold PGSIZE at halign
  have hshift : V2P p = (V2P p / 2 ^ 12) <<< 12 := by
    rw [Nat.shiftLeft_eq]
    unfold V2P KERNBASE
    omega
  -- the flags are below the address
  have hsum : (V2P p ||| PTE_P ||| PTE_W ||| PTE_U) = V2P p + 7 := by
    rw [Nat.or_assoc, Nat.or_assoc, show PTE_P ||| (PTE_W ||| PTE_U) = 7 from rfl, hshift,
      ← Nat.shiftLeft_add_eq_or_of_lt (by decide)]
  rw [hsum, PTE_ADDR_eq]
  unfold P2V V2P KERNBASE
  omega

/-- What `mappages` writes is present. -/
lemma mapEntry_odd (pa perm : ℕ) : (pa ||| perm ||| PTE_P) % 2 = 1 := by
  rw [← present_iff, Nat.and_or_distrib_right]
  simp [PTE_P]

/-- Different entries are at different addresses. -/
lemma slot_inj (hp : Page p) (hq : Page q) (hi : i < NPDENTRIES) (hj : j < NPDENTRIES)
    (h : slot p i = slot q j) : p = q ∧ i = j := by
  unfold slot at h
  unfold NPDENTRIES at hi hj
  have hp := hp.1
  have hq := hq.1
  unfold PGSIZE at hp hq
  omega

/-- The words of a page are its slots. -/
lemma slot_mem (hp : Page p) (hq : Page q) (hi : i < NPDENTRIES) :
    q ≤ slot p i ∧ slot p i < q + PGSIZE ↔ p = q := by
  unfold slot
  unfold NPDENTRIES at hi
  have hp := hp.1
  have hq := hq.1
  unfold PGSIZE at hp hq ⊢
  omega

lemma word_store_self (a : ℕ) : (s.store a e).word a = e := Function.update_self _ _ _

lemma word_store_of_ne {a b : ℕ} (h : b ≠ a) : (s.store a e).word b = s.word b :=
  Function.update_of_ne h _ _

/-- The words of a page that was filled. -/
lemma word_fill_self (hp : Page p) (hi : i < NPDENTRIES) : (s.fill p e).word (slot p i) = e :=
  if_pos ((slot_mem hp hp hi).mpr rfl)

lemma word_fill_of_ne (hp : Page p) (hq : Page q) (hi : i < NPDENTRIES) (h : p ≠ q) :
    (s.fill q e).word (slot p i) = s.word (slot p i) :=
  if_neg fun hmem => h ((slot_mem hp hq hi).mp hmem)

/-! ## Tables -/

/-- The table that an entry refers to. -/
def child (s : Memory) (p i : ℕ) : Option ℕ :=
  if Page p ∧ i < NPDENTRIES ∧ s.word (slot p i) % 2 = 1 then some (P2V (PTE_ADDR (s.word (slot p i))))
  else none

/-- How many entries of a table lead to tables of the user half, with `n` levels of tables below it. -/
def width (n : ℕ) : ℕ := entries (n + 1)

/-- The tables of the user half, the root included. -/
def tables (s : Memory) (r : ℕ) : Multiset ℕ := nodes (child s) width 3 r

/-- The indices that lead to the table with the slot of an address. -/
def indices (va : ℕ) : List ℕ := [PMX va, PDPX va, PDX va]

/-- The table with the slot of an address. -/
def pgtab (s : Memory) (r va : ℕ) : Option ℕ := reach (child s) r (indices va)

/-- An address of the user half has a slot there. -/
lemma fits_indices (h : va < 2 ^ 47) : Fits width 3 (indices va) := by
  refine ⟨?_, ?_, ?_, trivial⟩ <;>
    simp only [width, entries, NPDENTRIES, Nat.reduceEqDiff, Nat.reduceAdd, if_true, if_false]
  · unfold PMX
    omega
  · exact Nat.mod_lt _ (by omega)
  · exact Nat.mod_lt _ (by omega)

/-- The user half is not larger than a table. -/
lemma width_le (n : ℕ) : width n ≤ NPDENTRIES := by
  unfold width entries NPDENTRIES
  split <;> omega

lemma PTX_lt (va : ℕ) : PTX va < NPDENTRIES := Nat.mod_lt _ (by omega)

/-- The tables of two addresses are the same in each two megabytes. -/
lemma indices_inj (ha : va < 2 ^ 47) (hb : vb < 2 ^ 47) :
    indices va = indices vb ↔ va / 2 ^ 21 = vb / 2 ^ 21 := by
  simp only [indices, PMX, PDPX, PDX, List.cons.injEq, and_true]
  omega

/-- An address is known by the table with its slot, and the slot in it. -/
theorem page_eq_iff : va / PGSIZE = vb / PGSIZE ↔ va / 2 ^ 21 = vb / 2 ^ 21 ∧ PTX va = PTX vb := by
  unfold PGSIZE PTX
  omega

lemma page_of_child (h : child s p i = some q) : Page q := by
  unfold child at h
  split at h
  · obtain rfl := Option.some.inj h
    exact page_P2V _
  · cases h

/-- Every table on a path is a page. -/
lemma page_of_reach (hr : Page r) (h : reach (child s) r is = some p) : Page p := by
  induction is generalizing r with
  | nil =>
    obtain rfl := Option.some.inj h
    exact hr
  | cons i is ih =>
    obtain ⟨q, hq, hrest⟩ := Option.bind_eq_some_iff.mp h
    exact ih (page_of_child hq) hrest

/-- A stored entry leads where it says. -/
lemma child_store (hp : Page p) (hi : i < NPDENTRIES) : child (s.store (slot p i) e) =
    Radix.set (child s) p i (if e % 2 = 1 then some (P2V (PTE_ADDR e)) else none) := by
  funext q j
  by_cases hqj : q = p ∧ j = i
  · obtain ⟨rfl, rfl⟩ := hqj
    rw [set_self]
    unfold child
    rw [word_store_self]
    simp only [hp, hi, true_and]
  · have hset : Radix.set (child s) p i (if e % 2 = 1 then some (P2V (PTE_ADDR e)) else none) q j
        = child s q j := by
      by_cases hqp : q = p
      · subst hqp
        exact set_self_of_ne fun h => hqj ⟨rfl, h⟩
      · rw [set_of_ne hqp]
    rw [hset]
    unfold child
    by_cases hvalid : Page q ∧ j < NPDENTRIES
    · obtain ⟨hq, hj⟩ := hvalid
      rw [word_store_of_ne fun h => hqj (slot_inj hq hp hj hi h)]
    · rw [if_neg fun h => hvalid ⟨h.1, h.2.1⟩, if_neg fun h => hvalid ⟨h.1, h.2.1⟩]

/-- A page that is filled is no other table. -/
lemma child_fill_of_ne (hq : Page q) (h : p ≠ q) : child (s.fill q e) p = child s p := by
  funext i
  unfold child
  by_cases hvalid : Page p ∧ i < NPDENTRIES
  · rw [word_fill_of_ne hvalid.1 hq hvalid.2 h]
  · rw [if_neg fun h => hvalid ⟨h.1, h.2.1⟩, if_neg fun h => hvalid ⟨h.1, h.2.1⟩]

/-- A cleared page refers to nothing. -/
lemma child_fill_zero (hp : Page p) (i : ℕ) : child (s.fill p 0) p i = none := by
  unfold child
  by_cases hi : i < NPDENTRIES
  · rw [word_fill_self hp hi]
    simp
  · exact if_neg fun h => hi h.2.1

/-! ## What is mapped -/

/-- A slot with an entry that is present. -/
def Memory.entry (s : Memory) (pte : ℕ) : Option ℕ := if s.word pte % 2 = 1 then some (s.word pte) else none

/-- The entry for an address. -/
def mapped (s : Memory) (r va : ℕ) : Option ℕ := (pgtab s r va).bind fun p => s.entry (slot p (PTX va))

/-- The page that an entry refers to. -/
def frame (e : ℕ) : ℕ := P2V (PTE_ADDR e)

/-- The tables are all different, and none of them is mapped. -/
structure Shape (s : Memory) (r : ℕ) : Prop where
  root : Page r
  nodup : (tables s r).Nodup
  frame : ∀ va < 2 ^ 47, ∀ e, mapped s r va = some e → frame e ∉ tables s r

/-- What `kalloc` returns is fresh: it is neither a table nor mapped. -/
structure Fresh (s : Memory) (r : ℕ) (pages : List ℕ) : Prop where
  nodup : pages.Nodup
  page : ∀ p ∈ pages, Page p
  table : ∀ p ∈ pages, p ∉ tables s r
  frame : ∀ p ∈ pages, ∀ va < 2 ^ 47, ∀ e, mapped s r va = some e → frame e ≠ p

lemma entry_congr {pte : ℕ} (h : s'.word pte = s.word pte) : s'.entry pte = s.entry pte := by
  unfold Memory.entry
  rw [h]

/-- The table of an address is one of the tables. -/
lemma pgtab_mem (h : va < 2 ^ 47) (hp : pgtab s r va = some p) : p ∈ tables s r :=
  mem_of_reach (fits_indices h) hp

/-- An address is found in one table, and the table is not on the way to another one. -/
theorem reach_pgtab (hs : Shape s r) (h : va < 2 ^ 47) (hp : pgtab s r va = some p) (his : Fits width 3 is)
    (hreach : reach (child s) r is = some p) : is = indices va :=
  reach_inj hs.nodup his (fits_indices h) hreach hp

/-- Without a table nothing is mapped. -/
lemma mapped_of_none (h : pgtab s r va = none) : mapped s r va = none := by
  unfold mapped
  rw [h]
  rfl

/-- With a table its slot says it. -/
lemma mapped_of_some (h : pgtab s r va = some p) : mapped s r va = s.entry (slot p (PTX va)) := by
  unfold mapped
  rw [h]
  rfl

/-! ## A new table -/

/-- What a walk with `alloc` does on its way along a path: it takes pages for the tables that are missing
on it. -/
structure Grown (r : ℕ) (path : List ℕ) (s s' : Memory) : Prop where
  shape : Shape s' r
  fresh : Fresh s' r s'.freelist
  kept : ∀ is, Fits width 3 is → ∀ p, reach (child s) r is = some p → reach (child s') r is = some p
  new : ∀ is, Fits width 3 is → (reach (child s') r is).isSome → (reach (child s) r is).isSome ∨ is <+: path
  mapped : ∀ va < 2 ^ 47, mapped s' r va = mapped s r va
  taken : ∀ p ∈ tables s' r, p ∈ tables s r ∨ p ∈ s.freelist
  free : s'.freelist <:+ s.freelist
  walks : s'.walks = s.walks

lemma Grown.refl {path : List ℕ} (hs : Shape s r) (hf : Fresh s r s.freelist) : Grown r path s s :=
  ⟨hs, hf, fun _ _ _ h => h, fun _ _ h => .inl h, fun _ _ => rfl, fun _ h => .inl h, List.suffix_rfl, rfl⟩

/-- Tables are added one below the other. -/
lemma Grown.trans {path path' : List ℕ} {t : Memory} (h : Grown r path s s') (h' : Grown r path' s' t)
    (hpath : path <+: path') : Grown r path' s t where
  shape := h'.shape
  fresh := h'.fresh
  kept is his p hp := h'.kept is his p (h.kept is his p hp)
  new is his hp := by
    obtain hsome | hpre := h'.new is his hp
    · obtain hold | hpre := h.new is his hsome
      · exact .inl hold
      · exact .inr (hpre.trans hpath)
    · exact .inr hpre
  mapped va hva := (h'.mapped va hva).trans (h.mapped va hva)
  taken p hp := by
    obtain hold | hfree := h'.taken p hp
    · exact h.taken p hold
    · exact .inr (h.free.subset hfree)
  free := h'.free.trans h.free
  walks := h'.walks.trans h.walks

/-- The memory after a new table is stored in an entry. -/
def Memory.link (s : Memory) (p i g : ℕ) : Memory :=
  (s.fill g 0).store (slot p i) (V2P g ||| PTE_P ||| PTE_W ||| PTE_U)

lemma child_link (hp : Page p) (hi : i < NPDENTRIES) (hg : Page q) :
    child (s.link p i q) = Radix.set (child (s.fill q 0)) p i (some q) := by
  obtain ⟨hodd, hback⟩ := newEntry hg
  rw [Memory.link, child_store hp hi, if_pos hodd, hback]

/-- To clear a page that is not a table changes no table. -/
lemma child_clear (hp : Page p) (hpt : p ∉ tables s r) :
    ∀ t ∈ tables s r, child (s.fill p e) t = child s t :=
  fun _ ht => child_fill_of_ne hp fun h => hpt (h ▸ ht)

/-- A page that is no table is filled. -/
lemma tables_clear (hp : Page p) (hpt : p ∉ tables s r) : tables (s.fill p e) r = tables s r :=
  nodes_congr (child_clear hp hpt)

/-- A page is new in the tree, as an empty table at the end of a path. -/
structure Linked (s s' : Memory) (r : ℕ) (path : List ℕ) (g : ℕ) : Prop where
  tables : tables s' r = tables s r + {g}
  reach : ∀ is, Fits width 3 is → reach (child s') r is = if is = path then some g else reach (child s) r is
  mapped : ∀ va < 2 ^ 47, mapped s' r va = mapped s r va

section

variable {g : ℕ} (hs : Shape s r) (hg : Page g) (hgt : g ∉ tables s r) (hq : reach (child s) r is = some p)
  (hfits : Fits width 3 (is ++ [i])) (hnone : child s p i = none)
include hs hg hgt hq hfits hnone

/-- What the cleared page leaves of what `Radix` asks for. -/
lemma clear_spec : (nodes (child (s.fill g 0)) width 3 r).Nodup ∧ reach (child (s.fill g 0)) r is = some p ∧
    child (s.fill g 0) p i = none ∧ g ∉ nodes (child (s.fill g 0)) width 3 r := by
  have hclear := child_clear (e := 0) hg hgt
  have htables : nodes (child (s.fill g 0)) width 3 r = nodes (child s) width 3 r := tables_clear hg hgt
  refine ⟨?_, ?_, ?_, ?_⟩
  · rw [htables]
    exact hs.nodup
  · rw [reach_congr hfits.of_append hclear]
    exact hq
  · rw [hclear p (mem_of_reach hfits.of_append hq)]
    exact hnone
  · rw [htables]
    exact hgt

variable (hi : i < NPDENTRIES)
include hi

lemma tables_link : tables (s.link p i g) r = tables s r + {g} := by
  obtain ⟨hnodup, hq', hnone', hgt'⟩ := clear_spec hs hg hgt hq hfits hnone
  rw [← tables_clear (e := 0) hg hgt]
  unfold tables
  rw [child_link (page_of_reach hs.root hq) hi hg]
  exact nodes_link hnodup hq' hfits hnone' hgt' (.inr (child_fill_zero hg))

/-- The new table is found, and all others as before. -/
lemma reach_linked {path : List ℕ} (hpath : Fits width 3 path) :
    reach (child (s.link p i g)) r path = if path = is ++ [i] then some g else reach (child s) r path := by
  obtain ⟨hnodup, hq', hnone', hgt'⟩ := clear_spec hs hg hgt hq hfits hnone
  rw [← reach_congr hpath (child_clear (e := 0) hg hgt), child_link (page_of_reach hs.root hq) hi hg]
  exact Radix.reach_link hnodup hq' hfits hnone' hgt' (.inr (child_fill_zero hg)) hpath

lemma mapped_link (h : va < 2 ^ 47) : mapped (s.link p i g) r va = mapped s r va := by
  have hp : p ∈ tables s r := mem_of_reach hfits.of_append hq
  have hpage := page_of_reach hs.root hq
  have hlink := reach_linked hs hg hgt hq hfits hnone hi (fits_indices h)
  have hold : reach (child s) r (is ++ [i]) = none := by
    rw [reach_append, hq]
    show ((child s p i).bind fun e => reach (child s) e []) = none
    rw [hnone]
    rfl
  by_cases hpath : indices va = is ++ [i]
  · -- the new table has the slot, and it is empty
    rw [if_pos hpath] at hlink
    rw [mapped_of_some hlink, mapped_of_none (by rw [pgtab, hpath, hold])]
    have hne : slot g (PTX va) ≠ slot p i :=
      fun heq => hgt ((slot_inj hg hpage (PTX_lt va) hi heq).1 ▸ hp)
    unfold Memory.entry Memory.link
    rw [word_store_of_ne hne, word_fill_self hg (PTX_lt va)]
    rfl
  · rw [if_neg hpath] at hlink
    cases hva : pgtab s r va with
    | none => rw [mapped_of_none (hlink.trans hva), mapped_of_none hva]
    | some t =>
      rw [mapped_of_some (hlink.trans hva), mapped_of_some hva]
      apply entry_congr
      have htpage := page_of_reach hs.root hva
      have htg : t ≠ g := fun heq => hgt (heq ▸ pgtab_mem h hva)
      have htp : t ≠ p := by
        rintro rfl
        -- a table with slots has no table below it
        obtain rfl := reach_pgtab hs h hva hfits.of_append hq
        have := hfits.length_le
        simp [indices] at this
      have hne : slot t (PTX va) ≠ slot p i :=
        fun heq => htp (slot_inj htpage hpage (PTX_lt va) hi heq).1
      rw [Memory.link, word_store_of_ne hne, word_fill_of_ne htpage hg (PTX_lt va) htg]

/-- The rule for a table that is linked. -/
lemma link : Linked s (s.link p i g) r (is ++ [i]) g :=
  ⟨tables_link hs hg hgt hq hfits hnone hi, fun _ => reach_linked hs hg hgt hq hfits hnone hi,
    fun _ => mapped_link hs hg hgt hq hfits hnone hi⟩

end

/-- A table that was linked was taken from the free list. -/
lemma Linked.grown {g : ℕ} {path : List ℕ} (h : Linked s s' r path g) (hs : Shape s r)
    (hf : Fresh s r s.freelist) (hnew : Radix.reach (child s) r path = none)
    (hfree : s.freelist = g :: s'.freelist) (hwalks : s'.walks = s.walks) : Grown r path s s' where
  shape := by
    obtain ⟨hroot, hnodup, hframe⟩ := hs
    -- a page from the free list was no table before
    have hgt := hf.table g (by rw [hfree]; exact List.mem_cons_self)
    refine ⟨hroot, ?_, ?_⟩
    · rw [h.tables]
      exact Multiset.nodup_add.mpr ⟨hnodup, Multiset.nodup_singleton g,
        Multiset.disjoint_singleton.mpr hgt⟩
    · intro va hva e he
      rw [h.mapped va hva] at he
      rw [h.tables, Multiset.mem_add, Multiset.mem_singleton, not_or]
      exact ⟨hframe va hva e he, hf.frame g (by rw [hfree]; exact List.mem_cons_self) va hva e he⟩
  fresh := by
    obtain ⟨hnodup, hpage, htable, hframe⟩ := hf
    rw [hfree] at hnodup hpage htable hframe
    obtain ⟨hrest, hnodup⟩ := List.nodup_cons.mp hnodup
    refine ⟨hnodup, fun p hp => hpage p (List.mem_cons_of_mem g hp), ?_, ?_⟩
    · intro p hp
      rw [h.tables, Multiset.mem_add, Multiset.mem_singleton, not_or]
      exact ⟨htable p (List.mem_cons_of_mem g hp), fun heq => hrest (heq ▸ hp)⟩
    · intro p hp va hva e he
      rw [h.mapped va hva] at he
      exact hframe p (List.mem_cons_of_mem g hp) va hva e he
  kept is his p hp := by
    have hne : is ≠ path := by
      rintro rfl
      rw [hnew] at hp
      cases hp
    rw [h.reach is his, if_neg hne]
    exact hp
  new is his hp := by
    -- only the path just linked is new
    by_cases heq : is = path
    · exact .inr (heq ▸ List.prefix_rfl)
    · rw [h.reach is his, if_neg heq] at hp
      exact .inl hp
  mapped := h.mapped
  taken p hp := by
    rw [h.tables, Multiset.mem_add, Multiset.mem_singleton] at hp
    obtain hold | rfl := hp
    · exact .inl hold
    · exact .inr (by rw [hfree]; exact List.mem_cons_self)
  free := ⟨[g], by rw [hfree]; rfl⟩
  walks := hwalks

/-! ## Slots -/

/-- **Two addresses have the same slot exactly if they are on the same page.** -/
theorem slot_eq_iff (hs : Shape s r) (ha : va < 2 ^ 47) (hb : vb < 2 ^ 47) (hp : pgtab s r va = some p)
    (hq : pgtab s r vb = some q) : slot p (PTX va) = slot q (PTX vb) ↔ va / PGSIZE = vb / PGSIZE := by
  rw [page_eq_iff, ← indices_inj ha hb]
  constructor
  · intro h
    obtain ⟨rfl, hindex⟩ :=
      slot_inj (page_of_reach hs.root hp) (page_of_reach hs.root hq) (PTX_lt va) (PTX_lt vb) h
    exact ⟨reach_pgtab hs hb hq (fits_indices ha) hp, hindex⟩
  · intro ⟨hindices, hindex⟩
    have hpq : some p = some q := by rw [← hp, ← hq, pgtab, pgtab, hindices]
    rw [Option.some.inj hpq, hindex]

/-- All addresses of a page have the same table. -/
lemma pgtab_of_page (ha : va < 2 ^ 47) (hb : vb < 2 ^ 47) (h : va / PGSIZE = vb / PGSIZE) :
    pgtab s r va = pgtab s r vb := by
  rw [pgtab, pgtab, (indices_inj ha hb).mpr (page_eq_iff.mp h).1]

/-- A stored slot changes one entry of its table. -/
lemma child_slot (hs : Shape s r) (hp : pgtab s r va = some p) :
    ∃ x, child (s.store (slot p (PTX va)) e) = Radix.set (child s) p (PTX va) x :=
  ⟨_, child_store (page_of_reach hs.root hp) (PTX_lt va)⟩

section

variable (hs : Shape s r) (ha : va < 2 ^ 47) (hp : pgtab s r va = some p)
include hs ha hp

/-- A slot is no reference to a table. -/
lemma tables_store : tables (s.store (slot p (PTX va)) e) r = tables s r := by
  obtain ⟨x, hx⟩ := child_slot (e := e) hs hp
  have hnodup : (nodes (child s) width (indices va).length r).Nodup := hs.nodup
  unfold tables
  rw [hx]
  exact nodes_set_last hnodup hp (fits_indices ha)

/-- The tables are reached as before. -/
lemma reach_store (his : Fits width 3 is) :
    reach (child (s.store (slot p (PTX va)) e)) r is = reach (child s) r is := by
  obtain ⟨x, hx⟩ := child_slot (e := e) hs hp
  have hnodup : (nodes (child s) width (indices va).length r).Nodup := hs.nodup
  rw [hx]
  exact reach_set_last hnodup hp (fits_indices ha) his

/-- The page of the slot is mapped by what was stored, and the others as before. -/
lemma mapped_store (hb : vb < 2 ^ 47) : mapped (s.store (slot p (PTX va)) e) r vb =
    if vb / PGSIZE = va / PGSIZE then (if e % 2 = 1 then some e else none) else mapped s r vb := by
  have hsame : pgtab (s.store (slot p (PTX va)) e) r vb = pgtab s r vb :=
    reach_store hs ha hp (fits_indices hb)
  cases hvb : pgtab s r vb with
  | none =>
    have hne : vb / PGSIZE ≠ va / PGSIZE := by
      intro h
      rw [pgtab_of_page hb ha h, hp] at hvb
      cases hvb
    rw [if_neg hne, mapped_of_none (hsame.trans hvb), mapped_of_none hvb]
  | some t =>
    rw [mapped_of_some (hsame.trans hvb)]
    by_cases hpage : vb / PGSIZE = va / PGSIZE
    · rw [if_pos hpage, (slot_eq_iff hs hb ha hvb hp).mpr hpage, Memory.entry, word_store_self]
    · rw [if_neg hpage, mapped_of_some hvb]
      apply entry_congr
      exact word_store_of_ne fun h => hpage ((slot_eq_iff hs hb ha hvb hp).mp h)

end

/-- What is stored in a page that is not a table does not matter. -/
theorem mapped_fill (hs : Shape s r) (hp : Page p) (hpt : p ∉ tables s r) (ha : va < 2 ^ 47) :
    mapped (s.fill p e) r va = mapped s r va := by
  have hsame : pgtab (s.fill p e) r va = pgtab s r va := reach_congr (fits_indices ha) (child_clear hp hpt)
  cases hva : pgtab s r va with
  | none => rw [mapped_of_none (hsame.trans hva), mapped_of_none hva]
  | some t =>
    rw [mapped_of_some (hsame.trans hva), mapped_of_some hva]
    apply entry_congr
    have htp : t ≠ p := fun h => hpt (h ▸ pgtab_mem ha hva)
    exact word_fill_of_ne (page_of_reach hs.root hva) hp (PTX_lt va) htp

end Paging
end OhMyXv6
