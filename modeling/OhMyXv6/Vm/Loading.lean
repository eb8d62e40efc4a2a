import OhMyXv6.Vm.Exec
import OhMyXv6.Vm.Steps

/-!
# Loading a program

The headers of a program decide which pages `exec` maps and which addresses it loads to. `Sound` goes
through them as `exec` does, with the size that the memory has and the number of free pages: each segment
that `exec` gets to finds the pages that it needs, and none is loaded to the first page, which `exec`
leaves out.
-/

namespace OhMyXv6
namespace Vm

open Radix Fallible

variable {K : Kernel} {m m' m₀ : Mem} {d r v sz newsz : ℕ} {F : Multiset ℕ} {file : List UInt8}
  {s : Loader} {α : Type}

-- `KERNBASE` is not to be counted down to when two programs are compared
attribute [local irreducible] allocuvm

/-- The copy went to the page that the page table had at its address. -/
def Stored.Mapped (c : Stored) : Prop := find c.mem c.pgdir (path (c.va / PGSIZE)) = some c.frame

/-- Bytes of the file went to a page that was not mapped. -/
def Loader.Stray (s : Loader) : Prop := ∃ c ∈ s.loads, c.bytes ≠ [] ∧ ¬ c.Mapped

/-! ## Calls of `vm.c` -/

/-- The loader knows of such a call what is known of the function. -/
lemma onMem_ends {x : V α} {E : Panic → Prop} {Q : α → Mem → Prop} {E' : Fault → Prop}
    {R : α → Loader → Prop} (h : Ends E x Q s.mem) (hE : ∀ e, E e → E' (.panic e))
    (hQ : ∀ a m', Q a m' → R a { s with mem := m' }) : Ends E' (onMem x) R s := by
  unfold Ends at h ⊢
  rw [run_onMem]
  cases hx : x.run s.mem with
  | ok o =>
    rw [hx] at h
    exact hQ _ _ h
  | error e =>
    rw [hx] at h
    exact hE e h

/-- A call that does not stop the system. -/
lemma onMem_returns {x : V α} {Q : α → Mem → Prop} {E' : Fault → Prop} {R : α → Loader → Prop}
    (h : Ends (fun _ => False) x Q s.mem) (hQ : ∀ a m', Q a m' → R a { s with mem := m' }) :
    Ends E' (onMem x) R s := onMem_ends h (fun _ he => he.elim) hQ

/-! ## The page table of the program -/

/-- The new page table `d` has the pages of size `sz` and the tables for them, and this is what has been
taken from the free list. -/
structure Laid (K : Kernel) (m₀ m : Mem) (d sz : ℕ) (F : Multiset ℕ) : Prop where
  owns : Owns K m (Tree m d + F)
  frame : ∀ g ∈ F, m.table g = m₀.table g
  space : Space m d sz
  pos : 1 ≤ pages sz
  found : ∀ p, Fits entries 4 p → p ≠ [] → ((find m d p).isSome ↔ p ∈ pathsOf 1 (pages sz))
  top : ∀ j, NPDENTRIES / 2 ≤ j → j ≠ 256 → m.table d j = .zero
  free : m.freelist.length + copyNeed sz = m₀.freelist.length

/-- The user half of a new page table is empty. -/
lemma setupkvm_top : Ends (fun _ => True) (setupkvm K)
    (fun o m' => ∀ d, o = some d → ∀ j, j ≠ 256 → m'.table d j = .zero) m := by
  unfold setupkvm
  apply Ends.seq (kalloc_ends.mono (fun _ _ => trivial) fun _ _ h => h)
  rintro o m₀ ⟨d, next, rfl, hfree, rfl⟩
  simp only [zeroPage, setPte, ends_bind, ends_modify, ends_pure, Option.some.injEq]
  rintro _ rfl j hj
  unfold Mem.setEntry
  simp only [Function.update_self, Function.update_of_ne hj]
  rw [table_fill_self]

/-- What a copy without user pages needs. -/
lemma copyNeed_one (h : pages sz = 1) : copyNeed sz = 1 := by
  unfold copyNeed
  rw [h, pathsOf_self, Finset.card_empty]

/-- A new page table is an image without segments. -/
lemma Fresh.laid (h : Fresh K m₀ m d F) (htop : ∀ j, j ≠ 256 → m.table d j = .zero)
    (hsz : pages sz = 1) : Laid K m₀ m d sz F where
  owns := h.owns
  frame := h.frame
  space := h.space hsz
  pos := hsz.ge
  found p hp hne := by
    rw [h.found_none hp hne, hsz, pathsOf_self]
    simp
  top j _ hj := htop j hj
  free := by rw [copyNeed_one hsz, h.free, List.length_cons]

/-- Only the number of pages matters. -/
lemma Laid.congr {sz' : ℕ} (h : Laid K m₀ m d sz F) (hp : pages sz' = pages sz) : Laid K m₀ m d sz' F where
  owns := h.owns
  frame := h.frame
  space := ⟨fun v hv => by rw [hp]; exact h.space.found v hv, by rw [hp]; exact h.space.card⟩
  pos := hp ▸ h.pos
  found p := by rw [hp]; exact h.found p
  top := h.top
  free := by
    unfold copyNeed
    rw [hp]
    exact h.free

/-- The image is in the user half. -/
lemma Laid.pages_le_userPages (h : Laid K m₀ m d sz F) : pages sz ≤ userPages := by
  have := h.space.pages_le h.owns
  rw [topFrame_eq] at this
  unfold userPages
  omega

/-- The paths of two ranges of pages, one behind the other. -/
lemma pathsOf_union {a b : ℕ} (ha : 1 ≤ a) (hab : a ≤ b) : pathsOf 1 b = pathsOf 1 a ∪ pathsOf a b := by
  ext p
  unfold pathsOf
  simp only [Finset.mem_union, Finset.mem_biUnion, Finset.mem_Ico, lt_min_iff]
  constructor
  · rintro ⟨v, ⟨hv, hvb⟩, hp⟩
    obtain hva | hva := Nat.lt_or_ge v a
    · exact .inl ⟨v, ⟨hv, hva, hvb.2⟩, hp⟩
    · exact .inr ⟨v, ⟨hva, hvb⟩, hp⟩
  · rintro (⟨v, hv, hp⟩ | ⟨v, hv, hp⟩)
    · exact ⟨v, by omega, hp⟩
    · exact ⟨v, by omega, hp⟩

/-- What is missing for a larger size is what that size needs more. -/
theorem Laid.missing (h : Laid K m₀ m d sz F) (hle : sz ≤ newsz) :
    (missing m d (pathsOf (pages sz) (pages newsz))).card + copyNeed sz = copyNeed newsz := by
  have hmiss : Vm.missing m d (pathsOf (pages sz) (pages newsz))
      = pathsOf (pages sz) (pages newsz) \ pathsOf 1 (pages sz) := by
    ext p
    unfold Vm.missing
    rw [Finset.mem_filter, Finset.mem_sdiff]
    apply and_congr_right
    intro hp
    have hne : p ≠ [] := by
      rintro rfl
      obtain ⟨v, -, hv⟩ := Finset.mem_biUnion.mp hp
      simp [prefixes, steps, tables, path] at hv
    rw [← h.found p (fits_of_mem_pathsOf hp) hne, Option.not_isSome_iff_eq_none]
  unfold copyNeed
  rw [hmiss, pathsOf_union h.pos (pages_mono hle), Finset.union_comm, ← Finset.card_sdiff_add_card]
  omega

/-- `allocuvm` for the new page table: it stops the system if and only if the pages are not there. -/
theorem Laid.alloc (h : Laid K m₀ m d sz F) (newsz : ℕ) :
    Ends (fun _ => newsz < KERNBASE ∧ m₀.freelist.length < copyNeed (max sz newsz)) (allocuvm K d sz newsz)
      (fun sz' m' => (sz' = 0 ∧ KERNBASE ≤ newsz ∧ m' = m) ∨
        (sz' = max sz newsz ∧ newsz < KERNBASE ∧ Laid K m₀ m' d sz' F ∧
          (pages sz < pages newsz → Flagged m' d (pages newsz - 1) true true))) m := by
  have hsz : 0 < sz := by
    have := h.pos
    unfold pages PGSIZE at this
    omega
  have hfree := h.free
  apply (allocuvm_flagged newsz h.owns h.space hsz).mono
  · rintro e ⟨-, hshort⟩
    unfold growth at hshort
    split at hshort
    · next hgrow =>
      rw [max_eq_right hgrow.2, ← h.missing hgrow.2]
      exact ⟨hgrow.1, by omega⟩
    · simp [Vm.missing] at hshort
  -- refused, nothing to do, or grown
  rintro sz' m' (⟨rfl, hk, rfl⟩ | ⟨rfl, hlt, rfl⟩ | ⟨rfl, hle, hk, hgrown, hspace, hlast⟩)
  · exact .inl ⟨rfl, hk, rfl⟩
  · right
    rw [max_eq_left hlt.le]
    have hsmall := h.space.size_lt h.owns
    refine ⟨rfl, by unfold KERNBASE; omega, h, fun hp => ?_⟩
    have := pages_mono hlt.le
    omega
  · right
    have hgrowth : growth sz sz' = pathsOf (pages sz) (pages sz') := if_pos ⟨hk, hle⟩
    rw [hgrowth] at hgrown
    have hmono := pages_mono hle
    have hmissing := h.missing hle
    have hgfree := hgrown.free
    rw [max_eq_right hle]
    refine ⟨rfl, hk, ⟨hgrown.owns, ?_, hspace, h.pos.trans hmono, ?_, ?_, by omega⟩, hlast⟩
    · exact fun g hg => (hgrown.frame g hg).trans (h.frame g hg)
    · intro p hp hne
      rw [hgrown.found p hp, h.found p hp hne, pathsOf_union h.pos hmono, Finset.mem_union]
    · exact fun j hj hne => (hgrown.half j hj).trans (h.top j hj hne)

/-! ## Reading the file to the pages -/

/-- `loaduvm` can read page `j` of a segment. -/
def ReadsPage (file : List UInt8) (offset size j : ℕ) : Prop :=
  (readExact file ((offset + j * PGSIZE) % 2 ^ 32) (chunk size (j * PGSIZE))).isSome = true

instance (offset size j : ℕ) : Decidable (ReadsPage file offset size j) := inferInstanceAs (Decidable (_ = true))

/-- A read that has to be exact is one of so many bytes. -/
lemma readExact_isSome {off n : ℕ} :
    (readExact file off n).isSome ↔ ∃ bytes, readi file off n = some bytes ∧ bytes.length = n := by
  unfold readExact
  cases readi file off n with
  | none => simp
  | some bytes => simp [Option.filter]

/-- What a program that loads leaves as it was; `stray` says whether it loads to a page that is not mapped. -/
structure Loaded (s t : Loader) (stray : Prop) : Prop where
  mem : t.mem = s.mem
  args : t.args = s.args
  stray : t.Stray ↔ s.Stray ∨ stray

lemma Loaded.refl : Loaded s s False := ⟨rfl, rfl, by simp⟩

lemma Loaded.trans {t u : Loader} {P : Prop} (h : Loaded s t P) (h' : Loaded t u False) : Loaded s u P :=
  ⟨h'.mem.trans h.mem, h'.args.trans h.args, by rw [h'.stray, or_false, h.stray]⟩

/-- A `readi` to a page. -/
lemma Loaded.load {va frame : ℕ} {bytes : List UInt8} {P : Prop}
    (h : P ↔ bytes ≠ [] ∧ find s.mem d (path (va / PGSIZE)) ≠ some frame) :
    Loaded s { s with loads := s.loads ++ [⟨d, va, frame, bytes, s.mem⟩] } P := by
  refine ⟨rfl, rfl, ?_⟩
  unfold Loader.Stray
  simp only [List.mem_append, List.mem_singleton]
  constructor
  · rintro ⟨c, hc | rfl, hbytes, hmapped⟩
    · exact .inl ⟨c, hc, hbytes, hmapped⟩
    · exact .inr (h.mpr ⟨hbytes, hmapped⟩)
  · rintro (⟨c, hc, hbytes, hmapped⟩ | hP)
    · exact ⟨c, .inl hc, hbytes, hmapped⟩
    · exact ⟨_, .inr rfl, (h.mp hP).1, (h.mp hP).2⟩

/-- One round of the loop of `loaduvm`, for a page of which the table is there. -/
theorem loadLoop_round {addr offset size n i t : ℕ} {E : Fault → Prop} {Q : Bool → Loader → Prop}
    (hi : addr + i = v * PGSIZE) (ht : find s.mem d (tables v) = some t)
    (hnone : readi file ((offset + i) % 2 ^ 32) (chunk size i) = none → Q false s)
    (hsome : ∀ bytes, readi file ((offset + i) % 2 ^ 32) (chunk size i) = some bytes →
      Ends E (if bytes.length = chunk size i then loadLoop file d addr offset size n (i + PGSIZE)
        else pure false) Q
        { s with loads := s.loads ++ [⟨d, addr + i, (s.mem.table t (v % 512)).frame, bytes, s.mem⟩] }) :
    Ends E (loadLoop file d addr offset size (n + 1) i) Q s := by
  rw [loadLoop, ends_bind]
  have hwalk : Ends _ (walkpgdir d (v * PGSIZE) false) _ s.mem := walkpgdir_false_ends
  rw [← hi] at hwalk
  apply onMem_returns hwalk
  rintro o m' ⟨rfl, rfl⟩
  rw [ht]
  simp only [Option.map_some]
  rw [ends_bind, ends_get]
  simp only
  cases hread : readi file ((offset + i) % 2 ^ 32) (chunk size i) with
  | none => exact hnone hread
  | some bytes =>
    simp only
    rw [ends_bind, load, ends_modify]
    exact hsome bytes hread

/-- `loaduvm` from a page on that is not the first one. -/
lemma loadLoop_ends {a k n offset size : ℕ} (hspace : Space s.mem d sz) (ha : 1 ≤ a + k)
    (hle : a + k + n ≤ pages sz) (huser : pages sz ≤ userPages) :
    Ends (fun _ => False) (loadLoop file d (a * PGSIZE) offset size n (k * PGSIZE))
      (fun b t => Loaded s t False ∧ (b = true ↔ ∀ j, k ≤ j → j < k + n → ReadsPage file offset size j)) s := by
  induction n generalizing k s with
  | zero =>
    rw [loadLoop, ends_pure]
    exact ⟨Loaded.refl, fun _ j hk hj => by omega, fun _ => rfl⟩
  | succ n ih =>
    have hv : a + k < userPages := by omega
    have hva : a * PGSIZE + k * PGSIZE = (a + k) * PGSIZE := by ring
    obtain ⟨f, hf⟩ := Option.isSome_iff_exists.mp ((hspace.found _ hv).mpr (by omega))
    obtain ⟨t, ht, hp, hframe⟩ := find_tables hf
    have hpage : (a * PGSIZE + k * PGSIZE) / PGSIZE = a + k := by
      rw [hva]
      exact Nat.mul_div_cancel _ (by decide)
    apply loadLoop_round hva ht
    · intro hnone
      refine ⟨Loaded.refl, fun h => Bool.noConfusion h, fun h => ?_⟩
      obtain ⟨bytes, hbytes, -⟩ := readExact_isSome.mp (h k le_rfl (by omega))
      rw [hnone] at hbytes
      cases hbytes
    · intro bytes hread
      have hloaded : Loaded s { s with loads := s.loads ++
          [⟨d, a * PGSIZE + k * PGSIZE, (s.mem.table t ((a + k) % 512)).frame, bytes, s.mem⟩] } False :=
        Loaded.load (by rw [hpage, hf, hframe]; simp)
      -- a short read ends the loop
      by_cases hlen : bytes.length = chunk size (k * PGSIZE)
      · rw [if_pos hlen, show k * PGSIZE + PGSIZE = (k + 1) * PGSIZE by ring]
        apply (ih (by rw [hloaded.mem]; exact hspace) (by omega) (by omega)).mono fun _ he => he
        rintro b u ⟨hloaded', hb⟩
        refine ⟨hloaded.trans hloaded', hb.trans ⟨fun h j hk hj => ?_, fun h j hk hj => ?_⟩⟩
        · obtain rfl | hlt := hk.eq_or_lt
          · exact readExact_isSome.mpr ⟨bytes, hread, hlen⟩
          · exact h j hlt (by omega)
        · exact h j (by omega) (by omega)
      · rw [if_neg hlen, ends_pure]
        refine ⟨hloaded, fun h => Bool.noConfusion h, fun h => ?_⟩
        obtain ⟨bytes', hbytes, hlen'⟩ := readExact_isSome.mp (h k le_rfl (by omega))
        rw [hread] at hbytes
        obtain rfl := Option.some.inj hbytes
        exact (hlen hlen').elim

/-! ## One segment -/

/-- The end of the segment in memory. -/
def Segment.stop (ph : Segment) : ℕ := (ph.vaddr + ph.memsz).toNat

/-- The `uint`s that `loaduvm` gets. -/
def Segment.offset (ph : Segment) : ℕ := ph.off.toNat % 2 ^ 32

/-- How many bytes are read of the segment. -/
def Segment.bytes (ph : Segment) : ℕ := ph.filesz.toNat % 2 ^ 32

/-- `exec` does not load the segment. -/
def Segment.Refused (ph : Segment) : Prop :=
  ph.memsz < ph.filesz ∨ ph.vaddr + ph.memsz < ph.vaddr ∨ KERNBASE ≤ ph.stop

instance (ph : Segment) : Decidable ph.Refused := inferInstanceAs (Decidable (_ ∨ _ ∨ _))

/-- The file has all bytes of the segment. -/
def Segment.Reads (file : List UInt8) (ph : Segment) : Prop :=
  ∀ j < pageCount 0 ph.bytes, ReadsPage file ph.offset ph.bytes j

instance (ph : Segment) : Decidable (ph.Reads file) := inferInstanceAs (Decidable (∀ j < _, _))

/-- The segment is for address 0 and has bytes. -/
def Segment.Low (ph : Segment) : Prop := ph.vaddr = 0 ∧ ph.bytes ≠ 0

instance (ph : Segment) : Decidable ph.Low := inferInstanceAs (Decidable (_ ∧ _))

/-- The size of the memory with the segment; `none` where `exec` gives up. -/
def Segment.next (file : List UInt8) (sz : ℕ) (ph : Segment) : Option ℕ :=
  if ph.load = false then some sz
  else if ph.Refused ∨ ph.vaddr.toNat % PGSIZE ≠ 0 ∨ ¬ ph.Reads file then none
  else some (max sz ph.stop)

/-- The pages for the segment are there, of `free` ones at the start, and there is a page table when it is
for the first page. -/
def Segment.Safe (free sz : ℕ) (ph : Segment) : Prop :=
  ph.load = true → ¬ ph.Refused → copyNeed (max sz ph.stop) ≤ free ∧ (ph.Low → PGSIZE < max sz ph.stop)

/-- The segment is for the first page and the file has bytes for it. -/
def Segment.Wild (file : List UInt8) (ph : Segment) : Prop :=
  ph.load = true ∧ ¬ ph.Refused ∧ ph.Low ∧ (readi file ph.offset (chunk ph.bytes 0)).getD [] ≠ []

/-- The bytes of a segment end before the segment does. -/
lemma Segment.bytes_le {ph : Segment} (hok : ¬ ph.Refused) : ph.vaddr.toNat + ph.bytes ≤ ph.stop := by
  unfold Segment.Refused at hok
  rw [not_or, not_or, UInt64.lt_iff_toNat_lt, UInt64.lt_iff_toNat_lt] at hok
  obtain ⟨hfile, hwrap, -⟩ := hok
  have hbytes : ph.bytes ≤ ph.memsz.toNat := (Nat.mod_le _ _).trans (Nat.le_of_not_lt hfile)
  rw [UInt64.toNat_add] at hwrap
  unfold Segment.stop
  rw [UInt64.toNat_add]
  have := ph.vaddr.toNat_lt
  have := ph.memsz.toNat_lt
  omega

/-- A segment that is not for the first page. -/
lemma loadSegment_high {ph : Segment} {Q : Bool → Loader → Prop} {E : Fault → Prop} (h : Laid K m₀ s.mem d sz F)
    (hpos : ph.vaddr ≠ 0) (halign : ph.vaddr.toNat % PGSIZE = 0) (hstop : ph.stop ≤ sz) (hok : ¬ ph.Refused)
    (hQ : ∀ b t, Loaded s t False → (b = true ↔ ph.Reads file) → Q b t) :
    Ends E (loadPages file d ph.vaddr.toNat ph.offset ph.bytes) Q s := by
  have hbytes := ph.bytes_le hok
  have hvaddr : ph.vaddr.toNat ≠ 0 := fun h0 => hpos (UInt64.toNat_inj.mp h0)
  obtain ⟨a, ha⟩ : ∃ a, ph.vaddr.toNat = a * PGSIZE :=
    ⟨_, (Nat.div_mul_cancel (Nat.dvd_of_mod_eq_zero halign)).symm⟩
  have hcount : a + 0 + pageCount 0 ph.bytes ≤ pages sz := by
    unfold pageCount pages PGSIZE
    unfold PGSIZE at ha
    omega
  unfold loadPages
  rw [if_neg (by simpa using halign), ha]
  have hloop : Ends _ (loadLoop file d (a * PGSIZE) ph.offset ph.bytes (pageCount 0 ph.bytes) (0 * PGSIZE)) _ s :=
    loadLoop_ends h.space
    (by
      rw [ha] at hvaddr
      exact Nat.one_le_iff_ne_zero.mpr (left_ne_zero_of_mul hvaddr)) hcount h.pages_le_userPages
  rw [Nat.zero_mul] at hloop
  apply hloop.mono fun _ he => he.elim
  rintro b t ⟨hloaded, hb⟩
  apply hQ b t hloaded
  rw [hb, Nat.zero_add]
  unfold Segment.Reads
  exact ⟨fun h j hj => h j (Nat.zero_le j) hj, fun h j _ hj => h j hj⟩


/-- The first page is read at the offset. -/
lemma offset_add_zero {ph : Segment} : (ph.offset + 0) % 2 ^ 32 = ph.offset := by
  unfold Segment.offset
  omega

/-- A segment that is for the first page, which is not mapped. -/
lemma loadSegment_low {ph : Segment} (h : Laid K m₀ s.mem d sz F) (hlow : ph.Low)
    (hcount : pageCount 0 ph.bytes ≤ pages sz) :
    Ends (fun _ => sz ≤ PGSIZE) (loadPages file d ph.vaddr.toNat ph.offset ph.bytes)
      (fun b t => PGSIZE < sz ∧ Loaded s t ((readi file ph.offset (chunk ph.bytes 0)).getD [] ≠ []) ∧
        (b = true ↔ ph.Reads file)) s := by
  obtain ⟨hzero, hbytes⟩ := hlow
  have hnone : find s.mem d (path 0) = none := by
    rw [← Option.not_isSome_iff_eq_none, h.space.found 0 (by decide)]
    omega
  obtain ⟨n, hn⟩ : ∃ n, pageCount 0 ph.bytes = n + 1 := by
    refine ⟨pageCount 0 ph.bytes - 1, ?_⟩
    unfold pageCount PGSIZE
    omega
  have hchunk : chunk ph.bytes 0 ≠ 0 := by
    unfold chunk PGSIZE
    split <;> omega
  have haddr : ph.vaddr.toNat = 0 := by rw [hzero]; rfl
  unfold loadPages
  rw [haddr, hn, if_neg (by simp)]
  change Ends _ (loadLoop file d 0 ph.offset ph.bytes (n + 1) 0) _ s
  -- without the last table the walk gives null and `loaduvm` panics
  cases ht : find s.mem d (tables 0) with
  | none =>
    have hsz : sz ≤ PGSIZE := by
      by_contra hlt
      have hsome := (h.space.found 1 (by decide)).mpr ⟨le_rfl, by unfold pages PGSIZE; unfold PGSIZE at hlt; omega⟩
      obtain ⟨t, ht', -⟩ := find_tables (Option.isSome_iff_exists.mp hsome).choose_spec
      rw [show tables 1 = tables 0 from rfl, ht] at ht'
      cases ht'
    rw [loadLoop, ends_bind]
    have hwalk : Ends _ (walkpgdir d (0 * PGSIZE) false) _ s.mem := walkpgdir_false_ends
    rw [Nat.zero_mul] at hwalk
    apply onMem_returns hwalk
    rintro o m' ⟨rfl, rfl⟩
    rw [ht]
    exact hsz
  | some t =>
    have hsz : PGSIZE < sz := by
      by_contra hle
      have hpages : pages sz = 1 := by
        have := h.pos
        unfold pages PGSIZE at this ⊢
        unfold PGSIZE at hle
        omega
      have hfits : Fits entries 4 (tables 0 ++ [0 % 512]) := fits_path (by decide)
      have hfound := h.found (tables 0) hfits.of_append (by decide)
      rw [ht, hpages, pathsOf_self] at hfound
      simp at hfound
    -- the first page is the one outside the image, the others are read as usual
    have hreads : ph.Reads file ↔ (∃ bytes, readi file ph.offset (chunk ph.bytes 0) = some bytes ∧
        bytes.length = chunk ph.bytes 0) ∧ ∀ j, 1 ≤ j → j < 1 + n → ReadsPage file ph.offset ph.bytes j := by
      have hfirst : ReadsPage file ph.offset ph.bytes 0 ↔ ∃ bytes,
          readi file ph.offset (chunk ph.bytes 0) = some bytes ∧ bytes.length = chunk ph.bytes 0 := by
        unfold ReadsPage
        rw [readExact_isSome, Nat.zero_mul, offset_add_zero]
      unfold Segment.Reads
      rw [hn, ← hfirst]
      refine ⟨fun hall => ⟨hall 0 (by omega), fun j _ hj => hall j (by omega)⟩, fun ⟨h0, hrest⟩ j hj => ?_⟩
      obtain rfl | hj0 := Nat.eq_zero_or_pos j
      · exact h0
      · exact hrest j hj0 (by omega)
    apply loadLoop_round (v := 0) rfl ht
    · intro hread
      rw [offset_add_zero] at hread
      refine ⟨hsz, ?_, fun h => Bool.noConfusion h, fun hr => ?_⟩
      · rw [hread]
        exact ⟨rfl, rfl, by simp⟩
      · obtain ⟨⟨bytes, hbytes', -⟩, -⟩ := hreads.mp hr
        rw [hread] at hbytes'
        cases hbytes'
    · intro bytes hread
      rw [offset_add_zero] at hread
      have hloaded : Loaded s { s with loads := s.loads ++
          [⟨d, 0 + 0, (s.mem.table t (0 % 512)).frame, bytes, s.mem⟩] }
          ((readi file ph.offset (chunk ph.bytes 0)).getD [] ≠ []) := by
        apply Loaded.load
        rw [hread, show (0 + 0) / PGSIZE = 0 from rfl, hnone]
        simp
      by_cases hlen : bytes.length = chunk ph.bytes 0
      · rw [if_pos hlen]
        have hloop : Ends _ (loadLoop file d (0 * PGSIZE) ph.offset ph.bytes n (1 * PGSIZE)) _
            { s with loads := s.loads ++ [⟨d, 0 + 0, (s.mem.table t (0 % 512)).frame, bytes, s.mem⟩] } :=
          loadLoop_ends h.space (by omega) (by omega) (h.pages_le_userPages)
        apply hloop.mono fun _ he => he.elim
        rintro b u ⟨hloaded', hb⟩
        refine ⟨hsz, hloaded.trans hloaded', ?_⟩
        rw [hb, hreads]
        exact ⟨fun hall => ⟨⟨bytes, hread, hlen⟩, hall⟩, fun hall => hall.2⟩
      · rw [if_neg hlen, ends_pure]
        refine ⟨hsz, hloaded, fun h => Bool.noConfusion h, fun hr => ?_⟩
        obtain ⟨⟨bytes', hbytes', hlen'⟩, -⟩ := hreads.mp hr
        rw [hread] at hbytes'
        obtain rfl := Option.some.inj hbytes'
        exact (hlen hlen').elim

/-- The loading so far: `o` is the size, if `exec` goes on. -/
structure Going (K : Kernel) (m₀ : Mem) (d : ℕ) (F : Multiset ℕ) (s : Loader) (wild : Prop) (o : Option ℕ)
    (t : Loader) : Prop where
  args : t.args = s.args
  stray : t.Stray ↔ s.Stray ∨ wild
  laid : ∃ sz, Laid K m₀ t.mem d sz F ∧ ∀ sz', o = some sz' → sz' = sz

/-- The size after a segment that is loaded. -/
lemma Segment.next_of_load {ph : Segment} (hload : ph.load = true) (hok : ¬ ph.Refused) : ph.next file sz =
    if ph.vaddr.toNat % PGSIZE ≠ 0 ∨ ¬ ph.Reads file then none else some (max sz ph.stop) := by
  unfold Segment.next
  rw [hload, if_neg (by simp)]
  simp only [hok, false_or]

/-- The pages of a segment that is mapped. -/
lemma loadPages_ends {ph : Segment} (hlaid : Laid K m₀ s.mem d (max sz ph.stop) F) (hload : ph.load = true)
    (hok : ¬ ph.Refused) (halign : ph.vaddr.toNat % PGSIZE = 0) :
    Ends (fun _ => ¬ ph.Safe m₀.freelist.length sz) (loadPages file d ph.vaddr.toNat ph.offset ph.bytes)
      (fun b t => ph.Safe m₀.freelist.length sz ∧ Loaded s t (ph.Wild file) ∧ (b = true ↔ ph.Reads file)) s := by
  have hneed : copyNeed (max sz ph.stop) ≤ m₀.freelist.length := by
    have := hlaid.free
    omega
  have hsafe : ph.Safe m₀.freelist.length sz ↔ (ph.Low → PGSIZE < max sz ph.stop) :=
    ⟨fun h => (h hload hok).2, fun h _ _ => ⟨hneed, h⟩⟩
  have hwild : ph.Wild file ↔ ph.Low ∧ (readi file ph.offset (chunk ph.bytes 0)).getD [] ≠ [] :=
    ⟨fun h => ⟨h.2.2.1, h.2.2.2⟩, fun h => ⟨hload, hok, h.1, h.2⟩⟩
  by_cases hlow : ph.Low
  · have hcount : pageCount 0 ph.bytes ≤ pages (max sz ph.stop) := by
      have := Segment.bytes_le hok
      unfold pageCount pages PGSIZE
      omega
    apply (loadSegment_low hlaid hlow hcount).mono
    · exact fun _ hle h => absurd (hsafe.mp h hlow) (Nat.not_lt.mpr hle)
    rintro b t ⟨hlt, hloaded, hb⟩
    refine ⟨hsafe.mpr fun _ => hlt, ?_, hb⟩
    simpa only [hwild, hlow, true_and] using hloaded
  · have hsafe' : ph.Safe m₀.freelist.length sz := hsafe.mpr fun h => (hlow h).elim
    have hnotwild : ph.Wild file ↔ False := by simp [hwild, hlow]
    rw [hnotwild]
    by_cases hv : ph.vaddr = 0
    · -- there are no bytes
      have hbytes : ph.bytes = 0 := by
        by_contra hne
        exact hlow ⟨hv, hne⟩
      have hreads : ph.Reads file := by
        intro j hj
        rw [hbytes] at hj
        exact (Nat.not_lt_zero j hj).elim
      unfold loadPages
      rw [if_neg (not_not.mpr halign), hbytes]
      exact ⟨hsafe', Loaded.refl, fun _ => hreads, fun _ => rfl⟩
    · exact loadSegment_high hlaid hv halign (le_max_right _ _) hok fun b t hloaded hb => ⟨hsafe', hloaded, hb⟩

/-- **One round of the loop over the headers**: it stops the system where it is not safe. -/
theorem loadSegment_ends {ph : Segment} (h : Laid K m₀ s.mem d sz F) :
    Ends (fun _ => ¬ ph.Safe m₀.freelist.length sz) (loadSegment K file d sz ph)
      (fun o t => ph.Safe m₀.freelist.length sz ∧ o = ph.next file sz ∧
        Going K m₀ d F s (ph.Wild file) o t) s := by
  unfold loadSegment
  by_cases hload : ph.load
  swap
  · rw [Bool.not_eq_true] at hload
    rw [hload, if_pos (by rfl), ends_pure]
    refine ⟨fun hl => (by rw [hload] at hl; cases hl), ?_, rfl, ?_, sz, h, fun _ h => (Option.some.inj h).symm⟩
    · unfold Segment.next
      rw [if_pos hload]
    · unfold Segment.Wild
      simp [hload]
  -- what is refused before anything is mapped
  have hrefused : ph.Refused → ph.Safe m₀.freelist.length sz ∧ none = ph.next file sz ∧
      Going K m₀ d F s (ph.Wild file) none s := by
    intro hr
    refine ⟨fun _ hok => (hok hr).elim, ?_, rfl, ?_, sz, h, fun _ h => by cases h⟩
    · unfold Segment.next
      rw [hload, if_neg (by simp), if_pos (.inl hr)]
    · unfold Segment.Wild
      simp [hr]
  rw [hload, if_neg (by simp)]
  by_cases hfile : ph.memsz < ph.filesz
  · rw [if_pos hfile, ends_pure]
    exact hrefused (.inl hfile)
  rw [if_neg hfile]
  by_cases hwrap : ph.vaddr + ph.memsz < ph.vaddr
  · rw [if_pos hwrap, ends_pure]
    exact hrefused (.inr (.inl hwrap))
  rw [if_neg hwrap, ends_bind]
  have hok : ph.stop < KERNBASE → ¬ ph.Refused := by
    rintro hk (hr | hr | hr)
    · exact hfile hr
    · exact hwrap hr
    · omega
  apply onMem_ends (h.alloc ph.stop)
  · rintro e ⟨hk, hshort⟩ hsafe
    have := (hsafe hload (hok hk)).1
    omega
  rintro sz' m' (⟨rfl, hk, rfl⟩ | ⟨rfl, hk, hlaid, -⟩)
  · rw [if_pos rfl, ends_pure]
    exact hrefused (.inr (.inr hk))
  have hne : max sz ph.stop ≠ 0 := by
    have := hlaid.pos
    unfold pages PGSIZE at this
    omega
  rw [if_neg hne]
  by_cases halign : ph.vaddr.toNat % PGSIZE = 0
  swap
  · have hlow : ¬ ph.Low := by
      rintro ⟨hzero, -⟩
      rw [hzero] at halign
      exact halign rfl
    have hneed : copyNeed (max sz ph.stop) ≤ m₀.freelist.length := by
      have := hlaid.free
      omega
    rw [if_pos halign, ends_pure]
    refine ⟨fun _ _ => ⟨hneed, fun hl => (hlow hl).elim⟩, ?_, rfl, ?_, _, hlaid, fun _ h => by cases h⟩
    · rw [Segment.next_of_load hload (hok hk), if_pos (.inl halign)]
    · exact ⟨.inl, fun h => h.resolve_right fun hw => hlow hw.2.2.1⟩
  rw [if_neg (not_not.mpr halign), ends_bind]
  apply (loadPages_ends (s := { s with mem := m' }) hlaid hload (hok hk) halign).mono fun _ he => he
  rintro b t ⟨hsafe, hloaded, hb⟩
  have hgoing : ∀ o, (∀ sz', o = some sz' → sz' = max sz ph.stop) → Going K m₀ d F s (ph.Wild file) o t :=
    fun o ho => ⟨hloaded.args, hloaded.stray, _, by rw [hloaded.mem]; exact hlaid, ho⟩
  rw [Segment.next_of_load hload (hok hk)]
  cases b with
  | true =>
    rw [if_pos rfl, ends_pure, if_neg (by simpa [halign] using hb.mp rfl)]
    exact ⟨hsafe, rfl, hgoing _ fun _ h => (Option.some.inj h).symm⟩
  | false =>
    rw [if_neg Bool.false_ne_true, ends_pure, if_pos (.inr fun hr => Bool.noConfusion (hb.mpr hr))]
    exact ⟨hsafe, rfl, hgoing _ fun _ h => by cases h⟩

/-! ## All segments, and the stack -/

/-- The segments that `exec` gets to are safe; there are `n` headers left. -/
def Safe (file : List UInt8) (free : ℕ) : ℕ → ℕ → ℕ → Prop
  | 0, _, _ => True
  | n + 1, off, sz => ∀ ph, readSegment file off = some ph → ph.Safe free sz ∧
      ∀ sz', ph.next file sz = some sz' → Safe file free n ((off + Segment.size) % 2 ^ 32) sz'

/-- `exec` gets to a segment that it loads to the first page. -/
def Wild (file : List UInt8) : ℕ → ℕ → ℕ → Prop
  | 0, _, _ => False
  | n + 1, off, sz => ∃ ph, readSegment file off = some ph ∧ (ph.Wild file ∨
      ∃ sz', ph.next file sz = some sz' ∧ Wild file n ((off + Segment.size) % 2 ^ 32) sz')

/-- The size of the memory with all segments. -/
def segmentsSize (file : List UInt8) : ℕ → ℕ → ℕ → Option ℕ
  | 0, _, sz => some sz
  | n + 1, off, sz => (readSegment file off).bind fun ph => (ph.next file sz).bind fun sz' =>
      segmentsSize file n ((off + Segment.size) % 2 ^ 32) sz'

/-- By induction on the program headers that are left. -/
lemma loadSegments_ends {n off : ℕ} (h : Laid K m₀ s.mem d sz F) :
    Ends (fun _ => ¬ Safe file m₀.freelist.length n off sz) (loadSegments K file d n off sz)
      (fun o t => Safe file m₀.freelist.length n off sz ∧ o = segmentsSize file n off sz ∧
        Going K m₀ d F s (Wild file n off sz) o t) s := by
  induction n generalizing off sz s with
  | zero =>
    rw [loadSegments, ends_pure]
    exact ⟨trivial, rfl, rfl, by simp [Wild], sz, h, fun _ h => (Option.some.inj h).symm⟩
  | succ n ih =>
    rw [loadSegments, Safe, segmentsSize, Wild]
    cases hread : readSegment file off with
    | none =>
      exact ⟨fun _ h => (by cases h), rfl, rfl, by simp, sz, h, fun _ h => by cases h⟩
    | some ph =>
      have hall : ∀ P : Segment → Prop, (∀ ph', some ph = some ph' → P ph') ↔ P ph := fun P =>
        ⟨fun hall => hall ph rfl, fun hp _ h => Option.some.inj h ▸ hp⟩
      have hex : ∀ P : Segment → Prop, (∃ ph', some ph = some ph' ∧ P ph') ↔ P ph := fun P =>
        ⟨fun ⟨_, h, hp⟩ => Option.some.inj h ▸ hp, fun hp => ⟨ph, rfl, hp⟩⟩
      rw [hall, hex, Option.bind_some, ends_bind]
      apply (loadSegment_ends h).mono fun _ hnot hsafe => hnot hsafe.1
      rintro o t ⟨hsafe, rfl, hargs, hstray, sz₁, hlaid, hsz⟩
      cases hnext : ph.next file sz with
      | none =>
        refine ⟨⟨hsafe, fun _ h => by cases h⟩, rfl, hargs, ?_, sz₁, hlaid, fun _ h => by cases h⟩
        rw [hstray]
        simp
      | some sz' =>
        obtain rfl := hsz sz' hnext
        simp only [Option.bind_some]
        apply (ih hlaid).mono fun _ hnot hsafe => hnot (hsafe.2 sz' rfl)
        rintro o u ⟨hrest, ho, hargs', hstray', hlaid'⟩
        refine ⟨⟨hsafe, fun _ h => Option.some.inj h ▸ hrest⟩, ho, hargs'.trans hargs, ?_, hlaid'⟩
        rw [hstray', hstray, or_assoc]
        simp

/-- The page under the last one is there and not accessible, the last one is the stack. -/
structure Guarded (m : Mem) (d sz : ℕ) : Prop where
  pages : ∃ v, sz = (v + 2) * PGSIZE ∧ Flagged m d (v + 1) true true ∧
    ∃ t, find m d (tables v) = some t ∧ (m.table t (v % 512)).u = false

/-- `clearpteu` takes one flag of one entry away. -/
lemma clearpteu_entry {t : ℕ} (ht : find m d (tables v) = some t) :
    Ends (fun _ => False) (clearpteu d (v * PGSIZE))
      (fun _ m' => m' = m.setEntry t (v % 512) { m.table t (v % 512) with u := false }) m := by
  unfold clearpteu
  apply walkpgdir_false_ends.seq
  rintro o m₀ ⟨rfl, rfl⟩
  rw [ht]
  simp only [Option.map_some, setPte]
  rw [ends_bind, ends_get, ends_modify]

/-- The other entries of the table. -/
lemma table_setEntry_of_ne_index {t i j g : ℕ} {e : Pte} (h : j ≠ i) :
    (m.setEntry t i e).table g j = m.table g j := by
  unfold Mem.setEntry
  by_cases hg : g = t
  · subst hg
    simp only [Function.update_self, Function.update_of_ne h]
  · simp only [Function.update_of_ne hg]

/-- Two pages are added for the stack, or the memory is full. -/
lemma execStack_laid (h : Laid K m₀ m d sz F) :
    Ends (fun _ => m₀.freelist.length < copyNeed (PGROUNDUP sz + 2 * PGSIZE)) (execStack K d sz)
      (fun o m' => o = some (PGROUNDUP sz + 2 * PGSIZE) ∧ Laid K m₀ m' d (PGROUNDUP sz + 2 * PGSIZE) F ∧
        Guarded m' d (PGROUNDUP sz + 2 * PGSIZE)) m := by
  have hlt := h.space.size_lt h.owns
  -- two pages on top of the last one of the image
  have hround : PGROUNDUP sz = pages sz * PGSIZE := PGROUNDUP_eq (by unfold KERNBASE; omega)
  have hpages : pages (pages sz * PGSIZE) = pages sz := by
    unfold pages PGSIZE
    omega
  have hsmall : pages sz ≤ topFrame := h.space.pages_le h.owns
  rw [topFrame_eq] at hsmall
  have hsum : pages sz * PGSIZE + 2 * PGSIZE = (pages sz + 2) * PGSIZE := by ring
  have hmod : (pages sz + 2) * PGSIZE % 2 ^ 64 = (pages sz + 2) * PGSIZE := by
    unfold PGSIZE
    omega
  have hmore : pages ((pages sz + 2) * PGSIZE) = pages sz + 2 := by
    unfold pages PGSIZE
    omega
  have hmax : max (pages sz * PGSIZE) ((pages sz + 2) * PGSIZE) = (pages sz + 2) * PGSIZE :=
    max_eq_right (Nat.mul_le_mul_right _ (Nat.le_add_right _ _))
  have hne : (pages sz + 2) * PGSIZE ≠ 0 := by
    unfold PGSIZE
    omega
  have hsub : (pages sz + 2) * PGSIZE - 2 * PGSIZE = pages sz * PGSIZE := by omega
  have halloc := (h.congr hpages).alloc ((pages sz + 2) * PGSIZE)
  rw [hmax] at halloc
  unfold execStack
  simp only [hround, hsum, hmod]
  rw [ends_bind]
  apply halloc.mono fun _ hshort => hshort.2
  rintro sz' m₁ (⟨-, hk, -⟩ | ⟨rfl, -, hlaid, hlast⟩)
  · unfold KERNBASE PGSIZE at hk
    omega
  rw [if_neg hne, hsub]
  have huser : pages sz + 1 < userPages := by
    unfold userPages
    omega
  have hflagged : Flagged m₁ d (pages sz + 1) true true := by
    have := hlast (by rw [hpages, hmore]; omega)
    rwa [hmore] at this
  have hpresent : ∀ v, 1 ≤ v → v < pages sz + 2 → v < userPages → (find m₁ d (path v)).isSome :=
    fun v hv hv' hvu => (hlaid.space.found v hvu).mpr ⟨hv, by rw [hmore]; exact hv'⟩
  -- the lower one is the guard page
  have hguard := hpresent (pages sz) h.pos (by omega) (by omega)
  obtain ⟨t, ht, -⟩ := find_tables (Option.isSome_iff_exists.mp hguard).choose_spec
  rw [ends_bind]
  apply ((clearpteu_ends hlaid.owns (by omega) hguard).and (clearpteu_entry ht)).mono fun _ he => he.elim
  rintro _ m₂ ⟨⟨hchanged, hchild⟩, hset⟩
  rw [ends_pure]
  -- `clearpteu` changes a flag and no address
  have hfind : ∀ p, find m₂ d p = find m₁ d p := fun p => by
    unfold find
    rw [hchild]
  refine ⟨rfl, ⟨hchanged.owns, ?_, hlaid.space.of_child hchild, hlaid.pos, ?_, ?_, ?_⟩,
    pages sz, rfl, ?_, t, ?_, ?_⟩
  · exact fun g hg => (hchanged.frame g hg).trans (hlaid.frame g hg)
  · intro p hp hne
    rw [hfind, hlaid.found p hp hne]
  · exact fun j hj hne => (hchanged.half j hj).trans (hlaid.top j hj hne)
  · rw [hset, freelist_setEntry]
    exact hlaid.free
  · obtain ⟨t', f, ht', hf⟩ := hflagged
    refine ⟨t', f, by rw [hfind, ht'], ?_⟩
    rw [hset, table_setEntry_of_ne_index (by omega), hf]
  · rw [hfind, ht]
  · rw [hset, table_setEntry_self]

/-- The size of the memory of the program, with its stack; `none` where `exec` does not get so far. -/
def imageSize (file : List UInt8) : Option ℕ :=
  (readElfhdr file).bind fun elf =>
    (segmentsSize file elf.phnum (elf.phoff % 2 ^ 32) PGSIZE).map fun sz => PGROUNDUP sz + 2 * PGSIZE

/-- A file that `exec` loads or refuses, with so many free pages. -/
def Loadable (file : List UInt8) (free : ℕ) : Prop :=
  ∀ elf, readElfhdr file = some elf → 1 ≤ free ∧ Safe file free elf.phnum (elf.phoff % 2 ^ 32) PGSIZE ∧
    ∀ sz, imageSize file = some sz → copyNeed sz ≤ free

/-- `exec` loads to the first page. -/
def LoadsLow (file : List UInt8) : Prop :=
  ∃ elf, readElfhdr file = some elf ∧ Wild file elf.phnum (elf.phoff % 2 ^ 32) PGSIZE

/-- How `exec` is before it copies the arguments: it has given up, or there is the memory of the program. -/
structure Prepared (K : Kernel) (m₀ : Mem) (F : Multiset ℕ) (file : List UInt8) (o : Option (ℕ × ℕ × ℕ))
    (t : Loader) : Prop where
  args : t.args = []
  stray : t.Stray ↔ LoadsLow file
  size : o.map (fun image => image.2.2) = imageSize file
  none : o = none → Owns K t.mem F ∧ ∀ g ∈ F, t.mem.table g = m₀.table g
  some : ∀ entry d sz, o = some (entry, d, sz) → Laid K m₀ t.mem d sz F ∧ Guarded t.mem d sz

/-- The state in which `exec` starts to load. -/
def Mem.loader (m : Mem) : Loader := ⟨m, [], []⟩

/-- With two pages there is nothing to give back. -/
lemma orBad_execStack (h : Laid K m₀ m d sz F) :
    Ends (fun _ => m₀.freelist.length < copyNeed (PGROUNDUP sz + 2 * PGSIZE)) (orBad K d (execStack K d sz))
      (fun o m' => o = some (PGROUNDUP sz + 2 * PGSIZE) ∧ Laid K m₀ m' d (PGROUNDUP sz + 2 * PGSIZE) F ∧
        Guarded m' d (PGROUNDUP sz + 2 * PGSIZE)) m := by
  unfold orBad
  rw [ends_bind]
  apply (execStack_laid h).mono fun _ he => he
  rintro o m' ⟨rfl, hlaid⟩
  exact ⟨rfl, hlaid⟩

/-- **`exec` up to the arguments**: it stops the system if and only if the file is not loadable. -/
theorem execImage_ends (hown : Owns K m₀ F) :
    Ends (fun _ => ¬ Loadable file m₀.freelist.length) (execImage K file)
      (fun o t => Loadable file m₀.freelist.length ∧ Prepared K m₀ F file o t) m₀.loader := by
  unfold execImage
  have hclean : ¬ m₀.loader.Stray := by
    rintro ⟨c, hc, -⟩
    cases hc
  cases helf : readElfhdr file with
  | none =>
    refine ⟨fun elf h => ?_, rfl, ?_, ?_, fun _ => ⟨hown, fun _ _ => rfl⟩, fun _ _ _ h => by cases h⟩
    · rw [helf] at h
      cases h
    · refine ⟨fun h => (hclean h).elim, ?_⟩
      rintro ⟨elf, h, -⟩
      rw [helf] at h
      cases h
    · unfold imageSize
      rw [helf]
      rfl
  | some elf =>
    -- what the three conditions say once the header is read
    have hload : Loadable file m₀.freelist.length ↔ 1 ≤ m₀.freelist.length ∧
        Safe file m₀.freelist.length elf.phnum (elf.phoff % 2 ^ 32) PGSIZE ∧
        ∀ sz, imageSize file = some sz → copyNeed sz ≤ m₀.freelist.length := by
      unfold Loadable
      rw [helf]
      exact ⟨fun h => h elf rfl, fun h _ he => Option.some.inj he ▸ h⟩
    have hlow : LoadsLow file ↔ Wild file elf.phnum (elf.phoff % 2 ^ 32) PGSIZE := by
      unfold LoadsLow
      rw [helf]
      exact ⟨fun ⟨_, he, h⟩ => Option.some.inj he ▸ h, fun h => ⟨elf, rfl, h⟩⟩
    have hsize : imageSize file = (segmentsSize file elf.phnum (elf.phoff % 2 ^ 32) PGSIZE).map
        fun sz => PGROUNDUP sz + 2 * PGSIZE := by
      unfold imageSize
      rw [helf]
      rfl
    simp only
    rw [ends_bind]
    apply onMem_ends ((setupkvm_ends hown).and setupkvm_top)
    · rintro e ⟨-, hempty⟩ hl
      have := (hload.mp hl).1
      change m₀.freelist = [] at hempty
      rw [hempty] at this
      exact Nat.not_succ_le_zero 0 this
    rintro _ m₁ ⟨⟨d, rfl, hfresh⟩, htop⟩
    have hlaid : Laid K m₀ m₁ d PGSIZE F := hfresh.laid (htop d rfl) rfl
    have hfree : 1 ≤ m₀.freelist.length := by
      have := hlaid.free
      rw [copyNeed_one rfl] at this
      omega
    simp only
    rw [ends_bind]
    apply (loadSegments_ends (s := { m₀.loader with mem := m₁ }) hlaid).mono
    · exact fun _ hnot hl => hnot (hload.mp hl).2.1
    rintro o t ⟨hsafe, rfl, hargs, hstray, sz, hlaid, hsz⟩
    have hstray' : t.Stray ↔ LoadsLow file := by
      rw [hstray, hlow]
      exact or_iff_right hclean
    cases hseg : segmentsSize file elf.phnum (elf.phoff % 2 ^ 32) PGSIZE with
    | none =>
      rw [hseg] at hsize
      -- a bad segment: the new table is freed
      rw [stackOrBad, ends_bind]
      apply onMem_returns (freevm_ends hlaid.owns)
      intro _ m₂ hfreed
      refine ⟨hload.mpr ⟨hfree, hsafe, fun _ h => ?_⟩, hargs, hstray', hsize.symm, fun _ => ⟨hfreed.owns, ?_⟩,
        fun _ _ _ h => by cases h⟩
      · rw [hsize] at h
        cases h
      · exact fun g hg => (hfreed.frame g hg).trans (hlaid.frame g hg)
    | some sz' =>
      obtain rfl := hsz sz' hseg
      rw [hseg] at hsize
      have hneed : (∀ sz, imageSize file = some sz → copyNeed sz ≤ m₀.freelist.length) ↔
          copyNeed (PGROUNDUP sz' + 2 * PGSIZE) ≤ m₀.freelist.length := by
        rw [hsize]
        exact ⟨fun h => h _ rfl, fun h _ he => Option.some.inj he ▸ h⟩
      rw [stackOrBad, ends_bind]
      apply onMem_ends (orBad_execStack hlaid)
      · exact fun _ hshort hl => absurd (hneed.mp (hload.mp hl).2.2) (Nat.not_le.mpr hshort)
      rintro o m₂ ⟨rfl, hlaid₂, hguard⟩
      simp only
      rw [ends_pure]
      refine ⟨hload.mpr ⟨hfree, hsafe, hneed.mpr ?_⟩, hargs, hstray', hsize.symm, fun h => (by cases h), ?_⟩
      · have := hlaid₂.free
        omega
      · rintro entry d' sz h
        obtain ⟨-, rfl, rfl⟩ := Prod.mk.inj (Option.some.inj h)
        exact ⟨hlaid₂, hguard⟩

end Vm
end OhMyXv6
