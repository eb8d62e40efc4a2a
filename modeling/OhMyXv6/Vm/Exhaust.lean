import OhMyXv6.Vm.Address

/-!
# Running out of memory

`kalloc` stops the system where its comment says that it returns 0. So `allocuvm`, `fork` and `pipealloc`
end as they should if and only if the free list has the pages that they take: those to be mapped and those
for the tables that are missing on the paths to them; with `fork` also the kernel stack and the root of the
new page table.
-/

namespace OhMyXv6
namespace Vm

open Radix Fallible

variable {K : Kernel} {m m' : Mem} {r sz newsz : ℕ} {F : Multiset ℕ} {s s₀ t : Sys} {p np : Slot}
  {acts : List Act} {k : ℕ → Pte} {weak : Prop} {files : List File}

/-- The user pages are as before, and what is not free is linked. -/
def Undone (m m' : Mem) (r : ℕ) : Prop :=
  (∀ v < userPages, find m' r (path v) = find m r (path v)) ∧
    (m'.freelist : Multiset ℕ) + Tree m' r = m.freelist + Tree m r

/-- The user pages are those of a size. -/
def Exact (m : Mem) (r sz : ℕ) : Prop :=
  ∀ va < 2 ^ 47, Present m r va ↔ PGSIZE ≤ va ∧ va < PGROUNDUP sz

/-- `allocuvm` returns the new size with the pages there, or 0 with nothing changed. -/
def AllocHandled (K : Kernel) (m : Mem) (r sz newsz : ℕ) : Prop :=
  ∃ sz' m', (allocuvm K r sz newsz).run m = .ok (sz', m') ∧
    (sz' = 0 ∧ Undone m m' r ∨ sz' ≠ 0 ∧ Exact m' r sz')

/-- All of `fork`. -/
def fork (K : Kernel) (s : Sys) (p : Slot) : Except Panic Sys :=
  match allocproc s p with
  | .error e => .error e
  | .ok s =>
    match (s.proc p).pc with
    | .fork np => forkCopy K s p np
    | _ => .ok s

/-- `fork` makes a child with a copy of the memory, or changes nothing. -/
def ForkHandled (K : Kernel) (s : Sys) (p : Slot) : Prop :=
  ∃ t, fork K s p = .ok t ∧ (t = s ∨ ∃ np d, (s.proc np).status = .unused ∧ (t.proc np).status = .live ∧
    (t.proc np).pgdir = some d ∧ (t.proc np).sz = (s.proc p).sz ∧ Exact t.mem d (s.proc p).sz)

/-- `pipealloc` returns a page, or nothing and leaves the file table as it was. -/
def PipeHandled (m : Mem) (files : List File) : Prop :=
  ∃ o files' m', (pipealloc files).run m = .ok ((o, files'), m') ∧ (o = none → files' = files ∧ m' = m)

/-- The files that are not used. -/
def freeFiles (files : List File) : ℕ := files.countP fun f => f.ref = 0

/-! ## `allocuvm` -/

/-- The size of a process says which pages it has. -/
lemma Space.exact (hown : Owns K m (Tree m r + F)) (h : Space m r sz) : Exact m r sz :=
  fun _ hva => h.present (h.size_lt hown) hva

/-- `allocuvm` goes through exactly if there are the pages that are missing. -/
lemma allocHandled_iff (hown : Owns K m (Tree m r + F)) (hspace : Space m r sz) (hpos : 0 < sz) :
    AllocHandled K m r sz newsz ↔ (missing m r (growth sz newsz)).card ≤ m.freelist.length := by
  have hends := allocuvm_ends newsz hown hspace hpos
  have hnone : ¬ (newsz < KERNBASE ∧ sz ≤ newsz) → (missing m r (growth sz newsz)).card = 0 := by
    intro h
    rw [growth, if_neg h]
    rfl
  constructor
  · rintro ⟨sz', m', hrun, -⟩
    obtain ⟨-, hk, -⟩ | ⟨-, hlt, -⟩ | ⟨-, -, -, hgrown, -⟩ := hends.of_ok hrun
    · rw [hnone fun h => absurd h.1 (Nat.not_lt.mpr hk)]
      exact Nat.zero_le _
    · rw [hnone fun h => absurd h.2 (Nat.not_le.mpr hlt)]
      exact Nat.zero_le _
    · have := hgrown.free
      omega
  · intro hle
    obtain ⟨sz', m', hrun, hres⟩ := hends.returns fun e he => absurd he.2 (Nat.not_lt.mpr hle)
    refine ⟨sz', m', hrun, ?_⟩
    obtain ⟨rfl, -, rfl⟩ | ⟨rfl, -, rfl⟩ | ⟨rfl, hle', -, hgrown, hspace'⟩ := hres
    · exact .inl ⟨rfl, fun _ _ => rfl, rfl⟩
    · exact .inr ⟨hpos.ne', hspace.exact hown⟩
    · exact .inr ⟨by omega, hspace'.exact hgrown.owns⟩

/-! ## `fork` -/

/-- Without a free slot `fork` does nothing. -/
lemma fork_of_no_slot (huser : (s.proc p).pc = .user) (hnone : findUnused s = none) :
    fork K s p = .ok s := by
  unfold fork allocproc
  simp only [hnone, huser]

/-- `fork` with a slot: it takes the kernel stack and what `copyuvm` takes, or there is not enough. -/
theorem fork_of_slot (h : Inv K k weak s) (hlive : (s.proc p).status = .live)
    (huser : (s.proc p).pc = .user) (hready : HasSpace s p) (hnp : findUnused s = some np) :
    (∃ t d, fork K s p = .ok t ∧ (t.proc np).status = .live ∧ (t.proc np).pgdir = some d ∧
      (t.proc np).sz = (s.proc p).sz ∧ Exact t.mem d (s.proc p).sz ∧
      1 + copyNeed (s.proc p).sz ≤ s.mem.freelist.length) ∨
    ((∃ e, fork K s p = .error e) ∧ s.mem.freelist.length < 1 + copyNeed (s.proc p).sz) := by
  have hunused := findUnused_unused hnp
  have hne : p ≠ np := by
    rintro rfl
    rw [hlive] at hunused
    cases hunused
  have hout := allocproc_outcome h hlive huser hready
  -- the first page is the child's kernel stack
  cases hfree : s.mem.freelist with
  | nil =>
    refine .inr ⟨⟨.outOfMemory, ?_⟩, ?_⟩
    · unfold fork allocproc
      simp only [hnp, Sys.onMem, kalloc_nil hfree]
    · unfold copyNeed
      rw [List.length_nil]
      omega
  | cons f next =>
    obtain ⟨s₁, hs₁⟩ : ∃ s₁, s₁ = (Sys.setProc { s with mem := { s.mem with freelist := next } } np
      { s.proc np with status := .embryo, kstack := some f, pc := .user }).setPc p (.fork np) := ⟨_, rfl⟩
    have halloc : allocproc s p = .ok s₁ := by
      rw [hs₁]
      unfold allocproc
      simp only [hnp, Sys.onMem, kalloc_cons hfree]
    rw [halloc] at hout
    cases hout with
    | ok hinv =>
    have hp : s₁.proc p = { s.proc p with pc := .fork np } := by
      rw [hs₁]
      unfold Sys.setPc
      rw [setProc_proc_self, setProc_proc_of_ne hne]
    have hlive₁ : (s₁.proc p).status = .live := by rw [hp]; exact hlive
    have hpc₁ : (s₁.proc p).pc = .fork np := by rw [hp]
    have hsz₁ : (s₁.proc p).sz = (s.proc p).sz := by rw [hp]
    have hfree₁ : s₁.mem.freelist = next := by rw [hs₁]; rfl
    obtain ⟨r, hruns⟩ := hinv.runs hlive₁ (by rw [hpc₁]; simp)
    have hown := hruns.owns
    rw [hpc₁] at hown
    simp only [Pc.pages, zero_add] at hown
    have hends := copyOrUndo_ends ((s₁.proc np).kstack.getD 0) hown hruns.space
    have hgetD : (s₁.proc p).pgdir.getD 0 = r := by rw [hruns.pgdir, Option.getD_some]
    have hfork : fork K s p = forkCopy K s₁ p np := by
      unfold fork
      simp only [halloc, hpc₁]
    rw [hfork]
    unfold forkCopy Sys.onMem
    simp only [hgetD]
    unfold Ends at hends
    -- then `copyuvm`, and the pages add up
    cases hrun : (copyOrUndo K r (s₁.proc p).sz ((s₁.proc np).kstack.getD 0)).run s₁.mem with
    | ok o =>
      rw [hrun] at hends
      obtain ⟨o, m'⟩ := o
      obtain ⟨d, rfl, hcopied⟩ := hends
      have hcount := hcopied.free
      have hself : ∀ P', ((Sys.setProc { s₁ with mem := m' } np P').setPc p .user).proc np = P' := by
        intro P'
        unfold Sys.setPc
        rw [setProc_proc_of_ne hne.symm, setProc_proc_self]
      left
      refine ⟨_, d, rfl, ?_⟩
      simp only [hself]
      refine ⟨trivial, trivial, hsz₁, ?_, ?_⟩
      · rw [← hsz₁]
        exact hcopied.space.exact hcopied.owns
      · rw [hsz₁, hfree₁] at hcount
        rw [List.length_cons]
        omega
    | error e =>
      rw [hrun] at hends
      have hshort := hends.2
      right
      refine ⟨⟨e, rfl⟩, ?_⟩
      rw [hsz₁, hfree₁] at hshort
      rw [List.length_cons]
      omega

/-- `fork` goes through exactly if there is no slot, or there are pages for the copy. -/
lemma forkHandled_iff (h : Inv K k weak s) (hlive : (s.proc p).status = .live)
    (huser : (s.proc p).pc = .user) (hready : HasSpace s p) :
    ForkHandled K s p ↔
      findUnused s = none ∨ 1 + copyNeed (s.proc p).sz ≤ s.mem.freelist.length := by
  cases hnp : findUnused s with
  | none => exact ⟨fun _ => .inl rfl, fun _ => ⟨s, fork_of_no_slot huser hnp, .inl rfl⟩⟩
  | some np =>
    obtain ⟨t, d, hfork, hst, hd, hsz, hexact, hle⟩ | ⟨⟨e, hfork⟩, hlt⟩ :=
      fork_of_slot h hlive huser hready hnp
    · refine ⟨fun _ => .inr hle, fun _ => ⟨t, hfork, .inr ⟨np, d, findUnused_unused hnp, hst, hd, hsz, hexact⟩⟩⟩
    · constructor
      · rintro ⟨t, ht, -⟩
        rw [hfork] at ht
        cases ht
      · rintro (h | h)
        · cases h
        · omega

/-! ## `pipealloc` -/

/-- The first free file is taken: there is one free file less. -/
lemma filealloc_eq_some {i : ℕ} {files' : List File} (h : filealloc files = some (i, files')) :
    freeFiles files = freeFiles files' + 1 ∧
      ((∀ f ∈ files, f.ref = 0 → f.pipe = none) → fileclose files' i = files) := by
  unfold filealloc at h
  cases hidx : files.findIdx? fun f => f.ref = 0 with
  | none =>
    rw [hidx] at h
    cases h
  | some j =>
    rw [hidx] at h
    obtain ⟨rfl, rfl⟩ := Prod.mk.inj (Option.some.inj h)
    clear h
    unfold freeFiles fileclose
    induction files generalizing j with
    | nil => cases hidx
    | cons f files ih =>
      rw [List.findIdx?_cons] at hidx
      by_cases hf : f.ref = 0
      · rw [if_pos (by simpa using hf)] at hidx
        obtain rfl := Option.some.inj hidx
        simp only [List.modify_zero_cons]
        constructor
        · rw [List.countP_cons_of_pos (by simpa using hf), List.countP_cons_of_neg (by simp)]
        · intro hpipe
          obtain ⟨ref, pipe, readable, writable⟩ := f
          have hnone := hpipe _ List.mem_cons_self hf
          simp only at hf hnone
          subst hf hnone
          rfl
      · rw [if_neg (by simpa using hf), Option.map_eq_some_iff] at hidx
        obtain ⟨i, hi, rfl⟩ := hidx
        obtain ⟨hcount, hclose⟩ := ih i hi
        simp only [List.modify_succ_cons]
        constructor
        · rw [List.countP_cons_of_neg (by simpa using hf), List.countP_cons_of_neg (by simpa using hf), hcount]
        · intro hpipe
          rw [hclose fun g hg => hpipe g (List.mem_cons_of_mem _ hg)]

/-- `filealloc` fails only if no file is free. -/
lemma filealloc_eq_none (h : filealloc files = none) : freeFiles files = 0 := by
  unfold filealloc at h
  cases hidx : files.findIdx? fun f => f.ref = 0 with
  | some j =>
    rw [hidx] at h
    cases h
  | none =>
    unfold freeFiles
    rw [List.countP_eq_zero]
    intro f hf
    rw [List.findIdx?_eq_none_iff.mp hidx f hf]
    exact Bool.false_ne_true

/-- `pipe` goes through exactly if there are not two free files, or there is a page. -/
lemma pipeHandled_iff (hfiles : ∀ f ∈ files, f.ref = 0 → f.pipe = none) :
    PipeHandled m files ↔ (2 ≤ freeFiles files → 1 ≤ m.freelist.length) := by
  unfold PipeHandled pipealloc
  cases h0 : filealloc files with
  | none =>
    have hzero := filealloc_eq_none h0
    refine ⟨fun _ h2 => by omega, fun _ => ⟨none, files, m, rfl, fun _ => ⟨rfl, rfl⟩⟩⟩
  | some a =>
    obtain ⟨f0, files₁⟩ := a
    obtain ⟨hcount, hclose⟩ := filealloc_eq_some h0
    simp only
    cases h1 : filealloc files₁ with
    | none =>
      have hzero := filealloc_eq_none h1
      exact ⟨fun _ h2 => by omega, fun _ => ⟨none, _, m, rfl, fun _ => ⟨hclose hfiles, rfl⟩⟩⟩
    | some b =>
      obtain ⟨f1, files₂⟩ := b
      have hcount₁ := (filealloc_eq_some h1).1
      simp only [StateT.run_bind]
      cases hfree : m.freelist with
      | nil =>
        constructor
        · rintro ⟨o, files', m', hrun, -⟩
          rw [kalloc_nil hfree] at hrun
          cases hrun
        · intro h
          have := h (by omega)
          simp at this
      | cons f next =>
        rw [kalloc_cons hfree]
        refine ⟨fun _ _ => by simp, fun _ => ⟨some f, _, { m with freelist := next }, rfl, fun h => ?_⟩⟩
        cases h

/-- **The calls end as they should if and only if there are enough pages**, in every state that the
machine reaches and for every process that can make a call there. -/
theorem out_of_memory_iff (newsz rip : ℕ) (files : List File) (hs : Started K s₀)
    (hrun : Runs.run (machine K) s₀ acts = some s) (hlive : (s.proc p).status = .live)
    (huser : (s.proc p).pc = .user) (hfetch : fetches s p rip)
    (hr : (s.proc p).pgdir = some r) (hfiles : ∀ f ∈ files, f.ref = 0 → f.pipe = none) :
    (AllocHandled K s.mem r (s.proc p).sz newsz ↔
      (missing s.mem r (growth (s.proc p).sz newsz)).card ≤ s.mem.freelist.length) ∧
    (ForkHandled K s p ↔ findUnused s = none ∨ 1 + copyNeed (s.proc p).sz ≤ s.mem.freelist.length) ∧
    (PipeHandled s.mem files ↔ (2 ≤ freeFiles files → 1 ≤ s.mem.freelist.length)) := by
  have hinv := machine_run hs hrun
  have hready := hinv.hasSpace_of_fetches (.inl hlive) hfetch
  refine ⟨?_, forkHandled_iff hinv hlive huser hready, pipeHandled_iff hfiles⟩
  obtain ⟨r', hruns⟩ := hinv.runs hlive fun _ => hready
  have hr' := hruns.pgdir
  rw [hr] at hr'
  obtain rfl := Option.some.inj hr'
  have hown := hruns.owns
  rw [huser] at hown
  simp only [Pc.pages, zero_add] at hown
  exact allocHandled_iff hown hruns.space hruns.pos

/-- The first process grows to four pages. -/
def growActs : List Act := [.call initproc PGSIZE (.sbrk 4200)]

/-- The standard output, and two files that are not used. -/
def threeFiles : List File := [⟨1, none, false, true⟩, ⟨0, none, false, false⟩, ⟨0, none, false, false⟩]

/-- The six pages that are left are enough for one more page of memory and for a pipe, but not for a child. -/
theorem out_of_memory_iff_growActs : ∃ s, Runs.run (machine smallKernel) smallSys growActs = some s ∧
    AllocHandled smallKernel s.mem 57340 (s.proc initproc).sz (5 * PGSIZE) ∧
    ¬ ForkHandled smallKernel s initproc ∧ PipeHandled s.mem threeFiles := by
  have hrun : (Runs.run (machine smallKernel) smallSys growActs).map (fun s =>
      ((s.proc initproc).status, (s.proc initproc).pc, (s.proc initproc).pgdir,
        decide (fetches s initproc PGSIZE)))
      = some (.live, .user, some 57340, true) := by
    decide +kernel
  obtain ⟨s, hs, hvals⟩ := Option.map_eq_some_iff.mp hrun
  simp only [Prod.mk.injEq, decide_eq_true_eq] at hvals
  obtain ⟨hlive, huser, hold, hfetch⟩ := hvals
  have hneed : (Runs.run (machine smallKernel) smallSys growActs).map (fun s =>
      ((missing s.mem 57340 (growth (s.proc initproc).sz (5 * PGSIZE))).card, (findUnused s).isSome,
        copyNeed (s.proc initproc).sz, s.mem.freelist.length))
      = some (1, true, 7, 6) := by
    decide +kernel
  rw [hs, Option.map_some, Option.some.injEq] at hneed
  simp only [Prod.mk.injEq] at hneed
  obtain ⟨hgrow, hslot, hcopy, hfree⟩ := hneed
  obtain ⟨halloc, hfork, hpipe⟩ := out_of_memory_iff (p := initproc) (5 * PGSIZE) PGSIZE threeFiles
    started_smallSys hs hlive huser hfetch hold (by decide)
  refine ⟨s, hs, halloc.mpr (by omega), fun hok => ?_, hpipe.mpr fun _ => by omega⟩
  obtain hnone | hle := hfork.mp hok
  · rw [hnone] at hslot
    cases hslot
  · omega

/-- With eight free pages, `sbrk` for sixteen stops the system. -/
theorem not_handled_smallSys : Started smallKernel smallSys ∧ fetches smallSys initproc PGSIZE ∧
    trans smallKernel smallSys (.call initproc PGSIZE (.sbrk 65536)) = some (.error .outOfMemory) ∧
    ¬ AllocHandled smallKernel smallSys.mem 57340 (2 * PGSIZE) (18 * PGSIZE) := by
  refine ⟨started_smallSys, by decide +kernel, eq_of_panicOf (by decide +kernel), ?_⟩
  have hnone : result (allocuvm smallKernel 57340 (2 * PGSIZE) (18 * PGSIZE)) smallSys.mem = none := by
    decide +kernel
  rintro ⟨sz', m', hrun, -⟩
  unfold result at hnone
  rw [hrun] at hnone
  cases hnone

end Vm
end OhMyXv6
