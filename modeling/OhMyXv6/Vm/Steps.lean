import OhMyXv6.Vm.Own

/-!
# Every step keeps the invariant

One lemma for each kind of step. A process that is in user mode has to have its memory for the step
(`Ready`), and if the invariant is to be the strong one then `sbrk` must not be asked for a size of 0.
-/

namespace OhMyXv6
namespace Vm

open Radix Fallible

variable {K : Kernel} {m m' : Mem} {r f d sz : ℕ} {F X : Multiset ℕ} {s t : Sys} {p q np : Slot} {P P' : Proc}
  {weak : Prop} {k : ℕ → Pte} {α : Type}

-- `KERNBASE` is not to be counted down to when two programs are compared
attribute [local irreducible] allocuvm

/-- The panics that a step may end in. -/
def Fatal (e : Panic) : Prop := e = .outOfMemory ∨ e = .loaduvmAddress

/-- How a step may end. -/
inductive Outcome (R : Sys → Prop) : Except Panic Sys → Prop where
  | ok {t : Sys} (h : R t) : Outcome R (.ok t)
  | error {e : Panic} (h : Fatal e) : Outcome R (.error e)

/-- A step that is one call of a function of `vm.c`. -/
lemma onMem_outcome {x : V α} {g : α → Sys → Sys} {E : Panic → Prop} {Q : α → Mem → Prop} {R : Sys → Prop}
    (h : Ends E x Q s.mem) (hE : ∀ e, E e → Fatal e) (hQ : ∀ a m', Q a m' → R (g a { s with mem := m' })) :
    Outcome R (s.onMem x g) := by
  unfold Sys.onMem
  unfold Ends at h
  cases hx : x.run s.mem with
  | ok o =>
    rw [hx] at h
    exact .ok (hQ o.1 o.2 h)
  | error e =>
    rw [hx] at h
    exact .error (hE e h)

/-- A full memory is one way for the system to stop. -/
lemma Short.fatal {P : Finset (List ℕ)} {e : Panic} (h : Short m r P e) : Fatal e := .inl h.1

/-- The process has the pages of its size. -/
def HasSpace (s : Sys) (p : Slot) : Prop := ∀ r, (s.proc p).pgdir = some r → Space s.mem r (s.proc p).sz

/-- What a live process has. -/
structure Runs (K : Kernel) (s : Sys) (p : Slot) (r : ℕ) : Prop where
  pgdir : (s.proc p).pgdir = some r
  pos : 0 < (s.proc p).sz
  half : Half K s.mem r
  space : Space s.mem r (s.proc p).sz
  owns : Owns K s.mem ((s.proc p).pc.pages s.mem +
    (Tree s.mem r + (optPage (s.proc p).kstack + s.rest K p)))

/-- A live process has its page table, as large as its size says. -/
lemma Inv.runs (h : Inv K k weak s) (hlive : (s.proc p).status = .live)
    (hready : (s.proc p).pc = .user → HasSpace s p) : ∃ r, Runs K s p r := by
  obtain ⟨r, hr, hpos, hhalf, hspace⟩ := (h.good p).space (.inl hlive)
  refine ⟨r, hr, hpos, hhalf, ?_, ?_⟩
  · obtain hspace | ⟨-, huser, -⟩ := hspace
    · exact hspace
    · exact hready huser r hr
  · have hown := h.owns
    rw [used_eq p, pages_of_space (.inl hlive), hr] at hown
    simp only [optTree, Option.elim_some, add_assoc] at hown
    exact hown

/-- Nobody is about to copy into a process that is not an embryo. -/
theorem Inv.not_forked (h : Inv K k weak s) (hst : (s.proc p).status ≠ .embryo) (q : Slot) :
    (s.proc q).pc ≠ .fork p := fun hq => hst (h.fork q p hq)

lemma optPage_some : optPage (some f) = {f} := rfl

/-- The pages of a live process with another page table. -/
lemma pages_live {pc : Pc} (h : P.status = .live) :
    Proc.pages m { P with pgdir := some r, sz := sz, pc := pc } =
      pc.pages m + (Tree m r + optPage P.kstack) := by
  unfold Proc.pages
  simp only [h, optTree, Option.elim_some]

/-- Where a process is does not matter, if it has the same pages there. -/
lemma pages_setPc {pc : Pc} (h : P.status = .live) (hpc : pc.pages m = P.pc.pages m) :
    Proc.pages m { P with pc := pc } = P.pages m := by
  unfold Proc.pages
  simp only [h, hpc]

/-- **A step of a live process that stays alive**, from what it has afterwards. -/
theorem Inv.live (h : Inv K k weak s) (pc : Pc) (hlive : (s.proc p).status = .live) (hr : Half K m' r)
    (hpos : 0 < sz) (hspace : Space m' r sz ∨ weak ∧ pc = .user ∧ Space m' r 0) (hpc : pc.Good K m')
    (hfork : ∀ np, pc ≠ .fork np)
    (hown : Owns K m' (pc.pages m' + (Tree m' r + (optPage (s.proc p).kstack + s.rest K p))))
    (hframe : ∀ g ∈ s.rest K p, m'.table g = s.mem.table g) :
    Inv K k weak (Sys.setProc { s with mem := m' } p
      { s.proc p with pgdir := some r, sz := sz, pc := pc }) := by
  have hne : (s.proc p).status ≠ .embryo := by
    rw [hlive]
    decide
  apply h.update p
  · rw [pages_live hlive, add_assoc, add_assoc]
    exact hown
  · exact hframe
  · refine ⟨fun hst => (hst hlive).elim, ?_, fun _ => ⟨r, rfl, hpos, hr, hspace⟩, hpc⟩
    intro _
    exact (h.good p).stack (by rw [hlive]; decide)
  · exact fun np hnp => (hfork np hnp).elim
  · exact fun q hq => (h.not_forked hne q hq).elim

/-! ## `sbrk` -/

/-- `sbrk` keeps the invariant, or the memory is full. -/
lemma sbrk_outcome {n : Int64} (h : Inv K k weak s) (hlive : (s.proc p).status = .live)
    (huser : (s.proc p).pc = .user) (hready : HasSpace s p)
    (hweak : n.toInt < 0 → askedSize (s.proc p).sz n = 0 → weak) :
    Outcome (Inv K k weak) (sbrk K s p n) := by
  obtain ⟨r, hrun⟩ := h.runs hlive fun _ => hready
  have hown := hrun.owns
  rw [huser] at hown
  simp only [Pc.pages, zero_add] at hown
  have hgetD : (s.proc p).pgdir.getD 0 = r := by rw [hrun.pgdir, Option.getD_some]
  unfold sbrk
  simp only [hgetD]
  apply onMem_outcome (growproc_ends (n := n) hown hrun.space hrun.pos)
  · exact fun e he => he.2.fatal
  rintro ⟨ok, sz'⟩ m' ⟨hchanged, hresult⟩
  have hhalf : Half K m' r := by
    unfold Half
    rw [hchanged.half 256 (by unfold NPDENTRIES; omega)]
    exact hrun.half
  have hown' : Owns K m' (Pc.user.pages m' +
      (Tree m' r + (optPage (s.proc p).kstack + s.rest K p))) := by
    simp only [Pc.pages, zero_add]
    exact hchanged.owns
  have hframe : ∀ g ∈ s.rest K p, m'.table g = s.mem.table g :=
    fun g hg => hchanged.frame g (Multiset.mem_add.mpr (.inr hg))
  have hgoal : ∀ hpos : 0 < sz', (Space m' r sz' ∨ weak ∧ Pc.user = .user ∧ Space m' r 0) →
      Inv K k weak (Sys.setProc { s with mem := m' } p { s.proc p with sz := sz' }) := by
    intro hpos hspace
    have hinv := h.live .user hlive hhalf hpos hspace trivial (by simp) hown' hframe
    rw [← hrun.pgdir, ← huser] at hinv
    exact hinv
  -- success, no change at all, or the shrink to size 0
  obtain ⟨-, hspace, hpos⟩ | ⟨-, hsz, hm⟩ | ⟨-, hsz, hneg, hzero, hspace⟩ := hresult
  · exact hgoal hpos (.inl hspace)
  · simp only at hsz
    subst hsz hm
    exact hgoal hrun.pos (.inl hrun.space)
  · simp only at hsz
    subst hsz
    exact hgoal hrun.pos (.inr ⟨hweak hneg hzero, rfl, hspace⟩)

/-! ## `fork` -/

lemma setProc_proc_self : (s.setProc p P).proc p = P := Function.update_self _ _ _

lemma setProc_proc_of_ne (h : q ≠ p) : (s.setProc p P).proc q = s.proc q := Function.update_of_ne h _ _

/-- A live process in user mode is about to copy into an embryo that nobody else copies into. -/
theorem Inv.setFork (h : Inv K k weak s) (hlive : (s.proc p).status = .live) (huser : (s.proc p).pc = .user)
    (hspace : HasSpace s p) (hemb : (s.proc np).status = .embryo)
    (hnew : ∀ q, (s.proc q).pc ≠ .fork np) : Inv K k weak (s.setPc p (.fork np)) := by
  have hnp : np ≠ p := by
    rintro rfl
    rw [hlive] at hemb
    cases hemb
  have hself : (s.setPc p (.fork np)).proc p = { s.proc p with pc := .fork np } := setProc_proc_self
  have hother : ∀ q, q ≠ p → (s.setPc p (.fork np)).proc q = s.proc q := fun q hq => setProc_proc_of_ne hq
  -- the child's pages are its own, not the parent's
  have hpages : ({ s.proc p with pc := .fork np } : Proc).pages s.mem = (s.proc p).pages s.mem := by
    apply pages_setPc hlive
    rw [huser]
    simp only [Pc.pages]
  constructor
  · have hrest : (s.setPc p (.fork np)).rest K p = s.rest K p := rest_congr hother rfl fun _ _ => rfl
    rw [used_eq p, hself, hrest]
    show Owns K s.mem (Proc.pages s.mem _ + _)
    rw [hpages, ← used_eq p]
    exact h.owns
  · intro q
    by_cases hqp : q = p
    · subst hqp
      rw [hself]
      have hgood := h.good q
      refine ⟨fun hst => (hst hlive).elim, hgood.stack, fun hst => ?_, trivial⟩
      obtain ⟨r, hr, hpos, hhalf, -⟩ := hgood.space hst
      exact ⟨r, hr, hpos, hhalf, .inl (hspace r hr)⟩
    · rw [hother q hqp]
      exact h.good q
  · intro q np' hq
    by_cases hqp : q = p
    · subst hqp
      rw [hself] at hq
      obtain rfl := Pc.fork.inj hq
      rw [hother _ hnp]
      exact hemb
    · rw [hother q hqp] at hq
      have hst := h.fork q np' hq
      have hnp' : np' ≠ p := by
        rintro rfl
        rw [hlive] at hst
        cases hst
      rw [hother _ hnp']
      exact hst
  · intro q q' np' hq hq'
    by_cases hqp : q = p
    · subst hqp
      by_cases hqp' : q' = q
      · exact hqp'.symm
      · rw [hself] at hq
        obtain rfl := Pc.fork.inj hq
        rw [hother q' hqp'] at hq'
        exact (hnew q' hq').elim
    · rw [hother q hqp] at hq
      by_cases hqp' : q' = p
      · subst hqp'
        rw [hself] at hq'
        obtain rfl := Pc.fork.inj hq'
        exact (hnew q hq).elim
      · rw [hother q' hqp'] at hq'
        exact h.fork_inj q q' np' hq hq'
  · exact h.kernel

/-- The slot that is found is free. -/
lemma findUnused_unused (h : findUnused s = some np) : (s.proc np).status = .unused := by
  unfold findUnused at h
  simpa using List.find?_some h

lemma pages_unused (h : P.status = .unused) : P.pages m = 0 := by
  unfold Proc.pages
  rw [h]

/-- A new process has its kernel stack. -/
lemma pages_embryo (h : P.status = .embryo) : P.pages m = optPage P.kstack := by
  unfold Proc.pages
  rw [h]

lemma kalloc_fatal {e : Panic} (h : e = .outOfMemory ∧ m.freelist = []) : Fatal e := .inl h.1

lemma allocproc_outcome (h : Inv K k weak s) (hlive : (s.proc p).status = .live)
    (huser : (s.proc p).pc = .user) (hready : HasSpace s p) :
    Outcome (Inv K k weak) (allocproc s p) := by
  unfold allocproc
  cases hnp : findUnused s with
  | none => exact .ok h
  | some np =>
    have hunused := findUnused_unused hnp
    have hne : p ≠ np := by
      rintro rfl
      rw [hlive] at hunused
      cases hunused
    apply onMem_outcome kalloc_ends fun e he => kalloc_fatal he
    rintro o m' ⟨f, next, rfl, hfree, rfl⟩
    have hfork : ∀ q, (s.proc q).pc ≠ .fork np := h.not_forked (by rw [hunused]; decide)
    have hown := h.owns.take hfree
    rw [used_eq np, pages_unused hunused, zero_add, ← Multiset.singleton_add] at hown
    -- first the embryo, then the pc of the parent
    have hembryo := h.update np { s.mem with freelist := next }
      { s.proc np with status := .embryo, kstack := some f, pc := .user }
      (by rw [pages_embryo rfl]; exact hown) (fun _ _ => rfl)
      ⟨fun _ => rfl, fun _ => rfl, by simp, trivial⟩ (by simp) (fun q hq => rfl)
    apply hembryo.setFork
    · rw [setProc_proc_of_ne hne]
      exact hlive
    · rw [setProc_proc_of_ne hne]
      exact huser
    · intro r hr
      rw [setProc_proc_of_ne hne] at hr ⊢
      exact space_congr (m := s.mem) (fun _ _ => rfl) (hready r hr)
    · rw [setProc_proc_self]
    · intro q hq
      by_cases hqn : q = np
      · subst hqn
        rw [setProc_proc_self] at hq
        cases hq
      · rw [setProc_proc_of_ne hqn] at hq
        exact hfork q hq

/-- The parent is back in user mode. -/
lemma Inv.setUser (h : Inv K k weak s) (hlive : (s.proc p).status = .live)
    (hfork : (s.proc p).pc = .fork np) : Inv K k weak (s.setPc p .user) := by
  obtain ⟨r, hrun⟩ := h.runs hlive (by rw [hfork]; simp)
  have hown := hrun.owns
  rw [hfork] at hown
  simp only [Pc.pages] at hown
  have hinv := h.live .user hlive hrun.half hrun.pos (.inl hrun.space) trivial (by simp)
    (by simpa only [Pc.pages] using hown) fun _ _ => rfl
  rw [← hrun.pgdir] at hinv
  exact hinv

/-- Two processes are changed in any order. -/
lemma setProc_comm (hne : p ≠ q) : (s.setProc p P).setProc q P' = (s.setProc q P').setProc p P := by
  unfold Sys.setProc
  simp only [Function.update_comm hne]

/-- `copyuvm` does not fail without a panic. -/
lemma copyOrUndo_ends (kstack : ℕ) (hown : Owns K m (Tree m r + F)) (hspace : Space m r sz) :
    Ends (fun e => e = .outOfMemory ∧ m.freelist.length < copyNeed sz)
      (copyOrUndo K r sz kstack) (fun o m' => ∃ d, o = some d ∧ Copied K m m' r d sz F) m := by
  unfold copyOrUndo
  apply (copyuvm_ends hown hspace).seq
  rintro o m' ⟨d, rfl, hcopied⟩
  exact ⟨d, rfl, hcopied⟩

lemma forkCopy_outcome (h : Inv K k weak s) (hlive : (s.proc p).status = .live)
    (hfork : (s.proc p).pc = .fork np) : Outcome (Inv K k weak) (forkCopy K s p np) := by
  obtain ⟨r, hrun⟩ := h.runs hlive (by rw [hfork]; simp)
  have hemb := h.fork p np hfork
  have hne : p ≠ np := by
    rintro rfl
    rw [hlive] at hemb
    cases hemb
  obtain ⟨f, hf⟩ := Option.isSome_iff_exists.mp ((h.good np).stack (by rw [hemb]; decide))
  have hown := hrun.owns
  rw [hfork] at hown
  simp only [Pc.pages, zero_add] at hown
  -- what is in use, seen from the parent and from the child
  have hused : Tree s.mem r + (optPage (s.proc p).kstack + s.rest K p) = {f} + s.rest K np := by
    have hp := used_eq (K := K) (s := s) p
    have hnp := used_eq (K := K) (s := s) np
    rw [pages_embryo hemb, hf, optPage_some] at hnp
    rw [pages_of_space (.inl hlive), hfork, hrun.pgdir] at hp
    simp only [Pc.pages, zero_add, optTree, Option.elim_some, add_assoc] at hp
    rw [← hp, hnp]
  have hgetD : (s.proc p).pgdir.getD 0 = r := by rw [hrun.pgdir, Option.getD_some]
  unfold forkCopy
  simp only [hgetD]
  apply onMem_outcome (copyOrUndo_ends _ hown hrun.space) fun e he => .inl he.1
  rintro o m' ⟨d, rfl, hcopied⟩
  have howns := hcopied.owns
  have hframe := hcopied.frame
  rw [hused] at howns hframe
  have hparent := h.setUser hlive hfork
  have hnobody : ∀ q, ((s.setPc p .user).proc q).pc ≠ .fork np := by
    intro q hq
    by_cases hqp : q = p
    · subst hqp
      unfold Sys.setPc at hq
      rw [setProc_proc_self] at hq
      cases hq
    · unfold Sys.setPc at hq
      rw [setProc_proc_of_ne hqp] at hq
      exact hqp (h.fork_inj q p np hq hfork)
  have hrest : (s.setPc p .user).rest K np = s.rest K np := by
    have hp := used_eq (K := K) (s := s.setPc p .user) p
    have hnp := used_eq (K := K) (s := s.setPc p .user) np
    have hnp' : (s.setPc p .user).proc np = s.proc np := setProc_proc_of_ne hne.symm
    have hp' : (s.setPc p .user).proc p = { s.proc p with pc := .user } := setProc_proc_self
    have hpages : ({ s.proc p with pc := .user } : Proc).pages s.mem = (s.proc p).pages s.mem := by
      apply pages_setPc hlive
      rw [hfork]
      simp only [Pc.pages]
    have hrestp : (s.setPc p .user).rest K p = s.rest K p :=
      rest_congr (fun q hq => setProc_proc_of_ne hq) rfl fun _ _ => rfl
    have hmem : (s.setPc p .user).mem = s.mem := rfl
    rw [hnp', hmem] at hnp
    rw [hp', hrestp, hmem, hpages, ← used_eq p, hnp, used_eq np] at hp
    exact add_left_cancel hp
  have hchild := hparent.update np m'
    { s.proc np with status := .live, parent := some p, pgdir := some d, sz := (s.proc p).sz }
    (by
      have hpc : (s.proc np).pc = .user := (h.good np).idle (by rw [hemb]; decide)
      rw [hrest, pages_of_space (.inl rfl)]
      simp only [hpc, hf, Pc.pages, zero_add, optTree, Option.elim_some, optPage_some, add_assoc]
      exact howns)
    (by
      rw [hrest]
      intro g hg
      exact hframe g (Multiset.mem_add.mpr (.inr hg)))
    (by
      have hpc : (s.proc np).pc = .user := (h.good np).idle (by rw [hemb]; decide)
      refine ⟨fun hst => (hst rfl).elim, ?_, ?_, ?_⟩
      · intro _
        simp only [hf, Option.isSome_some]
      · intro _
        exact ⟨d, rfl, hrun.pos, hcopied.half, .inl hcopied.space⟩
      · simp only [hpc]
        trivial)
    (by
      intro np' hnp'
      have hpc : (s.proc np).pc = .user := (h.good np).idle (by rw [hemb]; decide)
      simp only [hpc] at hnp'
      cases hnp')
    (fun q hq => (hnobody q hq).elim)
  have hcomm : ∀ P', (Sys.setProc { s with mem := m' } np P').setPc p .user
      = Sys.setProc { s.setPc p .user with mem := m' } np P' := by
    intro P'
    unfold Sys.setPc
    rw [setProc_proc_of_ne hne, setProc_comm hne.symm]
    rfl
  show Inv K k weak ((Sys.setProc { s with mem := m' } np _).setPc p .user)
  rw [hcomm]
  exact hchild

/-! ## `exec` -/

lemma exec_outcome (h : Inv K k weak s) (hlive : (s.proc p).status = .live)
    (huser : (s.proc p).pc = .user) (hready : HasSpace s p) :
    Outcome (Inv K k weak) (call K s p .exec) := by
  obtain ⟨r, hrun⟩ := h.runs hlive fun _ => hready
  have hown := hrun.owns
  rw [huser] at hown
  simp only [Pc.pages, zero_add] at hown
  rw [call]
  apply onMem_outcome (setupkvm_ends hown) fun e he => kalloc_fatal he
  rintro o m' ⟨d, rfl, hfresh⟩
  have htree : ∀ g ∈ Tree s.mem r, m'.table g = s.mem.table g :=
    fun g hg => hfresh.frame g (Multiset.mem_add.mpr (.inl hg))
  have howns := hfresh.owns
  rw [← tree_congr htree] at howns
  have hinv := h.live (.exec d PGSIZE) hlive (half_congr htree hrun.half) hrun.pos
    (.inl (space_congr htree hrun.space)) ⟨hfresh.space rfl, by decide, hfresh.half⟩ (by simp)
    (by simpa only [Pc.pages] using howns) fun g hg => by
      apply hfresh.frame g
      exact Multiset.mem_add.mpr (.inr (Multiset.mem_add.mpr (.inr hg)))
  rw [← hrun.pgdir] at hinv
  exact hinv

/-- A segment changes the new page table only. -/
lemma execSegment_ends {ph : Proghdr} {ok : ℕ → Bool} (hown : Owns K m (Tree m d + F))
    (hspace : Space m d sz) (hpos : 0 < sz) : Ends Fatal (execSegment K d sz ph ok)
      (fun o m' => Changed K m m' d F ∧ ∀ sz', o = some sz' → Space m' d sz' ∧ 0 < sz') m := by
  have hnone : Changed K m m d F ∧ ∀ sz', (none : Option ℕ) = some sz' → Space m d sz' ∧ 0 < sz' :=
    ⟨Changed.refl hown, fun _ h => by cases h⟩
  unfold execSegment
  by_cases hload : ph.load
  · simp only [hload, Bool.not_true, Bool.false_eq_true, if_false]
    by_cases hsize : ph.memsz < ph.filesz
    · rw [if_pos hsize]
      exact hnone
    rw [if_neg hsize]
    by_cases hwrap : ph.vaddr + ph.memsz < ph.vaddr
    · rw [if_pos hwrap]
      exact hnone
    rw [if_neg hwrap]
    apply Ends.seq ((allocuvm_ends (ph.vaddr + ph.memsz).toNat hown hspace hpos).mono
      (fun _ he => he.fatal) fun _ _ h => h)
    intro sz₁ m₁ hres
    -- what is left, once the page table has the pages of `sz₁`
    have htail : Changed K m m₁ d F → (sz₁ ≠ 0 → Space m₁ d sz₁) → Ends Fatal (if sz₁ = 0 then pure none
        else if ph.vaddr.toNat % PGSIZE ≠ 0 then pure none
        else loaduvm d ph.vaddr.toNat ph.filesz.toNat ok >>= fun b =>
          if b = true then pure (some sz₁) else pure none)
        (fun o m' => Changed K m m' d F ∧ ∀ sz', o = some sz' → Space m' d sz' ∧ 0 < sz') m₁ := by
      intro hchanged hspace₁
      have hbad : Changed K m m₁ d F ∧ ∀ sz', (none : Option ℕ) = some sz' → Space m₁ d sz' ∧ 0 < sz' :=
        ⟨hchanged, fun _ h => by cases h⟩
      by_cases h0 : sz₁ = 0
      · rw [if_pos h0]
        exact hbad
      rw [if_neg h0]
      by_cases halign : ph.vaddr.toNat % PGSIZE ≠ 0
      · rw [if_pos halign]
        exact hbad
      rw [if_neg halign]
      apply Ends.seq (loaduvm_ends.mono (fun _ he => .inr he) fun _ _ h => h)
      rintro b m₂ rfl
      cases b with
      | false => exact hbad
      | true =>
        refine ⟨hchanged, fun sz' h => ?_⟩
        obtain rfl := Option.some.inj h
        exact ⟨hspace₁ h0, Nat.pos_of_ne_zero h0⟩
    obtain ⟨rfl, -, rfl⟩ | ⟨rfl, -, rfl⟩ | ⟨rfl, -, -, hgrown, hspace₁⟩ := hres
    · exact htail (Changed.refl hown) fun h => (h rfl).elim
    · exact htail (Changed.refl hown) fun _ => hspace
    · exact htail hgrown.changed fun _ => hspace₁
  · simp only [hload, Bool.not_false, if_true]
    exact ⟨Changed.refl hown, fun sz' h => by
      obtain rfl := Option.some.inj h
      exact ⟨hspace, hpos⟩⟩

lemma execStack_ends (hown : Owns K m (Tree m d + F)) (hspace : Space m d sz) (hpos : 0 < sz) :
    Ends Fatal (execStack K d sz)
      (fun o m' => Changed K m m' d F ∧ ∀ sz', o = some sz' → Space m' d sz' ∧ 0 < sz') m := by
  have hlt := hspace.size_lt hown
  have hround : PGROUNDUP sz = pages sz * PGSIZE := PGROUNDUP_eq (by unfold KERNBASE; omega)
  have hpages : pages (pages sz * PGSIZE) = pages sz := by
    unfold pages PGSIZE
    omega
  have hpos' : 0 < pages sz * PGSIZE := by
    unfold pages PGSIZE
    omega
  have hspace' : Space m d (pages sz * PGSIZE) :=
    ⟨fun v hv => by rw [hpages]; exact hspace.found v hv, by rw [hpages]; exact hspace.card⟩
  have hmod : (pages sz * PGSIZE + 2 * PGSIZE) % 2 ^ 64 = (pages sz + 2) * PGSIZE := by
    have : pages sz ≤ topFrame := hspace.pages_le hown
    rw [topFrame_eq] at this
    unfold PGSIZE
    omega
  unfold execStack
  simp only [hround, hmod]
  apply Ends.seq ((allocuvm_ends ((pages sz + 2) * PGSIZE) hown hspace' hpos').mono
    (fun _ he => he.fatal) fun _ _ h => h)
  have hne : (pages sz + 2) * PGSIZE ≠ 0 := by
    unfold PGSIZE
    omega
  -- no memory, an address over `KERNBASE`, or the two pages are there
  rintro sz₁ m₁ (⟨rfl, -, rfl⟩ | ⟨-, hsmall, -⟩ | ⟨rfl, -, -, hgrown, hspace₁⟩)
  · rw [if_pos rfl]
    exact ⟨Changed.refl hown, fun _ h => by cases h⟩
  · unfold PGSIZE at hsmall
    omega
  · rw [if_neg hne]
    have hsub : (pages sz + 2) * PGSIZE - 2 * PGSIZE = pages sz * PGSIZE := by
      unfold PGSIZE
      omega
    rw [hsub]
    have huser : pages sz < userPages := by
      have : pages sz ≤ topFrame := hspace.pages_le hown
      rw [topFrame_eq] at this
      unfold userPages
      omega
    have hfound : (find m₁ d (path (pages sz))).isSome := by
      rw [hspace₁.found _ huser]
      unfold pages PGSIZE
      omega
    -- the lower of the two becomes the guard page
    apply Ends.seq ((clearpteu_ends hgrown.owns huser hfound).mono (fun _ he => he.elim) fun _ _ h => h)
    rintro _ m₂ ⟨hchanged, hchild⟩
    refine ⟨hgrown.changed.trans hchanged, fun sz' h => ?_⟩
    obtain rfl := Option.some.inj h
    exact ⟨hspace₁.of_child hchild, Nat.pos_of_ne_zero hne⟩

/-- `exec` works on its new page table `d`, while the process still has the old one. -/
theorem execMove_outcome (x : V (Option ℕ)) (pc : ℕ → Pc) (h : Inv K k weak s)
    (hlive : (s.proc p).status = .live) (hpc : (s.proc p).pc = .exec d sz)
    (hx : ∀ F, Owns K s.mem (Tree s.mem d + F) → Ends Fatal x (fun o m' =>
      Changed K s.mem m' d F ∧ ∀ sz', o = some sz' → Space m' d sz' ∧ 0 < sz') s.mem)
    (hpages : ∀ m sz', (pc sz').pages m = Tree m d) (hfork : ∀ sz' np, pc sz' ≠ .fork np)
    (hgood : ∀ m sz', Space m d sz' ∧ 0 < sz' ∧ Half K m d → (pc sz').Good K m) :
    Outcome (Inv K k weak) (s.onMem (orBad K d x) fun r s => s.setPc p (unlessBad pc r)) := by
  obtain ⟨r, hrun⟩ := h.runs hlive (by rw [hpc]; simp)
  have hown := hrun.owns
  rw [hpc] at hown
  simp only [Pc.pages] at hown
  have hd : Half K s.mem d := by
    have := (h.good p).pc
    rw [hpc] at this
    exact this.2.2
  -- the old page table is there as before
  have hold : ∀ m' : Mem, (∀ g ∈ Tree s.mem r + (optPage (s.proc p).kstack + s.rest K p),
      m'.table g = s.mem.table g) → ∀ g ∈ Tree s.mem r, m'.table g = s.mem.table g :=
    fun m' hframe g hg => hframe g (Multiset.mem_add.mpr (.inl hg))
  have hrest : ∀ m' : Mem, (∀ g ∈ Tree s.mem r + (optPage (s.proc p).kstack + s.rest K p),
      m'.table g = s.mem.table g) → ∀ g ∈ s.rest K p, m'.table g = s.mem.table g :=
    fun m' hframe g hg => hframe g (Multiset.mem_add.mpr (.inr (Multiset.mem_add.mpr (.inr hg))))
  have hdone : ∀ (m' : Mem) (pc' : Pc), (∀ g ∈ Tree s.mem r + (optPage (s.proc p).kstack + s.rest K p),
      m'.table g = s.mem.table g) → Owns K m' (pc'.pages m' +
        (Tree s.mem r + (optPage (s.proc p).kstack + s.rest K p))) → pc'.Good K m' →
      (∀ np, pc' ≠ .fork np) → Inv K k weak (Sys.setPc { s with mem := m' } p pc') := by
    intro m' pc' hframe howns hpcgood hnofork
    rw [← tree_congr (hold m' hframe)] at howns
    have hinv := h.live pc' hlive (half_congr (hold m' hframe) hrun.half) hrun.pos
      (.inl (space_congr (hold m' hframe) hrun.space)) hpcgood hnofork howns (hrest m' hframe)
    rw [← hrun.pgdir] at hinv
    exact hinv
  apply onMem_outcome (E := Fatal) (Q := fun o m' =>
    (∀ g ∈ Tree s.mem r + (optPage (s.proc p).kstack + s.rest K p), m'.table g = s.mem.table g) ∧
    (o = none → Owns K m' (Tree s.mem r + (optPage (s.proc p).kstack + s.rest K p))) ∧
    ∀ sz', o = some sz' →
      Owns K m' (Tree m' d + (Tree s.mem r + (optPage (s.proc p).kstack + s.rest K p))) ∧
        Space m' d sz' ∧ 0 < sz' ∧ Half K m' d)
  · unfold orBad
    apply (hx _ hown).seq
    rintro o m₁ ⟨hchanged, hsome⟩
    cases o with
    | none =>
      apply Ends.seq ((freevm_ends hchanged.owns).mono (fun _ he => he.elim) fun _ _ h => h)
      intro _ m₂ hfreed
      refine ⟨fun g hg => (hfreed.frame g hg).trans (hchanged.frame g hg), fun _ => hfreed.owns, ?_⟩
      intro sz' ho
      cases ho
    | some sz' =>
      obtain ⟨hspace, hpos⟩ := hsome sz' rfl
      refine ⟨hchanged.frame, fun ho => (Option.some_ne_none _ ho).elim, fun _ ho => ?_⟩
      obtain rfl := Option.some.inj ho
      refine ⟨hchanged.owns, hspace, hpos, ?_⟩
      unfold Half
      rw [hchanged.half 256 (by unfold NPDENTRIES; omega)]
      exact hd
  · exact fun _ he => he
  rintro o m' ⟨hframe, hnone, hsome⟩
  cases o with
  | none =>
    apply hdone m' .user hframe _ trivial (by simp)
    simpa only [Pc.pages, zero_add] using hnone rfl
  | some sz' =>
    obtain ⟨howns, hres⟩ := hsome sz' rfl
    apply hdone m' (pc sz') hframe _ (hgood m' sz' hres) (hfork sz')
    rw [hpages]
    exact howns

/-- `freevm` of the page table that the call has at hand. -/
lemma free_outcome (h : Inv K k weak s) (hlive : (s.proc p).status = .live)
    (hpages : ∀ m, (s.proc p).pc.pages m = Tree m d) (hpc : (s.proc p).pc ≠ .user) :
    Outcome (Inv K k weak) (s.onMem (freevm K (some d)) fun _ s => s.setPc p .user) := by
  obtain ⟨r, hrun⟩ := h.runs hlive fun hu => (hpc hu).elim
  have hown := hrun.owns
  rw [hpages] at hown
  apply onMem_outcome (freevm_ends hown) fun _ he => he.elim
  intro _ m' hfreed
  have htree : ∀ g ∈ Tree s.mem r, m'.table g = s.mem.table g :=
    fun g hg => hfreed.frame g (Multiset.mem_add.mpr (.inl hg))
  have howns := hfreed.owns
  rw [← tree_congr htree] at howns
  have hinv := h.live .user hlive (half_congr htree hrun.half) hrun.pos
    (.inl (space_congr htree hrun.space)) trivial (by simp)
    (by simpa only [Pc.pages, zero_add] using howns) fun g hg =>
      hfreed.frame g (Multiset.mem_add.mpr (.inr (Multiset.mem_add.mpr (.inr hg))))
  rw [← hrun.pgdir] at hinv
  exact hinv

/-- The new page table takes the place of the old one, which the process still has. -/
lemma commit_inv (h : Inv K k weak s) (hlive : (s.proc p).status = .live)
    (hpc : (s.proc p).pc = .args d sz) :
    Inv K k weak (s.setProc p
      { s.proc p with pgdir := some d, sz := sz, pc := .free ((s.proc p).pgdir.getD 0) }) := by
  obtain ⟨r, hrun⟩ := h.runs hlive (by rw [hpc]; simp)
  have hgood := (h.good p).pc
  rw [hpc] at hgood
  obtain ⟨hspace, hpos, hhalf⟩ := hgood
  have hown := hrun.owns
  rw [hpc] at hown
  simp only [Pc.pages] at hown
  rw [hrun.pgdir, Option.getD_some]
  apply h.live (.free r) hlive hhalf hpos (.inl hspace) trivial (by simp)
  · simp only [Pc.pages]
    rwa [add_left_comm] at hown
  · exact fun _ _ => rfl

/-- What a process does in the kernel keeps the invariant. -/
lemma go_outcome {move : Move} {o : Except Panic Sys} (h : Inv K k weak s)
    (hlive : (s.proc p).status = .live) (hgo : go K s p (s.proc p).pc move = some o) :
    Outcome (Inv K k weak) o := by
  have hgood := (h.good p).pc
  cases hpc : (s.proc p).pc with
  | user =>
    rw [hpc] at hgo
    cases move <;> simp [go] at hgo
  | fork np =>
    rw [hpc] at hgo
    -- only `copy` is left to a process in `fork`
    cases move with
    | copy =>
      rw [go] at hgo
      obtain rfl := Option.some.inj hgo
      exact forkCopy_outcome h hlive hpc
    | _ => simp [go] at hgo
  | exec d sz =>
    rw [hpc] at hgo hgood
    obtain ⟨hspace, hpos, -⟩ := hgood
    cases move with
    | segment ph ok =>
      rw [go] at hgo
      obtain rfl := Option.some.inj hgo
      apply execMove_outcome (execSegment K d sz ph ok) (.exec d) h hlive hpc
      · intro F hown
        exact execSegment_ends hown hspace hpos
      · intro _ _
        simp only [Pc.pages]
      · simp
      · exact fun _ _ hsz => hsz
    | stack =>
      rw [go] at hgo
      obtain rfl := Option.some.inj hgo
      apply execMove_outcome (execStack K d sz) (.args d) h hlive hpc
      · intro F hown
        exact execStack_ends hown hspace hpos
      · intro _ _
        simp only [Pc.pages]
      · simp
      · exact fun _ _ hsz => hsz
    | bad =>
      rw [go] at hgo
      obtain rfl := Option.some.inj hgo
      exact free_outcome h hlive (fun _ => by rw [hpc]; simp only [Pc.pages]) (by rw [hpc]; simp)
    | _ => simp [go] at hgo
  | args d sz =>
    rw [hpc] at hgo
    cases move with
    | commit =>
      rw [go] at hgo
      obtain rfl := Option.some.inj hgo
      exact .ok (commit_inv h hlive hpc)
    | bad =>
      rw [go] at hgo
      obtain rfl := Option.some.inj hgo
      exact free_outcome h hlive (fun _ => by rw [hpc]; simp only [Pc.pages]) (by rw [hpc]; simp)
    | _ => simp [go] at hgo
  | free d =>
    rw [hpc] at hgo
    cases move with
    | freeOld =>
      rw [go] at hgo
      obtain rfl := Option.some.inj hgo
      exact free_outcome h hlive (fun _ => by rw [hpc]; simp only [Pc.pages]) (by rw [hpc]; simp)
    | _ => simp [go] at hgo

/-! ## `wait` and `exit` -/

/-- `wait` gives the pages of a zombie back. -/
lemma wait_outcome (h : Inv K k weak s) : Outcome (Inv K k weak) (wait K s p) := by
  unfold wait
  cases hq : (List.finRange NPROC).find? fun q => (s.proc q).parent = some p ∧ (s.proc q).status = .zombie with
  | none => exact .ok h
  | some q =>
    have hzombie : (s.proc q).status = .zombie := by
      have := List.find?_some hq
      simp only [decide_eq_true_eq] at this
      exact this.2
    obtain ⟨r, hr, -⟩ := (h.good q).space (.inr hzombie)
    obtain ⟨f, hf⟩ := Option.isSome_iff_exists.mp ((h.good q).stack (by rw [hzombie]; decide))
    have hpc : (s.proc q).pc = .user := (h.good q).idle (by rw [hzombie]; decide)
    have hown := h.owns
    rw [used_eq q, pages_of_space (.inr hzombie), hpc, hr, hf] at hown
    simp only [Pc.pages, zero_add, optTree, Option.elim_some, optPage_some] at hown
    rw [add_assoc, add_left_comm, Multiset.singleton_add] at hown
    -- the child's stack and its address space go back to the free list
    apply onMem_outcome (E := fun _ => False) (Q := fun _ m' => Owns K m' (s.rest K q) ∧
      ∀ g ∈ s.rest K q, m'.table g = s.mem.table g)
    · unfold reap
      rw [hf, hr, Option.getD_some]
      apply (kfree_freed hown).seq
      intro _ m₁ hfreed
      have htree : ∀ g ∈ Tree s.mem r, m₁.table g = s.mem.table g :=
        fun g hg => hfreed.frame g (Multiset.mem_add.mpr (.inl hg))
      have howns := hfreed.owns
      rw [← tree_congr htree] at howns
      apply (freevm_ends howns).mono fun _ he => he
      intro _ m₂ hfreed₂
      refine ⟨hfreed₂.owns, fun g hg => ?_⟩
      exact (hfreed₂.frame g hg).trans (hfreed.frame g (Multiset.mem_add.mpr (.inr hg)))
    · exact fun _ he => he.elim
    rintro _ m' ⟨howns, hframe⟩
    apply h.update q
    · rw [pages_unused rfl, zero_add]
      exact howns
    · exact hframe
    · exact ⟨fun _ => hpc, fun hst => (hst rfl).elim, by simp, by simp only [hpc]; trivial⟩
    · intro np hnp
      simp only [hpc] at hnp
      cases hnp
    · exact fun q' hq' => (h.not_forked (by rw [hzombie]; decide) q' hq').elim

lemma exit_inv (h : Inv K k weak s) (hlive : (s.proc p).status = .live) (huser : (s.proc p).pc = .user) :
    Inv K k weak (exit s p) := by
  -- parents and states change and nothing else
  have hproc : ∀ q, ∃ parent status, (exit s p).proc q = { s.proc q with parent := parent, status := status } ∧
      (status = (s.proc q).status ∨ q = p ∧ status = .zombie) := by
    intro q
    unfold exit
    simp only
    by_cases hqp : q = p
    · rw [if_pos hqp]
      split
      · exact ⟨_, .zombie, rfl, .inr ⟨hqp, rfl⟩⟩
      · exact ⟨(s.proc q).parent, .zombie, rfl, .inr ⟨hqp, rfl⟩⟩
    · rw [if_neg hqp]
      split
      · exact ⟨some initproc, (s.proc q).status, rfl, .inl rfl⟩
      · exact ⟨(s.proc q).parent, (s.proc q).status, rfl, .inl rfl⟩
  have hpages : ∀ q, ((exit s p).proc q).pages s.mem = (s.proc q).pages s.mem := by
    intro q
    obtain ⟨parent, status, heq, hst⟩ := hproc q
    rw [heq]
    unfold Proc.pages
    obtain rfl | ⟨rfl, rfl⟩ := hst
    · simp only
    · simp only [hlive]
  have hpc : ∀ q, ((exit s p).proc q).pc = (s.proc q).pc := by
    intro q
    obtain ⟨parent, status, heq, -⟩ := hproc q
    rw [heq]
  constructor
  · have hmem : (exit s p).mem = s.mem := rfl
    have hpipes : (exit s p).pipes = s.pipes := rfl
    have hown := h.owns
    unfold Sys.used at hown ⊢
    rw [hmem, hpipes, Finset.sum_congr rfl fun q _ => hpages q]
    exact hown
  · intro q
    have hgood := h.good q
    obtain ⟨parent, status, heq, hst⟩ := hproc q
    rw [heq]
    obtain rfl | ⟨rfl, rfl⟩ := hst
    · exact ⟨hgood.idle, hgood.stack, hgood.space, hgood.pc⟩
    · refine ⟨fun _ => huser, fun _ => hgood.stack (by rw [hlive]; decide), fun _ => ?_, hgood.pc⟩
      exact hgood.space (.inl hlive)
  · intro q np hq
    rw [hpc] at hq
    have hemb := h.fork q np hq
    obtain ⟨parent, status, heq, hst⟩ := hproc np
    rw [heq]
    obtain rfl | ⟨rfl, rfl⟩ := hst
    · exact hemb
    · rw [hlive] at hemb
      cases hemb
  · intro q q' np hq hq'
    rw [hpc] at hq hq'
    exact h.fork_inj q q' np hq hq'
  · exact h.kernel

/-! ## Pipes -/

/-- Only the pages of the pipes change. -/
lemma Inv.setPipes {pipes : List ℕ} (h : Inv K k weak s)
    (hown : Owns K m' (∑ q, (s.proc q).pages s.mem + (pipes + K.kept)))
    (hframe : ∀ g ∈ ∑ q, (s.proc q).pages s.mem + (K.kept : Multiset ℕ), m'.table g = s.mem.table g) :
    Inv K k weak { s with mem := m', pipes := pipes } := by
  have hproc : ∀ q, ∀ g ∈ (s.proc q).pages s.mem, m'.table g = s.mem.table g := by
    intro q g hg
    apply hframe g
    rw [Multiset.mem_add, Multiset.mem_sum]
    exact .inl ⟨q, Finset.mem_univ q, hg⟩
  constructor
  · unfold Sys.used
    rw [Finset.sum_congr rfl fun q _ => pages_congr (hproc q)]
    exact hown
  · exact fun q => good_congr (h.good q) (hproc q)
  · exact h.fork
  · exact h.fork_inj
  · show m'.table K.kpdpt = k
    rw [hframe _ (Multiset.mem_add.mpr (.inr (Multiset.mem_coe.mpr K.kpdpt_mem)))]
    exact h.kernel

/-- `pipealloc` takes a page if there are two files for it. -/
lemma pipealloc_ends {files : List File} :
    Ends (fun e => e = .outOfMemory ∧ m.freelist = []) (pipealloc files) (fun o m' =>
      (o.1 = none ∧ m' = m) ∨
      ∃ f next, o.1 = some f ∧ m.freelist = f :: next ∧ m' = { m with freelist := next }) m := by
  unfold pipealloc
  cases filealloc files with
  | none => exact .inl ⟨rfl, rfl⟩
  | some a =>
    obtain ⟨f0, files₁⟩ := a
    simp only
    cases filealloc files₁ with
    | none => exact .inl ⟨rfl, rfl⟩
    | some b =>
      obtain ⟨f1, files₂⟩ := b
      apply kalloc_ends.seq
      rintro o m' ⟨f, next, rfl, hfree, rfl⟩
      exact .inr ⟨f, next, rfl, hfree, rfl⟩

/-- The page of a pipe is no process's. -/
lemma pipe_outcome {files : List File} (h : Inv K k weak s) :
    Outcome (Inv K k weak) (call K s p (.pipe files)) := by
  rw [call]
  apply onMem_outcome pipealloc_ends fun e he => kalloc_fatal he
  rintro ⟨o, files'⟩ m' (⟨rfl, rfl⟩ | ⟨f, next, rfl, hfree, rfl⟩)
  · exact h
  · apply h.setPipes
    · have hown := h.owns.take hfree
      unfold Sys.used at hown
      simp only [Option.toList_some, List.singleton_append]
      rw [← Multiset.cons_coe, Multiset.cons_add, Multiset.add_cons]
      exact hown
    · exact fun _ _ => rfl

lemma pipeclose_outcome (h : Inv K k weak s) (hf : f ∈ s.pipes) :
    Outcome (Inv K k weak) (s.onMem (kfree K f) fun _ s => { s with pipes := s.pipes.erase f }) := by
  have hown := h.owns
  unfold Sys.used at hown
  have hsplit : (s.pipes : Multiset ℕ) = f ::ₘ (s.pipes.erase f : List ℕ) := by
    rw [Multiset.cons_coe]
    exact Multiset.coe_eq_coe.mpr (List.perm_cons_erase hf)
  rw [hsplit, Multiset.cons_add, Multiset.add_cons] at hown
  apply onMem_outcome (kfree_freed hown) fun _ he => he.elim
  intro _ m' hfreed
  apply h.setPipes hfreed.owns
  intro g hg
  apply hfreed.frame g
  rw [Multiset.mem_add] at hg ⊢
  exact hg.imp id fun hk => Multiset.mem_add.mpr (.inr hk)

/-! ## All steps -/

/-- The process that makes a call has its memory. -/
def Ready (s : Sys) : Act → Prop
  | .call p _ _ => HasSpace s p
  | _ => True

/-- `sbrk` is asked to shrink to a size of 0. -/
def AsksZero (s : Sys) : Act → Prop
  | .call p _ (.sbrk n) => n.toInt < 0 ∧ askedSize (s.proc p).sz n = 0
  | _ => False

instance (s : Sys) (a : Act) : Decidable (AsksZero s a) := by
  unfold AsksZero
  split <;> infer_instance

/-- Every step keeps the invariant, or the memory is full. -/
lemma trans_outcome {a : Act} {o : Except Panic Sys} (h : Inv K k weak s) (hready : Ready s a)
    (hweak : AsksZero s a → weak) (ho : trans K s a = some o) : Outcome (Inv K k weak) o := by
  cases a with
  | call p rip c =>
    unfold trans at ho
    simp only at ho
    split at ho
    · next hcond =>
      obtain ⟨hlive, huser⟩ := hcond
      obtain rfl := Option.some.inj ho
      cases c with
      | fork => exact allocproc_outcome h hlive huser hready
      | sbrk n => exact sbrk_outcome h hlive huser hready fun hneg hzero => hweak ⟨hneg, hzero⟩
      | exec => exact exec_outcome h hlive huser hready
      | wait => exact wait_outcome h
      | pipe files => exact pipe_outcome h
    · cases ho
  | go p move =>
    unfold trans at ho
    simp only at ho
    split at ho
    · next hlive => exact go_outcome h hlive ho
    · cases ho
  | exit p =>
    unfold trans at ho
    simp only at ho
    split at ho
    · next hcond =>
      obtain rfl := Option.some.inj ho
      exact .ok (exit_inv h hcond.1 hcond.2.1)
    · cases ho
  | pipeclose f =>
    unfold trans at ho
    simp only at ho
    split at ho
    · next hf =>
      obtain rfl := Option.some.inj ho
      exact pipeclose_outcome h hf
    · cases ho

end Vm
end OhMyXv6
