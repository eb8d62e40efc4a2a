import OhMyXv6.Vm.Steps

/-!
# The states that are reached

The invariant holds when `userinit` has returned, and every step keeps it: the strong one along runs in
which no `sbrk` asks for a size of 0, the weak one along all runs of the machine, since a process that has
lost its memory has no instruction left to make a call with.
-/

namespace OhMyXv6
namespace Vm

open Radix Fallible

variable {K : Kernel} {m m' : Mem} {r : ℕ} {F : Multiset ℕ} {s s₀ t : Sys} {p : Slot} {a : Act} {acts : List Act}
  {weak : Prop} {k : ℕ → Pte}

/-- `inituvm` maps the one page of `initcode`. -/
lemma inituvm_ends {size : ℕ} (hown : Owns K m (Tree m r + F)) (hspace : Space m r PGSIZE) :
    Ends (fun _ => True) (inituvm r size)
      (fun _ m' => Changed K m m' r F ∧ Space m' r (2 * PGSIZE)) m := by
  have hp1 : pages PGSIZE = 1 := rfl
  have hp2 : pages (2 * PGSIZE) = 2 := rfl
  have hnone : find m r (path 1) = none := by
    rw [← Option.not_isSome_iff_eq_none, hspace.found 1 (by decide), hp1]
    omega
  have hva : ∀ mem, mappages r PGSIZE PGSIZE mem true true = mappages r (1 * PGSIZE) PGSIZE mem true true := by
    intro mem
    rw [Nat.one_mul]
  -- the result of `mappages` is not looked at
  have hbind : ∀ x : V Bool,
      (x >>= fun _ => pure ()) = (x >>= fun ok => if ok = true then pure () else pure ()) := by
    intro x
    congr 1
    funext ok
    split <;> rfl
  unfold inituvm
  split
  · trivial
  simp only [zeroPage, hbind, hva]
  apply mapPage_ends (fun _ _ => .zero) (fun _ _ => 0) hown (by decide) hnone
  · exact fun _ _ => trivial
  intro m' hgrown _
  rw [ends_pure]
  refine ⟨hgrown.changed, fun v hv => ?_, ?_⟩
  · rw [hgrown.found _ (fits_path hv), hspace.found v hv, path_mem_prefixes hv (by decide), hp1, hp2]
    omega
  · have hcard := hgrown.card hown
    have hpos := missing_prefixes_pos hnone
    have hone := one_le_card_tree (m := m) (r := r)
    rw [hp2]
    omega

/-- A system that has started keeps the invariant. -/
lemma Started.inv (h : Started K s₀) : Inv K (s₀.mem.table K.kpdpt) False s₀ := by
  obtain ⟨⟨m₀, size, kstack, pgdir, hown, hrun, hproc⟩, hpipes⟩ := h
  -- what `userinit` leaves
  have hends : Ends (fun _ => True) (userinit K size) (fun o m' => ∃ kstack pgdir, o = some (kstack, pgdir) ∧
      Owns K m' (Tree m' pgdir + ({kstack} + K.kept)) ∧ Space m' pgdir (2 * PGSIZE) ∧ Half K m' pgdir) m₀ := by
    unfold userinit
    apply Ends.seq (kalloc_ends.mono (fun _ _ => trivial) fun _ _ h => h)
    rintro o m₁ ⟨f, next, rfl, hfree, rfl⟩
    have hown₁ := hown.take hfree
    apply Ends.seq ((setupkvm_ends hown₁).mono (fun _ _ => trivial) fun _ _ h => h)
    rintro o m₂ ⟨d, rfl, hfresh⟩
    apply Ends.seq (inituvm_ends hfresh.owns (hfresh.space rfl))
    rintro _ m₃ ⟨hchanged, hspace⟩
    refine ⟨f, d, rfl, ?_, hspace, ?_⟩
    · rw [Multiset.singleton_add]
      exact hchanged.owns
    · unfold Half
      rw [hchanged.half 256 (by unfold NPDENTRIES; omega), hfresh.half]
  obtain ⟨kstack', pgdir', heq, howns, hspace, hhalf⟩ := hends.of_ok hrun
  obtain ⟨rfl, rfl⟩ := Prod.mk.inj (Option.some.inj heq)
  have hself : s₀.proc initproc = ⟨.live, none, some kstack, some pgdir, 2 * PGSIZE, .user⟩ := by
    rw [hproc, Function.update_self]
  have hother : ∀ q, q ≠ initproc → s₀.proc q = emptyProc := by
    intro q hq
    rw [hproc, Function.update_of_ne hq]
  have hpc : ∀ q, (s₀.proc q).pc = .user := by
    intro q
    by_cases hq : q = initproc
    · rw [hq, hself]
    · rw [hother q hq]
      rfl
  constructor
  · have hrest : s₀.rest K initproc = K.kept := by
      unfold Sys.rest
      rw [Finset.sum_eq_zero, hpipes]
      · simp
      · intro q hq
        rw [hother q (Finset.mem_erase.mp hq).1, pages_unused rfl]
    rw [used_eq initproc, hrest, hself, pages_of_space (.inl rfl)]
    simp only [Pc.pages, zero_add, optTree, Option.elim_some, optPage_some, add_assoc]
    exact howns
  · intro q
    by_cases hq : q = initproc
    · rw [hq, hself]
      exact ⟨fun _ => rfl, fun _ => rfl, fun _ => ⟨pgdir, rfl, by show 0 < 2 * PGSIZE; decide, hhalf,
        .inl hspace⟩, trivial⟩
    · rw [hother q hq]
      exact ⟨fun _ => rfl, fun hst => (hst rfl).elim, by simp [emptyProc], trivial⟩
  · intro q np hq
    rw [hpc] at hq
    cases hq
  · intro q q' np hq
    rw [hpc] at hq
    cases hq
  · rfl

/-- The weaker form of the invariant. -/
lemma Inv.weaken (weak : Prop) (h : Inv K k False s) : Inv K k weak s := by
  refine ⟨h.owns, fun q => ?_, h.fork, h.fork_inj, h.kernel⟩
  have hgood := h.good q
  refine ⟨hgood.idle, hgood.stack, fun hst => ?_, hgood.pc⟩
  obtain ⟨r, hr, hpos, hhalf, hspace⟩ := hgood.space hst
  exact ⟨r, hr, hpos, hhalf, .inl (hspace.resolve_right fun h => h.1)⟩

/-- With the strong invariant every process is ready. -/
lemma Inv.hasSpace (h : Inv K k False s) (hst : (s.proc p).status = .live ∨ (s.proc p).status = .zombie) :
    HasSpace s p := by
  obtain ⟨r, hr, -, -, hspace⟩ := (h.good p).space hst
  intro r' hr'
  rw [hr] at hr'
  obtain rfl := Option.some.inj hr'
  exact hspace.resolve_right fun h => h.1

/-- A process that has an instruction has all its memory. -/
lemma Inv.hasSpace_of_fetches {rip : ℕ} (h : Inv K k weak s)
    (hst : (s.proc p).status = .live ∨ (s.proc p).status = .zombie) (hfetch : fetches s p rip) :
    HasSpace s p := by
  obtain ⟨r, hr, -, -, hspace⟩ := (h.good p).space hst
  obtain ⟨hrip, hfound⟩ := hfetch
  rw [hr, Option.bind_some] at hfound
  intro r' hr'
  rw [hr] at hr'
  obtain rfl := Option.some.inj hr'
  obtain hspace | ⟨-, -, hspace⟩ := hspace
  · exact hspace
  · rw [hspace.found _ hrip] at hfound
    have hzero : pages 0 = 0 := rfl
    omega

lemma step_eq_some (h : step K s a = some t) : trans K s a = some (.ok t) := by
  unfold step at h
  split at h
  · next u hu =>
    obtain rfl := Option.some.inj h
    exact hu
  · cases h

/-- Only a live process makes a call. -/
lemma trans_call_live {rip : ℕ} {c : Call} {o : Except Panic Sys} (h : trans K s (.call p rip c) = some o) :
    (s.proc p).status = .live := by
  unfold trans at h
  simp only at h
  split at h
  · next hcond => exact hcond.1
  · cases h

/-- With the full invariant every step may be taken. -/
lemma Inv.ready (h : Inv K k False s) {o : Except Panic Sys} (ho : trans K s a = some o) : Ready s a := by
  cases a with
  | call p rip c => exact h.hasSpace (.inl (trans_call_live ho))
  | go p move => trivial
  | exit p => trivial
  | pipeclose f => trivial

/-- A step without a shrink to 0 keeps the invariant. -/
lemma Inv.step (h : Inv K k False s) (hzero : ¬ AsksZero s a) (hstep : step K s a = some t) :
    Inv K k False t := by
  have htrans := step_eq_some hstep
  have hout := trans_outcome h (h.ready htrans) hzero htrans
  cases hout with
  | ok hinv => exact hinv

/-- **The strong invariant holds along the runs that never ask for a size of 0.** -/
theorem strong_run (hs : Started K s₀) (hok : Runs.Along (step K) (fun s a => ¬ AsksZero s a) s₀ acts)
    (hrun : Runs.run (step K) s₀ acts = some s) : Inv K (s₀.mem.table K.kpdpt) False s :=
  hok.invariant (fun _ _ _ h hzero hstep => h.step hzero hstep) hs.inv hrun

/-- A step of the machine is a step of the system. -/
lemma machine_eq_some (h : machine K s a = some t) :
    step K s a = some t ∧ ∀ p rip c, a = .call p rip c → fetches s p rip := by
  cases a with
  | call p rip c =>
    unfold machine at h
    simp only at h
    split at h
    · next hfetch =>
      refine ⟨h, ?_⟩
      rintro p' rip' c' heq
      obtain ⟨rfl, rfl, rfl⟩ := Act.call.inj heq
      exact hfetch
    · cases h
  | go p move => exact ⟨h, by simp⟩
  | exit p => exact ⟨h, by simp⟩
  | pipeclose f => exact ⟨h, by simp⟩

/-- **The weak invariant holds along all runs of the machine.** -/
theorem machine_run (hs : Started K s₀) (hrun : Runs.run (machine K) s₀ acts = some s) :
    Inv K (s₀.mem.table K.kpdpt) True s := by
  apply Runs.invariant _ (hs.inv.weaken True) hrun
  intro s a t h hstep
  obtain ⟨hstep, hfetch⟩ := machine_eq_some hstep
  have htrans := step_eq_some hstep
  have hready : Ready s a := by
    cases a with
    | call p rip c => exact h.hasSpace_of_fetches (.inl (trans_call_live htrans)) (hfetch p rip c rfl)
    | go p move => trivial
    | exit p => trivial
    | pipeclose f => trivial
  have hout := trans_outcome h hready (fun _ => trivial) htrans
  cases hout with
  | ok hinv => exact hinv

end Vm
end OhMyXv6
