import OhMyXv6.Proc.CurrentStep

/-!
# Processes that are being forked

A process that is being forked is EMBRYO, and one CPU or one process that is switched out carries it. No
step makes it two.
-/

namespace OhMyXv6
namespace Sched

open Ptable (Slot Chan initproc)

variable {κ : Type}

section
variable {s t : St κ} {c d : κ} {i : Slot}

/-! ## Forking -/

/-- What is carried after a step was carried before it, perhaps elsewhere. -/
theorem Forks.update {σ : κ ⊕ Slot → κ ⊕ Slot} (h : Forks s) (hσ : Function.Injective σ)
    (hcarry : ∀ x np, t.carries x = some np → s.carries (σ x) = some np)
    (hemb : ∀ x np, t.carries x = some np → (t.proc np).state = .EMBRYO) : Forks t where
  embryo := hemb
  single := fun x y np hx hy => hσ (h.single _ _ np (hcarry x np hx) (hcarry y np hy))

/-- The step carries nothing new, and leaves processes that are being forked alone. -/
theorem Forks.keep (h : Forks s) (hcpu : ∀ d, d ≠ c → t.cpu d = s.cpu d)
    (hnp : ∀ np, (t.cpu c).pc.np = some np → (s.cpu c).pc.np = some np)
    (hctx : ∀ i, (t.proc i).context = (s.proc i).context)
    (hstate : ∀ i, (s.proc i).state = .EMBRYO → (t.proc i).state = .EMBRYO) : Forks t := by
  have hcarry : ∀ x np, t.carries x = some np → s.carries x = some np := by
    rintro (d | i) np hx
    · by_cases hd : d = c
      · rw [hd] at hx ⊢
        exact hnp np hx
      · rw [St.carries, hcpu d hd] at hx
        exact hx
    · rw [St.carries, hctx i] at hx
      exact hx
  exact h.update Function.injective_id hcarry
    fun x np hx => hstate np (h.embryo x np (hcarry x np hx))

lemma Wakes.embryo (h : Wakes s t) (i : Slot) (hi : (s.proc i).state = .EMBRYO) :
    (t.proc i).state = .EMBRYO := by
  rcases h.state i with heq | ⟨hs, -⟩
  · exact heq.trans hi
  · rw [hi] at hs
    cases hs

variable [DecidableEq κ]

lemma goto_cpu (pc : Pc) (hcpu : t.cpu = s.cpu) :
    (∀ d, d ≠ c → (t.goto c pc).cpu d = s.cpu d) ∧ ((t.goto c pc).cpu c).pc = pc := by
  constructor
  · intro d hd
    show Function.update t.cpu c _ d = _
    rw [Function.update_of_ne hd, hcpu]
  · show (Function.update t.cpu c _ c).pc = _
    rw [Function.update_self]

/-- Processes are woken up, or nothing happens to them. -/
lemma Forks.wakes {pc : Pc} (h : Forks s) (hw : Wakes s t)
    (hnp : ∀ np, pc.np = some np → (s.cpu c).pc.np = some np) : Forks (t.goto c pc) := by
  obtain ⟨hcpu, hpc⟩ := goto_cpu (c := c) pc hw.cpu
  exact h.keep hcpu (by rw [hpc]; exact hnp) hw.context hw.embryo

/-- The state of a process that is not being forked changes. -/
lemma Forks.modify {pc : Pc} {p : Slot} {f : Proc → Proc} (h : Forks s) (hw : Wakes s t)
    (hnp : ∀ np, pc.np = some np → (s.cpu c).pc.np = some np) (hp : (s.proc p).state ≠ .EMBRYO)
    (hctx : ∀ q, (f q).context = q.context) : Forks ((t.modify p f).goto c pc) := by
  obtain ⟨hcpu, hpc⟩ := goto_cpu (t := t.modify p f) (c := c) pc hw.cpu
  refine h.keep hcpu (by rw [hpc]; exact hnp) ?_ ?_
  · intro i
    show ((t.modify p f).proc i).context = _
    by_cases hip : i = p
    · rw [hip, modify_self, hctx, hw.context]
    · rw [modify_of_ne hip, hw.context]
  · intro i hi
    have hip : i ≠ p := fun heq => hp (heq ▸ hi)
    show ((t.modify p f).proc i).state = _
    rw [modify_of_ne hip]
    exact hw.embryo i hi

lemma Forks.acquire {pc : Pc} (h : Forks s) (hst : s.acquire c pc = some t)
    (hnp : ∀ np, pc.np = some np → (s.cpu c).pc.np = some np) : Forks t := by
  unfold St.acquire at hst
  split at hst
  · obtain rfl := Option.some.inj hst
    obtain ⟨hcpu, hpc⟩ := goto_cpu (s := s) (t := { s with lock := some c }) (c := c) pc rfl
    exact h.keep hcpu (by rw [hpc]; exact hnp) (fun _ => rfl) (fun _ hi => hi)
  · cases hst

lemma Forks.release {pc : Pc} (h : Forks s)
    (hnp : ∀ np, pc.np = some np → (s.cpu c).pc.np = some np) : Forks (s.release c pc) := by
  obtain ⟨hcpu, hpc⟩ := goto_cpu (s := s) (t := { s with lock := none }) (c := c) pc rfl
  exact h.keep (t := s.release c pc) hcpu (by rw [St.release, hpc]; exact hnp) (fun _ => rfl)
    (fun _ hi => hi)

/-- The registers of the CPU change. -/
lemma Forks.setCpu {x : Cpu} (h : Forks s)
    (hnp : ∀ np, x.pc.np = some np → (s.cpu c).pc.np = some np) : Forks (s.setCpu c x) := by
  refine h.keep (c := c) (fun d hd => Function.update_of_ne hd _ _) ?_ (fun _ => rfl)
    (fun _ hi => hi)
  show ∀ np, (Function.update s.cpu c x c).pc.np = some np → _
  rw [Function.update_self]
  exact hnp

/-- What the context of process `i` carries and what CPU `c` carries change places. -/
theorem Forks.swtch {x : Cpu} {ctx : Option Context} (h : Forks s)
    (hin : ∀ np, x.pc.np = some np → s.carries (.inr i) = some np)
    (hout : ∀ np, ctx.bind Context.np = some np → s.carries (.inl c) = some np) :
    Forks ((s.modify i fun q => { q with context := ctx }).setCpu c x) := by
  have hcarry : ∀ y np, ((s.modify i fun q => { q with context := ctx }).setCpu c x).carries y = some np →
      s.carries (Equiv.swap (.inl c) (.inr i) y) = some np := by
    rintro (d | j) np hy
    · by_cases hd : d = c
      · subst hd
        rw [Equiv.swap_apply_left]
        apply hin
        rw [St.carries, St.setCpu] at hy
        simpa using hy
      · rw [Equiv.swap_apply_of_ne_of_ne (by simpa using hd) (by simp)]
        rw [St.carries, St.setCpu] at hy
        rw [St.carries]
        simpa [hd] using hy
    · by_cases hj : j = i
      · subst hj
        rw [Equiv.swap_apply_right]
        apply hout
        rw [St.carries, St.setCpu] at hy
        simpa using hy
      · rw [Equiv.swap_apply_of_ne_of_ne (by simp) (by simpa using hj)]
        rw [St.carries, St.setCpu] at hy
        dsimp only at hy
        rw [modify_of_ne hj] at hy
        exact hy
  refine h.update (Equiv.swap (.inl c) (.inr i)).injective hcarry ?_
  intro y np hy
  have hemb := h.embryo _ np (hcarry y np hy)
  rw [St.setCpu]
  dsimp only
  rw [modify_state]
  split
  · next hnp =>
    rw [← hnp]
    exact hemb
  · exact hemb

/-- A point that carries nothing. -/
lemma carries_nothing {pc pc' : Pc} (h : pc.np = none) :
    ∀ np, pc.np = some np → pc'.np = some np := by
  intro np hnp
  rw [h] at hnp
  cases hnp

lemma Forks.scheduler {pc : Pc} (h : Forks s) (hpc : (s.cpu c).pc = pc)
    (hst : s.scheduler c pc = some t) (hc : Core s) : Forks t := by
  cases pc with
  | idle => exact h.acquire hst (carries_nothing rfl)
  | scan j =>
    simp only [St.scheduler] at hst
    split at hst
    · split at hst
      · obtain rfl := Option.some.inj hst
        exact h.setCpu (carries_nothing rfl)
      · obtain rfl := Option.some.inj hst
        exact h.wakes (Wakes.refl s) (carries_nothing rfl)
    · obtain rfl := Option.some.inj hst
      exact h.release (carries_nothing rfl)
  | picked i =>
    simp only [St.scheduler, St.switchuvm] at hst
    split at hst
    · obtain rfl := Option.some.inj hst
      exact h.setCpu (carries_nothing rfl)
    · cases hst
  | mapped i =>
    obtain rfl := Option.some.inj hst
    -- the process chosen is the CPU's own, so it is not being forked
    have hi : (s.cpu c).proc = some i := by
      have hframe := hc.frame c
      unfold Cpu.Frame at hframe
      rw [hpc] at hframe
      exact hframe.1
    exact h.modify (Wakes.refl s) (carries_nothing rfl) (hc.ne_of_current hi).2 fun _ => rfl
  | marked i =>
    simp only [St.scheduler, St.swtchTo] at hst
    -- the carried child travels with the context
    cases hctx : (s.proc i).context with
    | none =>
      rw [hctx] at hst
      cases hst
    | some ctx =>
      rw [hctx] at hst
      obtain rfl := Option.some.inj hst
      refine h.swtch (fun np hnp => ?_) (fun np hnp => by cases hnp)
      rw [St.carries, hctx]
      exact hnp
  | back i =>
    obtain rfl := Option.some.inj hst
    exact h.setCpu (carries_nothing rfl)
  | unmapped i =>
    obtain rfl := Option.some.inj hst
    exact h.setCpu (carries_nothing rfl)
  | wakeup | release | task | resume | yield | sleep | exit | wait | waitStack | waitVm
  | waitClear | kill | alloc | sched => cases hst

/-- A new process is carried by the CPU that allocates it, and by nobody else. -/
theorem Forks.allocproc (h : Forks s) : Forks (s.allocproc c) := by
  unfold St.allocproc
  split
  · exact h.wakes (Wakes.refl s) (carries_nothing rfl)
  · next i hi =>
    have hgood := find_some hi
    simp only [decide_eq_true_eq] at hgood
    obtain ⟨hcpu, hnew⟩ := goto_cpu (s := s)
      (t := { s.modify i fun q => { q with state := .EMBRYO, pid := s.nextpid } with
        nextpid := s.nextpid + 1 }) (c := c) (.release (some (.forkStack i))) rfl
    have hctx : ∀ j, ((s.modify i fun q => { q with state := .EMBRYO, pid := s.nextpid }).proc
        j).context = (s.proc j).context := by
      intro j
      by_cases hj : j = i
      · rw [hj, modify_self]
      · rw [modify_of_ne hj]
    -- whatever the others carry is another process
    have hold : ∀ x np, s.carries x = some np → np ≠ i := by
      rintro x np hx rfl
      rw [h.embryo x np hx] at hgood
      cases hgood
    have hcarry : ∀ x np, x ≠ .inl c → ({ s.modify i fun q =>
        { q with state := .EMBRYO, pid := s.nextpid } with nextpid := s.nextpid + 1 }.goto c
          (.release (some (.forkStack i)))).carries x = some np → s.carries x = some np := by
      rintro (d | j) np hx hcar
      · rw [St.carries, hcpu d (fun heq => hx (heq ▸ rfl))] at hcar
        exact hcar
      · rw [St.carries, St.goto, St.setCpu] at hcar
        dsimp only at hcar
        rw [hctx j] at hcar
        exact hcar
    have hc : ∀ np, ({ s.modify i fun q =>
        { q with state := .EMBRYO, pid := s.nextpid } with nextpid := s.nextpid + 1 }.goto c
          (.release (some (.forkStack i)))).carries (.inl c) = some np → np = i := by
      intro np hcar
      rw [St.carries, hnew] at hcar
      exact (Option.some.inj hcar).symm
    constructor
    · intro x np hx
      rw [St.goto, St.setCpu]
      dsimp only
      rw [modify_state]
      by_cases hxc : x = .inl c
      · rw [hxc] at hx
        rw [if_pos (hc np hx)]
      · have hs := hcarry x np hxc hx
        rw [if_neg (hold x np hs)]
        exact h.embryo x np hs
    · intro x y np hx hy
      by_cases hxc : x = .inl c
      · by_cases hyc : y = .inl c
        · rw [hxc, hyc]
        · rw [hxc] at hx
          exact absurd (hc np hx) (hold y np (hcarry y np hyc hy))
      · by_cases hyc : y = .inl c
        · rw [hyc] at hy
          exact absurd (hc np hy) (hold x np (hcarry x np hxc hx))
        · exact h.single x y np (hcarry x np hxc hx) (hcarry y np hyc hy)

lemma Forks.lockedStep {pc : Pc} {p : Slot} (h : Forks s) (hc : Core s)
    (hpc : (s.cpu c).pc = pc) (hp : (s.cpu c).proc = some p) (hst : s.locked c p pc = some t) :
    Forks t := by
  -- a current process is no embryo
  have hcur := (hc.ne_of_current hp).2
  cases pc with
  | idle | scan | picked | mapped | marked | back | unmapped | wakeup | release | task => cases hst
  | resume ctx =>
    cases ctx with
    | forkret =>
      obtain rfl := Option.some.inj hst
      exact h.release (carries_nothing rfl)
    | yield k =>
      obtain rfl := Option.some.inj hst
      exact h.release (by rw [hpc]; exact fun np hnp => hnp)
    | sleep =>
      obtain rfl := Option.some.inj hst
      exact h.wakes (wakes_modify (.inl rfl) rfl) (carries_nothing rfl)
    | wait =>
      obtain rfl := Option.some.inj hst
      exact h.wakes (wakes_modify (.inl rfl) rfl) (carries_nothing rfl)
    | exit => cases hst
  | yield k =>
    obtain rfl := Option.some.inj hst
    exact h.modify (Wakes.refl s) (by rw [hpc]; exact fun np hnp => hnp) hcur fun _ => rfl
  | sleep chan =>
    obtain rfl := Option.some.inj hst
    exact h.modify (Wakes.refl s) (carries_nothing rfl) hcur fun _ => rfl
  | exit =>
    obtain rfl := Option.some.inj hst
    exact h.modify (wakes_exitWake s p) (carries_nothing rfl) hcur fun _ => rfl
  | wait =>
    obtain rfl := Option.some.inj hst
    unfold St.waitScan
    split
    · exact h.wakes (Wakes.refl s) (carries_nothing rfl)
    · dsimp only
      split
      · exact h.wakes (Wakes.refl s) (carries_nothing rfl)
      · exact h.modify (Wakes.refl s) (carries_nothing rfl) hcur fun _ => rfl
  | waitStack i =>
    obtain rfl := Option.some.inj hst
    exact h.wakes (wakes_modify (.inl rfl) rfl) (carries_nothing rfl)
  | waitVm i =>
    obtain rfl := Option.some.inj hst
    exact h.wakes (wakes_modify (.inl rfl) rfl) (carries_nothing rfl)
  | waitClear i =>
    obtain rfl := Option.some.inj hst
    have hz := hc.reaps c i (by rw [hpc]; rfl)
    exact h.modify (Wakes.refl s) (carries_nothing rfl) (by rw [hz]; decide) fun _ => rfl
  | kill pid =>
    obtain rfl := Option.some.inj hst
    exact h.wakes (wakes_killPid s pid) (carries_nothing rfl)
  | alloc =>
    obtain rfl := Option.some.inj hst
    exact h.allocproc
  | sched ctx =>
    have hsw : s.sched c p ctx = some t := hst
    unfold St.sched at hsw
    rw [Option.ite_none_right_eq_some] at hsw
    obtain rfl := Option.some.inj hsw.2
    refine h.swtch (fun np hnp => by cases hnp) (fun np hnp => ?_)
    rw [St.carries, hpc]
    exact hnp

/-- The entry of the process that is being forked changes. -/
lemma Forks.forkStep {k : Task} {p : Slot} {ok : Bool} (h : Forks s)
    (hpc : (s.cpu c).pc = .task k) (hst : s.forkStep c p ok k = some t) : Forks t := by
  -- either the task goes on with the same process, which stays EMBRYO, or it carries none any more
  have hstep : ∀ (np : Slot) (f : Proc → Proc) (k' : Task), k.np = some np →
      ((f (s.proc np)).context = (s.proc np).context ∨ (f (s.proc np)).context = some .forkret) →
      (k'.np = none ∨ k'.np = some np ∧ (f (s.proc np)).state = (s.proc np).state) →
      Forks ((s.modify np f).goto c (.task k')) := by
    intro np f k' hnp hctx hk'
    obtain ⟨hcpu, hnew⟩ := goto_cpu (s := s) (t := s.modify np f) (c := c) (.task k') rfl
    have hown : s.carries (.inl c) = some np := by
      rw [St.carries, hpc]
      exact hnp
    have hcarry : ∀ x nq, ((s.modify np f).goto c (.task k')).carries x = some nq →
        s.carries x = some nq := by
      rintro (d | j) nq hx
      · by_cases hd : d = c
        · rw [hd, St.carries, hnew] at hx
          rw [hd, hown]
          rcases hk' with hnone | ⟨hsome, -⟩
          · rw [Pc.np, hnone] at hx
            cases hx
          · rw [Pc.np, hsome] at hx
            exact hx
        · rw [St.carries, hcpu d hd] at hx
          exact hx
      · rw [St.carries, St.goto, St.setCpu] at hx
        dsimp only at hx
        by_cases hj : j = np
        · rw [hj, modify_self] at hx
          rw [hj, St.carries]
          rcases hctx with heq | hret
          · rw [heq] at hx
            exact hx
          · rw [hret] at hx
            cases hx
        · rw [modify_of_ne hj] at hx
          exact hx
    refine h.update Function.injective_id hcarry ?_
    intro x nq hx
    have hsx := hcarry x nq hx
    have hemb := h.embryo x nq hsx
    rw [St.goto, St.setCpu]
    dsimp only
    rw [modify_state]
    split
    · next heq =>
      rcases hk' with hnone | ⟨-, hstate⟩
      · -- nobody else carries it
        rw [heq] at hsx
        have hxc := h.single x (.inl c) np hsx hown
        rw [hxc, St.carries, hnew, Pc.np, hnone] at hx
        cases hx
      · rw [hstate, ← heq]
        exact hemb
    · exact hemb
  cases k with
  | user => cases hst
  | forkStack np =>
    simp only [St.forkStep] at hst
    split at hst
    · obtain rfl := Option.some.inj hst
      exact hstep np _ _ rfl (.inr rfl) (.inr ⟨rfl, rfl⟩)
    · obtain rfl := Option.some.inj hst
      exact hstep np _ _ rfl (.inl rfl) (.inl rfl)
  | forkCopy np =>
    simp only [St.forkStep] at hst
    split at hst
    · obtain rfl := Option.some.inj hst
      exact hstep np _ _ rfl (.inl rfl) (.inr ⟨rfl, rfl⟩)
    · obtain rfl := Option.some.inj hst
      exact hstep np _ _ rfl (.inl rfl) (.inl rfl)
  | forkReady np =>
    obtain rfl := Option.some.inj hst
    exact hstep np _ _ rfl (.inl rfl) (.inl rfl)

lemma Forks.unlockedStep {k : Task} {p : Slot} {m : Move} (h : Forks s)
    (hpc : (s.cpu c).pc = .task k) (hst : s.unlocked c p k m = some t) : Forks t := by
  cases m with
  | go => cases hst
  | yield => exact h.acquire hst (by rw [hpc]; exact fun np hnp => hnp)
  | wakeup chan => exact h.acquire hst (by rw [hpc]; exact fun np hnp => hnp)
  | answer ok => exact h.forkStep hpc hst
  | sleep chan =>
    simp only [St.unlocked, Option.ite_none_right_eq_some] at hst
    exact h.acquire hst.2 (carries_nothing rfl)
  | fork =>
    simp only [St.unlocked, Option.ite_none_right_eq_some] at hst
    exact h.acquire hst.2 (carries_nothing rfl)
  | exit =>
    simp only [St.unlocked, Option.ite_none_right_eq_some] at hst
    exact h.acquire hst.2 (carries_nothing rfl)
  | wait =>
    simp only [St.unlocked, Option.ite_none_right_eq_some] at hst
    exact h.acquire hst.2 (carries_nothing rfl)
  | kill pid =>
    simp only [St.unlocked, Option.ite_none_right_eq_some] at hst
    exact h.acquire hst.2 (carries_nothing rfl)

lemma Forks.next {m : Move} (h : Forks s) (hc : Core s) (hst : s.next (c, m) = some t) :
    Forks t := by
  rcases next_cases hst with ⟨chan, hpc, hacq⟩ | ⟨chan, k, hpc, rfl⟩ | ⟨hpc, rfl⟩ | ⟨k, hpc, rfl⟩ |
    ⟨k, p, hpc, hp, hun⟩ | hsch | ⟨p, hp, hlk⟩
  · exact h.acquire hacq (carries_nothing rfl)
  · exact h.wakes (wakes_wakeup1 s _) (by rw [hpc]; exact fun np hnp => hnp)
  · exact h.release (carries_nothing rfl)
  · exact h.release (by rw [hpc]; exact fun np hnp => hnp)
  · exact h.unlockedStep hpc hun
  · exact h.scheduler rfl hsch hc
  · exact h.lockedStep hc rfl hp hlk

end

end Sched
end OhMyXv6
