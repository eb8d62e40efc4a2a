import OhMyXv6.Proc.Current

/-!
# The steps of the CPUs

Each step of a CPU keeps the part of the invariant that is about the CPUs and their current processes: the
steps without the lock, those of the scheduler, and those under the lock.
-/

namespace OhMyXv6
namespace Sched

open Ptable (Slot Chan initproc)

variable {κ : Type}

section
variable {s t : St κ} {c d : κ} {i : Slot}

/-! ## Single steps -/

/-- The lock is taken. -/
lemma Core.acquire [DecidableEq κ] (h : Core s) (pc : Pc) (hl : (s.cpu c).pc.holds = false)
    (hpc : pc.holds = true) (hframe : ({ s.cpu c with pc := pc } : Cpu).Frame)
    (hwant : pc.Want .RUNNING) (hreap : pc.reaps = none) (hst : s.acquire c pc = some t) :
    Core t := by
  have hne : s.lock ≠ some c := by
    rw [ne_eq, ← h.lock c, hl]
    exact Bool.false_ne_true
  unfold St.acquire at hst
  by_cases hnone : s.lock = none
  · rw [if_pos hnone] at hst
    obtain rfl := Option.some.inj hst
    refine h.unlocked (t := { s with lock := some c }) hne rfl ?_ (fun _ => hnone) hframe ?_
      (fun _ => .inl rfl) hreap
    · rw [if_pos hpc]
    · intro i hi
      rw [h.running_of_unlocked hne hi]
      exact hwant
  · rw [if_neg hnone] at hst
    cases hst

/-- A step that changes only the program point, between two points with the lock. -/
theorem Core.goto [DecidableEq κ] {pc : Pc} (h : Core s) (hl : (s.cpu c).pc.holds = true)
    (hpc : pc.holds = true) (hframe : ({ s.cpu c with pc := pc } : Cpu).Frame)
    (hwant : ∀ st, (s.cpu c).pc.Want st → pc.Want st)
    (hreap : ∀ i, pc.reaps = some i → (s.proc i).state = .ZOMBIE) : Core (s.goto c pc) := by
  have hlock := (h.lock c).mp hl
  refine h.lockedGoto hlock rfl ?_ hframe (fun i hi => hwant _ (h.want c i hi))
    (fun _ _ => Iff.rfl) hreap
  rw [if_pos hpc, hlock]

/-- The lock is released. -/
lemma Core.release [DecidableEq κ] {pc : Pc} (h : Core s) (hl : (s.cpu c).pc.holds = true)
    (hpc : pc.holds = false) (hframe : ({ s.cpu c with pc := pc } : Cpu).Frame)
    (hwant : ∀ st, (s.cpu c).pc.Want st → pc.Want st) (hreap : pc.reaps = none) :
    Core (s.release c pc) := by
  have hlock := (h.lock c).mp hl
  refine h.lockedGoto (t := { s with lock := none }) hlock rfl ?_ hframe
    (fun i hi => hwant _ (h.want c i hi)) (fun _ _ => Iff.rfl) ?_
  · rw [if_neg (by rw [hpc]; exact Bool.false_ne_true)]
  · intro i hi
    rw [hreap] at hi
    cases hi

/-- A process that is off the CPU does not run. -/
lemma Off.ne_running {st : Ptable.State} (h : Off st) : st ≠ .RUNNING := by
  rintro rfl
  simp [Off] at h

/-- The registers of the CPU change, under the lock, and no process does. -/
theorem Core.setCpu [DecidableEq κ] {x : Cpu} (h : Core s) (hl : s.lock = some c)
    (ht : t.cpu = s.cpu ∧ t.lock = s.lock ∧ ∀ i, (t.proc i).state = (s.proc i).state)
    (hx : x.pc.holds = true) (hframe : x.Frame)
    (hwant : ∀ i, x.proc = some i → x.pc.Want (s.proc i).state)
    (hnew : ∀ i, x.proc = some i → (s.cpu c).proc = some i ∨ (s.proc i).state ≠ .RUNNING)
    (hold : ∀ i, (s.cpu c).proc = some i → x.proc = some i ∨ (s.proc i).state ≠ .RUNNING)
    (hreap : x.pc.reaps = none) : Core (t.setCpu c x) := by
  obtain ⟨hcpu, hlock, hstate⟩ := ht
  refine h.locked hl hcpu ?_ hframe ?_ ?_ hnew ?_ ?_
  · rw [hlock, hl, if_pos hx]
  · intro i hi
    rw [hstate]
    exact hwant i hi
  · intro i hi _
    rw [hstate]
    exact hi
  · intro i hi
    rw [hstate] at hi
    by_cases hc : (s.cpu c).proc = some i
    · rcases hold i hc with hxi | hne
      · exact .inl hxi
      · exact absurd hi hne
    · exact .inr ⟨hi, hc⟩
  · intro i hi
    rw [hreap] at hi
    cases hi

lemma Core.scheduler [DecidableEq κ] {pc : Pc} (h : Core s) (hpc : (s.cpu c).pc = pc)
    (hst : s.scheduler c pc = some t) : Core t := by
  have hframe := h.frame c
  have hwant := h.want c
  have hlock := (h.lock c).mp
  unfold Cpu.Frame at hframe
  rw [hpc] at hframe hwant hlock
  cases pc with
  | idle =>
    exact h.acquire (.scan 0) (by rw [hpc]; rfl) rfl hframe rfl rfl hst
  -- the slot becomes the processor's own, or the scan goes on or ends
  | scan j =>
    have hl := hlock rfl
    simp only [St.scheduler] at hst
    by_cases hj : j < NPROC
    · rw [dif_pos hj] at hst
      by_cases hrun : (s.proc ⟨j, hj⟩).state = .RUNNABLE
      · rw [if_pos hrun] at hst
        obtain rfl := Option.some.inj hst
        refine h.setCpu hl ⟨rfl, rfl, fun _ => rfl⟩ rfl ⟨rfl, hframe.2⟩ ?_ ?_ ?_ rfl
        · intro i hi
          obtain rfl := Option.some.inj hi
          exact hrun
        · intro i hi
          obtain rfl := Option.some.inj hi
          rw [hrun]
          exact .inr (by decide)
        · intro i hi
          rw [hframe.1] at hi
          cases hi
      · rw [if_neg hrun] at hst
        obtain rfl := Option.some.inj hst
        refine h.goto (by rw [hpc]; rfl) rfl hframe ?_ (fun i hi => by cases hi)
        rw [hpc]
        exact fun st hst => hst
    · rw [dif_neg hj] at hst
      obtain rfl := Option.some.inj hst
      refine h.release (by rw [hpc]; rfl) rfl hframe ?_ rfl
      rw [hpc]
      exact fun st hst => hst
  | picked i =>
    have hl := hlock rfl
    simp only [St.scheduler, St.switchuvm] at hst
    by_cases hpg : (s.proc i).pgdir = true
    · rw [if_pos hpg] at hst
      obtain rfl := Option.some.inj hst
      exact h.setCpu hl ⟨rfl, rfl, fun _ => rfl⟩ rfl ⟨hframe.1, hframe.2.1, rfl⟩ hwant
        (fun i hi => .inl hi) (fun i hi => .inl hi) rfl
    · rw [if_neg hpg] at hst
      cases hst
  | mapped i =>
    have hl := hlock rfl
    obtain rfl := Option.some.inj hst
    refine h.lockedGoto (t := s.setState i .RUNNING) hl rfl hl hframe ?_ ?_
      (fun j hj => by cases hj)
    · intro j hj
      rw [hframe.1] at hj
      obtain rfl := Option.some.inj hj
      show ((s.setState i .RUNNING).proc i).state = .RUNNING
      simp [St.setState]
    · intro j hj
      have hji : j ≠ i := by
        rintro rfl
        exact hj hframe.1
      rw [St.setState, modify_of_ne hji]
  -- `swtch`: from here on the process has the stack
  | marked i =>
    have hl := hlock rfl
    simp only [St.scheduler, St.swtchTo] at hst
    cases hctx : (s.proc i).context with
    | none =>
      rw [hctx] at hst
      cases hst
    | some ctx =>
      rw [hctx] at hst
      obtain rfl := Option.some.inj hst
      refine h.setCpu hl ⟨rfl, rfl, fun j => ?_⟩ rfl ⟨i, hframe.1, rfl, hframe.2.2, rfl⟩ hwant
        (fun i hi => .inl hi) (fun i hi => .inl hi) rfl
      rw [modify_state]
      split
      · next hji => rw [hji]
      · rfl
  | back i =>
    have hl := hlock rfl
    obtain rfl := Option.some.inj hst
    exact h.setCpu hl ⟨rfl, rfl, fun _ => rfl⟩ rfl ⟨hframe.1, hframe.2.1, rfl⟩ hwant
      (fun i hi => .inl hi) (fun i hi => .inl hi) rfl
  -- who came back is off, so the processor may forget it
  | unmapped i =>
    have hl := hlock rfl
    obtain rfl := Option.some.inj hst
    exact h.setCpu hl ⟨rfl, rfl, fun _ => rfl⟩ rfl ⟨rfl, hframe.2⟩ (fun j hj => by cases hj)
      (fun j hj => by cases hj) (fun j hj => .inr (Off.ne_running (hwant j hj))) rfl
  | wakeup | release | task | resume | yield | sleep | exit | wait | waitStack | waitVm
  | waitClear | kill | alloc | sched => cases hst

/-- All that happens to the states is that processes are woken up. -/
structure Wakes (s t : St κ) : Prop where
  cpu : t.cpu = s.cpu
  lock : t.lock = s.lock
  state : ∀ i, (t.proc i).state = (s.proc i).state ∨
    (s.proc i).state = .SLEEPING ∧ (t.proc i).state = .RUNNABLE
  context : ∀ i, (t.proc i).context = (s.proc i).context

lemma Wakes.refl (s : St κ) : Wakes s s := ⟨rfl, rfl, fun _ => .inl rfl, fun _ => rfl⟩

lemma Wakes.trans {r : St κ} (h : Wakes s t) (h' : Wakes t r) : Wakes s r := by
  refine ⟨h'.cpu.trans h.cpu, h'.lock.trans h.lock, fun i => ?_,
    fun i => (h'.context i).trans (h.context i)⟩
  rcases h.state i with heq | ⟨hs, ht⟩
  · rw [← heq]
    exact h'.state i
  · rcases h'.state i with heq' | ⟨ht', -⟩
    · exact .inr ⟨hs, heq'.trans ht⟩
    · rw [ht] at ht'
      cases ht'

/-- `wakeup1` wakes sleepers only. -/
lemma wakes_wakeup1 (s : St κ) (chan : Option Chan) : Wakes s (s.wakeup1 chan) := by
  refine ⟨rfl, rfl, fun i => wakeup1_state chan, fun i => ?_⟩
  unfold St.wakeup1
  dsimp only
  split <;> rfl

/-- An entry of the table changes, and its state does not, or the process is woken up. -/
theorem wakes_modify {f : Proc → Proc} (hstate : (f (s.proc i)).state = (s.proc i).state ∨
      (s.proc i).state = .SLEEPING ∧ (f (s.proc i)).state = .RUNNABLE)
    (hctx : (f (s.proc i)).context = (s.proc i).context) : Wakes s (s.modify i f) := by
  refine ⟨rfl, rfl, fun j => ?_, fun j => ?_⟩
  · by_cases hji : j = i
    · rw [hji, modify_self]
      exact hstate
    · rw [modify_of_ne hji]
      exact .inl rfl
  · by_cases hji : j = i
    · rw [hji, modify_self]
      exact hctx
    · rw [modify_of_ne hji]

lemma wakes_passChild (p : Slot) (s : St κ) (i : Slot) : Wakes s (s.passChild p i) := by
  have hparent : Wakes s (s.modify i fun q => { q with parent := some initproc }) :=
    wakes_modify (.inl rfl) rfl
  unfold St.passChild
  split
  · dsimp only
    split
    · exact hparent.trans (wakes_wakeup1 _ _)
    · exact hparent
  · exact Wakes.refl s

lemma wakes_exitWake (s : St κ) (p : Slot) : Wakes s (s.exitWake p) := by
  have hloop : ∀ (l : List Slot) (s : St κ), Wakes s (l.foldl (St.passChild p) s) := by
    intro l
    induction l with
    | nil => exact Wakes.refl
    | cons i l ih => exact fun s => (wakes_passChild p s i).trans (ih _)
  unfold St.exitWake
  dsimp only
  split
  · exact hloop _ s
  · exact (wakes_wakeup1 s _).trans (hloop _ _)

lemma wakes_killPid (s : St κ) (pid : Int32) : Wakes s (s.killPid pid) := by
  unfold St.killPid
  split
  · exact Wakes.refl s
  · next i _ =>
    refine wakes_modify ?_ rfl
    by_cases hs : (s.proc i).state = .SLEEPING
    · exact .inr ⟨hs, if_pos hs⟩
    · exact .inl (if_neg hs)

/-- Nobody starts or stops running. -/
lemma Wakes.running (h : Wakes s t) (i : Slot) :
    (t.proc i).state = .RUNNING ↔ (s.proc i).state = .RUNNING := by
  rcases h.state i with heq | ⟨hs, ht⟩
  · rw [heq]
  · rw [hs, ht]
    decide

/-- Processes are woken up, under the lock and by a CPU whose process is RUNNING. -/
theorem Core.wakes [DecidableEq κ] {pc : Pc} (h : Core s) (hw : Wakes s t)
    (hl : (s.cpu c).pc.holds = true) (hpc : pc.holds = true)
    (hframe : ({ s.cpu c with pc := pc } : Cpu).Frame)
    (hrun : ∀ i, (s.cpu c).proc = some i → (s.proc i).state = .RUNNING)
    (hwant : pc.Want .RUNNING) (hreap : ∀ i, pc.reaps = some i → (s.proc i).state = .ZOMBIE) :
    Core (t.goto c pc) := by
  have hlock := (h.lock c).mp hl
  refine h.lockedGoto hlock hw.cpu ?_ hframe ?_ (fun i _ => hw.running i) ?_
  · rw [hw.lock, hlock, if_pos hpc]
  · intro i hi
    rw [(hw.running i).mpr (hrun i hi)]
    exact hwant
  · intro i hi
    rcases hw.state i with heq | ⟨hs, -⟩
    · exact heq.trans (hreap i hi)
    · rw [hreap i hi] at hs
      cases hs

/-- The current process of a CPU with the lock leaves the state RUNNING. -/
theorem Core.leave [DecidableEq κ] {pc : Pc} {p : Slot} {f : Proc → Proc} (h : Core s)
    (hw : Wakes s t) (hl : (s.cpu c).pc.holds = true) (hpc : pc.holds = true)
    (hframe : ({ s.cpu c with pc := pc } : Cpu).Frame) (hp : (s.cpu c).proc = some p)
    (hwant : pc.Want (f (t.proc p)).state) (hreap : pc.reaps = none) :
    Core ((t.modify p f).goto c pc) := by
  have hlock := (h.lock c).mp hl
  refine h.lockedGoto hlock (t := t.modify p f) hw.cpu ?_ hframe ?_ ?_ ?_
  · show t.lock = _
    rw [hw.lock, hlock, if_pos hpc]
  · intro i hi
    rw [hp] at hi
    obtain rfl := Option.some.inj hi
    rw [modify_self]
    exact hwant
  · intro i hi
    have hip : i ≠ p := fun heq => hi (heq ▸ hp)
    rw [modify_of_ne hip]
    exact hw.running i
  · intro i hi
    rw [hreap] at hi
    cases hi

/-- What a scan finds is what it looks for. -/
lemma find_some {good : Proc → Bool} (h : s.find good = some i) : good (s.proc i) = true := by
  unfold St.find at h
  have hgood := List.find?_some h
  exact hgood

/-- `wait` frees a zombie, goes to sleep or returns. -/
lemma Core.waitScan [DecidableEq κ] {p : Slot} (h : Core s) (hpc : (s.cpu c).pc = .wait)
    (hp : (s.cpu c).proc = some p) : Core (s.waitScan c p) := by
  have hl : (s.cpu c).pc.holds = true := by
    rw [hpc]
    rfl
  have hframe := h.frame c
  unfold Cpu.Frame at hframe
  rw [hpc] at hframe
  unfold St.waitScan
  split
  · next i hi =>
    have hgood := find_some hi
    refine h.goto hl rfl hframe (by rw [hpc]; exact fun st hst => hst) ?_
    intro j hj
    obtain rfl := Option.some.inj hj
    simp only [decide_eq_true_eq] at hgood
    exact hgood.2
  · dsimp only
    split
    · exact h.goto hl rfl hframe (by rw [hpc]; exact fun st hst => hst) (fun i hi => by cases hi)
    · exact h.leave (Wakes.refl s) hl rfl hframe hp (.inr (.inl rfl)) rfl

/-- `allocproc` takes a free slot. -/
lemma Core.allocproc [DecidableEq κ] (h : Core s) (hpc : (s.cpu c).pc = .alloc) :
    Core (s.allocproc c) := by
  have hl : (s.cpu c).pc.holds = true := by
    rw [hpc]
    rfl
  have hframe := h.frame c
  unfold Cpu.Frame at hframe
  rw [hpc] at hframe
  unfold St.allocproc
  split
  · exact h.goto hl rfl hframe (by rw [hpc]; exact fun st hst => hst) (fun i hi => by cases hi)
  · next i hi =>
    have hgood := find_some hi
    simp only [decide_eq_true_eq] at hgood
    have hlock := (h.lock c).mp hl
    refine h.lockedGoto (t := { s.modify i _ with nextpid := s.nextpid + 1 }) hlock rfl hlock
      hframe ?_ ?_ (fun j hj => by cases hj)
    · intro j hj
      have hji : j ≠ i := by
        rintro rfl
        exact (h.ne_of_current hj).1 hgood
      dsimp only
      rw [modify_of_ne hji]
      have hw := h.want c j hj
      rw [hpc] at hw
      exact hw
    · intro j _
      dsimp only
      rw [modify_state]
      split
      · next hji =>
        rw [hji, hgood]
        simp
      · exact Iff.rfl

/-- A step of the current process under the lock. -/
lemma Core.lockedStep [DecidableEq κ] {pc : Pc} {p : Slot} (h : Core s) (hpc : (s.cpu c).pc = pc)
    (hp : (s.cpu c).proc = some p) (hst : s.locked c p pc = some t) : Core t := by
  have hframe := h.frame c
  have hwant := h.want c
  have hholds : pc.holds = true → (s.cpu c).pc.holds = true := fun hh => by rw [hpc, hh]
  unfold Cpu.Frame at hframe
  rw [hpc] at hframe hwant
  cases pc with
  | idle | scan | picked | mapped | marked | back | unmapped | wakeup | release | task => cases hst
  -- the processor comes back from `sched`, and the process has the lock
  | resume ctx =>
    have hl := hholds rfl
    cases ctx with
    | forkret =>
      obtain rfl := Option.some.inj hst
      exact h.release hl rfl hframe (by rw [hpc]; exact fun st hst => hst) rfl
    | yield k =>
      obtain rfl := Option.some.inj hst
      exact h.release hl rfl hframe (by rw [hpc]; exact fun st hst => hst) rfl
    | sleep =>
      obtain rfl := Option.some.inj hst
      exact h.wakes (wakes_modify (.inl rfl) rfl) hl rfl hframe hwant rfl (fun i hi => by cases hi)
    | wait =>
      obtain rfl := Option.some.inj hst
      exact h.wakes (wakes_modify (.inl rfl) rfl) hl rfl hframe hwant rfl (fun i hi => by cases hi)
    | exit => cases hst
  | yield k =>
    obtain rfl := Option.some.inj hst
    exact h.leave (Wakes.refl s) (hholds rfl) rfl hframe hp (.inl rfl) rfl
  | sleep chan =>
    obtain rfl := Option.some.inj hst
    exact h.leave (Wakes.refl s) (hholds rfl) rfl hframe hp (.inr (.inl rfl)) rfl
  | exit =>
    obtain rfl := Option.some.inj hst
    exact h.leave (wakes_exitWake s p) (hholds rfl) rfl hframe hp (.inr (.inr rfl)) rfl
  | wait =>
    obtain rfl := Option.some.inj hst
    exact h.waitScan hpc hp
  | waitStack i =>
    obtain rfl := Option.some.inj hst
    refine h.wakes (wakes_modify (.inl rfl) rfl) (hholds rfl) rfl hframe hwant rfl ?_
    intro j hj
    exact h.reaps c j (by rw [hpc]; exact hj)
  | waitVm i =>
    obtain rfl := Option.some.inj hst
    refine h.wakes (wakes_modify (.inl rfl) rfl) (hholds rfl) rfl hframe hwant rfl ?_
    intro j hj
    exact h.reaps c j (by rw [hpc]; exact hj)
  -- the slot that is freed belongs to a zombie, so to nobody who runs
  | waitClear i =>
    obtain rfl := Option.some.inj hst
    have hz := h.reaps c i (by rw [hpc]; rfl)
    have hlock := (h.lock c).mp (hholds rfl)
    refine h.lockedGoto (t := s.modify i _) hlock rfl hlock hframe ?_ ?_
      (fun j hj => by cases hj)
    · intro j hj
      have hrun : (s.proc j).state = .RUNNING := hwant j hj
      have hji : j ≠ i := by
        rintro rfl
        rw [hz] at hrun
        cases hrun
      rw [modify_of_ne hji]
      exact hrun
    · intro j _
      rw [modify_state]
      split
      · next hji =>
        rw [hji, hz]
        simp
      · exact Iff.rfl
  | kill pid =>
    obtain rfl := Option.some.inj hst
    exact h.wakes (wakes_killPid s pid) (hholds rfl) rfl hframe hwant rfl (fun i hi => by cases hi)
  | alloc =>
    obtain rfl := Option.some.inj hst
    exact h.allocproc hpc
  | sched ctx =>
    have hlock := (h.lock c).mp (hholds rfl)
    have hsw : s.sched c p ctx = some t := hst
    unfold St.sched at hsw
    rw [Option.ite_none_right_eq_some] at hsw
    obtain rfl := Option.some.inj hsw.2
    obtain ⟨i, hi, -, hcr3, hsched⟩ := hframe
    refine h.setCpu hlock ⟨rfl, rfl, fun j => ?_⟩ rfl ⟨?_, rfl, ?_⟩ hwant
      (fun i hi => .inl hi) (fun i hi => .inl hi) rfl
    · rw [modify_state]
      split
      · next hjp => rw [hjp]
      · rfl
    · rw [hsched]
      exact hi
    · rw [hsched]
      exact hcr3

/-- Another process is being forked: its state is EMBRYO until the end. -/
theorem Core.forkStep [DecidableEq κ] {k : Task} {p : Slot} {ok : Bool} (h : Core s) (hf : Forks s)
    (hpc : (s.cpu c).pc = .task k) (hst : s.forkStep c p ok k = some t) : Core t := by
  have hne : s.lock ≠ some c := by
    rw [ne_eq, ← h.lock c, hpc]
    exact Bool.false_ne_true
  have hframe := h.frame c
  have hwant := h.want c
  unfold Cpu.Frame at hframe
  rw [hpc] at hframe hwant
  have hemb : ∀ np, k.np = some np → (s.proc np).state = .EMBRYO := by
    intro np hnp
    exact hf.embryo (.inl c) np (by rw [St.carries, hpc]; exact hnp)
  -- all steps change the entry of the new process and the program point
  have hstep : ∀ (np : Slot) (f : Proc → Proc) (k' : Task), k.np = some np →
      (f (s.proc np)).state ≠ .RUNNING → Core ((s.modify np f).goto c (.task k')) := by
    intro np f k' hnp hrun
    refine h.unlocked (t := s.modify np f) hne rfl rfl (fun hh => by cases hh) hframe hwant ?_ rfl
    intro j
    by_cases hj : j = np
    · rw [hj, modify_self]
      exact .inr ⟨hemb np hnp, hrun⟩
    · rw [modify_of_ne hj]
      exact .inl rfl
  cases k with
  | user => cases hst
  | forkStack np =>
    have hnot : (s.proc np).state ≠ .RUNNING := by
      rw [hemb np rfl]
      decide
    simp only [St.forkStep] at hst
    split at hst
    · obtain rfl := Option.some.inj hst
      exact hstep np _ _ rfl hnot
    · obtain rfl := Option.some.inj hst
      exact hstep np _ _ rfl (by simp)
  | forkCopy np =>
    have hnot : (s.proc np).state ≠ .RUNNING := by
      rw [hemb np rfl]
      decide
    simp only [St.forkStep] at hst
    split at hst
    · obtain rfl := Option.some.inj hst
      exact hstep np _ _ rfl hnot
    · obtain rfl := Option.some.inj hst
      exact hstep np _ _ rfl (by simp)
  | forkReady np =>
    obtain rfl := Option.some.inj hst
    exact hstep np _ _ rfl (by simp)

lemma Core.unlockedStep [DecidableEq κ] {k : Task} {p : Slot} {m : Move} (h : Core s)
    (hf : Forks s) (hpc : (s.cpu c).pc = .task k) (hst : s.unlocked c p k m = some t) : Core t := by
  have hframe := h.frame c
  unfold Cpu.Frame at hframe
  rw [hpc] at hframe
  have hl : (s.cpu c).pc.holds = false := by
    rw [hpc]
    rfl
  cases m with
  | go => cases hst
  | yield => exact h.acquire (.yield k) hl rfl hframe rfl rfl hst
  | wakeup chan => exact h.acquire (.wakeup chan (some k)) hl rfl hframe rfl rfl hst
  | answer ok => exact h.forkStep hf hpc hst
  | sleep chan =>
    simp only [St.unlocked, Option.ite_none_right_eq_some] at hst
    exact h.acquire (.sleep chan) hl rfl hframe rfl rfl hst.2
  | fork =>
    simp only [St.unlocked, Option.ite_none_right_eq_some] at hst
    exact h.acquire .alloc hl rfl hframe rfl rfl hst.2
  | exit =>
    simp only [St.unlocked, Option.ite_none_right_eq_some] at hst
    exact h.acquire .exit hl rfl hframe rfl rfl hst.2
  | wait =>
    simp only [St.unlocked, Option.ite_none_right_eq_some] at hst
    exact h.acquire .wait hl rfl hframe rfl rfl hst.2
  | kill pid =>
    simp only [St.unlocked, Option.ite_none_right_eq_some] at hst
    exact h.acquire (.kill pid) hl rfl hframe rfl rfl hst.2

/-- The ways in which a CPU can take a step. -/
lemma next_cases [DecidableEq κ] {m : Move} (h : s.next (c, m) = some t) :
    (∃ chan, (s.cpu c).pc = .idle ∧ s.acquire c (.wakeup chan none) = some t) ∨
    (∃ chan k, (s.cpu c).pc = .wakeup chan k ∧ t = (s.wakeup1 (some chan)).goto c (.release k)) ∨
    ((s.cpu c).pc = .release none ∧ t = s.release c .idle) ∨
    (∃ k, (s.cpu c).pc = .release (some k) ∧ t = s.release c (.task k)) ∨
    (∃ k p, (s.cpu c).pc = .task k ∧ (s.cpu c).proc = some p ∧ s.unlocked c p k m = some t) ∨
    s.scheduler c (s.cpu c).pc = some t ∨
    ∃ p, (s.cpu c).proc = some p ∧ s.locked c p (s.cpu c).pc = some t := by
  unfold St.next at h
  dsimp only at h
  split at h
  · next chan hpc => exact .inl ⟨chan, hpc, h⟩
  · next chan k hpc => exact .inr (.inl ⟨chan, k, hpc, (Option.some.inj h).symm⟩)
  · next hpc => exact .inr (.inr (.inl ⟨hpc, (Option.some.inj h).symm⟩))
  · next k hpc => exact .inr (.inr (.inr (.inl ⟨k, hpc, (Option.some.inj h).symm⟩)))
  · next _ k hpc =>
    obtain ⟨p, hp, hst⟩ := Option.bind_eq_some_iff.mp h
    exact .inr (.inr (.inr (.inr (.inl ⟨k, p, hpc, hp, hst⟩))))
  · split at h
    all_goals
      first
      | exact .inr (.inr (.inr (.inr (.inr (.inl h)))))
      | obtain ⟨p, hp, hst⟩ := Option.bind_eq_some_iff.mp h
        exact .inr (.inr (.inr (.inr (.inr (.inr ⟨p, hp, hst⟩)))))
  · cases h

lemma Core.next [DecidableEq κ] {m : Move} (h : Core s) (hf : Forks s)
    (hst : s.next (c, m) = some t) : Core t := by
  have hframe := h.frame c
  unfold Cpu.Frame at hframe
  rcases next_cases hst with ⟨chan, hpc, hacq⟩ | ⟨chan, k, hpc, rfl⟩ | ⟨hpc, rfl⟩ | ⟨k, hpc, rfl⟩ |
    ⟨k, p, hpc, hp, hun⟩ | hsch | ⟨p, hp, hlk⟩
  · rw [hpc] at hframe
    exact h.acquire (.wakeup chan none) (by rw [hpc]; rfl) rfl hframe rfl rfl hacq
  · rw [hpc] at hframe
    have hwant := h.want c
    rw [hpc] at hwant
    refine h.wakes (wakes_wakeup1 s _) (by rw [hpc]; rfl) rfl ?_ hwant rfl (fun i hi => by cases hi)
    cases k with
    | none => exact hframe
    | some k => exact hframe
  · rw [hpc] at hframe
    exact h.release (by rw [hpc]; rfl) rfl hframe (by rw [hpc]; exact fun st hst => hst) rfl
  · rw [hpc] at hframe
    exact h.release (by rw [hpc]; rfl) rfl hframe (by rw [hpc]; exact fun st hst => hst) rfl
  · exact h.unlockedStep hf hpc hun
  · exact h.scheduler rfl hsch
  · exact h.lockedStep rfl hp hlk

end

end Sched
end OhMyXv6
