import OhMyXv6.Proc.Reap

/-!
# Whom `kill` hits

`kill` looks for the pid in all slots, also in those without a process: a slot that was never used has
pid 0, and one whose `fork` has failed still has the pid it was given. `allocproc` takes a slot over with
its `killed` flag. And the pids are `int`s: after 2^31 − 1 of them they are not positive any more.
`Safe` says that a step stays away from all this.
-/

namespace OhMyXv6
namespace Ptable

open State

/-- `allocproc` has a positive pid to give, `kill` is not given the pid of a slot without a process, and a
`fork` that fails has set up a process that was not killed. -/
def Safe (s : Table) : Act → Prop
  | .fork _ => (∃ i, (s.proc i).state = UNUSED) → 0 < s.nextpid
  | .kill _ pid => ∀ i, (s.proc i).state = UNUSED → (s.proc i).pid ≠ pid
  | .step p ok => ok = false → ∀ np, s.pc p = .forkStack np ∨ s.pc p = .forkCopy np →
    (s.proc np).killed = false
  | _ => True

/-- The pid and the `killed` flag of a slot are those of its process. -/
structure Proc.Own (q : Proc) : Prop where
  pid : q.state ≠ UNUSED → q.pid.toInt = q.uid + 1
  unused : q.state = UNUSED → q.killed = false
  killed : q.killed = true → q.hit = true

/-- What `kill` and the pids rest on. -/
structure Exact (s : Table) : Prop where
  /-- While the pids are positive, they count the processes. -/
  next : 0 < s.nextpid → s.nextpid.toInt = s.born + 1
  own : ∀ i, (s.proc i).Own

/-- Only `init` is there, and nobody was hit. -/
lemma exact_userinit : Exact userinit := by
  refine ⟨fun _ => by decide, fun i => ?_⟩
  by_cases hi : i = initproc
  · subst hi
    exact ⟨fun _ => by decide, nofun, nofun⟩
  · have hproc : userinit.proc i = ⟨UNUSED, 0, none, none, false, 0, false⟩ := if_neg hi
    rw [hproc]
    exact ⟨fun hc => absurd rfl hc, fun _ => rfl, nofun⟩

/-- The next pid, while it does not wrap. -/
lemma toInt_add_one {n : Int32} (hn : 0 < n) (hn' : 0 < n + 1) : (n + 1).toInt = n.toInt + 1 := by
  rw [Int32.lt_iff_toInt_lt, Int32.toInt_zero] at hn hn'
  rw [Int32.toInt_add, Int32.toInt_one] at hn' ⊢
  have hlt : n.toInt < 2 ^ 31 := n.toInt_lt
  rw [Int.bmod_def] at hn' ⊢
  split at hn'
  · next h => rw [if_pos h]; omega
  · omega

section
variable {s t : Table} {p i : Slot}

/-- A change of the state keeps this, if the slot is not given up. -/
theorem Proc.Own.of_eq {q r : Proc} (h : q.Own) (hpid : r.pid = q.pid) (huid : r.uid = q.uid)
    (hkilled : r.killed = q.killed) (hhit : r.hit = q.hit)
    (hstate : r.state = UNUSED ↔ q.state = UNUSED) : r.Own := by
  constructor
  · intro hr
    rw [hpid, huid]
    exact h.pid fun hq => hr (hstate.mpr hq)
  · intro hr
    rw [hkilled]
    exact h.unused (hstate.mp hr)
  · intro hr
    rw [hhit]
    exact h.killed (hkilled ▸ hr)

/-- A process that wakes up keeps what is its own. -/
lemma Woken.own {q r : Proc} (h : Woken q r) (hq : q.Own) : r.Own := by
  rcases h with rfl | ⟨hs, rfl⟩
  · exact hq
  · exact hq.of_eq rfl rfl rfl rfl (by simp [hs])

/-- A step that changes one slot. -/
lemma Exact.modify (h : Exact s) (hother : ∀ j, j ≠ i → t.proc j = s.proc j)
    (hi : (s.proc i).Own → (t.proc i).Own) (hnext : t.nextpid = s.nextpid)
    (hborn : t.born = s.born) : Exact t := by
  refine ⟨?_, fun j => ?_⟩
  · rw [hnext, hborn]
    exact h.next
  · by_cases hj : j = i
    · subst hj
      exact hi (h.own j)
    · rw [hother j hj]
      exact h.own j

/-- A freed slot has nobody's flag. -/
lemma Exact.waits (h : Exact s) (hstate : (s.proc p).state = RUNNING) (hw : Waits s p t) :
    Exact t := by
  cases hw with
  | @reap i hparent hzombie =>
    refine h.modify (i := i) (fun j hj => by simp [hj]) (fun hi => ?_) rfl rfl
    simp only [Table.ret_proc, Table.record_proc, Table.modify_self]
    exact ⟨fun hc => absurd rfl hc, fun _ => rfl, nofun⟩
  | fail => exact ⟨h.next, h.own⟩
  | sleep hnone =>
    refine h.modify (i := p) (fun j hj => by simp [hj]) (fun hi => ?_) rfl rfl
    simp only [Table.goto_proc, Table.modify_self]
    exact hi.of_eq rfl rfl rfl rfl (by simp [hstate])

/-- The child is born unhit, in a safe step. -/
lemma Exact.forks {ok : Bool} (h : Exact s) (hfam : Family s) (hsafe : Safe s (.step p ok))
    (hf : Forks s p ok t) : Exact t := by
  cases hf with
  | @fail np hpc =>
    have hclear := hsafe rfl np hpc
    refine h.modify (i := np) (fun j hj => by simp [Table.forkFail, Table.setState, hj])
      (fun hi => ?_) rfl rfl
    simp only [Table.forkFail, Table.setState, Table.ret_proc, Table.modify_self]
    exact ⟨fun hc => absurd rfl hc, fun _ => hclear, hi.killed⟩
  | stack hpc => exact ⟨h.next, h.own⟩
  | @copy np hpc =>
    refine h.modify (i := np) (fun j hj => by simp [hj]) (fun hi => ?_) rfl rfl
    simp only [Table.goto_proc, Table.modify_self]
    exact hi.of_eq rfl rfl rfl rfl Iff.rfl
  | @ready np ok hpc =>
    have hembryo := (hfam.fork p np (by rw [hpc]; rfl)).1
    refine h.modify (i := np) (fun j hj => by simp [Table.setState, hj]) (fun hi => ?_) rfl rfl
    simp only [Table.setState, Table.ret_proc, Table.modify_self]
    exact hi.of_eq rfl rfl rfl rfl (by simp [hembryo])

/-- `allocproc` gives out the next pid. -/
lemma Exact.alloc (h : Exact s) (hpos : 0 < s.nextpid) (hunused : (s.proc i).state = UNUSED)
    (hi : t.proc i = { s.proc i with state := EMBRYO, pid := s.nextpid, uid := s.born, hit := false })
    (hother : ∀ j, j ≠ i → t.proc j = s.proc j) (hnext : t.nextpid = s.nextpid + 1)
    (hborn : t.born = s.born + 1) : Exact t := by
  refine ⟨fun hpos' => ?_, fun j => ?_⟩
  · rw [hnext] at hpos' ⊢
    rw [toInt_add_one hpos hpos', h.next hpos, hborn]
    push_cast
    rfl
  · by_cases hj : j = i
    · subst hj
      rw [hi]
      refine ⟨fun _ => h.next hpos, nofun, fun hk => ?_⟩
      rw [show (s.proc j).killed = false from (h.own j).unused hunused] at hk
      cases hk
    · rw [hother j hj]
      exact h.own j

lemma Exact.step {a : Act} (h : Exact s) (hfam : Family s) (hsafe : Safe s a) (hs : Step s a t) :
    Exact t := by
  cases hs with
  | @schedule p hstate hpc =>
    refine h.modify (i := p) (fun j hj => by simp [Table.setState, hj]) (fun hi => ?_) rfl rfl
    simp only [Table.setState, Table.modify_self]
    exact hi.of_eq rfl rfl rfl rfl (by simp [hstate])
  | @awake p hstate hpc =>
    refine h.modify (i := p) (fun j hj => by simp [hj]) (fun hi => ?_) rfl rfl
    simp only [Table.goto_proc, Table.modify_self]
    exact hi.of_eq rfl rfl rfl rfl (by simp [hstate])
  | @rescan p t hstate hpc hw =>
    have hrun : Exact (s.modify p fun q => { q with state := RUNNING, chan := none }) := by
      refine h.modify (i := p) (fun j hj => by simp [hj]) (fun hi => ?_) rfl rfl
      simp only [Table.modify_self]
      exact hi.of_eq rfl rfl rfl rfl (by simp [hstate])
    exact hrun.waits (by simp) hw
  | @yield p hstate =>
    refine h.modify (i := p) (fun j hj => by simp [Table.setState, hj]) (fun hi => ?_) rfl rfl
    simp only [Table.setState, Table.modify_self]
    exact hi.of_eq rfl rfl rfl rfl (by simp [hstate])
  | @sleep p k hrun =>
    refine h.modify (i := p) (fun j hj => by simp [hj]) (fun hi => ?_) rfl rfl
    simp only [Table.goto_proc, Table.modify_self]
    exact hi.of_eq rfl rfl rfl rfl (by simp [hrun.1])
  | @wakeup k => exact ⟨h.next, fun i => (s.wakeup1_woken _ i).own (h.own i)⟩
  | forkFull hrun => exact ⟨h.next, h.own⟩
  | @fork p i hrun hunused =>
    refine h.alloc (i := i) (hsafe ⟨i, hunused⟩) hunused ?_ (fun j hj => ?_) rfl rfl
    · simp
    · simp [hj]
  | step hstate hf => exact h.forks hfam hsafe hf
  | @exit p t hrun hp he =>
    refine ⟨?_, fun i => ?_⟩
    · rw [he.nextpid, he.born]
      exact h.next
    · obtain ⟨hpid, hkilled, huid, hhit⟩ := he.fields i
      refine (h.own i).of_eq hpid huid hkilled hhit ?_
      by_cases hi : i = p
      · subst hi
        simp [he.zombie, hrun.1]
      · exact he.dead hi (by simp [State.Live])
  | wait hrun hw => exact h.waits hrun.1 hw
  | killNone hrun hnone => exact ⟨h.next, h.own⟩
  | @kill p pid i hrun hpid =>
    -- the step is safe, so the target is no free slot
    have hused : (s.proc i).state ≠ UNUSED := fun hu => hsafe i hu hpid
    refine h.modify (i := i) (fun j hj => by simp [hj]) (fun hi => ?_) rfl rfl
    simp only [Table.ret_proc, Table.modify_self]
    refine ⟨fun _ => hi.pid hused, fun hu => ?_, fun _ => rfl⟩
    by_cases hsleep : (s.proc i).state = SLEEPING
    · simp [hsleep] at hu
    · simp [hsleep, hused] at hu
  | @fault p hrun =>
    refine h.modify (i := p) (fun j hj => by simp [hj]) (fun hi => ?_) rfl rfl
    simp only [Table.modify_self]
    exact ⟨hi.pid, fun hu => by simp [hrun.1] at hu, fun _ => rfl⟩

/-- One `kill`, in a table where the pids of the slots are those of their processes. -/
theorem kill_exact {pid : Int32} (hsafe : Safe s (.kill p pid)) (hs : Step s (.kill p pid) t) :
    (t.rax p = 0 ↔ ∃ i, (s.proc i).state ≠ UNUSED ∧ (s.proc i).pid = pid) ∧
      (t.rax p = 0 → ∃ i, (s.proc i).state ≠ UNUSED ∧ (s.proc i).pid = pid ∧ (t.proc i).killed = true) ∧
      ∀ i, (t.proc i).killed ≠ (s.proc i).killed →
        t.rax p = 0 ∧ (s.proc i).state ≠ UNUSED ∧ (s.proc i).pid = pid := by
  cases hs with
  | killNone hrun hnone =>
    have hrax : (s.ret p (-1)).rax p ≠ 0 := by
      rw [Table.ret_rax]
      decide
    refine ⟨⟨fun h => absurd h hrax, fun ⟨i, _, hi⟩ => absurd hi (hnone i)⟩, fun h => absurd h hrax, ?_⟩
    exact fun i hi => absurd rfl hi
  | @kill _ _ i hrun hpid =>
    have hused : (s.proc i).state ≠ UNUSED := fun hu => hsafe i hu hpid
    refine ⟨⟨fun _ => ⟨i, hused, hpid⟩, fun _ => Table.ret_rax⟩, fun _ => ⟨i, hused, hpid, ?_⟩, ?_⟩
    · simp
    · intro j hj
      have hji : j = i := by
        by_contra hne
        simp [hne] at hj
      subst hji
      exact ⟨Table.ret_rax, hused, hpid⟩

/-- **`kill` hits exactly its target**, in every run of safe steps. -/
theorem kill_hits_target {as : List Act} (hsafe : Runs.Along Table.step Safe userinit as)
    (hrun : Runs.run Table.step userinit as = some s) :
    (∀ i j, (s.proc i).state ≠ UNUSED → (s.proc j).state ≠ UNUSED →
      (s.proc i).pid = (s.proc j).pid → i = j) ∧
    (∀ i, (s.proc i).state ≠ UNUSED → 0 < (s.proc i).pid) ∧
    (∀ p pid t, Safe s (.kill p pid) → s.step (.kill p pid) = some t →
      (t.rax p = 0 ↔ ∃ i, (s.proc i).state ≠ UNUSED ∧ (s.proc i).pid = pid) ∧
      (t.rax p = 0 → ∃ i, (s.proc i).state ≠ UNUSED ∧ (s.proc i).pid = pid ∧ (t.proc i).killed = true) ∧
      ∀ i, (t.proc i).killed ≠ (s.proc i).killed →
        t.rax p = 0 ∧ (s.proc i).state ≠ UNUSED ∧ (s.proc i).pid = pid) ∧
    ∀ i, (s.proc i).state ≠ UNUSED → (s.proc i).hit = false → (s.proc i).killed = false := by
  obtain ⟨-, hhist⟩ := family_run hrun
  have hexact : Family s ∧ Exact s :=
    Runs.Along.invariant (I := fun s => Family s ∧ Exact s)
      (fun s a t hs hok hst => ⟨hs.1.step (step_cases hst), hs.2.step hs.1 hok (step_cases hst)⟩)
      ⟨family_userinit, exact_userinit⟩ hsafe hrun
  obtain ⟨-, hexact⟩ := hexact
  refine ⟨fun i j hi hj hij => ?_, fun i hi => ?_, fun p pid t hok hst => ?_, fun i _ hhit => ?_⟩
  · have hpi := (hexact.own i).pid hi
    have hpj := (hexact.own j).pid hj
    rw [hij] at hpi
    exact hhist.inj i j hi hj (by omega)
  · have hpid := (hexact.own i).pid hi
    rw [Int32.lt_iff_toInt_lt, Int32.toInt_zero]
    omega
  · exact kill_exact hok (step_cases hst)
  · by_contra hk
    rw [Bool.not_eq_false] at hk
    rw [(hexact.own i).killed hk] at hhit
    cases hhit

end

instance decidableSafe (s : Table) : (a : Act) → Decidable (Safe s a)
  | .fork _ => inferInstanceAs (Decidable (_ → _))
  | .kill _ _ => inferInstanceAs (Decidable (∀ _, _ → _))
  | .step _ _ => inferInstanceAs (Decidable (_ → ∀ _, _ → _))
  | .schedule _ | .yield _ | .sleep _ _ | .wakeup _ | .exit _ | .wait _ | .fault _ => isTrue trivial

/-- `init` forks and kills its child. -/
def killRun : List Act :=
  [.schedule initproc, .fork initproc, .step initproc true, .step initproc true, .step initproc true,
    .kill initproc 2]

/-- A child is killed and nobody else. -/
theorem kill_hits_target_killRun : ∃ s, Runs.run Table.step userinit killRun = some s ∧
    Runs.Along Table.step Safe userinit killRun ∧ s.rax initproc = 0 ∧
      ∀ i, (s.proc i).state ≠ UNUSED → 0 < (s.proc i).pid := by
  have hsafe : Runs.Along Table.step Safe userinit killRun := by decide +kernel
  have hany : (Runs.run Table.step userinit killRun).any (fun s => s.rax initproc = 0) = true := by
    decide +kernel
  obtain ⟨s, hs, hrax⟩ := (Option.any_eq_true _ _).mp hany
  exact ⟨s, hs, hsafe, of_decide_eq_true hrax, (kill_hits_target hsafe hs).2.1⟩

/-- `init` calls `kill(0)`, and forks. -/
def staleRun : List Act :=
  [.schedule initproc, .kill initproc 0, .fork initproc, .step initproc true, .step initproc true,
    .step initproc true]

/-- `kill(0)` returns 0 although there is no process 0, and the next child is born killed. -/
theorem kill_stale :
    (∃ s, Runs.run Table.step userinit (staleRun.take 2) = some s ∧ s.rax initproc = 0 ∧
      ∀ i, (s.proc i).state ≠ UNUSED → (s.proc i).pid ≠ 0) ∧
    ∃ s, Runs.run Table.step userinit staleRun = some s ∧
      ∃ i, s.rax initproc = (s.proc i).pid ∧ (s.proc i).state = RUNNABLE ∧
        (s.proc i).killed = true ∧ (s.proc i).hit = false := by
  constructor
  · have hany : (Runs.run Table.step userinit (staleRun.take 2)).any (fun s =>
        s.rax initproc = 0 ∧ ∀ i, (s.proc i).state ≠ UNUSED → (s.proc i).pid ≠ 0) = true := by
      decide +kernel
    obtain ⟨s, hs, hend⟩ := (Option.any_eq_true _ _).mp hany
    exact ⟨s, hs, of_decide_eq_true hend⟩
  · have hany : (Runs.run Table.step userinit staleRun).any (fun s =>
        ∃ i, s.rax initproc = (s.proc i).pid ∧ (s.proc i).state = RUNNABLE ∧
          (s.proc i).killed = true ∧ (s.proc i).hit = false) = true := by
      decide +kernel
    obtain ⟨s, hs, hend⟩ := (Option.any_eq_true _ _).mp hany
    exact ⟨s, hs, of_decide_eq_true hend⟩

end Ptable
end OhMyXv6
