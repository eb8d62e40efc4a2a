import OhMyXv6.Proc.Family

/-!
# Every exited process is reaped once

The log says when a slot was taken by a new process, when its process exited, and which `wait` returned
it. `pending` reads off the log which process has exited in a slot and was not returned yet, and
`Ordered` says that each event finds the slot as it must be. In a reachable table `pending` is what the
slots of the zombies hold.
-/

namespace OhMyXv6
namespace Ptable

open State

/-- The process returned by a `wait`. -/
def Event.reaped : Event → Option ℕ
  | reap _ u _ => some u
  | _ => none

/-- The process that has exited in slot `i` and is still there. -/
def pending : List Event → Slot → Option ℕ
  | [], _ => none
  | .alloc _ _ :: l, i => pending l i
  | .exit j u :: l, i => if j = i then some u else pending l i
  | .reap j _ _ :: l, i => if j = i then none else pending l i

/-- A slot is taken, and its process exits, only when nothing is pending there. -/
def Ordered : List Event → Prop
  | [] => True
  | .alloc i _ :: l => pending l i = none ∧ Ordered l
  | .exit i _ :: l => pending l i = none ∧ Ordered l
  | .reap i u _ :: l => pending l i = some u ∧ Ordered l

/-- The later part of an ordered history. -/
lemma Ordered.of_append {l l' : List Event} (h : Ordered (l ++ l')) : Ordered l' := by
  induction l with
  | nil => exact h
  | cons e l ih =>
    apply ih
    cases e with
    | alloc i u => exact h.2
    | exit i u => exact h.2
    | reap i u b => exact h.2

/-- What is pending stays so until a `wait` returns it. -/
lemma pending_append {l l' : List Event} {i : Slot} {u : ℕ} (hord : Ordered (l ++ l'))
    (h : pending l' i = some u) : pending (l ++ l') i = some u ∨ ∃ b, .reap i u b ∈ l := by
  induction l with
  | nil => exact .inl h
  | cons e l ih =>
    have hord' : Ordered (l ++ l') := Ordered.of_append (l := [e]) hord
    rcases ih hord' with hp | ⟨b, hb⟩
    · cases e with
      | alloc j v => exact .inl hp
      | exit j v =>
        have hnone : pending (l ++ l') j = none := hord.1
        have hji : j ≠ i := by
          intro hji
          rw [hji, hp] at hnone
          cases hnone
        exact .inl (by simp [pending, hji, hp])
      | reap j v b =>
        by_cases hji : j = i
        · subst hji
          have hsome : pending (l ++ l') j = some v := hord.1
          rw [hp, Option.some.injEq] at hsome
          exact .inr ⟨b, by simp [hsome]⟩
        · exact .inl (by simp [pending, hji, hp])
    · exact .inr ⟨b, List.mem_cons_of_mem _ hb⟩

/-- What the events say of the processes that are in the table. -/
structure History (s : Table) : Prop where
  lt : ∀ i, (s.proc i).state ≠ UNUSED → (s.proc i).uid < s.born
  inj : ∀ i j, (s.proc i).state ≠ UNUSED → (s.proc j).state ≠ UNUSED →
    (s.proc i).uid = (s.proc j).uid → i = j
  /-- No process in the table was returned by a `wait`. -/
  reaped : ∀ u ∈ s.log.filterMap Event.reaped, u < s.born ∧
    ∀ i, (s.proc i).state ≠ UNUSED → (s.proc i).uid ≠ u
  nodup : (s.log.filterMap Event.reaped).Nodup
  ordered : Ordered s.log
  pending : ∀ i, pending s.log i = if (s.proc i).state = ZOMBIE then some (s.proc i).uid else none

lemma history_userinit : History userinit := by
  have hstate : ∀ i, (userinit.proc i).state ≠ UNUSED → i = initproc := by
    intro i hi
    by_contra hne
    exact hi (by simp [userinit, hne])
  constructor
  · intro i hi
    rw [hstate i hi]
    decide
  · intro i j hi hj _
    rw [hstate i hi, hstate j hj]
  · simp [userinit]
  · simp [userinit]
  · trivial
  · intro i
    have hz : (userinit.proc i).state ≠ ZOMBIE := by
      by_cases hi : i = initproc
      · subst hi
        decide
      · simp [userinit, hi]
    rw [if_neg hz]
    rfl

section
variable {s t : Table} {p : Slot}

/-- Steps in which no process is born, exits or is returned. -/
lemma History.frame (h : History s) (huid : ∀ i, (t.proc i).uid = (s.proc i).uid)
    (hunused : ∀ i, (t.proc i).state ≠ UNUSED → (s.proc i).state ≠ UNUSED)
    (hzombie : ∀ i, (t.proc i).state = ZOMBIE ↔ (s.proc i).state = ZOMBIE)
    (hborn : t.born = s.born) (hlog : t.log = s.log) : History t := by
  constructor
  · intro i hi
    rw [huid, hborn]
    exact h.lt i (hunused i hi)
  · intro i j hi hj hij
    rw [huid, huid] at hij
    exact h.inj i j (hunused i hi) (hunused j hj) hij
  · intro u hu
    rw [hlog] at hu
    rw [hborn]
    refine ⟨(h.reaped u hu).1, fun i hi => ?_⟩
    rw [huid]
    exact (h.reaped u hu).2 i (hunused i hi)
  · rw [hlog]
    exact h.nodup
  · rw [hlog]
    exact h.ordered
  · intro i
    rw [hlog, huid, h.pending i]
    exact if_congr (hzombie i).symm rfl rfl

/-- Such a step on one process. -/
lemma History.modify {i : Slot} (h : History s) (hother : ∀ j, j ≠ i → t.proc j = s.proc j)
    (huid : (t.proc i).uid = (s.proc i).uid)
    (hunused : (t.proc i).state ≠ UNUSED → (s.proc i).state ≠ UNUSED)
    (hzombie : (t.proc i).state = ZOMBIE ↔ (s.proc i).state = ZOMBIE)
    (hborn : t.born = s.born) (hlog : t.log = s.log) : History t := by
  refine h.frame (fun j => ?_) (fun j => ?_) (fun j => ?_) hborn hlog
  · by_cases hj : j = i
    · subst hj
      exact huid
    · rw [hother j hj]
  · by_cases hj : j = i
    · subst hj
      exact hunused
    · simp [hother j hj]
  · by_cases hj : j = i
    · subst hj
      exact hzombie
    · rw [hother j hj]

/-- `allocproc` takes a slot. -/
lemma History.alloc {i : Slot} (h : History s) (hunused : (s.proc i).state = UNUSED)
    (hi : (t.proc i).state = EMBRYO) (huid : (t.proc i).uid = s.born)
    (hother : ∀ j, j ≠ i → t.proc j = s.proc j) (hborn : t.born = s.born + 1)
    (hlog : t.log = .alloc i s.born :: s.log) : History t := by
  have hlt : ∀ j, j ≠ i → (t.proc j).state ≠ UNUSED → (t.proc j).uid < s.born := by
    intro j hji hj
    rw [hother j hji] at hj ⊢
    exact h.lt j hj
  constructor
  · intro j hj
    rw [hborn]
    -- the new process is the youngest of all
    by_cases hji : j = i
    · rw [hji, huid]
      omega
    · have hold := hlt j hji hj
      omega
  · intro j k hj hk hjk
    by_cases hji : j = i
    · by_cases hki : k = i
      · rw [hji, hki]
      · have hold := hlt k hki hk
        rw [hji, huid] at hjk
        omega
    · have hold := hlt j hji hj
      by_cases hki : k = i
      · rw [hki, huid] at hjk
        omega
      · rw [hother j hji] at hj hjk
        rw [hother k hki] at hk hjk
        exact h.inj j k hj hk hjk
  · intro u hu
    rw [hlog] at hu
    obtain ⟨hlt', hne⟩ := h.reaped u hu
    refine ⟨by omega, fun j hj => ?_⟩
    by_cases hji : j = i
    · rw [hji, huid]
      omega
    · rw [hother j hji] at hj ⊢
      exact hne j hj
  · rw [hlog]
    exact h.nodup
  · rw [hlog]
    refine ⟨?_, h.ordered⟩
    rw [h.pending i, hunused]
    rfl
  · intro j
    rw [hlog]
    show Ptable.pending s.log j = _
    rw [h.pending j]
    by_cases hji : j = i
    · rw [hji, hunused, hi]
      rfl
    · rw [hother j hji]

lemma History.exits (h : History s) (hstate : (s.proc p).state = RUNNING) (he : Exits s p t) :
    History t := by
  have huid : ∀ i, (t.proc i).uid = (s.proc i).uid := fun i => (he.fields i).2.2.1
  have hunused : ∀ i, (t.proc i).state ≠ UNUSED → (s.proc i).state ≠ UNUSED := by
    intro i hi
    by_cases hip : i = p
    · simp [hip, hstate]
    · exact fun hc => hi ((he.dead hip (by simp [State.Live])).mpr hc)
  constructor
  · intro i hi
    rw [huid, he.born]
    exact h.lt i (hunused i hi)
  · intro i j hi hj hij
    rw [huid, huid] at hij
    exact h.inj i j (hunused i hi) (hunused j hj) hij
  · intro u hu
    rw [he.log] at hu
    rw [he.born]
    refine ⟨(h.reaped u hu).1, fun i hi => ?_⟩
    rw [huid]
    exact (h.reaped u hu).2 i (hunused i hi)
  · rw [he.log]
    exact h.nodup
  · rw [he.log]
    refine ⟨?_, h.ordered⟩
    rw [h.pending p, hstate]
    rfl
  · intro i
    rw [he.log]
    by_cases hip : i = p
    · subst hip
      simp [Ptable.pending, he.zombie, huid]
    · have hz : (t.proc i).state = ZOMBIE ↔ (s.proc i).state = ZOMBIE :=
        he.dead hip (by simp [State.Live])
      simp [Ptable.pending, Ne.symm hip, h.pending i, huid, hz]

/-- A `wait` returns a zombie. -/
lemma History.reap {i : Slot} (h : History s) (hzombie : (s.proc i).state = ZOMBIE)
    (hi : (t.proc i).state = UNUSED) (hother : ∀ j, j ≠ i → t.proc j = s.proc j)
    (hborn : t.born = s.born) (hlog : t.log = .reap i (s.proc i).uid p :: s.log) : History t := by
  have hold : ∀ j, (t.proc j).state ≠ UNUSED → j ≠ i ∧ (s.proc j).state ≠ UNUSED ∧
      t.proc j = s.proc j := by
    intro j hj
    have hji : j ≠ i := fun hji => hj (hji ▸ hi)
    exact ⟨hji, hother j hji ▸ hj, hother j hji⟩
  have hused : (s.proc i).state ≠ UNUSED := by simp [hzombie]
  constructor
  · intro j hj
    obtain ⟨-, hj', heq⟩ := hold j hj
    rw [heq, hborn]
    exact h.lt j hj'
  · intro j k hj hk hjk
    obtain ⟨-, hj', heqj⟩ := hold j hj
    obtain ⟨-, hk', heqk⟩ := hold k hk
    rw [heqj, heqk] at hjk
    exact h.inj j k hj' hk' hjk
  · intro u hu
    rw [hlog] at hu
    rw [hborn]
    rcases List.mem_cons.mp hu with rfl | hu
    · refine ⟨h.lt i hused, fun j hj huid => ?_⟩
      obtain ⟨hji, hj', heq⟩ := hold j hj
      rw [heq] at huid
      exact hji (h.inj j i hj' hused huid)
    · refine ⟨(h.reaped u hu).1, fun j hj => ?_⟩
      obtain ⟨-, hj', heq⟩ := hold j hj
      rw [heq]
      exact (h.reaped u hu).2 j hj'
  · rw [hlog]
    -- The zombie is in the table, so it was not returned before.
    refine List.nodup_cons.mpr ⟨fun hmem => ?_, h.nodup⟩
    exact (h.reaped _ hmem).2 i hused rfl
  · rw [hlog]
    refine ⟨?_, h.ordered⟩
    rw [h.pending i, if_pos hzombie]
  · intro j
    rw [hlog]
    by_cases hji : j = i
    · subst hji
      simp [Ptable.pending, hi]
    · simp [Ptable.pending, Ne.symm hji, h.pending j, hother j hji]

lemma History.waits (h : History s) (hw : Waits s p t) (hstate : (s.proc p).state = RUNNING) :
    History t := by
  cases hw with
  | @reap i hparent hzombie =>
    apply h.reap (i := i) (p := p) hzombie
    · simp
    · intro j hj
      simp [hj]
    · simp
    · simp
  | fail =>
    apply h.frame
    · exact fun i => rfl
    · exact fun i hi => hi
    · exact fun i => Iff.rfl
    · rfl
    · rfl
  | sleep hnone =>
    exact h.modify (i := p) (fun j hj => by simp [hj]) (by simp) (by simp [hstate])
      (by simp [hstate]) rfl rfl

lemma History.forks {ok : Bool} (h : History s) (hfam : Family s) (hf : Forks s p ok t) :
    History t := by
  have hembryo : ∀ np, (s.pc p).child = some np → (s.proc np).state = EMBRYO :=
    fun np hnp => (hfam.fork p np hnp).1
  cases hf with
  | @fail np hpc =>
    have he := hembryo np (by rcases hpc with hpc | hpc <;> rw [hpc] <;> rfl)
    exact h.modify (i := np) (fun j hj => by simp [Table.forkFail, Table.setState, hj])
      (by simp [Table.forkFail, Table.setState]) (by simp [Table.forkFail, Table.setState])
      (by simp [Table.forkFail, Table.setState, he]) rfl rfl
  | @stack np hpc =>
    apply h.frame
    · exact fun i => rfl
    · exact fun i hi => hi
    · exact fun i => Iff.rfl
    · rfl
    · rfl
  | @copy np hpc =>
    exact h.modify (i := np) (fun j hj => by simp [hj]) (by simp) (by simp) (by simp) rfl rfl
  | @ready np ok hpc =>
    have he := hembryo np (by rw [hpc]; rfl)
    exact h.modify (i := np) (fun j hj => by simp [Table.setState, hj]) (by simp [Table.setState])
      (by simp [he]) (by simp [Table.setState, he]) rfl rfl

lemma History.step {a : Act} (h : History s) (hfam : Family s) (hs : Step s a t) : History t := by
  have hret : ∀ q val, History (s.ret q val) :=
    fun q val => h.frame (fun _ => rfl) (fun _ hi => hi) (fun _ => Iff.rfl) rfl rfl
  cases hs with
  | @schedule p hstate hpc =>
    exact h.modify (i := p) (fun j hj => by simp [Table.setState, hj]) (by simp [Table.setState])
      (by simp [hstate])
      (by simp [Table.setState, hstate]) rfl rfl
  | @awake p hstate hpc =>
    exact h.modify (i := p) (fun j hj => by simp [hj]) (by simp) (by simp [hstate])
      (by simp [hstate]) rfl rfl
  -- `wait` goes round once more from a running state
  | @rescan p t hstate hpc hw =>
    have hrun : History (s.modify p fun q => { q with state := RUNNING, chan := none }) :=
      h.modify (i := p) (fun j hj => by simp [hj]) (by simp) (by simp [hstate])
        (by simp [hstate]) rfl rfl
    exact hrun.waits hw (by simp)
  | @yield p hstate =>
    exact h.modify (i := p) (fun j hj => by simp [Table.setState, hj]) (by simp [Table.setState])
      (by simp [hstate])
      (by simp [Table.setState, hstate]) rfl rfl
  | @sleep p k hrun =>
    exact h.modify (i := p) (fun j hj => by simp [hj]) (by simp) (by simp [hrun.1])
      (by simp [hrun.1]) rfl rfl
  -- `wakeup1` only turns sleepers into runnable ones
  | @wakeup k =>
    have hwoken := s.wakeup1_woken (.other k)
    refine h.frame (fun i => ?_) (fun i hi hu => ?_) (fun i => (hwoken i).zombie) rfl rfl
    · rcases hwoken i with he | ⟨-, he⟩ <;> rw [he]
    · rcases hwoken i with he | ⟨hs, -⟩
      · rw [he] at hi
        exact hi hu
      · rw [hu] at hs
        cases hs
  | forkFull hrun => exact hret _ _
  | @fork p i hrun hunused =>
    apply h.alloc (i := i) hunused
    · simp
    · simp
    · intro j hj
      simp [hj]
    · simp
    · simp
  | step hstate hf => exact h.forks hfam hf
  | exit hrun hp he => exact h.exits hrun.1 he
  | wait hrun hw => exact h.waits hw hrun.1
  | killNone hrun hnone => exact hret _ _
  | @kill p pid i hrun hpid =>
    refine h.modify (i := i) (fun j hj => by simp [hj]) (by simp) ?_ ?_ rfl rfl
    · by_cases hs : (s.proc i).state = SLEEPING <;> simp [hs]
    · by_cases hs : (s.proc i).state = SLEEPING <;> simp [hs]
  | @fault p hrun =>
    exact h.modify (i := p) (fun j hj => by simp [hj]) (by simp) (by simp) (by simp) rfl rfl

lemma family_run {as : List Act} (hrun : Runs.run Table.step userinit as = some s) :
    Family s ∧ History s := by
  refine Runs.invariant (I := fun s => Family s ∧ History s) (fun s a t hs hst => ?_)
    ⟨family_userinit, history_userinit⟩ hrun
  have hstep := step_cases hst
  exact ⟨hs.1.step hstep, hs.2.step hs.1 hstep⟩

/-- A `wait` that returns a process finds it in the table. -/
lemma Waits.of_log {i b : Slot} {u : ℕ} (hw : Waits s p t) (hlog : t.log = .reap i u b :: s.log) :
    b = p ∧ (s.proc i).state = ZOMBIE ∧ (s.proc i).uid = u ∧ (s.proc i).parent = some p ∧
      t.rax p = (s.proc i).pid := by
  cases hw with
  | reap hparent hzombie =>
    simp only [Table.ret_log, Table.record_log, Table.modify_log, List.cons.injEq, Event.reap.injEq,
      and_true] at hlog
    obtain ⟨rfl, huid, hp⟩ := hlog
    exact ⟨hp.symm, hzombie, huid, hparent, Table.ret_rax⟩
  | fail => simp at hlog
  | sleep hnone => simp at hlog

/-- The only steps that return a process are those of its parent. -/
theorem Step.of_log {a : Act} {i b : Slot} {u : ℕ} (hs : Step s a t)
    (hlog : t.log = .reap i u b :: s.log) :
    (s.proc i).state = ZOMBIE ∧ (s.proc i).uid = u ∧ (s.proc i).parent = some b ∧
      t.rax b = (s.proc i).pid := by
  cases hs with
  | @rescan p t hstate hpc hw =>
    obtain ⟨rfl, hzombie, huid, hparent, hrax⟩ := hw.of_log hlog
    have hne : i ≠ b := by
      intro hne
      simp [hne] at hzombie
    simp only [Table.modify_of_ne hne] at hzombie huid hparent hrax
    exact ⟨hzombie, huid, hparent, hrax⟩
  | wait hrun hw =>
    obtain ⟨rfl, hrest⟩ := hw.of_log hlog
    exact hrest
  | step hstate hf => cases hf <;> simp [Table.forkFail, Table.setState] at hlog
  | exit hrun hp he => simp [he.log] at hlog
  | schedule hstate hpc => simp [Table.setState] at hlog
  | awake hstate hpc => simp at hlog
  | yield hstate => simp [Table.setState] at hlog
  | sleep hrun => simp at hlog
  | wakeup => simp [Table.wakeup1] at hlog
  | forkFull hrun => simp at hlog
  | fork hrun hunused => simp at hlog
  | killNone hrun hnone => simp at hlog
  | kill hrun hpid => simp at hlog
  | fault hrun => simp at hlog

/-- **Exit and wait.** After any steps of any processes, in any order: a process whose `fork` is over has a
parent in the table that has not exited; nobody sleeps in `wait` with a child that has exited; and every
exited process is returned at most once, by a `wait` of the parent it has then, before its slot is used
again. -/
theorem exit_wait {as : List Act} (hrun : Runs.run Table.step userinit as = some s) :
    (∀ i, i ≠ initproc → (s.proc i).state ≠ UNUSED → (∀ p, (s.pc p).child ≠ some i) →
      ∃ j, (s.proc i).parent = some j ∧ (s.proc j).state ≠ UNUSED ∧ (s.proc j).state ≠ ZOMBIE) ∧
    (∀ p, s.pc p = .waiting → (s.proc p).state = SLEEPING →
      ∀ i, (s.proc i).parent = some p → (s.proc i).state ≠ ZOMBIE) ∧
    (s.log.filterMap Event.reaped).Nodup ∧
    (∀ a t i u b, s.step a = some t → t.log = .reap i u b :: s.log →
      (s.proc i).state = ZOMBIE ∧ (s.proc i).uid = u ∧ (s.proc i).parent = some b ∧
        t.rax b = (s.proc i).pid) ∧
    ∀ l₁ l₂ l₃ i u v, s.log = l₃ ++ .alloc i v :: (l₂ ++ .exit i u :: l₁) →
      ∃ b, .reap i u b ∈ l₂ := by
  obtain ⟨hfam, hhist⟩ := family_run hrun
  refine ⟨fun i hi hu hfork => ?_, fun p hp hs => (hfam.waiting p hp hs).2, hhist.nodup, ?_, ?_⟩
  · have hembryo : (s.proc i).state ≠ EMBRYO := by
      intro he
      obtain ⟨p, hp⟩ := hfam.embryo i he
      exact hfork p hp
    obtain ⟨j, hj, hlive⟩ := hfam.parent i hi hu hembryo
    refine ⟨j, hj, ?_, ?_⟩
    · intro hc
      simp [hc, State.Live] at hlive
    · intro hc
      simp [hc, State.Live] at hlive
  · intro a t i u b hst hlog
    exact (step_cases hst).of_log hlog
  · intro l₁ l₂ l₃ i u v hlog
    -- Nothing is pending when the slot is taken, so what has exited there was returned.
    have hord : Ordered (.alloc i v :: (l₂ ++ .exit i u :: l₁)) := (hlog ▸ hhist.ordered).of_append
    obtain ⟨hnone, hord⟩ := hord
    have hexit : pending (.exit i u :: l₁) i = some u := by simp [pending]
    rcases pending_append hord hexit with hp | hreap
    · rw [hp] at hnone
      cases hnone
    · exact hreap

end

/-- `init` forks, waits for the child, and is woken when it exits. -/
def waitRun : List Act :=
  let child : Slot := ⟨1, one_lt_NPROC⟩
  [.schedule initproc, .fork initproc, .step initproc true, .step initproc true, .step initproc true,
    .wait initproc, .schedule child, .exit child, .schedule initproc]

/-- A child exits and is reaped once. -/
theorem exit_wait_waitRun : ∃ s, Runs.run Table.step userinit waitRun = some s ∧
    s.log.filterMap Event.reaped = [1] ∧ (s.log.filterMap Event.reaped).Nodup := by
  have hany : (Runs.run Table.step userinit waitRun).any
      (fun s => s.log.filterMap Event.reaped = [1]) = true := by
    decide +kernel
  obtain ⟨s, hs, hlog⟩ := (Option.any_eq_true _ _).mp hany
  exact ⟨s, hs, of_decide_eq_true hlog, (exit_wait hs).2.2.1⟩

end Ptable
end OhMyXv6
