import OhMyXv6.Proc.Model

/-!
# What one step on the process table can do

`Step s a t` lists the actions, each with what the code has found in the table. The loop in which `exit`
passes its children to `init` is described by `Exits`.
-/

namespace OhMyXv6
namespace Ptable

open State

namespace Table

section
variable {s : Table} {i j p : Slot} {f : Proc → Proc} {st : State} {pc : Pc} {val : Int32} {e : Event}

@[simp] lemma modify_pc : (s.modify i f).pc = s.pc := rfl
@[simp] lemma modify_log : (s.modify i f).log = s.log := rfl
@[simp] lemma modify_born : (s.modify i f).born = s.born := rfl
@[simp] lemma modify_nextpid : (s.modify i f).nextpid = s.nextpid := rfl

@[simp] lemma modify_self : (s.modify i f).proc i = f (s.proc i) := by
  simp [modify]

@[simp] lemma modify_of_ne (h : j ≠ i) : (s.modify i f).proc j = s.proc j := by
  simp [modify, h]

@[simp] lemma goto_proc : (s.goto p pc).proc = s.proc := rfl
@[simp] lemma goto_log : (s.goto p pc).log = s.log := rfl
@[simp] lemma goto_born : (s.goto p pc).born = s.born := rfl
@[simp] lemma goto_nextpid : (s.goto p pc).nextpid = s.nextpid := rfl
@[simp] lemma goto_self : (s.goto p pc).pc p = pc := by simp [goto]

@[simp] lemma goto_of_ne (h : j ≠ p) : (s.goto p pc).pc j = s.pc j := by simp [goto, h]

@[simp] lemma ret_proc : (s.ret p val).proc = s.proc := rfl
@[simp] lemma ret_log : (s.ret p val).log = s.log := rfl
@[simp] lemma ret_born : (s.ret p val).born = s.born := rfl
@[simp] lemma ret_nextpid : (s.ret p val).nextpid = s.nextpid := rfl
@[simp] lemma ret_pc : (s.ret p val).pc = (s.goto p .user).pc := rfl
@[simp] lemma ret_rax : (s.ret p val).rax p = val := by simp [ret]

@[simp] lemma record_proc : (s.record e).proc = s.proc := rfl
@[simp] lemma record_pc : (s.record e).pc = s.pc := rfl
@[simp] lemma record_log : (s.record e).log = e :: s.log := rfl
@[simp] lemma record_born : (s.record e).born = s.born := rfl
@[simp] lemma record_nextpid : (s.record e).nextpid = s.nextpid := rfl

end

/-- What a scan finds is what it looks for. -/
lemma scan_eq_some {s : Table} {good : Proc → Bool} {i : Slot} (h : s.scan good = some i) :
    good (s.proc i) = true := by
  unfold scan at h
  have hgood := List.find?_some h
  exact hgood

/-- A scan that finds nothing has looked at every slot. -/
lemma scan_eq_none {s : Table} {good : Proc → Bool} (h : s.scan good = none) (i : Slot) :
    good (s.proc i) = false := by
  unfold scan at h
  have hall := List.find?_eq_none.mp h i (List.mem_finRange i)
  simpa using hall

end Table

/-- A process is as it was, or a sleeping one is made runnable. -/
def Woken (q r : Proc) : Prop := r = q ∨ q.state = SLEEPING ∧ r = { q with state := RUNNABLE }

lemma Woken.trans {q r r' : Proc} (h : Woken q r) (h' : Woken r r') : Woken q r' := by
  rcases h with rfl | ⟨hq, rfl⟩
  · exact h'
  · rcases h' with rfl | ⟨hr, rfl⟩
    · exact .inr ⟨hq, rfl⟩
    · exact .inr ⟨hq, rfl⟩

namespace Table

/-- `wakeup1` does nothing but wake up. -/
lemma wakeup1_woken (s : Table) (chan : Chan) (i : Slot) :
    Woken (s.proc i) ((s.wakeup1 chan).proc i) := by
  simp only [wakeup1]
  split
  · next h => exact .inr ⟨h.1, rfl⟩
  · exact .inl rfl

/-- Nobody sleeps on the channel then. -/
lemma wakeup1_awake (s : Table) (chan : Chan) (i : Slot)
    (hchan : ((s.wakeup1 chan).proc i).chan = some chan) :
    ((s.wakeup1 chan).proc i).state ≠ SLEEPING := by
  simp only [wakeup1] at hchan ⊢
  split at hchan
  · next h => simp [h]
  · next h =>
    rw [if_neg h]
    exact fun hstate => h ⟨hstate, hchan⟩

end Table

lemma Woken.parent {q r : Proc} (h : Woken q r) : r.parent = q.parent := by
  rcases h with rfl | ⟨-, rfl⟩ <;> rfl

lemma Woken.chan {q r : Proc} (h : Woken q r) : r.chan = q.chan := by
  rcases h with rfl | ⟨-, rfl⟩ <;> rfl

lemma Woken.zombie {q r : Proc} (h : Woken q r) : r.state = ZOMBIE ↔ q.state = ZOMBIE := by
  rcases h with rfl | ⟨hq, rfl⟩
  · rfl
  · simp [hq]

lemma Woken.asleep {q r : Proc} (h : Woken q r) (hr : r.state = SLEEPING) : q.state = SLEEPING := by
  rcases h with rfl | ⟨hq, rfl⟩
  · exact hr
  · exact hq

/-- A process without its parent. -/
def Proc.orphan (q : Proc) : Proc := { q with parent := none }

lemma Woken.orphan {q r : Proc} (h : Woken q r) : Woken q.orphan r.orphan := by
  rcases h with rfl | ⟨hq, rfl⟩
  · exact .inl rfl
  · exact .inr ⟨hq, rfl⟩

/-- The table `t` after a part `l` of the loop in which `exit` passes the children of `p` to `init`. -/
structure Passed (p : Slot) (l : List Slot) (s t : Table) : Prop where
  parent : ∀ i, (t.proc i).parent =
    if i ∈ l ∧ (s.proc i).parent = some p then some initproc else (s.proc i).parent
  woken : ∀ i, Woken (s.proc i).orphan (t.proc i).orphan
  /-- `init` is woken if one of them is a zombie. -/
  awake : ∀ i ∈ l, (s.proc i).parent = some p → (s.proc i).state = ZOMBIE →
    ∀ j, (t.proc j).chan = some (.proc initproc) → (t.proc j).state ≠ SLEEPING
  rest : t = { s with proc := t.proc }

lemma passed_nil (p : Slot) (s : Table) : Passed p [] s s where
  parent := by simp
  woken := fun i => .inl rfl
  awake := by simp
  rest := rfl

/-- One iteration. -/
lemma passed_passChild (p i : Slot) (s : Table) : Passed p [i] s (s.passChild p i) := by
  unfold Table.passChild
  by_cases hchild : (s.proc i).parent = some p
  · rw [if_pos hchild]
    let t := s.modify i fun q => { q with parent := some initproc }
    have hself : t.proc i = { s.proc i with parent := some initproc } := Table.modify_self
    have hparent : ∀ j, (t.proc j).parent =
        if j ∈ [i] ∧ (s.proc j).parent = some p then some initproc else (s.proc j).parent := by
      intro j
      by_cases hj : j = i
      · simp [hj, hself, hchild]
      · simp [t, hj]
    have horphan : ∀ j, (t.proc j).orphan = (s.proc j).orphan := by
      intro j
      by_cases hj : j = i
      · simp [hj, hself, Proc.orphan]
      · simp [t, hj]
    show Passed p [i] s (if (t.proc i).state = ZOMBIE then t.wakeup1 (.proc initproc) else t)
    by_cases hz : (t.proc i).state = ZOMBIE
    · rw [if_pos hz]
      have hwoken := t.wakeup1_woken (.proc initproc)
      refine ⟨fun j => ?_, fun j => ?_, fun _ _ _ _ j hchan => ?_, rfl⟩
      · rw [(hwoken j).parent, hparent j]
      · rw [← horphan j]
        exact (hwoken j).orphan
      · exact t.wakeup1_awake _ j hchan
    · rw [if_neg hz]
      refine ⟨hparent, fun j => .inl (horphan j), fun j hj _ hzombie => ?_, rfl⟩
      rw [List.mem_singleton.mp hj] at hzombie
      exact absurd (by rw [hself]; exact hzombie) hz
  · rw [if_neg hchild]
    refine ⟨fun j => ?_, fun j => .inl rfl, fun j hj hc => ?_, rfl⟩
    · rw [if_neg]
      exact fun hc => hchild (List.mem_singleton.mp hc.1 ▸ hc.2)
    · exact absurd (List.mem_singleton.mp hj ▸ hc) hchild

/-- The parts of the loop follow one another. -/
lemma Passed.trans {p : Slot} {l l' : List Slot} {s t u : Table} (h : Passed p l s t)
    (h' : Passed p l' t u) (hdisj : ∀ i ∈ l, i ∉ l') : Passed p (l ++ l') s u := by
  have hpar : ∀ i ∈ l', (t.proc i).parent = (s.proc i).parent := by
    intro i hi
    rw [h.parent, if_neg (fun hc => hdisj i hc.1 hi)]
  refine ⟨fun i => ?_, fun i => (h.woken i).trans (h'.woken i), fun i hi hparent hzombie => ?_, ?_⟩
  · rw [h'.parent]
    by_cases hi : i ∈ l'
    · have hi' : i ∉ l := fun hc => hdisj i hc hi
      simp [hpar i hi, hi, hi']
    · simp [h.parent i, hi]
  · rcases List.mem_append.mp hi with hi | hi
    · -- Whoever is asleep now was asleep before the second part.
      intro j hchan hasleep
      have hchan' : (t.proc j).chan = some (.proc initproc) := (h'.woken j).chan ▸ hchan
      exact h.awake i hi hparent hzombie j hchan' ((h'.woken j).asleep hasleep)
    · exact h'.awake i hi (hpar i hi ▸ hparent) ((h.woken i).zombie.mpr hzombie)
  · rw [h'.rest, h.rest]

lemma passed_foldl (p : Slot) (l : List Slot) (hnodup : l.Nodup) (s : Table) :
    Passed p l s (l.foldl (Table.passChild p) s) := by
  induction l generalizing s with
  | nil => exact passed_nil p s
  | cons i l ih =>
    rw [List.nodup_cons] at hnodup
    have hfirst := passed_passChild p i s
    have hrest := ih hnodup.2 (s.passChild p i)
    exact hfirst.trans hrest fun j hj => List.mem_singleton.mp hj ▸ hnodup.1

/-- What `exit` does. -/
structure Exits (s : Table) (p : Slot) (t : Table) : Prop where
  parent : ∀ i, (t.proc i).parent =
    if (s.proc i).parent = some p then some initproc else (s.proc i).parent
  self : (t.proc p).orphan = { (s.proc p).orphan with state := ZOMBIE }
  other : ∀ i, i ≠ p → Woken (s.proc i).orphan (t.proc i).orphan
  /-- The parent is woken. -/
  awake : ∀ q, (s.proc p).parent = some q →
    ∀ j, (t.proc j).chan = some (.proc q) → (t.proc j).state ≠ SLEEPING
  /-- `init` is woken if it gets a zombie. -/
  awakeInit : ∀ i, (s.proc i).parent = some p → (s.proc i).state = ZOMBIE →
    ∀ j, (t.proc j).chan = some (.proc initproc) → (t.proc j).state ≠ SLEEPING
  pc : t.pc = s.pc
  nextpid : t.nextpid = s.nextpid
  born : t.born = s.born
  log : t.log = .exit p (s.proc p).uid :: s.log

lemma wakeParent_woken (s : Table) (p i : Slot) : Woken (s.proc i) ((s.wakeParent p).proc i) := by
  unfold Table.wakeParent
  cases hparent : (s.proc p).parent with
  | none => exact .inl rfl
  | some q => exact s.wakeup1_woken _ i

lemma wakeParent_rest (s : Table) (p : Slot) :
    s.wakeParent p = { s with proc := (s.wakeParent p).proc } := by
  unfold Table.wakeParent
  cases hparent : (s.proc p).parent with
  | none => rfl
  | some q => rfl

lemma exits_exit {s : Table} {p : Slot} (hrun : (s.proc p).state = RUNNING) :
    Exits s p (s.exit p) := by
  obtain ⟨s₁, hs₁⟩ : ∃ s₁, s₁ = s.wakeParent p := ⟨_, rfl⟩
  have hwoken : ∀ i, Woken (s.proc i) (s₁.proc i) := hs₁ ▸ wakeParent_woken s p
  obtain ⟨s₂, hpassed, ht⟩ : ∃ s₂, Passed p (List.finRange NPROC) s₁ s₂ ∧
      s.exit p = (s₂.setState p ZOMBIE).record (.exit p (s.proc p).uid) :=
    ⟨_, passed_foldl p _ (List.nodup_finRange _) s₁, by rw [Table.exit, hs₁]⟩
  have hboth : ∀ i, Woken (s.proc i).orphan (s₂.proc i).orphan :=
    fun i => (hwoken i).orphan.trans (hpassed.woken i)
  have hrest : s₂ = { s with proc := s₂.proc } := by
    rw [hpassed.rest, hs₁, wakeParent_rest s p]
  have hself : (s.exit p).proc p = { s₂.proc p with state := ZOMBIE } := by
    rw [ht, Table.record_proc, Table.setState, Table.modify_self]
  have hother : ∀ i, i ≠ p → (s.exit p).proc i = s₂.proc i := by
    intro i hi
    rw [ht, Table.record_proc, Table.setState, Table.modify_of_ne hi]
  -- Whoever is asleep at the end was asleep before `p` became a zombie.
  have hasleep : ∀ j, ((s.exit p).proc j).state = SLEEPING → (s.exit p).proc j = s₂.proc j := by
    intro j hj
    by_cases hjp : j = p
    · subst hjp
      rw [hself] at hj
      cases hj
    · exact hother j hjp
  constructor
  · intro i
    have hpar : (s₂.proc i).parent =
        if (s.proc i).parent = some p then some initproc else (s.proc i).parent := by
      rw [hpassed.parent i, (hwoken i).parent]
      simp
    by_cases hi : i = p
    · subst hi
      rw [hself]
      exact hpar
    · rw [hother i hi, hpar]
  · rw [hself]
    rcases hboth p with h | ⟨h, -⟩
    · rw [← h]
      rfl
    · have hsleep : (s.proc p).state = SLEEPING := h
      rw [hrun] at hsleep
      cases hsleep
  · intro i hi
    rw [hother i hi]
    exact hboth i
  · intro q hq j hchan hj
    rw [hasleep j hj] at hchan hj
    have hchan₁ : (s₁.proc j).chan = some (.proc q) := (hpassed.woken j).chan ▸ hchan
    have hj₁ : (s₁.proc j).state = SLEEPING := (hpassed.woken j).asleep hj
    have hparent : s₁ = s.wakeup1 (.proc q) := by simp only [hs₁, Table.wakeParent, hq]
    rw [hparent] at hchan₁ hj₁
    exact s.wakeup1_awake _ j hchan₁ hj₁
  · intro i hi hz j hchan hj
    rw [hasleep j hj] at hchan hj
    refine hpassed.awake i (List.mem_finRange i) ?_ ?_ j hchan hj
    · rw [(hwoken i).parent, hi]
    · exact (hwoken i).zombie.mpr hz
  · rw [ht, hrest]
    rfl
  · rw [ht, hrest]
    rfl
  · rw [ht, hrest]
    rfl
  · rw [ht, hrest]
    rfl

section
variable {s t : Table} {p i : Slot}

lemma Exits.zombie (h : Exits s p t) : (t.proc p).state = ZOMBIE := congrArg Proc.state h.self

/-- The others stay as they are, or wake up. -/
lemma Exits.state_cases (h : Exits s p t) (hi : i ≠ p) :
    (t.proc i).state = (s.proc i).state ∨
      (s.proc i).state = SLEEPING ∧ (t.proc i).state = RUNNABLE := by
  rcases h.other i hi with heq | ⟨hsleep, heq⟩
  · left
    show (t.proc i).orphan.state = _
    rw [heq]
    rfl
  · right
    refine ⟨hsleep, ?_⟩
    show (t.proc i).orphan.state = _
    rw [heq]

lemma Exits.live (h : Exits s p t) (hi : i ≠ p) (hl : (s.proc i).state.Live) :
    (t.proc i).state.Live := by
  rcases h.state_cases hi with heq | ⟨-, heq⟩
  · rw [heq]
    exact hl
  · simp [heq, State.Live]

lemma Exits.dead {st : State} (h : Exits s p t) (hi : i ≠ p) (hst : ¬ st.Live) :
    (t.proc i).state = st ↔ (s.proc i).state = st := by
  rcases h.state_cases hi with heq | ⟨hsleep, heq⟩
  · rw [heq]
  · rw [heq, hsleep]
    constructor
    · intro hc
      simp [← hc, State.Live] at hst
    · intro hc
      simp [← hc, State.Live] at hst

/-- Nobody's number or flag changes. -/
lemma Exits.fields (h : Exits s p t) (i : Slot) :
    (t.proc i).pid = (s.proc i).pid ∧ (t.proc i).killed = (s.proc i).killed ∧
      (t.proc i).uid = (s.proc i).uid ∧ (t.proc i).hit = (s.proc i).hit := by
  show (t.proc i).orphan.pid = _ ∧ (t.proc i).orphan.killed = _ ∧ (t.proc i).orphan.uid = _ ∧
    (t.proc i).orphan.hit = _
  by_cases hi : i = p
  · subst hi
    rw [h.self]
    exact ⟨rfl, rfl, rfl, rfl⟩
  · rcases h.other i hi with heq | ⟨-, heq⟩
    · rw [heq]
      exact ⟨rfl, rfl, rfl, rfl⟩
    · rw [heq]
      exact ⟨rfl, rfl, rfl, rfl⟩

end

/-- What one time through the outer loop of `wait` does. -/
inductive Waits (s : Table) (p : Slot) : Table → Prop
  | reap {i} (hparent : (s.proc i).parent = some p) (hzombie : (s.proc i).state = ZOMBIE) :
      Waits s p (((s.modify i fun q =>
        { q with pid := 0, parent := none, killed := false, state := UNUSED }).record
          (.reap i (s.proc i).uid p)).ret p (s.proc i).pid)
  | fail : Waits s p (s.ret p (-1))
  | sleep (hnone : ∀ i, (s.proc i).parent = some p → (s.proc i).state ≠ ZOMBIE) :
      Waits s p ((s.modify p fun q =>
        { q with chan := some (.proc p), state := SLEEPING }).goto p .waiting)

/-- What `fork` does after `allocproc` has released the lock. -/
inductive Forks (s : Table) (p : Slot) : Bool → Table → Prop
  | fail {np} (hpc : s.pc p = .forkStack np ∨ s.pc p = .forkCopy np) :
      Forks s p false (s.forkFail p np)
  | stack {np} (hpc : s.pc p = .forkStack np) :
      Forks s p true ((s.goto np .user).goto p (.forkCopy np))
  | copy {np} (hpc : s.pc p = .forkCopy np) :
      Forks s p true ({ s.modify np fun q => { q with parent := some p } with
        rax := Function.update s.rax np 0 }.goto p (.forkReady np))
  | ready {np ok} (hpc : s.pc p = .forkReady np) :
      Forks s p ok ((s.setState np RUNNABLE).ret p (s.proc np).pid)

/-- The actions. -/
inductive Step (s : Table) : Act → Table → Prop
  | schedule {p} (hstate : (s.proc p).state = RUNNABLE) (hpc : s.pc p ≠ .waiting) :
      Step s (.schedule p) (s.setState p RUNNING)
  | awake {p} (hstate : (s.proc p).state = RUNNABLE) (hpc : s.pc p = .sleeping) :
      Step s (.schedule p)
        ((s.modify p fun q => { q with state := RUNNING, chan := none }).goto p .user)
  | rescan {p t} (hstate : (s.proc p).state = RUNNABLE) (hpc : s.pc p = .waiting)
      (h : Waits (s.modify p fun q => { q with state := RUNNING, chan := none }) p t) :
      Step s (.schedule p) t
  | yield {p} (hstate : (s.proc p).state = RUNNING) : Step s (.yield p) (s.setState p RUNNABLE)
  | sleep {p k} (hrun : s.Running p) :
      Step s (.sleep p k)
        ((s.modify p fun q => { q with chan := some (.other k), state := SLEEPING }).goto p .sleeping)
  | wakeup {k} : Step s (.wakeup k) (s.wakeup1 (.other k))
  | forkFull {p} (hrun : s.Running p) : Step s (.fork p) (s.ret p (-1))
  | fork {p i} (hrun : s.Running p) (hunused : (s.proc i).state = UNUSED) :
      Step s (.fork p)
        (({ s.modify i fun q =>
            { q with state := EMBRYO, pid := s.nextpid, uid := s.born, hit := false } with
          nextpid := s.nextpid + 1, born := s.born + 1 }.record (.alloc i s.born)).goto p
            (.forkStack i))
  | step {p ok t} (hstate : (s.proc p).state = RUNNING) (h : Forks s p ok t) : Step s (.step p ok) t
  | exit {p t} (hrun : s.Running p) (hp : p ≠ initproc) (h : Exits s p t) : Step s (.exit p) t
  | wait {p t} (hrun : s.Running p) (h : Waits s p t) : Step s (.wait p) t
  | killNone {p pid} (hrun : s.Running p) (hnone : ∀ i, (s.proc i).pid ≠ pid) :
      Step s (.kill p pid) (s.ret p (-1))
  | kill {p pid i} (hrun : s.Running p) (hpid : (s.proc i).pid = pid) :
      Step s (.kill p pid)
        ((s.modify i fun q =>
          { q with
            killed := true
            state := if q.state = SLEEPING then RUNNABLE else q.state
            hit := true }).ret p 0)
  | fault {p} (hrun : s.Running p) :
      Step s (.fault p) (s.modify p fun q => { q with killed := true, hit := true })

section
variable {s t : Table} {a : Act} {p : Slot}

lemma waitLoop_waits (s : Table) (p : Slot) : Waits s p (s.waitLoop p) := by
  unfold Table.waitLoop
  cases hscan : s.scan fun q => q.parent = some p ∧ q.state = ZOMBIE with
  | some i =>
    have hgood := Table.scan_eq_some hscan
    simp only [decide_eq_true_eq] at hgood
    exact .reap hgood.1 hgood.2
  | none =>
    have hnone := Table.scan_eq_none hscan
    simp only [decide_eq_false_iff_not, not_and] at hnone
    dsimp only
    split
    · exact .fail
    · exact .sleep hnone

lemma forkStep_forks {ok : Bool} (h : s.forkStep p ok = some t) : Forks s p ok t := by
  unfold Table.forkStep at h
  cases hpc : s.pc p with
  | forkStack np =>
    cases ok with
    | true =>
      simp only [hpc, if_true, Option.some.injEq] at h
      exact h ▸ .stack hpc
    | false =>
      simp only [hpc, Bool.false_eq_true, if_false, Option.some.injEq] at h
      exact h ▸ .fail (.inl hpc)
  | forkCopy np =>
    cases ok with
    | true =>
      simp only [hpc, if_true, Option.some.injEq] at h
      exact h ▸ .copy hpc
    | false =>
      simp only [hpc, Bool.false_eq_true, if_false, Option.some.injEq] at h
      exact h ▸ .fail (.inr hpc)
  | forkReady np =>
    simp only [hpc, Option.some.injEq] at h
    exact h ▸ .ready hpc
  | user => simp [hpc] at h
  | sleeping => simp [hpc] at h
  | waiting => simp [hpc] at h

lemma schedule_step (hstate : (s.proc p).state = RUNNABLE) : Step s (.schedule p) (s.schedule p) := by
  unfold Table.schedule
  cases hpc : s.pc p with
  | waiting => exact .rescan hstate hpc (waitLoop_waits _ p)
  | sleeping => exact .awake hstate hpc
  | user => exact .schedule hstate (by simp [hpc])
  | forkStack np => exact .schedule hstate (by simp [hpc])
  | forkCopy np => exact .schedule hstate (by simp [hpc])
  | forkReady np => exact .schedule hstate (by simp [hpc])

/-- `fork` begins with `allocproc`. -/
lemma allocproc_step (hrun : s.Running p) : Step s (.fork p) (s.allocproc p) := by
  unfold Table.allocproc
  cases hscan : s.scan fun q => q.state = UNUSED with
  | none => exact .forkFull hrun
  | some i =>
    have hunused := Table.scan_eq_some hscan
    simp only [decide_eq_true_eq] at hunused
    exact .fork hrun hunused

lemma kill_step {pid : Int32} (hrun : s.Running p) : Step s (.kill p pid) (s.kill p pid) := by
  unfold Table.kill
  cases hscan : s.scan fun q => q.pid = pid with
  | none =>
    have hnone := Table.scan_eq_none hscan
    simp only [decide_eq_false_iff_not] at hnone
    exact .killNone hrun hnone
  | some i =>
    have hpid := Table.scan_eq_some hscan
    simp only [decide_eq_true_eq] at hpid
    exact .kill hrun hpid

/-- A guarded step has passed its guard. -/
lemma guard_eq_some {c : Prop} [Decidable c] {u : Option Table}
    (h : (if c then u else none) = some t) : c ∧ u = some t := by
  by_cases hc : c
  · rw [if_pos hc] at h
    exact ⟨hc, h⟩
  · rw [if_neg hc] at h
    cases h

lemma step_cases (h : s.step a = some t) : Step s a t := by
  cases a with
  | schedule p =>
    obtain ⟨hstate, h⟩ := guard_eq_some h
    exact Option.some.inj h ▸ schedule_step hstate
  | yield p =>
    obtain ⟨hstate, h⟩ := guard_eq_some h
    exact Option.some.inj h ▸ .yield hstate
  | sleep p k =>
    obtain ⟨hrun, h⟩ := guard_eq_some h
    exact Option.some.inj h ▸ .sleep hrun
  | wakeup k => exact Option.some.inj h ▸ .wakeup
  | fork p =>
    obtain ⟨hrun, h⟩ := guard_eq_some h
    exact Option.some.inj h ▸ allocproc_step hrun
  | step p ok =>
    obtain ⟨hstate, h⟩ := guard_eq_some h
    exact .step hstate (forkStep_forks h)
  | exit p =>
    obtain ⟨⟨hrun, hp⟩, h⟩ := guard_eq_some h
    exact Option.some.inj h ▸ .exit hrun hp (exits_exit hrun.1)
  | wait p =>
    obtain ⟨hrun, h⟩ := guard_eq_some h
    exact Option.some.inj h ▸ .wait hrun (waitLoop_waits s p)
  | kill p pid =>
    obtain ⟨hrun, h⟩ := guard_eq_some h
    exact Option.some.inj h ▸ kill_step hrun
  | fault p =>
    obtain ⟨hrun, h⟩ := guard_eq_some h
    exact Option.some.inj h ▸ .fault hrun

end

end Ptable
end OhMyXv6
