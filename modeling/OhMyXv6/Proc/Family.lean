import OhMyXv6.Proc.Step

/-!
# Parents and children

`Family` is the invariant of the process tree: every process has a parent that can still wait for it,
and a process that sleeps in `wait` has no child that has exited. The steps that only schedule
processes, wake them or let them return are handled together by `Family.frame`.
-/

namespace OhMyXv6
namespace Ptable

open State

/-- The process that `fork` is setting up. -/
def Pc.child : Pc → Option Slot
  | forkStack np | forkCopy np | forkReady np => some np
  | _ => none

/-- Every process that is not free has a parent that is alive. -/
structure Family (s : Table) : Prop where
  live : ∀ p, s.pc p ≠ .user → (s.proc p).state.Live
  initLive : (s.proc initproc).state.Live
  initRoot : (s.proc initproc).parent = none
  unused : ∀ i, (s.proc i).state = UNUSED → (s.proc i).parent = none
  notSelf : ∀ i, (s.proc i).parent ≠ some i
  fork : ∀ p np, (s.pc p).child = some np → (s.proc np).state = EMBRYO ∧
    (s.proc np).parent = if s.pc p = .forkReady np then some p else none
  embryo : ∀ i, (s.proc i).state = EMBRYO → ∃ p, (s.pc p).child = some i
  /-- Two processes never set up the same one. -/
  unique : ∀ p q np, (s.pc p).child = some np → (s.pc q).child = some np → p = q
  parent : ∀ i, i ≠ initproc → (s.proc i).state ≠ UNUSED → (s.proc i).state ≠ EMBRYO →
    ∃ j, (s.proc i).parent = some j ∧ (s.proc j).state.Live
  waiting : ∀ p, s.pc p = .waiting → (s.proc p).state = SLEEPING →
    (s.proc p).chan = some (.proc p) ∧ ∀ i, (s.proc i).parent = some p → (s.proc i).state ≠ ZOMBIE

/-- The first process is its own family. -/
lemma family_userinit : Family userinit := by
  have hpc : ∀ p, userinit.pc p = .user := fun _ => rfl
  have hother : ∀ i, i ≠ initproc → userinit.proc i = ⟨UNUSED, 0, none, none, false, 0, false⟩ :=
    fun i hi => if_neg hi
  have hparent : ∀ i, (userinit.proc i).parent = none := by
    intro i
    by_cases hi : i = initproc
    · subst hi
      rfl
    · rw [hother i hi]
  constructor
  · intro p hp
    exact absurd (hpc p) hp
  · exact .inr (.inl rfl)
  · exact hparent _
  · exact fun i _ => hparent i
  · simp [hparent]
  · simp [hpc, Pc.child]
  · intro i hembryo
    by_cases hi : i = initproc
    · subst hi
      cases hembryo
    · simp [hother i hi] at hembryo
  · simp [hpc, Pc.child]
  · intro i hi hstate
    simp [hother i hi] at hstate
  · simp [hpc]

section
variable {s t : Table} {p : Slot}

/-- Steps in which no process is born, dies or gets another parent. -/
theorem Family.frame (h : Family s) (hparent : ∀ i, (t.proc i).parent = (s.proc i).parent)
    (hstate : ∀ i, (t.proc i).state = (s.proc i).state ∨
      (s.proc i).state.Live ∧ (t.proc i).state.Live)
    (hpc : ∀ i, t.pc i = s.pc i ∨ (s.pc i).child = none ∧ (t.pc i).child = none ∧
      (t.pc i ≠ .user → (t.proc i).state.Live))
    (hwait : ∀ i, t.pc i = .waiting → (t.proc i).state = SLEEPING → (t.proc i).chan = some (.proc i) ∧
      ∀ j, (s.proc j).parent = some i → (s.proc j).state ≠ ZOMBIE) : Family t := by
  -- nobody begins a `fork` in such a step
  have hchild : ∀ q np, (t.pc q).child = some np → t.pc q = s.pc q := by
    intro q np hq
    rcases hpc q with he | ⟨-, hnone, -⟩
    · exact he
    · rw [hnone] at hq
      cases hq
  have hlive : ∀ i, (s.proc i).state.Live → (t.proc i).state.Live := by
    intro i hi
    rcases hstate i with he | ⟨-, hl⟩
    · rw [he]
      exact hi
    · exact hl
  -- and nobody dies
  have hdead : ∀ i st, ¬ st.Live → (t.proc i).state = st → (s.proc i).state = st := by
    intro i st hst hi
    rcases hstate i with he | ⟨-, hl⟩
    · rw [← he, hi]
    · exact absurd (hi ▸ hl) hst
  constructor
  · intro q hq
    rcases hpc q with he | ⟨-, -, hl⟩
    · exact hlive q (h.live q (he ▸ hq))
    · exact hl hq
  · exact hlive _ h.initLive
  · rw [hparent]
    exact h.initRoot
  · intro i hi
    rw [hparent]
    exact h.unused i (hdead i UNUSED (by simp [State.Live]) hi)
  · intro i
    rw [hparent]
    exact h.notSelf i
  · intro q np hq
    have he := hchild q np hq
    rw [he] at hq ⊢
    obtain ⟨hembryo, hpar⟩ := h.fork q np hq
    refine ⟨?_, hparent np ▸ hpar⟩
    rcases hstate np with hs | ⟨hl, -⟩
    · rw [hs, hembryo]
    · rw [hembryo] at hl
      simp [State.Live] at hl
  · intro i hi
    obtain ⟨q, hq⟩ := h.embryo i (hdead i EMBRYO (by simp [State.Live]) hi)
    refine ⟨q, ?_⟩
    rcases hpc q with he | ⟨hnone, -⟩
    · rw [he, hq]
    · rw [hnone] at hq
      cases hq
  · intro q q' np hq hq'
    rw [hchild q np hq] at hq
    rw [hchild q' np hq'] at hq'
    exact h.unique q q' np hq hq'
  · intro i hi hu he
    have hsame : (s.proc i).state ≠ UNUSED ∧ (s.proc i).state ≠ EMBRYO := by
      rcases hstate i with hs | ⟨hl, -⟩
      · rw [← hs]
        exact ⟨hu, he⟩
      · rcases hl with hl | hl | hl <;> simp [hl]
    obtain ⟨j, hj, hjl⟩ := h.parent i hi hsame.1 hsame.2
    exact ⟨j, by rw [hparent, hj], hlive j hjl⟩
  · intro q hq hsleep
    obtain ⟨hchan, hnone⟩ := hwait q hq hsleep
    refine ⟨hchan, fun i hi hz => ?_⟩
    rw [hparent] at hi
    exact hnone i hi (hdead i ZOMBIE (by simp [State.Live]) hz)

/-- Steps in which a live process `p` changes one slot `i` that has no live process. -/
theorem Family.change {i : Slot} (h : Family s) (hother : ∀ j, j ≠ i → t.proc j = s.proc j)
    (hpc : ∀ q, q ≠ p → t.pc q = s.pc q) (hlive : (s.proc p).state.Live)
    (hdead : ¬ (s.proc i).state.Live) (hunused : (t.proc i).state = UNUSED → (t.proc i).parent = none)
    (hself : (t.proc i).parent ≠ some i)
    (hfork : ∀ np, (t.pc p).child = some np → np = i ∧ (t.proc i).state = EMBRYO ∧
      (t.proc i).parent = if t.pc p = .forkReady i then some p else none)
    (hembryo : (t.proc i).state = EMBRYO → (t.pc p).child = some i)
    (hchild : (s.pc p).child = none ∨ (s.pc p).child = some i)
    (hunique : ∀ q, q ≠ p → (s.pc q).child ≠ some i)
    (hparent : (t.proc i).state ≠ UNUSED → (t.proc i).state ≠ EMBRYO →
      ∃ j, (t.proc i).parent = some j ∧ (s.proc j).state.Live)
    (hwait : t.pc p ≠ .waiting) (hzombie : (t.proc i).state ≠ ZOMBIE) : Family t := by
  have hsame : ∀ j, (s.proc j).state.Live → t.proc j = s.proc j := by
    intro j hj
    apply hother
    intro he
    exact hdead (he ▸ hj)
  have hinit : initproc ≠ i := fun he => hdead (he ▸ h.initLive)
  constructor
  · intro q hq
    by_cases hqp : q = p
    · rw [hqp, hsame p hlive]
      exact hlive
    · have hql := h.live q (hpc q hqp ▸ hq)
      rw [hsame q hql]
      exact hql
  · rw [hother _ hinit]
    exact h.initLive
  · rw [hother _ hinit]
    exact h.initRoot
  · intro j hj
    by_cases hji : j = i
    · subst hji
      exact hunused hj
    · rw [hother j hji] at hj ⊢
      exact h.unused j hj
  · intro j
    by_cases hji : j = i
    · subst hji
      exact hself
    · rw [hother j hji]
      exact h.notSelf j
  · intro q np hq
    by_cases hqp : q = p
    · subst hqp
      obtain ⟨rfl, hrest⟩ := hfork np hq
      exact hrest
    · rw [hpc q hqp] at hq ⊢
      have hnp : np ≠ i := fun he => hunique q hqp (he ▸ hq)
      rw [hother np hnp]
      exact h.fork q np hq
  · intro j hj
    by_cases hji : j = i
    · subst hji
      exact ⟨p, hembryo hj⟩
    · rw [hother j hji] at hj
      obtain ⟨q, hq⟩ := h.embryo j hj
      have hqp : q ≠ p := by
        intro hqp
        rw [hqp] at hq
        rcases hchild with hnone | hsome
        · rw [hnone] at hq
          cases hq
        · rw [hsome, Option.some.injEq] at hq
          exact hji hq.symm
      exact ⟨q, by rw [hpc q hqp, hq]⟩
  · -- Nobody but `p` sets up slot `i`, and `p` sets up no other slot.
    have honly : ∀ q np, q ≠ p → (t.pc q).child = some np → (t.pc p).child ≠ some np := by
      intro q np hqp hq hp
      obtain ⟨rfl, -⟩ := hfork np hp
      exact hunique q hqp (hpc q hqp ▸ hq)
    intro q q' np hq hq'
    by_cases hqp : q = p
    · subst hqp
      by_contra hne
      exact honly q' np (Ne.symm hne) hq' hq
    · by_cases hqp' : q' = p
      · subst hqp'
        exact absurd hq' (honly q np hqp hq)
      · exact h.unique q q' np (hpc q hqp ▸ hq) (hpc q' hqp' ▸ hq')
  · intro j hj hu he
    by_cases hji : j = i
    · subst hji
      obtain ⟨k, hk, hkl⟩ := hparent hu he
      exact ⟨k, hk, by rw [hsame k hkl]; exact hkl⟩
    · rw [hother j hji] at hu he ⊢
      obtain ⟨k, hk, hkl⟩ := h.parent j hj hu he
      exact ⟨k, hk, by rw [hsame k hkl]; exact hkl⟩
  · intro q hq hsleep
    have hqp : q ≠ p := fun he => hwait (he ▸ hq)
    rw [hpc q hqp] at hq
    have hql := h.live q (by simp [hq])
    rw [hsame q hql] at hsleep ⊢
    obtain ⟨hchan, hnone⟩ := h.waiting q hq hsleep
    refine ⟨hchan, fun j hj hz => ?_⟩
    by_cases hji : j = i
    · exact hzombie (hji ▸ hz)
    · rw [hother j hji] at hj hz
      exact hnone j hj hz

/-- A process returns from its system call. -/
lemma Family.ret (h : Family s) (hp : (s.pc p).child = none) (val : Int32) :
    Family (s.ret p val) := by
  apply h.frame
  · exact fun i => rfl
  · exact fun i => .inl rfl
  · intro i
    by_cases hi : i = p
    · subst hi
      exact .inr ⟨hp, by simp [Pc.child], by simp⟩
    · simp [hi]
  · intro i hi
    by_cases hip : i = p
    · subst hip
      simp at hi
    · simp only [Table.ret_pc, Table.goto_of_ne hip] at hi
      exact h.waiting i hi

/-- A live process stays alive, and may go to sleep. -/
lemma Family.modify {f : Proc → Proc} {pc : Pc} (h : Family s)
    (hparent : (f (s.proc p)).parent = (s.proc p).parent) (hlive : (s.proc p).state.Live)
    (hlive' : (f (s.proc p)).state.Live) (hpc : pc = s.pc p ∨ (s.pc p).child = none ∧ pc.child = none)
    (hsleep : pc = .waiting → (f (s.proc p)).state = SLEEPING →
      (f (s.proc p)).chan = some (.proc p) ∧
        ∀ j, (s.proc j).parent = some p → (s.proc j).state ≠ ZOMBIE) :
    Family ((s.modify p f).goto p pc) := by
  apply h.frame
  · intro i
    by_cases hi : i = p
    · subst hi
      simp [hparent]
    · simp [hi]
  · intro i
    by_cases hi : i = p
    · subst hi
      exact .inr (by simpa using ⟨hlive, hlive'⟩)
    · exact .inl (by simp [hi])
  · intro i
    by_cases hi : i = p
    · subst hi
      rw [Table.goto_self]
      refine hpc.imp_right fun hnone => ⟨hnone.1, hnone.2, fun _ => ?_⟩
      simpa using hlive'
    · simp [hi]
  · intro i
    by_cases hi : i = p
    · subst hi
      simpa using hsleep
    · simpa [hi] using h.waiting i

/-- The same, if it stays where it is in the code. -/
lemma Family.keep {f : Proc → Proc} (h : Family s)
    (hparent : (f (s.proc p)).parent = (s.proc p).parent) (hlive : (s.proc p).state.Live)
    (hlive' : (f (s.proc p)).state.Live)
    (hawake : s.pc p = .waiting → (f (s.proc p)).state ≠ SLEEPING) : Family (s.modify p f) := by
  have hsame : (s.modify p f).goto p (s.pc p) = s.modify p f := by
    rw [Table.goto, Table.modify_pc, Function.update_eq_self]
    rfl
  rw [← hsame]
  exact h.modify hparent hlive hlive' (.inl rfl) fun hw hs => absurd hs (hawake hw)

/-- A process is killed, whatever its state is. -/
lemma Family.kill (h : Family s) (i : Slot) :
    Family (s.modify i fun q =>
      { q with
        killed := true
        state := if q.state = SLEEPING then RUNNABLE else q.state
        hit := true }) := by
  apply h.frame
  · intro j
    by_cases hj : j = i
    · simp [hj]
    · simp [hj]
  · intro j
    by_cases hj : j = i
    · subst hj
      by_cases hs : (s.proc j).state = SLEEPING
      · simp [hs, State.Live]
      · simp [hs]
    · simp [hj]
  · exact fun j => .inl rfl
  · intro j hw
    by_cases hj : j = i
    · subst hj
      by_cases hs : (s.proc j).state = SLEEPING
      · simp [hs]
      · simp [hs]
    · simpa [hj] using h.waiting j hw

lemma Family.wakeup1 (h : Family s) (chan : Chan) : Family (s.wakeup1 chan) := by
  have hwoken := s.wakeup1_woken chan
  apply h.frame
  · exact fun i => (hwoken i).parent
  · intro i
    rcases hwoken i with he | ⟨hs, he⟩
    · exact .inl (by rw [he])
    · exact .inr (by rw [he, hs]; simp [State.Live])
  · exact fun i => .inl rfl
  · intro i hw hs
    rw [(hwoken i).chan]
    exact h.waiting i hw ((hwoken i).asleep hs)

lemma Family.waits (h : Family s) (hstate : (s.proc p).state = RUNNING)
    (hp : (s.pc p).child = none) (hw : Waits s p t) : Family t := by
  have hlive : (s.proc p).state.Live := by simp [hstate, State.Live]
  cases hw with
  | @reap i hparent hzombie =>
    apply h.change (i := i) (p := p)
    · intro j hj
      simp [hj]
    · intro q hq
      simp [hq]
    · exact hlive
    · simp [hzombie, State.Live]
    · simp
    · simp
    · simp [Pc.child]
    · simp
    · exact .inl hp
    · intro q _ hq
      have hembryo := (h.fork q i hq).1
      rw [hzombie] at hembryo
      cases hembryo
    · simp
    · simp
    · simp
  | fail => exact h.ret hp (-1)
  | sleep hnone =>
    -- The process that goes to sleep has just seen that none of its children is a zombie.
    apply h.modify (p := p)
    · rfl
    · exact hlive
    · simp [State.Live]
    · exact .inr ⟨hp, rfl⟩
    · exact fun _ _ => ⟨rfl, hnone⟩

/-- A free slot becomes an embryo. -/
lemma Family.alloc {i : Slot} (h : Family s) (hrun : s.Running p)
    (hunused : (s.proc i).state = UNUSED) (hi : (t.proc i).state = EMBRYO)
    (hparent : (t.proc i).parent = (s.proc i).parent) (hother : ∀ j, j ≠ i → t.proc j = s.proc j)
    (hp : t.pc p = .forkStack i) (hpc : ∀ q, q ≠ p → t.pc q = s.pc q) : Family t := by
  have hnone : (t.proc i).parent = none := by rw [hparent, h.unused i hunused]
  apply h.change hother hpc
  · simp [hrun.1, State.Live]
  · simp [hunused, State.Live]
  · exact fun _ => hnone
  · simp [hnone]
  · simp [hp, hi, hnone, Pc.child]
  · simp [hp, Pc.child]
  · simp [hrun.2, Pc.child]
  · intro q _ hq
    have hembryo := (h.fork q i hq).1
    rw [hunused] at hembryo
    cases hembryo
  · simp [hi]
  · simp [hp]
  · simp [hi]

/-- The embryo becomes a child, or is free again. -/
lemma Family.forks {ok : Bool} (h : Family s) (hf : Forks s p ok t) : Family t := by
  have hunique : ∀ np, (s.pc p).child = some np → ∀ q, q ≠ p → (s.pc q).child ≠ some np :=
    fun np hp q hne hq => hne (h.unique q p np hq hp)
  cases hf with
  -- the child's slot is free again, and it was in nobody's family
  | @fail np hpc =>
    have hchild : (s.pc p).child = some np := by rcases hpc with hpc | hpc <;> rw [hpc] <;> rfl
    have hnot : s.pc p ≠ .forkReady np := by rcases hpc with hpc | hpc <;> simp [hpc]
    obtain ⟨hembryo, hparent⟩ := h.fork p np hchild
    rw [if_neg hnot] at hparent
    apply h.change (i := np) (p := p)
    · intro j hj
      simp [Table.forkFail, Table.setState, hj]
    · intro q hq
      simp [Table.forkFail, Table.setState, hq]
    · exact h.live p fun he => by simp [he, Pc.child] at hchild
    · simp [hembryo, State.Live]
    · simp [Table.forkFail, Table.setState, hparent]
    · simp [Table.forkFail, Table.setState, hparent]
    · simp [Table.forkFail, Pc.child]
    · simp [Table.forkFail, Table.setState]
    · exact .inr hchild
    · exact hunique np hchild
    · simp [Table.forkFail, Table.setState]
    · simp [Table.forkFail]
    · simp [Table.forkFail, Table.setState]
  | @stack np hpc =>
    have hchild : (s.pc p).child = some np := by rw [hpc]; rfl
    obtain ⟨hembryo, hparent⟩ := h.fork p np hchild
    rw [hpc, if_neg (by simp)] at hparent
    -- an embryo runs nothing
    have hnp : s.pc np = .user := by
      by_contra hne
      have hlive := h.live np hne
      simp [hembryo, State.Live] at hlive
    apply h.change (i := np) (p := p)
    · exact fun j _ => rfl
    · intro q hq
      rw [Table.goto_of_ne hq]
      by_cases hqn : q = np
      · rw [hqn, Table.goto_self, hnp]
      · rw [Table.goto_of_ne hqn]
    · exact h.live p (by simp [hpc])
    · simp [hembryo, State.Live]
    · simp [hparent]
    · simp [hparent]
    · simp [hembryo, hparent, Pc.child]
    · simp [Pc.child]
    · exact .inr hchild
    · exact hunique np hchild
    · simp [hembryo]
    · simp
    · simp [hembryo]
  | @copy np hpc =>
    have hchild : (s.pc p).child = some np := by rw [hpc]; rfl
    obtain ⟨hembryo, -⟩ := h.fork p np hchild
    have hlive := h.live p (by simp [hpc])
    have hne : p ≠ np := by
      intro he
      rw [he, hembryo] at hlive
      simp [State.Live] at hlive
    apply h.change (i := np) (p := p)
    · intro j hj
      simp [hj]
    · intro q hq
      simp [hq]
    · exact hlive
    · simp [hembryo, State.Live]
    · simp [hembryo]
    · simp [hne]
    · simp [hembryo, Pc.child]
    · simp [Pc.child]
    · exact .inr hchild
    · exact hunique np hchild
    · simp [hembryo]
    · simp
    · simp [hembryo]
  -- from here on the child is one that its parent can wait for
  | @ready np ok hpc =>
    have hchild : (s.pc p).child = some np := by rw [hpc]; rfl
    obtain ⟨hembryo, hparent⟩ := h.fork p np hchild
    rw [if_pos hpc] at hparent
    have hlive := h.live p (by simp [hpc])
    have hself := h.notSelf np
    apply h.change (i := np) (p := p)
    · intro j hj
      simp [Table.setState, hj]
    · intro q hq
      simp [Table.setState, hq]
    · exact hlive
    · simp [hembryo, State.Live]
    · simp [Table.setState]
    · simpa [Table.setState] using hself
    · simp [Pc.child]
    · simp [Table.setState]
    · exact .inr hchild
    · exact hunique np hchild
    · exact fun _ _ => ⟨p, by simpa [Table.setState] using hparent, hlive⟩
    · simp
    · simp [Table.setState]

/-- A process exits, and its children go to `init`. -/
lemma Family.exits (h : Family s) (hrun : s.Running p) (hp : p ≠ initproc) (he : Exits s p t) :
    Family t := by
  obtain ⟨hstate, hpc⟩ := hrun
  have hself := he.zombie
  have hlive : ∀ i, i ≠ p → (s.proc i).state.Live → (t.proc i).state.Live := fun i hi => he.live hi
  have hdead : ∀ i st, i ≠ p → ¬ st.Live → ((t.proc i).state = st ↔ (s.proc i).state = st) :=
    fun i st hi => he.dead hi
  have hUNUSED : ¬ UNUSED.Live := by simp [State.Live]
  have hEMBRYO : ¬ EMBRYO.Live := by simp [State.Live]
  have hZOMBIE : ¬ ZOMBIE.Live := by simp [State.Live]
  constructor
  · intro q hq
    rw [he.pc] at hq
    exact hlive q (fun hqp => hq (hqp ▸ hpc)) (h.live q hq)
  · exact hlive _ (Ne.symm hp) h.initLive
  · rw [he.parent, h.initRoot]
    simp
  · intro i hi
    have hip : i ≠ p := by
      intro hip
      rw [hip, hself] at hi
      cases hi
    rw [he.parent, h.unused i ((hdead i UNUSED hip hUNUSED).mp hi)]
    simp
  · intro i
    rw [he.parent]
    by_cases hi : (s.proc i).parent = some p
    · rw [if_pos hi]
      intro hinit
      rw [← Option.some.inj hinit, h.initRoot] at hi
      cases hi
    · rw [if_neg hi]
      exact h.notSelf i
  · intro q np hq
    rw [he.pc] at hq ⊢
    obtain ⟨hembryo, hparent⟩ := h.fork q np hq
    have hnp : np ≠ p := by
      intro hnp
      rw [hnp, hstate] at hembryo
      cases hembryo
    have hqp : q ≠ p := by
      intro hqp
      rw [hqp, hpc] at hq
      cases hq
    refine ⟨(hdead np EMBRYO hnp hEMBRYO).mpr hembryo, ?_⟩
    rw [he.parent, hparent, if_neg]
    split
    · simp [hqp]
    · simp
  · intro i hi
    have hip : i ≠ p := by
      intro hip
      rw [hip, hself] at hi
      cases hi
    rw [he.pc]
    exact h.embryo i ((hdead i EMBRYO hip hEMBRYO).mp hi)
  · rw [he.pc]
    exact h.unique
  · intro i hi hu hem
    have hsame : (s.proc i).state ≠ UNUSED ∧ (s.proc i).state ≠ EMBRYO := by
      by_cases hip : i = p
      · simp [hip, hstate]
      · exact ⟨fun hc => hu ((hdead i UNUSED hip hUNUSED).mpr hc),
          fun hc => hem ((hdead i EMBRYO hip hEMBRYO).mpr hc)⟩
    obtain ⟨j, hj, hjl⟩ := h.parent i hi hsame.1 hsame.2
    rw [he.parent, hj]
    by_cases hjp : j = p
    · exact ⟨initproc, by simp [hjp], hlive _ (Ne.symm hp) h.initLive⟩
    · exact ⟨j, by simp [hjp], hlive j hjp hjl⟩
  · intro q hq hsleep
    rw [he.pc] at hq
    have hqp : q ≠ p := by
      intro hqp
      rw [hqp, hpc] at hq
      cases hq
    have hsleep' : (s.proc q).state = SLEEPING := (he.other q hqp).asleep hsleep
    have hchan' : (t.proc q).chan = (s.proc q).chan := (he.other q hqp).chan
    obtain ⟨hchan, hnone⟩ := h.waiting q hq hsleep'
    rw [hchan] at hchan'
    refine ⟨hchan', fun i hi hz => ?_⟩
    rw [he.parent] at hi
    by_cases hip : i = p
    · -- The process that exits has woken its parent before.
      subst hip
      rw [if_neg (h.notSelf i)] at hi
      exact he.awake q hi q hchan' hsleep
    · have hz' : (s.proc i).state = ZOMBIE := (hdead i ZOMBIE hip hZOMBIE).mp hz
      by_cases hchild : (s.proc i).parent = some p
      · rw [if_pos hchild, Option.some.injEq] at hi
        subst hi
        exact he.awakeInit i hchild hz' _ hchan' hsleep
      · rw [if_neg hchild] at hi
        exact hnone i hi hz'

lemma Family.step {a : Act} (h : Family s) (hs : Step s a t) : Family t := by
  cases hs with
  | @schedule p hstate hpc =>
    exact h.keep rfl (by simp [hstate, State.Live]) (by simp [State.Live]) (by simp)
  | @awake p hstate hpc =>
    exact h.modify rfl (by simp [hstate, State.Live]) (by simp [State.Live])
      (.inr ⟨by simp [hpc, Pc.child], rfl⟩) (by simp)
  | @rescan p t hstate hpc hw =>
    have hrun : Family (s.modify p fun q => { q with state := RUNNING, chan := none }) :=
      h.keep rfl (by simp [hstate, State.Live]) (by simp [State.Live]) (by simp)
    exact hrun.waits (by simp) (by simp [hpc, Pc.child]) hw
  | @yield p hstate =>
    exact h.keep rfl (by simp [hstate, State.Live]) (by simp [State.Live]) (by simp)
  | sleep hrun =>
    exact h.modify rfl (by simp [hrun.1, State.Live]) (by simp [State.Live])
      (.inr ⟨by simp [hrun.2, Pc.child], rfl⟩) (by simp)
  | @wakeup k => exact h.wakeup1 (.other k)
  | forkFull hrun => exact h.ret (by simp [hrun.2, Pc.child]) (-1)
  | @fork p i hrun hunused =>
    apply h.alloc (i := i) hrun hunused
    · simp
    · simp
    · intro j hj
      simp [hj]
    · simp
    · intro q hq
      simp [hq]
  | step hstate hf => exact h.forks hf
  | exit hrun hp he => exact h.exits hrun hp he
  | wait hrun hw => exact h.waits hrun.1 (by simp [hrun.2, Pc.child]) hw
  | killNone hrun hnone => exact h.ret (by simp [hrun.2, Pc.child]) (-1)
  | kill hrun hpid => exact (h.kill _).ret (by simp [hrun.2, Pc.child]) 0
  | fault hrun =>
    exact h.keep rfl (by simp [hrun.1, State.Live]) (by simp [hrun.1, State.Live])
      (by simp [hrun.2])

end

end Ptable
end OhMyXv6
