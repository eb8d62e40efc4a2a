import OhMyXv6.Log.Model

/-!
# What one action of the log can do

`Step L s a t` lists every way in which action `a` leads from `s` to `t`, with the guards
the code has tested on that path. A block that has to be read from the disk first is a step of
its own there, `fill`, in front of the rest of the action; the other cases find their blocks in
the cache. `step_cases` says that every action taken is one of them, so that an invariant is
proved by one look at each case and no proof unfolds the code again.

The lemmas before it say what the small state updates leave alone.
-/

namespace OhMyXv6
namespace Log

variable {P β : Type}

/-! ## Frame lemmas -/

section
variable (s : State P β) (b c : ℕ) (v : β)

@[simp] lemma bwrite_blk_self : (s.bwrite b v).disk.blk b = v := by
  simp [State.bwrite]

lemma bwrite_blk_ne (h : c ≠ b) : (s.bwrite b v).disk.blk c = s.disk.blk c := by
  simp [State.bwrite, h]

@[simp] lemma bwrite_head : (s.bwrite b v).disk.head = s.disk.head := rfl

@[simp] lemma bwrite_bread_self : (s.bwrite b v).bread b = v := by
  simp [State.bwrite, State.bread]

lemma bwrite_bread_ne (h : c ≠ b) : (s.bwrite b v).bread c = s.bread c := by
  simp [State.bwrite, State.bread, h]

@[simp] lemma bwrite_isLocked : (s.bwrite b v).isLocked c = s.isLocked c := by
  by_cases h : c = b
  · subst h; simp [State.bwrite, State.isLocked]
  · simp [State.bwrite, State.isLocked, h]

@[simp] lemma bwrite_isDirty_self : (s.bwrite b v).isDirty b = false := by
  simp [State.bwrite, State.isDirty]

/-- Only the block written becomes clean. -/
lemma bwrite_isDirty_ne (h : c ≠ b) : (s.bwrite b v).isDirty c = s.isDirty c := by
  simp [State.bwrite, State.isDirty, h]

end

section
variable {s : State P β} {b : ℕ}

/-- A block that is read is not locked. -/
lemma fill_isLocked (h : s.cache b = none) (c : ℕ) : (s.fill b).isLocked c = s.isLocked c := by
  by_cases hc : c = b
  · subst hc; simp [State.fill, State.isLocked, h]
  · simp [State.fill, State.isLocked, hc]

lemma fill_cached_self : ((s.fill b).cache b).isSome := by
  simp [State.fill]

/-- And so is what was cached before. -/
lemma fill_cached {c : ℕ} (h : (s.cache c).isSome) : ((s.fill b).cache c).isSome := by
  by_cases hc : c = b
  · subst hc; exact fill_cached_self
  · simpa [State.fill, hc] using h

end

/-! ## The cases of a step -/

section
variable [DecidableEq P]

/-- Every way in which an action can be taken, with what the code has tested before. -/
inductive Step (L : Area) : State P β → Act P β → State P β → Prop
  | beginOp {s p} (hmode : s.mode = .up) (hpc : s.pc p = .out) (hcom : s.committing = false)
      (hroom : s.lh.length + (s.outstanding + 1) * MAXOPBLOCKS ≤ LOGSIZE) :
      Step L s (.beginOp p) { s with
        outstanding := s.outstanding + 1
        pc := Function.update s.pc p .op
        opId := Function.update s.opId p s.nextOp
        nextOp := s.nextOp + 1
        group := s.nextOp :: s.group
        logged := Function.update s.logged p [] }
  /-- A block that misses the cache is read into a free buffer, and the action goes on. -/
  | fill {s a t b} (hmode : s.mode.Alive) (hcache : s.cache b = none)
      (hroom : s.bufs.length < NBUF) (hstep : Step L (s.fill b) a t) : Step L s a t
  | noBuffers {s a} (hmode : s.mode.Alive) (hfull : NBUF ≤ s.bufs.length) :
      Step L s a { s with mode := .panicked .noBuffers }
  | modify {s p b v} (hmode : s.mode = .up) (hpc : s.pc p = .op)
      (hlock : s.isLocked b = false) (hbuf : (s.cache b).isSome) :
      Step L s (.modify p b v) { s with
        cache := Function.update s.cache b (some ⟨v, s.isDirty b, true⟩)
        pc := Function.update s.pc p (.modified b)
        pend := s.pend ++ [⟨s.opId p, b, v⟩] }
  | tooBig {s p b} (hmode : s.mode = .up) (hpc : s.pc p = .modified b)
      (hfull : LOGSIZE ≤ s.lh.length ∨ L.size ≤ s.lh.length + 1) :
      Step L s (.logWrite p) { s with mode := .panicked .tooBig }
  | outsideTrans {s p b} (hmode : s.mode = .up) (hpc : s.pc p = .modified b)
      (hout : s.outstanding < 1) :
      Step L s (.logWrite p) { s with mode := .panicked .outsideTrans }
  | logWrite {s p b} (hmode : s.mode = .up) (hpc : s.pc p = .modified b)
      (hroom : s.lh.length < LOGSIZE ∧ s.lh.length + 1 < L.size)
      (hout : 1 ≤ s.outstanding) :
      Step L s (.logWrite p) { s with pc := Function.update s.pc p (.checked b) }
  | overrun {s p b} (hmode : s.mode = .up) (hpc : s.pc p = .checked b)
      (hnew : b ∉ s.lh) (hfull : LOGSIZE ≤ s.lh.length) :
      Step L s (.append p) { s with mode := .overrun }
  | append {s p b} (hmode : s.mode = .up) (hpc : s.pc p = .checked b)
      (hroom : b ∈ s.lh ∨ s.lh.length < LOGSIZE) :
      Step L s (.append p) { s with
        lh := if b ∈ s.lh then s.lh else s.lh ++ [b]
        cache := Function.update s.cache b (some ⟨s.bread b, true, false⟩)
        pc := Function.update s.pc p .op
        logged := Function.update s.logged p (s.logged p ++ [b]) }
  | endOpPanic {s p} (hmode : s.mode = .up) (hpc : s.pc p = .op) (hcom : s.committing = true) :
      Step L s (.endOp p) { s with mode := .panicked .committing }
  | endOpLast {s p} (hmode : s.mode = .up) (hpc : s.pc p = .op) (hcom : s.committing = false)
      (hlast : s.outstanding - 1 = 0) :
      Step L s (.endOp p) { s with
        outstanding := s.outstanding - 1
        committing := true
        pc := Function.update s.pc p .commit }
  | endOp {s p} (hmode : s.mode = .up) (hpc : s.pc p = .op) (hcom : s.committing = false)
      (hmore : s.outstanding - 1 ≠ 0) :
      Step L s (.endOp p) { s with
        outstanding := s.outstanding - 1
        pc := Function.update s.pc p .out }
  | commitSome {s p} (hmode : s.mode = .up) (hpc : s.pc p = .commit) (hn : 0 < s.lh.length) :
      Step L s (.commit p) { s with pc := Function.update s.pc p (.writeLog 0) }
  | commitNone {s p} (hmode : s.mode = .up) (hpc : s.pc p = .commit) (hn : s.lh = []) :
      Step L s (.commit p) { s with pc := Function.update s.pc p .committed }
  | writeLog {s p tail b} (hmode : s.mode = .up) (hpc : s.pc p = .writeLog tail)
      (htail : s.lh[tail]? = some b) (hto : (s.cache (L.start + tail + 1)).isSome)
      (hfrom : (s.cache b).isSome) :
      Step L s (.commit p) { s.bwrite (L.start + tail + 1) (s.bread b) with
        pc := Function.update s.pc p (.writeLog (tail + 1)) }
  | writeLogEnd {s p tail} (hmode : s.mode = .up) (hpc : s.pc p = .writeLog tail)
      (htail : s.lh.length ≤ tail) :
      Step L s (.commit p) { s with pc := Function.update s.pc p .writeHead }
  | writeHead {s p} (hmode : s.mode = .up) (hpc : s.pc p = .writeHead)
      (hbuf : (s.cache L.start).isSome) :
      Step L s (.commit p) { s.writeHead with
        pc := Function.update s.pc p (.installTrans 0)
        committed := s.group ++ s.committed
        group := []
        past := s.past ++ s.pend
        pend := [] }
  | installTrans {s p tail b} (hmode : s.mode = .up) (hpc : s.pc p = .installTrans tail)
      (htail : s.lh[tail]? = some b) (hfrom : (s.cache (L.start + tail + 1)).isSome)
      (hto : (s.cache b).isSome) :
      Step L s (.commit p) { s.bwrite b (s.bread (L.start + tail + 1)) with
        pc := Function.update s.pc p (.installTrans (tail + 1)) }
  | installTransEnd {s p tail} (hmode : s.mode = .up) (hpc : s.pc p = .installTrans tail)
      (htail : s.lh.length ≤ tail) :
      Step L s (.commit p) { s with lh := [], pc := Function.update s.pc p .clearHead }
  | clearHead {s p} (hmode : s.mode = .up) (hpc : s.pc p = .clearHead)
      (hbuf : (s.cache L.start).isSome) :
      Step L s (.commit p) { s.writeHead with pc := Function.update s.pc p .committed }
  | committed {s p} (hmode : s.mode = .up) (hpc : s.pc p = .committed) :
      Step L s (.commit p) { s with
        committing := false
        pc := Function.update s.pc p .out }
  | bread {s b} (hmode : s.mode = .up) (hbuf : (s.cache b).isSome) :
      Step L s (.bread b) { s with refs := Function.update s.refs b (s.refs b + 1) }
  | brelse {s b} (hmode : s.mode = .up) (hrefs : 0 < s.refs b) :
      Step L s (.brelse b) { s with refs := Function.update s.refs b (s.refs b - 1) }
  | evict {s b} (hmode : s.mode.Alive) (hbuf : (s.cache b).isSome)
      (hdirty : s.isDirty b = false) (hlock : s.isLocked b = false) (hrefs : s.refs b = 0) :
      Step L s (.evict b) { s with
        cache := Function.update s.cache b none
        bufs := s.bufs.erase b }
  | crash {s} : Step L s .crash (crash s)
  | readHead {s} (hmode : s.mode = .readHead) (hbuf : (s.cache L.start).isSome) :
      Step L s .recover { s with lh := s.disk.head, mode := .recover 0 }
  | recover {s tail b} (hmode : s.mode = .recover tail) (htail : s.lh[tail]? = some b)
      (hfrom : (s.cache (L.start + tail + 1)).isSome) (hto : (s.cache b).isSome) :
      Step L s .recover { s.bwrite b (s.bread (L.start + tail + 1)) with
        mode := .recover (tail + 1) }
  | recoverEnd {s tail} (hmode : s.mode = .recover tail) (htail : s.lh.length ≤ tail) :
      Step L s .recover { s with lh := [], mode := .clearHead }
  | recoverClear {s} (hmode : s.mode = .clearHead) (hbuf : (s.cache L.start).isSome) :
      Step L s .recover { s.writeHead with mode := .up }

variable {L : Area} {s t : State P β}

/-- What the caller of `bget` knows of the state it gets back: at most one block has been read
in. -/
structure Loaded (s u : State P β) : Prop where
  mode : u.mode = s.mode
  pc : u.pc = s.pc
  lh : u.lh = s.lh
  lock : ∀ c, u.isLocked c = s.isLocked c
  cached : ∀ c, (s.cache c).isSome → (u.cache c).isSome

omit [DecidableEq P] in
lemma Loaded.refl (s : State P β) : Loaded s s := ⟨rfl, rfl, rfl, fun _ => rfl, fun _ h => h⟩

omit [DecidableEq P] in
lemma Loaded.fill {b : ℕ} (h : s.cache b = none) : Loaded s (s.fill b) :=
  ⟨rfl, rfl, rfl, fill_isLocked h, fun _ hc => fill_cached hc⟩

/-- A call of `bget` finds the block, reads it in first, or panics. -/
theorem Step.bget {a : Act P β} {held : List ℕ} {b : ℕ} {k : State P β → Option (State P β)}
    (hmode : s.mode.Alive) (h : s.bget held b k = some t)
    (hk : ∀ u, Loaded s u → (u.cache b).isSome → k u = some t → Step L u a t) : Step L s a t := by
  unfold State.bget at h
  split at h
  · next hbuf => exact hk s (.refl s) hbuf h
  · next hmiss =>
    have hcache : s.cache b = none := by simpa using hmiss
    split at h
    · next hroom =>
      exact .fill hmode hcache hroom (hk (s.fill b) (.fill hcache) fill_cached_self h)
    · next hfull =>
      split at h
      · cases h
      · cases h
        exact .noBuffers hmode (by omega)

/-- Two calls of `bget` in a row, the second with the first buffer still held. -/
theorem Step.bget_bget {a : Act P β} {held held' : List ℕ} {b c : ℕ}
    {k : State P β → Option (State P β)} (hmode : s.mode.Alive)
    (h : s.bget held b (fun s => s.bget held' c k) = some t)
    (hk : ∀ u, Loaded s u → (u.cache b).isSome → (u.cache c).isSome → k u = some t →
      Step L u a t) : Step L s a t := by
  refine .bget hmode h fun u hu hb h => ?_
  refine .bget (hu.mode ▸ hmode) h fun v hv hc h => ?_
  refine hk v ⟨hv.mode.trans hu.mode, hv.pc.trans hu.pc, hv.lh.trans hu.lh, ?_, ?_⟩
    (hv.cached b hb) hc h
  · exact fun d => (hv.lock d).trans (hu.lock d)
  · exact fun d hd => hv.cached d (hu.cached d hd)

/-- A running system has not stopped. -/
lemma Mode.alive_of_eq_up {m : Mode} (h : m = .up) : m.Alive := by
  rw [h]
  trivial

/-- `log_write`: a panic, or the block is accepted. -/
lemma step_logWrite_cases {p : P} (h : logWrite L p s = some t) : Step L s (.logWrite p) t := by
  unfold logWrite at h
  split at h
  · next b hmode hpc =>
    split at h
    · next hfull =>
      cases h
      exact .tooBig hmode hpc hfull
    · next hroom =>
      split at h
      · next hout =>
        cases h
        exact .outsideTrans hmode hpc hout
      · next hout =>
        cases h
        exact .logWrite hmode hpc (by omega) (by omega)
  · cases h

lemma step_append_cases {p : P} (h : append p s = some t) : Step L s (.append p) t := by
  unfold append at h
  split at h
  · next b hmode hpc =>
    split at h
    · next hfull =>
      cases h
      exact .overrun hmode hpc hfull.1 hfull.2
    · next hroom =>
      cases h
      refine .append hmode hpc ?_
      by_cases hb : b ∈ s.lh
      · exact .inl hb
      · exact .inr (by simpa [hb] using hroom)
  · cases h

/-- `end_op`: the last one commits. -/
lemma step_endOp_cases {p : P} (h : endOp p s = some t) : Step L s (.endOp p) t := by
  unfold endOp at h
  split at h
  · next hup =>
    split at h
    · next hcom =>
      cases h
      exact .endOpPanic hup.1 hup.2 hcom
    · next hcom =>
      split at h
      · next hlast =>
        cases h
        exact .endOpLast hup.1 hup.2 (by simpa using hcom) hlast
      · next hmore =>
        cases h
        exact .endOp hup.1 hup.2 (by simpa using hcom) hmore
  · cases h

lemma step_commit_cases {p : P} (h : commit L p s = some t) : Step L s (.commit p) t := by
  unfold commit at h
  split at h
  · next hmode =>
    split at h
    · next hpc =>
      split at h
      · next hn =>
        cases h
        exact .commitSome hmode hpc hn
      · next hn =>
        cases h
        exact .commitNone hmode hpc (List.length_eq_zero_iff.mp (by omega))
    · next tail hpc =>
      split at h
      · next b htail =>
        refine .bget_bget (Mode.alive_of_eq_up hmode) h fun u hu hto hfrom h => ?_
        cases h
        exact .writeLog (hu.mode ▸ hmode) (hu.pc ▸ hpc) (hu.lh ▸ htail) hto hfrom
      · next htail =>
        cases h
        exact .writeLogEnd hmode hpc (List.getElem?_eq_none_iff.mp htail)
    · next hpc =>
      refine .bget (Mode.alive_of_eq_up hmode) h fun u hu hbuf h => ?_
      cases h
      exact .writeHead (hu.mode ▸ hmode) (hu.pc ▸ hpc) hbuf
    · next tail hpc =>
      split at h
      · next b htail =>
        refine .bget_bget (Mode.alive_of_eq_up hmode) h fun u hu hfrom hto h => ?_
        cases h
        exact .installTrans (hu.mode ▸ hmode) (hu.pc ▸ hpc) (hu.lh ▸ htail) hfrom hto
      · next htail =>
        cases h
        exact .installTransEnd hmode hpc (List.getElem?_eq_none_iff.mp htail)
    · next hpc =>
      refine .bget (Mode.alive_of_eq_up hmode) h fun u hu hbuf h => ?_
      cases h
      exact .clearHead (hu.mode ▸ hmode) (hu.pc ▸ hpc) hbuf
    · next hpc =>
      cases h
      exact .committed hmode hpc
    · cases h
  · cases h

lemma step_recover_cases (h : recover L s = some t) : Step L s .recover t := by
  unfold recover at h
  split at h
  · next hmode =>
    refine .bget (by rw [hmode]; trivial) h fun u hu hbuf h => ?_
    cases h
    exact .readHead (hu.mode.trans hmode) hbuf
  · next tail hmode =>
    split at h
    · next b htail =>
      refine .bget_bget (by rw [hmode]; trivial) h fun u hu hfrom hto h => ?_
      cases h
      exact .recover (hu.mode.trans hmode) (hu.lh ▸ htail) hfrom hto
    · next htail =>
      cases h
      exact .recoverEnd hmode (List.getElem?_eq_none_iff.mp htail)
  · next hmode =>
    refine .bget (by rw [hmode]; trivial) h fun u hu hbuf h => ?_
    cases h
    exact .recoverClear (hu.mode.trans hmode) hbuf
  · cases h

/-- **Inversion.** An action that is taken is taken in one of the ways of `Step`. -/
theorem step_cases {a : Act P β} (h : step L s a = some t) : Step L s a t := by
  cases a with
  | beginOp p =>
    simp only [step, beginOp] at h
    split at h
    · next hup =>
      split at h
      · cases h
      · next hcom =>
        split at h
        · cases h
        · next hroom =>
          cases h
          exact .beginOp hup.1 hup.2 (by simpa using hcom) (by omega)
    · cases h
  | modify p b v =>
    simp only [step, modify] at h
    split at h
    · next hup =>
      obtain ⟨hmode, hpc, hlock⟩ := hup
      refine .bget (Mode.alive_of_eq_up hmode) h fun u hu hbuf h => ?_
      cases h
      exact .modify (hu.mode ▸ hmode) (hu.pc ▸ hpc) ((hu.lock b).trans hlock) hbuf
    · cases h
  | logWrite p => exact step_logWrite_cases h
  | append p => exact step_append_cases h
  | endOp p => exact step_endOp_cases h
  | commit p => exact step_commit_cases h
  | bread b =>
    simp only [step, Log.bread] at h
    split at h
    · next hmode =>
      refine .bget (Mode.alive_of_eq_up hmode) h fun u hu hbuf h => ?_
      cases h
      exact .bread (hu.mode ▸ hmode) hbuf
    · cases h
  | brelse b =>
    simp only [step, brelse] at h
    split at h
    · next hup =>
      cases h
      exact .brelse hup.1 hup.2
    · cases h
  | evict b =>
    simp only [step, evict] at h
    split at h
    · next hok =>
      obtain ⟨hmode, hbuf, hfree⟩ := hok
      simp only [State.recyclable, Bool.and_eq_true, Bool.not_eq_eq_eq_not, Bool.not_true,
        beq_iff_eq, decide_eq_true_eq] at hfree
      cases h
      exact .evict hmode hbuf hfree.1.1.1 hfree.1.1.2 hfree.1.2
    · cases h
  | crash =>
    cases h
    exact .crash
  | recover => exact step_recover_cases h

end

end Log
end OhMyXv6
