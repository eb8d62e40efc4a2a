import OhMyXv6.Pipe.Model

/-!
# What one step on a pipe can do

`Next s p t` lists the steps of process `p`, each with what the code has tested, and `Step s a t` the
actions. The invariants are proved over these lists.
-/

namespace OhMyXv6
namespace Pipe

/-- The steps of process `p`. -/
inductive Next (s : St) (p : ℕ) : St → Prop
  | writeAcquire {addr} (hpc : s.pc p = .writeAcquire addr) (hlock : s.lock = none) :
      Next s p { s.goto p (.writeLoop addr) with lock := some p }
  | writeEnd (hpc : s.pc p = .writeLoop []) : Next s p (s.goto p .writeWakeup)
  | writeStop {c addr} (hpc : s.pc p = .writeLoop (c :: addr)) (hfull : s.Full)
      (hstop : s.readopen = false ∨ s.killed p) : Next s p (s.goto p .writeFail)
  | writeFull {c addr} (hpc : s.pc p = .writeLoop (c :: addr)) (hfull : s.Full)
      (hopen : s.readopen = true) (hkilled : s.killed p = false) :
      Next s p (s.goto p (.writeFull (c :: addr)))
  | store {c addr} (hpc : s.pc p = .writeLoop (c :: addr)) (hroom : ¬ s.Full) :
      Next s p ((s.store c).goto p (.writeLoop addr))
  | writeNotify {addr} (hpc : s.pc p = .writeFull addr) :
      Next s p ((s.wakeup .nread).goto p (.writeSleep addr))
  | writeSleep {addr} (hpc : s.pc p = .writeSleep addr) :
      Next s p (s.release p (.writeSleeping addr))
  | writeFail (hpc : s.pc p = .writeFail) : Next s p (s.release p .idle)
  | writeWakeup (hpc : s.pc p = .writeWakeup) : Next s p ((s.wakeup .nread).goto p .writeDone)
  | writeDone (hpc : s.pc p = .writeDone) : Next s p (s.release p .idle)
  | readAcquire {n} (hpc : s.pc p = .readAcquire n) (hlock : s.lock = none) :
      Next s p { s.goto p (.readWait n) with lock := some p }
  | readStop {n} (hpc : s.pc p = .readWait n) (hempty : s.Empty) (hopen : s.writeopen = true)
      (hkilled : s.killed p = true) : Next s p (s.goto p .readFail)
  | readEmpty {n} (hpc : s.pc p = .readWait n) (hempty : s.Empty) (hopen : s.writeopen = true)
      (hkilled : s.killed p = false) : Next s p (s.goto p (.readSleep n))
  | readStart {n} (hpc : s.pc p = .readWait n) (hgo : ¬ (s.Empty ∧ s.writeopen = true)) :
      Next s p (s.goto p (.readLoop n []))
  | readSleep {n} (hpc : s.pc p = .readSleep n) : Next s p (s.release p (.readSleeping n))
  | readFail (hpc : s.pc p = .readFail) : Next s p (s.release p .idle)
  | readEnd {n got} (hpc : s.pc p = .readLoop n got) (hend : got.length = n ∨ s.Empty) :
      Next s p (s.goto p (.readWakeup got))
  | take {n got} (hpc : s.pc p = .readLoop n got) (hgo : ¬ (got.length = n ∨ s.Empty)) :
      Next s p ({ s with nread := s.nread + 1 }.goto p (.readLoop n (got ++ [s.front])))
  | readWakeup {got} (hpc : s.pc p = .readWakeup got) :
      Next s p ((s.wakeup .nwrite).goto p (.readDone got))
  | readDone {got} (hpc : s.pc p = .readDone got) :
      Next s p { s.release p .idle with returned := s.returned ++ got }
  | closeAcquire {writable} (hpc : s.pc p = .closeAcquire writable) (hlock : s.lock = none) :
      Next s p { s.goto p (.closeSet writable) with lock := some p }
  | closeWrite (hpc : s.pc p = .closeSet true) :
      Next s p ({ s with writeopen := false }.goto p (.closeWakeup true))
  | closeRead (hpc : s.pc p = .closeSet false) :
      Next s p ({ s with readopen := false }.goto p (.closeWakeup false))
  | closeWakeup {writable} (hpc : s.pc p = .closeWakeup writable) :
      Next s p ((s.wakeup (if writable then .nread else .nwrite)).goto p .closeDone)
  | closeDone (hpc : s.pc p = .closeDone) : Next s p (s.release p .idle)

/-- The actions. -/
inductive Step (s : St) : Act → St → Prop
  | read {p n} (hpc : s.pc p = .idle) (href : p ∈ s.refs false) :
      Step s (.read p n) (s.goto p (.readAcquire n))
  | write {p addr} (hpc : s.pc p = .idle) (href : p ∈ s.refs true) :
      Step s (.write p addr) (s.goto p (.writeAcquire addr))
  | closeLast {p writable} (hpc : s.pc p = .idle) (href : p ∈ s.refs writable)
      (hlast : (s.refs writable).erase p = []) :
      Step s (.close p writable)
        ({ s with refs := Function.update s.refs writable [] }.goto p (.closeAcquire writable))
  | close {p writable} (hpc : s.pc p = .idle) (href : p ∈ s.refs writable)
      (hmore : (s.refs writable).erase p ≠ []) :
      Step s (.close p writable)
        { s with refs := Function.update s.refs writable ((s.refs writable).erase p) }
  | dup {p q writable} (hpc : s.pc p = .idle) (hpc' : s.pc q = .idle) (href : p ∈ s.refs writable) :
      Step s (.dup p q writable)
        { s with refs := Function.update s.refs writable (q :: s.refs writable) }
  | next {p t} (h : Next s p t) : Step s (.step p) t
  | kill {p} : Step s (.kill p)
      { s with
        killed := Function.update s.killed p true
        pc := Function.update s.pc p (((s.pc p).wake .nread).wake .nwrite) }

section
variable {s t : St} {a : Act} {p : ℕ}

/-- The lock is taken if it is free. -/
lemma acquire_eq_some {pc : Pc} :
    s.acquire p pc = some t ↔ s.lock = none ∧ { s.goto p pc with lock := some p } = t := by
  unfold St.acquire
  by_cases hlock : s.lock = none
  · simp [hlock]
  · simp [hlock]

lemma next_cases (h : s.next p = some t) : Next s p t := by
  unfold St.next at h
  cases hpc : s.pc p with
  | idle => simp [hpc] at h
  | writeAcquire addr =>
    simp only [hpc, acquire_eq_some] at h
    obtain ⟨hlock, rfl⟩ := h
    exact .writeAcquire hpc hlock
  | writeLoop addr =>
    cases addr with
    | nil =>
      simp only [hpc, Option.some.injEq] at h
      exact h ▸ .writeEnd hpc
    | cons c addr =>
      simp only [hpc] at h
      split at h
      -- a full buffer: the writer gives up or goes to sleep
      · next hfull =>
        split at h
        · next hstop => exact Option.some.inj h ▸ .writeStop hpc hfull hstop
        · next hgo =>
          rw [not_or, Bool.not_eq_false, Bool.not_eq_true] at hgo
          exact Option.some.inj h ▸ .writeFull hpc hfull hgo.1 hgo.2
      · next hroom => exact Option.some.inj h ▸ .store hpc hroom
  | writeFull addr =>
    simp only [hpc, Option.some.injEq] at h
    exact h ▸ .writeNotify hpc
  | writeSleep addr =>
    simp only [hpc, Option.some.injEq] at h
    exact h ▸ .writeSleep hpc
  | writeSleeping addr => simp [hpc] at h
  | writeFail =>
    simp only [hpc, Option.some.injEq] at h
    exact h ▸ .writeFail hpc
  | writeWakeup =>
    simp only [hpc, Option.some.injEq] at h
    exact h ▸ .writeWakeup hpc
  | writeDone =>
    simp only [hpc, Option.some.injEq] at h
    exact h ▸ .writeDone hpc
  | readAcquire n =>
    simp only [hpc, acquire_eq_some] at h
    obtain ⟨hlock, rfl⟩ := h
    exact .readAcquire hpc hlock
  | readWait n =>
    simp only [hpc] at h
    split at h
    -- an empty pipe with a writer: the reader gives up or goes to sleep
    · next hwait =>
      split at h
      · next hkilled => exact Option.some.inj h ▸ .readStop hpc hwait.1 hwait.2 hkilled
      · next hkilled =>
        rw [Bool.not_eq_true] at hkilled
        exact Option.some.inj h ▸ .readEmpty hpc hwait.1 hwait.2 hkilled
    · next hgo => exact Option.some.inj h ▸ .readStart hpc hgo
  | readSleep n =>
    simp only [hpc, Option.some.injEq] at h
    exact h ▸ .readSleep hpc
  | readSleeping n => simp [hpc] at h
  | readFail =>
    simp only [hpc, Option.some.injEq] at h
    exact h ▸ .readFail hpc
  | readLoop n got =>
    simp only [hpc] at h
    split at h
    · next hend => exact Option.some.inj h ▸ .readEnd hpc hend
    · next hgo => exact Option.some.inj h ▸ .take hpc hgo
  | readWakeup got =>
    simp only [hpc, Option.some.injEq] at h
    exact h ▸ .readWakeup hpc
  | readDone got =>
    simp only [hpc, Option.some.injEq] at h
    exact h ▸ .readDone hpc
  | closeAcquire writable =>
    simp only [hpc, acquire_eq_some] at h
    obtain ⟨hlock, rfl⟩ := h
    exact .closeAcquire hpc hlock
  | closeSet writable =>
    cases writable with
    | true =>
      simp only [hpc, if_true, Option.some.injEq] at h
      exact h ▸ .closeWrite hpc
    | false =>
      simp only [hpc, Bool.false_eq_true, if_false, Option.some.injEq] at h
      exact h ▸ .closeRead hpc
  | closeWakeup writable =>
    simp only [hpc, Option.some.injEq] at h
    exact h ▸ .closeWakeup hpc
  | closeDone =>
    simp only [hpc, Option.some.injEq] at h
    exact h ▸ .closeDone hpc

lemma step_cases (h : s.step a = some t) : Step s a t := by
  cases a with
  | read p n =>
    simp only [St.step] at h
    split at h
    · next hok => exact Option.some.inj h ▸ .read hok.1 hok.2
    · exact nomatch h
  | write p addr =>
    simp only [St.step] at h
    split at h
    · next hok => exact Option.some.inj h ▸ .write hok.1 hok.2
    · exact nomatch h
  | close p writable =>
    simp only [St.step] at h
    split at h
    · next hok =>
      split at h
      · next hlast =>
        rw [hlast] at h
        exact Option.some.inj h ▸ .closeLast hok.1 hok.2 hlast
      · next hmore => exact Option.some.inj h ▸ .close hok.1 hok.2 hmore
    · exact nomatch h
  | dup p q writable =>
    simp only [St.step] at h
    split at h
    · next hok => exact Option.some.inj h ▸ .dup hok.1 hok.2.1 hok.2.2
    · exact nomatch h
  | step p => exact .next (next_cases h)
  | kill p => exact Option.some.inj h ▸ .kill

end

/-! ## Waking up -/

namespace Pc

variable (chan : Chan) (pc : Pc)

@[simp] lemma holds_wake : (pc.wake chan).Holds = pc.Holds := by
  cases pc with
  | writeSleeping addr =>
    cases chan with
    | nread => rfl
    | nwrite => rfl
  | readSleeping n =>
    cases chan with
    | nread => rfl
    | nwrite => rfl
  | _ => rfl

@[simp] lemma got_wake : (pc.wake chan).got = pc.got := by
  cases pc with
  | writeSleeping addr =>
    cases chan with
    | nread => rfl
    | nwrite => rfl
  | readSleeping n =>
    cases chan with
    | nread => rfl
    | nwrite => rfl
  | _ => rfl

end Pc

end Pipe
end OhMyXv6
