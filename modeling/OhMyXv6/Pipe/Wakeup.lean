import OhMyXv6.Pipe.Stream

/-!
# Wakeups on a pipe

A reader that sleeps has seen an empty pipe whose write end is open, and a writer that sleeps has seen a full pipe
whose read end is open. What a process changes under the lock may make that untrue, and then it has to
call `wakeup` before it lets go of the lock: `owes` says at which places it still has to.

`pipewrite` breaks this rule where it finds the pipe full after it has stored something, and gives up
because it was killed. `Safe` says that no reader sleeps when this happens.
-/

namespace OhMyXv6
namespace Pipe

namespace Pc

/-- What the process sleeps on. -/
def sleepsOn : Pc → Option Chan
  | writeSleeping _ => some .nwrite
  | readSleeping _ => some .nread
  | _ => none

/-- The process may have changed what sleepers on the channel wait for, and it will wake them before it
releases the lock. -/
def owes : Chan → Pc → Bool
  | .nread, writeLoop _ | .nread, writeFull _ | .nread, writeWakeup | .nread, closeWakeup true => true
  | .nwrite, readLoop _ _ | .nwrite, readWakeup _ | .nwrite, closeWakeup false => true
  | _, _ => false

/-- The end of the pipe that a call uses, while it does. -/
def uses : Pc → Option Bool
  | writeAcquire _ | writeLoop _ | writeFull _ | writeSleep _ | writeSleeping _ => some true
  | readAcquire _ | readWait _ | readSleep _ | readSleeping _ => some false
  | _ => none

/-- The end of the pipe that is being closed. -/
def closes : Pc → Option Bool
  | closeAcquire writable | closeSet writable => some writable
  | _ => none

/-- What the process has found reason to sleep on; it holds the lock. -/
def sleepy : Pc → Option Chan
  | writeFull _ | writeSleep _ => some .nwrite
  | readSleep _ => some .nread
  | _ => none

/-- What a process owes here, it owes at `x` as well. -/
def passes (pc x : Pc) : Bool := [Chan.nread, Chan.nwrite].all fun chan => !pc.owes chan || x.owes chan

section
variable (chan chan' : Chan) (pc : Pc)

/-- The two channels are all that there are. -/
lemma owes_of_passes {chan : Chan} {pc x : Pc} (h : pc.passes x = true) (howes : pc.owes chan = true) :
    x.owes chan = true := by
  have hmem : chan ∈ [Chan.nread, Chan.nwrite] := by
    cases chan with
    | nread => exact List.mem_cons_self
    | nwrite => exact List.mem_cons_of_mem _ List.mem_cons_self
  have hchan := List.all_eq_true.mp h chan hmem
  rwa [howes, Bool.not_true, Bool.false_or] at hchan

/-- An idle process owes nothing. -/
lemma owes_none {chan : Chan} {pc : Pc} (h : pc.passes .idle = true) : pc.owes chan = false := by
  rw [← Bool.not_eq_true]
  intro howes
  have hidle := owes_of_passes h howes
  cases chan with
  | nread => exact nomatch hidle
  | nwrite => exact nomatch hidle

lemma holds_of_sleepy {chan : Chan} {pc : Pc} (h : pc.sleepy = some chan) : pc.Holds = true := by
  cases pc with
  | writeFull | writeSleep | readSleep => rfl
  | _ => exact nomatch h

@[simp] lemma sleepy_wake : (pc.wake chan).sleepy = pc.sleepy := by
  cases pc with
  | writeSleeping | readSleeping => cases chan <;> rfl
  | _ => rfl

lemma holds_of_owes {chan : Chan} {pc : Pc} (h : pc.owes chan = true) : pc.Holds = true := by
  cases pc with
  | idle | writeAcquire | writeSleeping | readAcquire | readSleeping | closeAcquire =>
    cases chan with
    | nread => exact nomatch h
    | nwrite => exact nomatch h
  | _ => rfl

@[simp] lemma owes_wake : (pc.wake chan).owes chan' = pc.owes chan' := by
  cases pc with
  | writeSleeping | readSleeping => cases chan <;> cases chan' <;> rfl
  | _ => rfl

@[simp] lemma uses_wake : (pc.wake chan).uses = pc.uses := by
  cases pc with
  | writeSleeping | readSleeping => cases chan <;> rfl
  | _ => rfl

@[simp] lemma closes_wake : (pc.wake chan).closes = pc.closes := by
  cases pc with
  | writeSleeping | readSleeping => cases chan <;> rfl
  | _ => rfl

/-- Nobody sleeps on a channel that was woken. -/
lemma sleepsOn_wake_self : (pc.wake chan).sleepsOn ≠ some chan := by
  cases pc with
  | writeSleeping | readSleeping => cases chan <;> simp [wake, sleepsOn]
  | _ => simp [wake, sleepsOn]

lemma sleepsOn_of_wake {chan chan' : Chan} {pc : Pc} (h : (pc.wake chan).sleepsOn = some chan') :
    pc.sleepsOn = some chan' := by
  cases pc with
  | writeSleeping | readSleeping => cases chan <;> simp_all [wake, sleepsOn]
  | _ => exact h

/-- A process inside the lock is not woken by anybody. -/
lemma wake_of_holds {pc : Pc} (h : pc.Holds = true) : pc.wake chan = pc := by
  cases pc with
  | writeSleeping | readSleeping => exact nomatch h
  | _ => rfl

end

end Pc

/-! ## Sleepers -/

/-- What a sleeper on the channel waits for has not come yet. -/
def St.Waiting (s : St) : Chan → Prop
  | .nread => s.Empty ∧ s.writeopen = true
  | .nwrite => s.Full ∧ s.readopen = true

/-- If a process sleeps on the channel, it does so for a reason, or it is going to be woken. -/
def Alert (pc : ℕ → Pc) (waiting : Prop) (chan : Chan) : Prop :=
  ∀ q, (pc q).sleepsOn = some chan → waiting ∨ ∃ p, (pc p).owes chan = true

namespace Alert

variable {pc : ℕ → Pc} {waiting waiting' : Prop} {chan chan' : Chan} {p : ℕ} {x y : Pc}

/-- A process goes on, still owing what it owed. -/
lemma goto (h : Alert pc waiting chan) (hpc : pc p = y) (hx : x.sleepsOn = none)
    (howes : y.owes chan = true → x.owes chan = true) :
    Alert (Function.update pc p x) waiting chan := by
  intro q hq
  have hqp : q ≠ p := by
    rintro rfl
    rw [Function.update_self, hx] at hq
    exact nomatch hq
  rw [Function.update_of_ne hqp] at hq
  rcases h q hq with hwait | ⟨o, ho⟩
  · exact .inl hwait
  · refine .inr ⟨o, ?_⟩
    by_cases hop : o = p
    · rw [hop, Function.update_self]
      rw [hop, hpc] at ho
      exact howes ho
    · rw [Function.update_of_ne hop]
      exact ho

/-- A process that owes a wakeup makes up for everything. -/
lemma owing (hx : x.owes chan = true) : Alert (Function.update pc p x) waiting chan := by
  intro q _
  exact .inr ⟨p, by rw [Function.update_self, hx]⟩

lemma wakeup (h : Alert pc waiting chan') (chan : Chan) :
    Alert (fun q => (pc q).wake chan) waiting chan' := by
  intro q hq
  rcases h q (Pc.sleepsOn_of_wake hq) with hwait | ⟨o, ho⟩
  · exact .inl hwait
  · exact .inr ⟨o, by rw [Pc.owes_wake, ho]⟩

/-- After the wakeup nobody sleeps. -/
lemma woken (hx : x.sleepsOn = none) :
    Alert (Function.update (fun q => (pc q).wake chan) p x) waiting chan := by
  intro q hq
  by_cases hqp : q = p
  · rw [hqp, Function.update_self, hx] at hq
    exact nomatch hq
  · rw [Function.update_of_ne hqp] at hq
    exact absurd hq (Pc.sleepsOn_wake_self chan (pc q))

/-- If the holder of the lock owes nothing, the sleepers have their reason. -/
theorem of_holder (h : Alert pc waiting chan) {lock : Option ℕ} (hmutex : Mutex pc lock) (hpc : pc p = y)
    (hy : y.Holds = true) (howes : y.owes chan = false) {q : ℕ} (hq : (pc q).sleepsOn = some chan) :
    waiting := by
  rcases h q hq with hwait | ⟨o, ho⟩
  · exact hwait
  · have heq := hmutex.eq_of_holds (hpc ▸ hy : (pc p).Holds = true) (Pc.holds_of_owes ho)
    rw [heq, hpc, howes] at ho
    exact nomatch ho

lemma mono (h : Alert pc waiting chan) (himp : waiting → waiting') : Alert pc waiting' chan := by
  intro q hq
  rcases h q hq with hwait | howes
  · exact .inl (himp hwait)
  · exact .inr howes

end Alert

/-! ## The ends -/

/-- `p->writeopen` or `p->readopen`. -/
def St.opened (s : St) (writable : Bool) : Bool := if writable then s.writeopen else s.readopen

/-- Who uses an end has a descriptor for it, and an end that is closed has no descriptors. -/
structure Ends (pc : ℕ → Pc) (refs : Bool → List ℕ) (opened : Bool → Bool) : Prop where
  uses : ∀ q w, (pc q).uses = some w → q ∈ refs w
  closes : ∀ q w, (pc q).closes = some w → refs w = []
  closed : ∀ w, opened w = false → refs w = []

namespace Ends

variable {pc : ℕ → Pc} {refs : Bool → List ℕ} {opened : Bool → Bool} {p : ℕ} {x y : Pc}

lemma goto (h : Ends pc refs opened) (hpc : pc p = y)
    (huses : ∀ w, x.uses = some w → y.uses = some w ∨ p ∈ refs w)
    (hcloses : ∀ w, x.closes = some w → y.closes = some w ∨ refs w = []) :
    Ends (Function.update pc p x) refs opened := by
  refine ⟨?_, ?_, h.closed⟩
  · intro q w hq
    by_cases hqp : q = p
    · rw [hqp, Function.update_self] at hq
      rcases huses w hq with hold | hmem
      · rw [hqp]
        exact h.uses p w (by rw [hpc, hold])
      · rw [hqp]
        exact hmem
    · rw [Function.update_of_ne hqp] at hq
      exact h.uses q w hq
  · intro q w hq
    by_cases hqp : q = p
    · rw [hqp, Function.update_self] at hq
      rcases hcloses w hq with hold | hnil
      · exact h.closes p w (by rw [hpc, hold])
      · exact hnil
    · rw [Function.update_of_ne hqp] at hq
      exact h.closes q w hq

lemma wakeup (h : Ends pc refs opened) (chan : Chan) :
    Ends (fun q => (pc q).wake chan) refs opened := by
  refine ⟨?_, ?_, h.closed⟩
  · intro q w hq
    rw [Pc.uses_wake] at hq
    exact h.uses q w hq
  · intro q w hq
    rw [Pc.closes_wake] at hq
    exact h.closes q w hq

/-- While an end is closed nobody sleeps in a call that uses it. -/
lemma no_sleeper (h : Ends pc refs opened) (hclosed : opened false = false) (q : ℕ) :
    (pc q).sleepsOn ≠ some .nread := by
  intro hq
  have hrefs := h.closed false hclosed
  have huse : (pc q).uses = some false := by
    cases hpc : pc q with
    | readSleeping n => rfl
    | _ =>
      rw [hpc] at hq
      exact nomatch hq
  have hmem := h.uses q false huse
  rw [hrefs] at hmem
  exact nomatch hmem

end Ends

/-! ## The invariant -/

/-- Every sleeper has its reason, or somebody is going to wake it. -/
structure Notified (s : St) : Prop where
  mutex : Mutex s.pc s.lock
  ends : Ends s.pc s.refs s.opened
  alert : ∀ chan, Alert s.pc (s.Waiting chan) chan
  sleepy : ∀ q chan, (s.pc q).sleepy = some chan → s.Waiting chan

section
variable {s t : St} {a : Act} {p : ℕ} {x y : Pc}

/-- What the sleepers wait for is the same. -/
structure Kept (s t : St) : Prop where
  nread : t.nread = s.nread
  nwrite : t.nwrite = s.nwrite
  readopen : t.readopen = s.readopen
  writeopen : t.writeopen = s.writeopen
  refs : t.refs = s.refs

lemma Kept.waiting (h : Kept s t) (chan : Chan) : t.Waiting chan ↔ s.Waiting chan := by
  cases chan with
  | nread =>
    unfold St.Waiting St.Empty
    rw [h.nread, h.nwrite, h.writeopen]
  | nwrite =>
    unfold St.Waiting St.Full
    rw [h.nread, h.nwrite, h.readopen]

lemma Kept.opened (h : Kept s t) : t.opened = s.opened := by
  funext w
  unfold St.opened
  rw [h.readopen, h.writeopen]

/-- A process that finds reason to sleep, or still has it. -/
lemma Notified.sleepy_goto (h : Notified s) (hkept : Kept s t)
    (hpcs : ∀ q, q ≠ p → (t.pc q).sleepy = (s.pc q).sleepy)
    (hx : ∀ chan, (t.pc p).sleepy = some chan → s.Waiting chan) :
    ∀ q chan, (t.pc q).sleepy = some chan → t.Waiting chan := by
  intro q chan hq
  rw [hkept.waiting]
  by_cases hqp : q = p
  · rw [hqp] at hq
    exact hx chan hq
  · rw [hpcs q hqp] at hq
    exact h.sleepy q chan hq

/-- A step from `y` to `x` that changes nothing else but the lock and the history. -/
theorem Notified.goto (h : Notified s) (hmutex : Mutex t.pc t.lock) (hkept : Kept s t)
    (ht : t.pc = Function.update s.pc p x) (hpc : s.pc p = y) (hx : x.sleepsOn = none)
    (hpasses : y.passes x = true) (hsleepy : ∀ chan, x.sleepy = some chan → s.Waiting chan)
    (huses : ∀ w, x.uses = some w → y.uses = some w ∨ p ∈ s.refs w)
    (hcloses : ∀ w, x.closes = some w → y.closes = some w ∨ s.refs w = []) : Notified t := by
  refine ⟨hmutex, ?_, ?_, ?_⟩
  · rw [ht, hkept.refs, hkept.opened]
    exact h.ends.goto hpc huses hcloses
  · intro chan
    rw [ht]
    exact ((h.alert chan).goto hpc hx (Pc.owes_of_passes hpasses)).mono (hkept.waiting chan).mpr
  · apply h.sleepy_goto (p := p) hkept
    · intro q hq
      rw [ht, Function.update_of_ne hq]
    · intro chan hsl
      rw [ht, Function.update_self] at hsl
      exact hsleepy chan hsl

/-- A process falls asleep with a reason. -/
lemma Notified.sleep (h : Notified s) (hmutex : Mutex t.pc t.lock) (hkept : Kept s t)
    (ht : t.pc = Function.update s.pc p x) (hpc : s.pc p = y) {chan : Chan} (hx : x.sleepsOn = some chan)
    (hy : y.sleepy = some chan) (hpasses : y.passes .idle = true) (hsleepy : x.sleepy = none)
    (huses : x.uses = y.uses) (hcloses : x.closes = none) : Notified t := by
  have hreason := h.sleepy p chan (by rw [hpc, hy])
  refine ⟨hmutex, ?_, ?_, ?_⟩
  · rw [ht, hkept.refs, hkept.opened]
    apply h.ends.goto hpc
    · intro w hw
      rw [huses] at hw
      exact .inl hw
    · intro w hw
      rw [hcloses] at hw
      exact nomatch hw
  · intro chan' q hq
    rw [hkept.waiting]
    left
    by_cases hqp : q = p
    · rw [ht, hqp, Function.update_self, hx] at hq
      rw [← Option.some.inj hq]
      exact hreason
    · rw [ht, Function.update_of_ne hqp] at hq
      exact (h.alert chan').of_holder h.mutex hpc (Pc.holds_of_sleepy hy) (Pc.owes_none hpasses) hq
  · apply h.sleepy_goto (p := p) hkept
    · intro q hq
      rw [ht, Function.update_of_ne hq]
    · intro chan' hsl
      rw [ht, Function.update_self, hsleepy] at hsl
      exact nomatch hsl

/-- A process calls `wakeup` and goes on. -/
lemma Notified.wakeup (h : Notified s) (hmutex : Mutex t.pc t.lock) (hkept : Kept s t) {chan : Chan}
    (ht : t.pc = Function.update (fun q => (s.pc q).wake chan) p x) (hpc : s.pc p = y)
    (hy : y.Holds = true) (hx : x.sleepsOn = none)
    (howes : ∀ chan', chan' ≠ chan → y.owes chan' = true → x.owes chan' = true)
    (hsleepy : ∀ chan, x.sleepy = some chan → s.Waiting chan)
    (huses : ∀ w, x.uses = some w → y.uses = some w) (hcloses : x.closes = none) : Notified t := by
  have hat : (s.pc p).wake chan = y := by rw [hpc, Pc.wake_of_holds chan hy]
  refine ⟨hmutex, ?_, ?_, ?_⟩
  · rw [ht, hkept.refs, hkept.opened]
    apply (h.ends.wakeup chan).goto hat
    · exact fun w hw => .inl (huses w hw)
    · intro w hw
      rw [hcloses] at hw
      exact nomatch hw
  · intro chan'
    rw [ht]
    by_cases hchan : chan' = chan
    · rw [hchan]
      exact Alert.woken hx
    · exact (((h.alert chan').wakeup chan).goto hat hx (howes chan' hchan)).mono
        (hkept.waiting chan').mpr
  · apply h.sleepy_goto (p := p) hkept
    · intro q hq
      rw [ht, Function.update_of_ne hq, Pc.sleepy_wake]
    · intro chan' hsl
      rw [ht, Function.update_self] at hsl
      exact hsleepy chan' hsl

/-- The holder of the lock changes the pipe. Sleepers on a channel have no reason to be woken by that, or
there are none, or the process still has to wake them. -/
theorem Notified.change (h : Notified s) (hmutex : Mutex t.pc t.lock)
    (hends : Ends t.pc t.refs t.opened) (ht : t.pc = Function.update s.pc p x) (hpc : s.pc p = y)
    (hy : y.Holds = true) (hx : x.sleepsOn = none) (hsleepy : x.sleepy = none)
    (halert : ∀ chan, x.owes chan = true ∨ (∀ q, (s.pc q).sleepsOn ≠ some chan) ∨
      (y.owes chan = false ∧ (s.Waiting chan → t.Waiting chan))) : Notified t := by
  refine ⟨hmutex, hends, ?_, ?_⟩
  · intro chan
    rcases halert chan with howes | hnone | ⟨howes, hwait⟩
    · rw [ht]
      exact Alert.owing howes
    · intro q hq
      by_cases hqp : q = p
      · rw [ht, hqp, Function.update_self, hx] at hq
        exact nomatch hq
      · rw [ht, Function.update_of_ne hqp] at hq
        exact absurd hq (hnone q)
    · intro q hq
      by_cases hqp : q = p
      · rw [ht, hqp, Function.update_self, hx] at hq
        exact nomatch hq
      · rw [ht, Function.update_of_ne hqp] at hq
        exact .inl (hwait ((h.alert chan).of_holder h.mutex hpc hy howes hq))
  · -- nobody else is inside the lock
    intro q chan hq
    have hqp : q = p := by
      by_contra hne
      rw [ht, Function.update_of_ne hne] at hq
      exact hne (h.mutex.eq_of_holds (hpc ▸ hy : (s.pc p).Holds = true) (Pc.holds_of_sleepy hq))
    rw [ht, hqp, Function.update_self, hsleepy] at hq
    exact nomatch hq

/-! ## Steps -/

/-- No reader sleeps when a writer that was killed gives up with the pipe full. -/
def Safe (s : St) (a : Act) : Prop :=
  ∀ p c addr, a = .step p → s.pc p = .writeLoop (c :: addr) → s.Full → s.killed p = true →
    ∀ q n, s.pc q ≠ .readSleeping n

lemma notified_next (h : Notified s) (hsafe : Safe s (.step p)) (hn : Next s p t) : Notified t := by
  have hmutex := mutex_next h.mutex hn
  cases hn with
  | writeAcquire hpc =>
    exact h.goto hmutex ⟨rfl, rfl, rfl, rfl, rfl⟩ rfl hpc rfl rfl nofun (by intro w hw; exact .inl hw) nofun
  | writeEnd hpc =>
    exact h.goto hmutex ⟨rfl, rfl, rfl, rfl, rfl⟩ rfl hpc rfl rfl nofun nofun nofun
  | writeStop hpc hfull hstop =>
    -- the killed writer is the one that is not safe; without a read end there is no reader
    have hnone : ∀ q, (s.pc q).sleepsOn ≠ some .nread := by
      rcases hstop with hclosed | hkilled
      · exact h.ends.no_sleeper hclosed
      · intro q hq
        cases hq' : s.pc q with
        | readSleeping n => exact hsafe p _ _ rfl hpc hfull hkilled q n hq'
        | _ =>
          rw [hq'] at hq
          exact nomatch hq
    refine h.change hmutex ?_ rfl hpc rfl rfl rfl ?_
    · exact h.ends.goto hpc nofun nofun
    · intro chan
      cases chan with
      | nread => exact .inr (.inl hnone)
      | nwrite => exact .inr (.inr ⟨rfl, id⟩)
  | writeFull hpc hfull hopen =>
    refine h.goto hmutex ⟨rfl, rfl, rfl, rfl, rfl⟩ rfl hpc rfl rfl ?_ (by intro w hw; exact .inl hw) nofun
    intro chan hchan
    rw [← Option.some.inj hchan]
    exact ⟨hfull, hopen⟩
  | store hpc hroom =>
    refine h.change hmutex ?_ rfl hpc rfl rfl rfl ?_
    · exact h.ends.goto hpc (by intro w hw; exact .inl hw) nofun
    · intro chan
      cases chan with
      | nread => exact .inl rfl
      | nwrite => exact .inr (.inr ⟨rfl, fun hwait => absurd hwait.1 hroom⟩)
  | writeNotify hpc =>
    refine h.wakeup hmutex ⟨rfl, rfl, rfl, rfl, rfl⟩ rfl hpc rfl rfl ?_ ?_ (fun w hw => hw) rfl
    · intro chan hchan howes
      cases chan with
      | nread => exact absurd rfl hchan
      | nwrite => exact nomatch howes
    · intro chan hchan
      exact h.sleepy p chan (by rw [hpc]; exact hchan)
  | writeSleep hpc =>
    exact h.sleep hmutex ⟨rfl, rfl, rfl, rfl, rfl⟩ rfl hpc rfl rfl rfl rfl rfl rfl
  | writeFail hpc =>
    exact h.goto hmutex ⟨rfl, rfl, rfl, rfl, rfl⟩ rfl hpc rfl rfl nofun nofun nofun
  | writeWakeup hpc =>
    refine h.wakeup hmutex ⟨rfl, rfl, rfl, rfl, rfl⟩ rfl hpc rfl rfl ?_ nofun nofun rfl
    intro chan hchan howes
    cases chan with
    | nread => exact absurd rfl hchan
    | nwrite => exact nomatch howes
  | writeDone hpc =>
    exact h.goto hmutex ⟨rfl, rfl, rfl, rfl, rfl⟩ rfl hpc rfl rfl nofun nofun nofun
  | readAcquire hpc =>
    exact h.goto hmutex ⟨rfl, rfl, rfl, rfl, rfl⟩ rfl hpc rfl rfl nofun (by intro w hw; exact .inl hw) nofun
  | readStop hpc =>
    exact h.goto hmutex ⟨rfl, rfl, rfl, rfl, rfl⟩ rfl hpc rfl rfl nofun nofun nofun
  | readEmpty hpc hempty hopen =>
    refine h.goto hmutex ⟨rfl, rfl, rfl, rfl, rfl⟩ rfl hpc rfl rfl ?_ (by intro w hw; exact .inl hw) nofun
    intro chan hchan
    rw [← Option.some.inj hchan]
    exact ⟨hempty, hopen⟩
  | readStart hpc =>
    exact h.goto hmutex ⟨rfl, rfl, rfl, rfl, rfl⟩ rfl hpc rfl rfl nofun nofun nofun
  | readSleep hpc =>
    exact h.sleep hmutex ⟨rfl, rfl, rfl, rfl, rfl⟩ rfl hpc rfl rfl rfl rfl rfl rfl
  | readFail hpc =>
    exact h.goto hmutex ⟨rfl, rfl, rfl, rfl, rfl⟩ rfl hpc rfl rfl nofun nofun nofun
  | readEnd hpc =>
    exact h.goto hmutex ⟨rfl, rfl, rfl, rfl, rfl⟩ rfl hpc rfl rfl nofun nofun nofun
  | take hpc hgo =>
    rw [not_or] at hgo
    refine h.change hmutex ?_ rfl hpc rfl rfl rfl ?_
    · exact h.ends.goto hpc nofun nofun
    · intro chan
      cases chan with
      | nread => exact .inr (.inr ⟨rfl, fun hwait => absurd hwait.1 hgo.2⟩)
      | nwrite => exact .inl rfl
  | readWakeup hpc =>
    refine h.wakeup hmutex ⟨rfl, rfl, rfl, rfl, rfl⟩ rfl hpc rfl rfl ?_ nofun nofun rfl
    intro chan hchan howes
    cases chan with
    | nread => exact nomatch howes
    | nwrite => exact absurd rfl hchan
  | readDone hpc =>
    exact h.goto hmutex ⟨rfl, rfl, rfl, rfl, rfl⟩ rfl hpc rfl rfl nofun nofun nofun
  | closeAcquire hpc =>
    exact h.goto hmutex ⟨rfl, rfl, rfl, rfl, rfl⟩ rfl hpc rfl rfl nofun nofun (by intro w hw; exact .inl hw)
  | closeWrite hpc =>
    refine h.change hmutex ?_ rfl hpc rfl rfl rfl ?_
    · have hends := h.ends.goto (x := .closeWakeup true) hpc nofun nofun
      refine ⟨hends.uses, hends.closes, ?_⟩
      intro w hw
      cases w with
      | true => exact h.ends.closes p true (by rw [hpc]; rfl)
      | false => exact h.ends.closed false hw
    · intro chan
      cases chan with
      | nread => exact .inl rfl
      | nwrite => exact .inr (.inr ⟨rfl, id⟩)
  | closeRead hpc =>
    refine h.change hmutex ?_ rfl hpc rfl rfl rfl ?_
    · have hends := h.ends.goto (x := .closeWakeup false) hpc nofun nofun
      refine ⟨hends.uses, hends.closes, ?_⟩
      intro w hw
      cases w with
      | true => exact h.ends.closed true hw
      | false => exact h.ends.closes p false (by rw [hpc]; rfl)
    · intro chan
      cases chan with
      | nread => exact .inr (.inr ⟨rfl, id⟩)
      | nwrite => exact .inl rfl
  | @closeWakeup writable hpc =>
    refine h.wakeup hmutex ⟨rfl, rfl, rfl, rfl, rfl⟩ rfl hpc rfl rfl ?_ nofun nofun rfl
    intro chan hchan howes
    cases writable with
    | true =>
      cases chan with
      | nread => exact absurd rfl hchan
      | nwrite => exact nomatch howes
    | false =>
      cases chan with
      | nread => exact nomatch howes
      | nwrite => exact absurd rfl hchan
  | closeDone hpc =>
    exact h.goto hmutex ⟨rfl, rfl, rfl, rfl, rfl⟩ rfl hpc rfl rfl nofun nofun nofun

/-- The descriptors for one end change. -/
lemma Notified.setRefs (h : Notified s) {w : Bool} {l : List ℕ}
    (huses : ∀ q, (s.pc q).uses = some w → q ∈ l) (hempty : s.refs w = [] → l = []) :
    Notified { s with refs := Function.update s.refs w l } := by
  have hother : ∀ w', w' ≠ w → Function.update s.refs w l w' = s.refs w' := fun w' hw' =>
    Function.update_of_ne hw' _ _
  refine ⟨h.mutex, ⟨?_, ?_, ?_⟩, h.alert, h.sleepy⟩
  · intro q w' hq
    show q ∈ Function.update s.refs w l w'
    by_cases hw' : w' = w
    · rw [hw', Function.update_self]
      exact huses q (hw' ▸ hq)
    · rw [hother w' hw']
      exact h.ends.uses q w' hq
  · intro q w' hq
    show Function.update s.refs w l w' = []
    have hold := h.ends.closes q w' hq
    by_cases hw' : w' = w
    · rw [hw', Function.update_self]
      exact hempty (hw' ▸ hold)
    · rw [hother w' hw', hold]
  · intro w' hclosed
    show Function.update s.refs w l w' = []
    have hold := h.ends.closed w' hclosed
    by_cases hw' : w' = w
    · rw [hw', Function.update_self]
      exact hempty (hw' ▸ hold)
    · rw [hother w' hw', hold]

lemma notified_step (h : Notified s) (hsafe : Safe s a) (hs : Step s a t) : Notified t := by
  have hmutex := mutex_step h.mutex hs
  -- an idle process uses no end
  have hidle : ∀ {p q : ℕ} {w : Bool}, s.pc p = .idle → (s.pc q).uses = some w → q ≠ p := by
    rintro p q w hpc hq rfl
    rw [hpc] at hq
    exact nomatch hq
  cases hs with
  | read hpc href =>
    refine h.goto hmutex ⟨rfl, rfl, rfl, rfl, rfl⟩ rfl hpc rfl rfl nofun ?_ nofun
    intro w hw
    rw [← Option.some.inj hw]
    exact .inr href
  | write hpc href =>
    refine h.goto hmutex ⟨rfl, rfl, rfl, rfl, rfl⟩ rfl hpc rfl rfl nofun ?_ nofun
    intro w hw
    rw [← Option.some.inj hw]
    exact .inr href
  | @closeLast p w hpc href hlast =>
    have hother : ∀ q, (s.pc q).uses = some w → q ∈ ([] : List ℕ) := by
      intro q hq
      have hmem := (List.mem_erase_of_ne (hidle hpc hq)).mpr (h.ends.uses q w hq)
      rwa [hlast] at hmem
    have hset := h.setRefs hother fun _ => rfl
    refine hset.goto hmutex ⟨rfl, rfl, rfl, rfl, rfl⟩ rfl hpc rfl rfl nofun nofun ?_
    intro w' hw'
    right
    rw [← Option.some.inj hw']
    exact Function.update_self _ _ _
  | @close p w hpc href hmore =>
    apply h.setRefs
    · intro q hq
      exact (List.mem_erase_of_ne (hidle hpc hq)).mpr (h.ends.uses q w hq)
    · intro hnil
      rw [hnil] at href
      exact nomatch href
  | @dup p q w hpc hpc' href =>
    apply h.setRefs
    · intro q' hq'
      exact List.mem_cons_of_mem _ (h.ends.uses q' w hq')
    · intro hnil
      rw [hnil] at href
      exact nomatch href
  | next hn => exact notified_next h hsafe hn
  | @kill p =>
    -- the process may wake up, and nothing else changes
    have hkeep : ∀ {β : Type} (f : Pc → β), (∀ x chan, f (Pc.wake chan x) = f x) → ∀ q,
        f (Function.update s.pc p (((s.pc p).wake .nread).wake .nwrite) q) = f (s.pc q) := by
      intro β f hf q
      by_cases hqp : q = p
      · rw [hqp, Function.update_self, hf, hf]
      · rw [Function.update_of_ne hqp]
    have hsleeps : ∀ q chan, (Function.update s.pc p (((s.pc p).wake .nread).wake .nwrite) q).sleepsOn
        = some chan → (s.pc q).sleepsOn = some chan := by
      intro q chan hq
      by_cases hqp : q = p
      · rw [hqp, Function.update_self] at hq
        rw [hqp]
        exact Pc.sleepsOn_of_wake (Pc.sleepsOn_of_wake hq)
      · rwa [Function.update_of_ne hqp] at hq
    refine ⟨hmutex, ⟨?_, ?_, h.ends.closed⟩, ?_, ?_⟩
    · intro q w hq
      have hsame := hkeep Pc.uses (fun x chan => Pc.uses_wake chan x) q
      exact h.ends.uses q w (hsame.symm.trans hq)
    · intro q w hq
      have hsame := hkeep Pc.closes (fun x chan => Pc.closes_wake chan x) q
      exact h.ends.closes q w (hsame.symm.trans hq)
    · intro chan q hq
      rcases h.alert chan q (hsleeps q chan hq) with hwait | ⟨o, ho⟩
      · exact .inl hwait
      · have hsame := hkeep (Pc.owes chan) (fun x c => Pc.owes_wake c chan x) o
        exact .inr ⟨o, hsame.trans ho⟩
    · intro q chan hq
      have hsame := hkeep Pc.sleepy (fun x c => Pc.sleepy_wake c x) q
      exact h.sleepy q chan (hsame.symm.trans hq)

lemma notified_pipealloc (p : ℕ) (data : ℕ → UInt8) : Notified (pipealloc p data) := by
  refine ⟨(stream_pipealloc p data).mutex, ⟨nofun, nofun, ?_⟩, ?_, nofun⟩
  · intro w hw
    cases w with
    | true => exact nomatch hw
    | false => exact nomatch hw
  · exact fun chan q hq => nomatch hq

/-- **No lost wakeup.** In every run in which no writer that was killed gives up with the pipe full while a
reader sleeps: whenever the lock is free, a process that sleeps in `piperead` finds the pipe empty and the
write end open, and one that sleeps in `pipewrite` finds it full and the read end open. -/
theorem no_lost_wakeup {p : ℕ} {data : ℕ → UInt8} {as : List Act} {s : St}
    (hsafe : Runs.Along St.step Safe (pipealloc p data) as)
    (hrun : Runs.run St.step (pipealloc p data) as = some s) (hlock : s.lock = none) (q : ℕ) :
    (∀ n, s.pc q = .readSleeping n → s.Empty ∧ s.writeopen = true) ∧
      ∀ addr, s.pc q = .writeSleeping addr → s.Full ∧ s.readopen = true := by
  have h : Notified s := Runs.Along.invariant
    (fun s a t hs hok ht => notified_step hs hok (step_cases ht)) (notified_pipealloc p data) hsafe hrun
  -- nobody is inside the lock, so nobody owes anything
  have hwait : ∀ chan, (s.pc q).sleepsOn = some chan → s.Waiting chan := by
    intro chan hq
    rcases h.alert chan q hq with hwait | ⟨o, ho⟩
    · exact hwait
    · have hheld := (h.mutex o).mp (Pc.holds_of_owes ho)
      rw [hlock] at hheld
      exact nomatch hheld
  constructor
  · intro n hq
    exact hwait .nread (by rw [hq]; rfl)
  · intro addr hq
    exact hwait .nwrite (by rw [hq]; rfl)

end

/-- A reader that sleeps in an empty pipe. -/
def sleepRun : List Act := [.read 0 10, .step 0, .step 0, .step 0]

theorem no_lost_wakeup_sleepRun : ∃ s, Runs.run St.step (pipealloc 0 fun _ => 0) sleepRun = some s ∧
    s.pc 0 = .readSleeping 10 ∧ s.Empty ∧ s.writeopen = true := by
  have hsafe : Runs.Along St.step Safe (pipealloc 0 fun _ => 0) sleepRun := by
    refine ⟨nofun, ?_⟩
    rintro _ ⟨⟩
    refine ⟨?_, ?_⟩
    · rintro p c addr ⟨⟩
      exact nofun
    rintro _ ⟨⟩
    refine ⟨?_, ?_⟩
    · rintro p c addr ⟨⟩
      exact nofun
    rintro _ ⟨⟩
    refine ⟨?_, fun _ _ => trivial⟩
    rintro p c addr ⟨⟩
    exact nofun
  have hrun : ∃ s, Runs.run St.step (pipealloc 0 fun _ => 0) sleepRun = some s ∧
      s.lock = none ∧ s.pc 0 = .readSleeping 10 := ⟨_, rfl, rfl, rfl⟩
  obtain ⟨s, hs, hlock, hpc⟩ := hrun
  exact ⟨s, hs, hpc, (no_lost_wakeup hsafe hs hlock 0).1 10 hpc⟩

/-- A reader sleeps, a writer starts and is killed, fills the pipe, and gives up. -/
def lostRun : List Act :=
  [.dup 0 1 true, .read 0 10, .step 0, .step 0, .step 0, .write 1 (List.replicate 513 0), .step 1, .kill 1]
    ++ List.replicate 514 (.step 1)

/-- The reader sleeps on, and the pipe is full. -/
theorem lost_wakeup : ∃ s, Runs.run St.step (pipealloc 0 fun _ => 0) lostRun = some s ∧ s.lock = none ∧
    s.pc 0 = .readSleeping 10 ∧ ¬ (s.Empty ∧ s.writeopen = true) := by
  have hany : (Runs.run St.step (pipealloc 0 fun _ => 0) lostRun).any (fun s =>
      s.lock = none ∧ s.pc 0 = .readSleeping 10 ∧ ¬ (s.Empty ∧ s.writeopen = true)) = true := by
    decide +kernel
  obtain ⟨s, hs, hlost⟩ := (Option.any_eq_true _ _).mp hany
  exact ⟨s, hs, of_decide_eq_true hlost⟩

end Pipe
end OhMyXv6
