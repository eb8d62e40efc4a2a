import Mathlib.Data.Fintype.Card
import Mathlib.Data.Nat.Bitwise
import OhMyXv6.Lib.Chain
import OhMyXv6.Lib.Runs
import OhMyXv6.Param

/-!
# `ide.c`: the queue of the disk driver

Processes put buffers into a queue with `iderw` and wait for them; the disk works on the first one. When
it is done it raises an interrupt, and `ideintr` takes the buffer off the queue and starts the disk on
the next one. Both hold `idelock`, so each of them is one step, `iderw` up to its `sleep`. A call that
panics is no step.

The buffers are locked: between two calls of `iderw` a buffer belongs to whoever holds its lock, in the
call to the driver, and there are never two locked buffers of one block.
-/

namespace OhMyXv6
namespace Ide

/-- `struct buf`, as far as the driver looks at it. -/
structure Buf (β : Type*) where
  dev : ℕ
  blockno : ℕ
  /-- `B_VALID`. -/
  valid : Bool
  /-- `B_DIRTY`. -/
  dirty : Bool
  data : β

/-- What the disk is doing. -/
inductive Drive (β : Type*) where
  | idle
  /-- It works on a command for a sector of one of the two disks, a write if it was sent data. -/
  | busy (disk sector : ℕ) (sent : Option β)
  /-- It is done and has raised its interrupt, with the sector's data in its own buffer. -/
  | ready (disk sector : ℕ) (data : β)

/-- Where the process is that holds a buffer. -/
inductive Pc where
  /-- Not in `iderw`. -/
  | outside
  | sleeping
  /-- Woken up, about to test the flags again. -/
  | woken
deriving DecidableEq

/-- The disk driver: the buffers, the queue, and what has been started and completed. -/
structure State (B β : Type*) where
  buf : B → Buf β
  /-- The `qnext` of the buffers. -/
  qnext : B → Option B
  idequeue : Option B
  havedisk1 : Bool
  drive : Drive β
  /-- What is on the disks. -/
  disk : ℕ × ℕ → β
  pc : B → Pc
  /-- History: how often `iderw` was called with a buffer. -/
  calls : B → ℕ
  /-- History: the calls that were queued, each as its buffer and its number. -/
  queued : List (B × ℕ)
  /-- History: the calls that the disk was started for. -/
  started : List (B × ℕ)
  /-- History: the calls that `ideintr` has taken off the queue. -/
  completed : List (B × ℕ)

/-! ## The registers -/

/-- `ide.c`: bytes of a sector. -/
def SECTOR_SIZE : ℕ := 512

/-- The registers from 0x1f3 to 0x1f6. -/
structure Regs where
  low : ℕ
  mid : ℕ
  high : ℕ
  top : ℕ

/-- What `idestart` writes to them. -/
def regs (dev blockno : ℕ) : Regs :=
  let sector := blockno * (BSIZE / SECTOR_SIZE)
  { low := sector &&& 0xff
    mid := (sector >>> 8) &&& 0xff
    high := (sector >>> 16) &&& 0xff
    top := 0xe0 ||| ((dev &&& 1) <<< 4) ||| ((sector >>> 24) &&& 0x0f) }

/-- The disk they select. -/
def Regs.disk (r : Regs) : ℕ := (r.top >>> 4) &&& 1

/-- The sector they select. -/
def Regs.sector (r : Regs) : ℕ := r.low + (r.mid <<< 8) + (r.high <<< 16) + ((r.top &&& 0x0f) <<< 24)

/-- The fields of the last register do not overlap. -/
lemma top_fields : ∀ d < 2, ∀ k < 16, (0xe0 ||| (d <<< 4) ||| k) >>> 4 &&& 1 = d ∧
    (0xe0 ||| (d <<< 4) ||| k) &&& 0x0f = k := by decide

/-- Bit 4 of the register chooses the disk. -/
lemma disk_regs (dev blockno : ℕ) : (regs dev blockno).disk = dev &&& 1 := by
  have hdev : dev &&& 1 < 2 := Nat.and_lt_two_pow dev (n := 1) (by omega)
  have hsector : (blockno * (BSIZE / SECTOR_SIZE)) >>> 24 &&& 0x0f < 16 :=
    Nat.and_lt_two_pow _ (n := 4) (by omega)
  exact (top_fields _ hdev _ hsector).1

/-- The four parts of a sector's number. -/
lemma sector_parts {n : ℕ} (h : n < 2 ^ 28) : (n &&& 0xff) + ((n >>> 8 &&& 0xff) <<< 8) +
    ((n >>> 16 &&& 0xff) <<< 16) + ((n >>> 24 &&& 0x0f) <<< 24) = n := by
  have hff : ∀ m, m &&& 0xff = m % 256 := fun m => Nat.and_two_pow_sub_one_eq_mod m 8
  have h0f : ∀ m, m &&& 0x0f = m % 16 := fun m => Nat.and_two_pow_sub_one_eq_mod m 4
  simp only [hff, h0f, Nat.shiftRight_eq_div_pow, Nat.shiftLeft_eq]
  omega

/-- The registers hold the whole number of a sector. -/
lemma sector_regs (dev : ℕ) {blockno : ℕ} (h : blockno < FSSIZE) :
    (regs dev blockno).sector = blockno := by
  have hdev : dev &&& 1 < 2 := Nat.and_lt_two_pow dev (n := 1) (by omega)
  have hone : blockno * (BSIZE / SECTOR_SIZE) = blockno := by
    rw [show BSIZE / SECTOR_SIZE = 1 by decide, Nat.mul_one]
  have hsector : (blockno * (BSIZE / SECTOR_SIZE)) >>> 24 &&& 0x0f < 16 :=
    Nat.and_lt_two_pow _ (n := 4) (by omega)
  have htop := (top_fields _ hdev _ hsector).2
  have hparts := sector_parts (n := blockno * (BSIZE / SECTOR_SIZE)) (by unfold FSSIZE at h; omega)
  rw [← htop] at hparts
  exact hparts.trans hone

/-! ## The driver -/

/-- The flags are `B_VALID` and not `B_DIRTY`. -/
def Buf.Clean {β : Type*} (x : Buf β) : Prop := x.valid = true ∧ x.dirty = false

instance {β : Type*} (x : Buf β) : Decidable x.Clean :=
  inferInstanceAs (Decidable (x.valid = true ∧ x.dirty = false))

/-- The disk and the sector that a buffer is of. -/
def Buf.key {β : Type*} (x : Buf β) : ℕ × ℕ := (x.dev &&& 1, x.blockno)

/-- What the disk is sent for a buffer. -/
def Buf.sent {β : Type*} (x : Buf β) : Option β := if x.dirty then some x.data else none

namespace State

variable {B β : Type*}

/-- `*pp`, where no buffer stands for `&idequeue` and a buffer for its `qnext`. -/
def deref (s : State B β) : Option B → Option B
  | none => s.idequeue
  | some c => s.qnext c

/-- `*pp = b`. -/
def assign [DecidableEq B] (s : State B β) (pp : Option B) (b : B) : State B β :=
  match pp with
  | none => { s with idequeue := some b }
  | some c => { s with qnext := Function.update s.qnext c (some b) }

/-- `for (; *pp; pp = &(*pp)->qnext)`, for `n` turns at most. -/
def findEnd (s : State B β) : ℕ → Option B → Option (Option B)
  | 0, _ => none
  | n + 1, pp =>
    match s.deref pp with
    | none => some pp
    | some c => findEnd s n (some c)

/-- The buffer is put at the end of the queue. -/
def append [DecidableEq B] [Fintype B] (s : State B β) (b : B) : Option (State B β) :=
  let s := { s with qnext := Function.update s.qnext b none }
  (s.findEnd (Fintype.card B + 1) none).map fun pp => s.assign pp b

/-- `idestart(b)`; `idewait` waits while the disk is busy. -/
def idestart (s : State B β) (b : B) : Option (State B β) :=
  let x := s.buf b
  -- `panic("incorrect blockno")`
  if FSSIZE ≤ x.blockno then none
  else
    match s.drive with
    | .busy .. => none
    | .idle | .ready .. =>
      let r := regs x.dev x.blockno
      some { s with
        drive := .busy r.disk r.sector x.sent
        started := s.started ++ [(b, s.calls b)] }

/-- The process with this buffer is elsewhere in `iderw`. -/
def setPc [DecidableEq B] (s : State B β) (b : B) (p : Pc) : State B β :=
  { s with pc := Function.update s.pc b p }

/-- The test of the loop at the end of `iderw`. -/
def wait [DecidableEq B] (s : State B β) (b : B) : State B β :=
  s.setPc b (if (s.buf b).Clean then .outside else .sleeping)

/-- `iderw(b)`, up to its `sleep`. -/
def iderw [DecidableEq B] [Fintype B] (s : State B β) (b : B) : Option (State B β) :=
  -- `panic("iderw: nothing to do")`
  if (s.buf b).Clean then none
  -- `panic("iderw: ide disk 1 not present")`
  else if (s.buf b).dev ≠ 0 ∧ s.havedisk1 = false then none
  else
    let s := { s with
      calls := Function.update s.calls b (s.calls b + 1)
      queued := s.queued ++ [(b, s.calls b + 1)] }
    (s.append b).bind fun s =>
      -- the drive is started when `b` is the first of the queue
      (if s.idequeue = some b then s.idestart b else some s).map fun s => s.wait b

/-- `b` is taken off the queue, with what the disk has read if it was to be read. -/
def complete [DecidableEq B] (s : State B β) (b : B) (data : β) : State B β :=
  let x := s.buf b
  { s with
    idequeue := s.qnext b
    drive := .idle
    buf := Function.update s.buf b
      { x with valid := true, dirty := false, data := if x.dirty then x.data else data }
    pc := Function.update s.pc b (if s.pc b = .sleeping then .woken else s.pc b)
    completed := s.completed ++ [(b, s.calls b)] }

/-- `ideintr`, when the disk has raised its interrupt. -/
def ideintr [DecidableEq B] (s : State B β) : Option (State B β) :=
  match s.drive with
  | .idle | .busy .. => none
  | .ready _ _ data =>
    match s.idequeue with
    -- a spurious interrupt
    | none => some { s with drive := .idle }
    | some b =>
      let s := s.complete b data
      match s.idequeue with
      | none => some s
      -- the next of the queue
      | some c => s.idestart c

/-- The disk completes its command, without an error. -/
def finish (s : State B β) : Option (State B β) :=
  match s.drive with
  | .idle | .ready .. => none
  | .busy d k none => some { s with drive := .ready d k (s.disk (d, k)) }
  | .busy d k (some v) => some { s with drive := .ready d k v, disk := Function.update s.disk (d, k) v }

/-- The call for `b` that is going on, or was the last one. -/
def call (s : State B β) (b : B) : B × ℕ := (b, s.calls b)

end State

/-- What may happen next: a step of `iderw`, or the interrupt of the disk. -/
inductive Act (B β : Type*) where
  /-- The holder of the lock does to a buffer what it likes, or the buffer is given to another block. -/
  | change (b : B) (x : Buf β)
  | iderw (b : B)
  | finish
  | ideintr
  /-- A sleeper is woken up for another reason. -/
  | wake (b : B)
  /-- It goes on in the loop of `iderw`. -/
  | resume (b : B)

variable {B β : Type*}

/-- One step; `iderw` is called for a buffer while no other buffer of its block is in a call. -/
def step [DecidableEq B] [Fintype B] (s : State B β) : Act B β → Option (State B β)
  | .change b x => if s.pc b = .outside then some { s with buf := Function.update s.buf b x } else none
  | .iderw b =>
    if s.pc b = .outside ∧ ∀ c, s.pc c ≠ .outside → (s.buf c).key ≠ (s.buf b).key then s.iderw b else none
  | .finish => s.finish
  | .ideintr => s.ideintr
  | .wake b => if s.pc b = .sleeping then some (s.setPc b .woken) else none
  | .resume b => if s.pc b = .woken then some (s.wait b) else none

/-- The queue is empty and no process is in the driver. -/
def boot (buf : B → Buf β) (havedisk1 : Bool) (disk : ℕ × ℕ → β) : State B β :=
  { buf, havedisk1, disk
    qnext := fun _ => none
    idequeue := none
    drive := .idle
    pc := fun _ => .outside
    calls := fun _ => 0
    queued := []
    started := []
    completed := [] }

/-! ## What the driver promises -/

namespace State

/-- The disk works on the command for `b`, or has just completed it. -/
def WorksOn (s : State B β) (b : B) : Prop :=
  s.drive = .busy (s.buf b).key.1 (s.buf b).key.2 (s.buf b).sent ∨
    ∃ data, s.drive = .ready (s.buf b).key.1 (s.buf b).key.2 data

/-- The requests are served in order, each of them once. -/
structure Serves (s : State B β) : Prop where
  head : match s.idequeue with
    | none => s.drive = .idle
    | some b => s.WorksOn b
  /-- The calls that are queued and not completed are those of the queue, and the disk was started for the
  first of them only. Who sleeps waits for a buffer of the queue. -/
  order : ∃ q, Chain s.qnext s.idequeue q ∧ s.queued = s.completed ++ q.map s.call ∧
    s.started = s.completed ++ (q.map s.call).take 1 ∧ ∀ b, s.pc b = .sleeping → b ∈ q
  queued : s.queued.Nodup
  started : s.started.Nodup
  completed : s.completed.Nodup

/-- The request for `b` has been served. -/
structure Served [DecidableEq B] (s : State B β) (b : B) : Prop where
  clean : (s.buf b).Clean
  unqueued : ∀ q, Chain s.qnext s.idequeue q → b ∉ q
  data : (s.buf b).data = s.disk (s.buf b).key
  started : s.started.count (s.call b) = 1
  completed : s.completed.count (s.call b) = 1

end State

/-- `iderw(b)` returns in the step. -/
def Returns (s : State B β) (a : Act B β) (t : State B β) (b : B) : Prop :=
  t.pc b = .outside ∧ (s.pc b ≠ .outside ∨ a = .iderw b)

/-! ## The invariant -/

namespace State

variable {s t : State B β} {b c : B} {q : List B}

/-- `s` is a state with the queue `q`, whatever the disk does. -/
structure Waits (s : State B β) (q : List B) : Prop where
  chain : Chain s.qnext s.idequeue q
  nodup : q.Nodup
  waiting : ∀ b ∈ q, s.pc b ≠ .outside ∧ ¬ (s.buf b).Clean
  served : ∀ b, s.pc b ≠ .outside → b ∉ q → s.pc b = .woken ∧ (s.buf b).Clean ∧
    (s.buf b).data = s.disk (s.buf b).key ∧ s.call b ∈ s.completed
  distinct : ∀ b c, s.pc b ≠ .outside → s.pc c ≠ .outside → b ≠ c → (s.buf b).key ≠ (s.buf c).key
  queued : s.queued = s.completed ++ q.map s.call
  old : ∀ r ∈ s.queued, r.2 ≤ s.calls r.1
  once : s.queued.Nodup

/-- The disk works on the first buffer of the queue, or has just done what it was told. -/
def Works (s : State B β) : List B → Prop
  | [] => s.drive = .idle
  | b :: _ =>
    s.drive = .busy (s.buf b).key.1 (s.buf b).key.2 (s.buf b).sent ∨
      s.drive = .ready (s.buf b).key.1 (s.buf b).key.2 (s.disk (s.buf b).key) ∧
        ∀ v, (s.buf b).sent = some v → s.disk (s.buf b).key = v

/-- The driver works on the first buffer of the queue, and has done the others in the order of their
calls. -/
structure Inv (s : State B β) (q : List B) : Prop extends Waits s q where
  works : s.Works q
  started : s.started = s.completed ++ (q.map s.call).take 1

lemma inv_boot (buf : B → Buf β) (havedisk1 : Bool) (disk : ℕ × ℕ → β) :
    (boot buf havedisk1 disk).Inv [] where
  chain := rfl
  nodup := List.nodup_nil
  waiting := nofun
  served := fun _ h => absurd rfl h
  distinct := fun _ _ h => absurd rfl h
  queued := rfl
  old := nofun
  once := List.nodup_nil
  works := rfl
  started := rfl

/-! ### What follows from it -/

/-- A buffer outside `iderw` is not in the queue. -/
lemma Waits.not_mem (h : s.Waits q) (hb : s.pc b = .outside) : b ∉ q := fun hmem =>
  (h.waiting b hmem).1 hb

lemma Waits.mem_of_sleeping (h : s.Waits q) (hb : s.pc b = .sleeping) : b ∈ q := by
  by_contra hmem
  have hwoken := (h.served b (by simp [hb]) hmem).1
  simp [hb] at hwoken

/-- What was started was queued, in that order. -/
lemma Inv.started_sublist (h : s.Inv q) : s.started.Sublist s.queued := by
  rw [h.started, h.queued]
  exact (List.take_sublist 1 _).append_left _

/-- What was completed was started, in that order. -/
lemma Inv.completed_sublist (h : s.Inv q) : s.completed.Sublist s.started := by
  rw [h.started]
  exact List.sublist_append_left _ _

lemma Inv.started_nodup (h : s.Inv q) : s.started.Nodup := h.once.sublist h.started_sublist

lemma Inv.completed_nodup (h : s.Inv q) : s.completed.Nodup :=
  h.started_nodup.sublist h.completed_sublist

lemma Inv.serves (h : s.Inv q) : s.Serves where
  head := by
    have hworks := h.works
    cases q with
    | nil =>
      rw [Chain.nil_iff.mp h.chain]
      exact hworks
    | cons b q =>
      rw [(Chain.cons_iff.mp h.chain).1]
      exact hworks.imp id fun hready => ⟨_, hready.1⟩
  order := ⟨q, h.chain, h.queued, h.started, fun _ => h.mem_of_sleeping⟩
  queued := h.once
  started := h.started_nodup
  completed := h.completed_nodup

variable [DecidableEq B]

@[simp] lemma setPc_pc_self (s : State B β) (b : B) (p : Pc) : (s.setPc b p).pc b = p :=
  Function.update_self _ _ _

/-- The others stay where they are. -/
lemma setPc_pc_of_ne {p : Pc} (hne : c ≠ b) : (s.setPc b p).pc c = s.pc c := Function.update_of_ne hne _ _

/-- Who finds the flags clean after the call has been served. -/
lemma Inv.served_wait (h : s.Inv q) (hpc : s.pc b ≠ .outside) (hb : b ∉ q) : (s.wait b).Served b := by
  obtain ⟨-, hclean, hdata, hcall⟩ := h.served b hpc hb
  constructor
  · exact hclean
  · intro q' hq'
    rw [← Chain.unique h.chain hq']
    exact hb
  · exact hdata
  · exact List.count_eq_one_of_mem h.started_nodup (h.completed_sublist.subset hcall)
  · exact List.count_eq_one_of_mem h.completed_nodup hcall

/-! ### Steps of the processes -/

/-- A buffer outside `iderw` may change. -/
lemma Inv.change (h : s.Inv q) (hb : s.pc b = .outside) (x : Buf β) :
    Inv { s with buf := Function.update s.buf b x } q := by
  have hne : ∀ c, s.pc c ≠ .outside → Function.update s.buf b x c = s.buf c := by
    intro c hc
    apply Function.update_of_ne
    intro heq
    exact hc (heq ▸ hb)
  constructor
  · constructor
    · exact h.chain
    · exact h.nodup
    · intro c hc
      have hwaiting := h.waiting c hc
      simp only [hne c hwaiting.1]
      exact hwaiting
    · intro c hc hmem
      simp only [hne c hc]
      exact h.served c hc hmem
    · intro c d hc hd
      simp only [hne c hc, hne d hd]
      exact h.distinct c d hc hd
    · exact h.queued
    · exact h.old
    · exact h.once
  · have hworks := h.works
    cases q with
    | nil => exact hworks
    | cons c q =>
      simp only [Works, hne c (h.waiting c List.mem_cons_self).1]
      exact hworks
  · exact h.started

/-- A process that is in the driver moves on, out of it only when its buffer is not in the queue. -/
theorem Inv.setPc (h : s.Inv q) (hb : s.pc b ≠ .outside) {p : Pc} (hin : b ∈ q → p ≠ .outside)
    (hout : b ∉ q → p ≠ .sleeping) : (s.setPc b p).Inv q := by
  have hpc : ∀ c, (s.setPc b p).pc c ≠ .outside → s.pc c ≠ .outside := by
    intro c hc
    by_cases hcb : c = b
    · rw [hcb]
      exact hb
    · rwa [setPc_pc_of_ne hcb] at hc
  constructor
  · constructor
    · exact h.chain
    · exact h.nodup
    · intro c hc
      refine ⟨?_, (h.waiting c hc).2⟩
      by_cases hcb : c = b
      · subst hcb
        rw [setPc_pc_self]
        exact hin hc
      · rw [setPc_pc_of_ne hcb]
        exact (h.waiting c hc).1
    · intro c hc hmem
      refine ⟨?_, (h.served c (hpc c hc) hmem).2⟩
      by_cases hcb : c = b
      · subst hcb
        have hp := hout hmem
        rw [setPc_pc_self] at hc ⊢
        cases p <;> simp_all
      · rw [setPc_pc_of_ne hcb]
        exact (h.served c (hpc c hc) hmem).1
    · exact fun c d hc hd => h.distinct c d (hpc c hc) (hpc d hd)
    · exact h.queued
    · exact h.old
    · exact h.once
  · have hworks := h.works
    cases q with
    | nil => exact hworks
    | cons c q => exact hworks
  · exact h.started

lemma Inv.wake (h : s.Inv q) (hb : s.pc b = .sleeping) : (s.setPc b .woken).Inv q := by
  have hne : s.pc b ≠ .outside := by simp [hb]
  exact h.setPc hne (fun _ => nofun) fun _ => nofun

lemma Inv.wait (h : s.Inv q) (hb : s.pc b = .woken) : (s.wait b).Inv q := by
  have hne : s.pc b ≠ .outside := by simp [hb]
  apply h.setPc hne
  · intro hmem
    simp [(h.waiting b hmem).2]
  · intro hmem
    simp [(h.served b hne hmem).2.1]

/-! ### The queue -/

omit [DecidableEq B] in
/-- The last buffer of the queue is found, or `&idequeue` if it is empty. -/
theorem findEnd_eq {n : ℕ} {pp : Option B} (h : Chain s.qnext (s.deref pp) q) (hn : q.length < n) :
    s.findEnd n pp = some (q.getLast?.or pp) := by
  induction q generalizing n pp with
  | nil =>
    obtain ⟨m, rfl⟩ : ∃ m, n = m + 1 := ⟨n - 1, by omega⟩
    simp [findEnd, Chain.nil_iff.mp h]
  | cons c q ih =>
    obtain ⟨m, rfl⟩ : ∃ m, n = m + 1 := ⟨n - 1, by omega⟩
    obtain ⟨hc, hq⟩ := Chain.cons_iff.mp h
    simp only [List.length_cons, Nat.add_lt_add_iff_right] at hn
    have hend : s.findEnd m (some c) = some (q.getLast?.or (some c)) := ih hq hn
    simp only [findEnd, hc, hend, List.getLast?_cons]
    cases q.getLast? <;> rfl

/-- The buffer is linked behind the last one. -/
lemma append_eq [Fintype B] (h : Chain s.qnext s.idequeue q) (hq : q.Nodup) (hb : b ∉ q) :
    ∃ next p, s.append b = some { s with qnext := next, idequeue := p } ∧
      Chain next p (q ++ [b]) ∧ (p = some b ↔ q = []) := by
  have hlength : q.length < Fintype.card B + 1 := Nat.lt_succ_of_le hq.length_le_card
  have hcut : Chain (Function.update s.qnext b none) s.idequeue q := by
    apply h.congr
    intro c hc
    exact Function.update_of_ne (fun heq : c = b => hb (heq ▸ hc)) _ _
  have hend : findEnd { s with qnext := Function.update s.qnext b none } (Fintype.card B + 1) none
      = some (q.getLast?.or none) := findEnd_eq hcut hlength
  rcases List.eq_nil_or_concat q with rfl | ⟨l, c, rfl⟩
  · refine ⟨Function.update s.qnext b none, some b, ?_, ⟨rfl, ?_⟩, by simp⟩
    · simp only [append, hend]
      rfl
    · exact Function.update_self _ _ _
  · simp only [List.concat_eq_append] at *
    have hbc : b ≠ c := fun heq => hb (by simp [heq])
    have hbl : b ∉ l := fun hmem => hb (List.mem_append_left _ hmem)
    have hcl : c ∉ l := by
      rw [← List.concat_eq_append, List.nodup_concat] at hq
      exact hq.1
    refine ⟨Function.update (Function.update s.qnext b none) c (some b), s.idequeue, ?_, ?_, ?_⟩
    · simp only [append, hend]
      simp [assign]
    · rw [List.append_assoc]
      apply hcut.append
      · intro d hd
        exact Function.update_of_ne (fun heq : d = c => hcl (heq ▸ hd)) _ _
      · rw [Function.update_self]
        refine ⟨rfl, ?_⟩
        rw [Function.update_of_ne hbc, Function.update_self]
        rfl
    · -- The first buffer is another one.
      have hhead : s.idequeue ≠ some b := by
        intro heq
        obtain ⟨l', hl', -⟩ := (heq ▸ h).of_some
        exact hb (hl' ▸ List.mem_cons_self)
      simp [hhead]

/-- `b` is put at the end of the queue, and its process goes to sleep. -/
theorem Waits.enqueue (h : s.Waits q) (hb : s.pc b = .outside) (hclean : ¬ (s.buf b).Clean)
    (hkey : ∀ c, s.pc c ≠ .outside → (s.buf c).key ≠ (s.buf b).key) {next : B → Option B} {p : Option B}
    (hchain : Chain next p (q ++ [b])) :
    Waits { s with
      calls := Function.update s.calls b (s.calls b + 1)
      queued := s.queued ++ [(b, s.calls b + 1)]
      qnext := next
      idequeue := p
      pc := Function.update s.pc b .sleeping } (q ++ [b]) := by
  have hmem : b ∉ q := h.not_mem hb
  have hne : ∀ c ∈ q, c ≠ b := fun c hc heq => hmem (heq ▸ hc)
  have hcalls : ∀ c, s.calls c ≤ Function.update s.calls b (s.calls b + 1) c := by
    intro c
    by_cases hcb : c = b
    · rw [hcb, Function.update_self]
      omega
    · rw [Function.update_of_ne hcb]
  constructor
  · exact hchain
  · exact List.nodup_append.mpr ⟨h.nodup, List.nodup_singleton b, by simpa using hne⟩
  · intro c hc
    by_cases hcb : c = b
    · subst hcb
      simpa using hclean
    · have hcq : c ∈ q := by simpa [hcb] using hc
      simpa [Function.update_of_ne hcb] using h.waiting c hcq
  · intro c hc hcq
    simp only [List.mem_append, List.mem_singleton, not_or] at hcq
    simp only [Function.update_of_ne hcq.2, call] at hc ⊢
    exact h.served c hc hcq.1
  · intro c d hc hd hcd
    by_cases hcb : c = b
    · subst hcb
      simp only [Function.update_of_ne hcd.symm] at hd
      exact (hkey d hd).symm
    · simp only [Function.update_of_ne hcb] at hc
      by_cases hdb : d = b
      · subst hdb
        exact hkey c hc
      · simp only [Function.update_of_ne hdb] at hd
        exact h.distinct c d hc hd hcd
  -- the calls of those who wait are counted as before
  · have hmap : ∀ c ∈ q, (c, Function.update s.calls b (s.calls b + 1) c) = s.call c := by
      intro c hc
      rw [Function.update_of_ne (hne c hc)]
      rfl
    have hcalls' : q.map (fun c => (c, Function.update s.calls b (s.calls b + 1) c)) = q.map s.call :=
      List.map_congr_left hmap
    calc s.queued ++ [(b, s.calls b + 1)]
      _ = s.completed ++ (q.map s.call ++ [(b, s.calls b + 1)]) := by rw [h.queued, List.append_assoc]
      _ = _ := by
        rw [← hcalls', List.map_append, List.map_singleton]
        simp [call]
  · intro r hr
    rcases List.mem_append.mp hr with hr | hr
    · exact (h.old r hr).trans (hcalls r.1)
    · rw [List.mem_singleton.mp hr]
      simp
  -- nobody has queued this call yet
  · have hnew : ∀ r ∈ s.queued, r ≠ (b, s.calls b + 1) := by
      intro r hr heq
      have hold := h.old r hr
      rw [heq] at hold
      simp only at hold
      omega
    exact List.nodup_append.mpr ⟨h.once, List.nodup_singleton _, by simpa using hnew⟩

/-- The first buffer is taken off the queue. -/
lemma Waits.complete (h : s.Waits (b :: q)) {data : β} (hdata : data = s.disk (s.buf b).key)
    (hsent : ∀ v, (s.buf b).sent = some v → s.disk (s.buf b).key = v) :
    (s.complete b data).Waits q := by
  obtain ⟨hbq, hq⟩ := List.nodup_cons.mp h.nodup
  have hne : ∀ c ∈ q, c ≠ b := fun c hc heq => hbq (heq ▸ hc)
  have hbuf : ∀ c, c ≠ b → (s.complete b data).buf c = s.buf c := fun c hc => Function.update_of_ne hc _ _
  have hpc : ∀ c, c ≠ b → (s.complete b data).pc c = s.pc c := fun c hc => Function.update_of_ne hc _ _
  have hin : ∀ c, (s.complete b data).pc c ≠ .outside → s.pc c ≠ .outside := by
    intro c hc
    -- the request at the head has been served, the others stay as they were
    by_cases hcb : c = b
    · exact hcb ▸ (h.waiting b List.mem_cons_self).1
    · rwa [hpc c hcb] at hc
  have hkey : ∀ c, ((s.complete b data).buf c).key = (s.buf c).key := by
    intro c
    by_cases hcb : c = b
    · rw [hcb]
      simp [State.complete, Buf.key]
    · rw [hbuf c hcb]
  constructor
  · exact (Chain.cons_iff.mp h.chain).2
  · exact hq
  · intro c hc
    rw [hbuf c (hne c hc), hpc c (hne c hc)]
    exact h.waiting c (List.mem_cons_of_mem b hc)
  · intro c hc hcq
    by_cases hcb : c = b
    · subst hcb
      refine ⟨?_, ?_, ?_, ?_⟩
      · have hpc' := (h.waiting c List.mem_cons_self).1
        cases hpc' : s.pc c <;> simp_all [State.complete]
      · simp [State.complete, Buf.Clean]
      · rw [hkey c]
        by_cases hdirty : (s.buf c).dirty
        · have hdisk := hsent (s.buf c).data (by simp [Buf.sent, hdirty])
          simp [State.complete, hdirty, hdisk]
        · simp [State.complete, hdirty, hdata]
      · exact List.mem_append_right _ List.mem_cons_self
    · have hold := h.served c (hin c hc) (by simp [hcb, hcq])
      rw [hbuf c hcb, hpc c hcb]
      exact ⟨hold.1, hold.2.1, hold.2.2.1, List.mem_append_left _ hold.2.2.2⟩
  · intro c d hc hd hcd
    rw [hkey c, hkey d]
    exact h.distinct c d (hin c hc) (hin d hd) hcd
  · have hqueued := h.queued
    simp only [List.map_cons] at hqueued
    simp only [State.complete, hqueued, List.append_assoc, List.singleton_append]
    rfl
  · exact h.old
  · exact h.once

/-! ### The disk -/

omit [DecidableEq B] in
/-- What the disk is told. -/
lemma idestart_eq_some (h : s.idestart b = some t) :
    { s with
      drive := .busy (s.buf b).key.1 (s.buf b).key.2 (s.buf b).sent
      started := s.started ++ [s.call b] } = t := by
  by_cases hblockno : FSSIZE ≤ (s.buf b).blockno
  · simp [idestart, hblockno] at h
  · have hlt := Nat.lt_of_not_le hblockno
    cases hdrive : s.drive <;>
      simp only [idestart, hblockno, ↓reduceIte, hdrive, disk_regs, sector_regs _ hlt,
        Option.some.injEq, reduceCtorEq] at h
    · exact h
    · exact h

omit [DecidableEq B] in
/-- The head of the queue goes to the disk. -/
lemma Inv.of_idestart (h : s.Waits (b :: q)) (hs : s.started = s.completed)
    (ht : s.idestart b = some t) : t.Inv (b :: q) := by
  obtain rfl := idestart_eq_some ht
  constructor
  · exact ⟨h.chain, h.nodup, h.waiting, h.served, h.distinct, h.queued, h.old, h.once⟩
  · exact .inl rfl
  · simp only [hs, List.map_cons, List.take_succ_cons, List.take_zero]
    rfl

omit [DecidableEq B] in
/-- The disk is done with the first buffer of the queue. -/
lemma Inv.finish (h : s.Inv q) (ht : s.finish = some t) : t.Inv q ∧ t.pc = s.pc := by
  have hworks := h.works
  cases q with
  | nil =>
    have hidle : s.drive = .idle := hworks
    simp [State.finish, hidle] at ht
  | cons b q =>
    rcases hworks with hbusy | hready
    · simp only [State.finish, hbusy] at ht
      cases hsent : (s.buf b).sent with
      | none =>
        simp only [hsent, Option.some.injEq] at ht
        subst ht
        refine ⟨⟨?_, .inr ⟨rfl, ?_⟩, h.started⟩, rfl⟩
        · exact ⟨h.chain, h.nodup, h.waiting, h.served, h.distinct, h.queued, h.old, h.once⟩
        · simp [hsent]
      | some v =>
        simp only [hsent, Option.some.injEq] at ht
        subst ht
        refine ⟨⟨?_, .inr ⟨?_, ?_⟩, h.started⟩, rfl⟩
        · -- The other buffers in the driver are of other blocks.
          refine ⟨h.chain, h.nodup, h.waiting, ?_, h.distinct, h.queued, h.old, h.once⟩
          intro c hc hcq
          have hb := (h.waiting b List.mem_cons_self).1
          have hne : c ≠ b := fun heq => hcq (heq ▸ List.mem_cons_self)
          have hkey := h.distinct c b hc hb hne
          simp only [Function.update_of_ne hkey]
          exact h.served c hc hcq
        · simp
        · simp [hsent]
    · simp [State.finish, hready.1] at ht

/-- An interrupt takes nobody out of `iderw`. -/
lemma complete_pc (hb : s.pc b ≠ .outside) (data : β) (hc : (s.complete b data).pc c = .outside) :
    s.pc c = .outside := by
  by_cases hcb : c = b
  · subst hcb
    cases hpc : s.pc c <;> simp_all [State.complete]
  · rwa [show (s.complete b data).pc c = s.pc c from Function.update_of_ne hcb _ _] at hc

/-- The interrupt takes the first buffer off the queue, and starts the disk on the next one. -/
theorem Inv.ideintr (h : s.Inv q) (ht : s.ideintr = some t) :
    t.Inv q.tail ∧ ∀ c, t.pc c = .outside → s.pc c = .outside := by
  have hworks := h.works
  cases q with
  | nil =>
    have hidle : s.drive = .idle := hworks
    simp [State.ideintr, hidle] at ht
  | cons b q =>
    rcases hworks with hbusy | ⟨hready, hsent⟩
    · simp [State.ideintr, hbusy] at ht
    · obtain ⟨hhead, hchain⟩ := Chain.cons_iff.mp h.chain
      have hb := (h.waiting b List.mem_cons_self).1
      have hwaits := h.toWaits.complete rfl hsent
      have hs : (s.complete b (s.disk (s.buf b).key)).started
          = (s.complete b (s.disk (s.buf b).key)).completed := by
        have hstarted := h.started
        simpa [State.complete, call] using hstarted
      simp only [State.ideintr, hready, hhead] at ht
      cases q with
      | nil =>
        have hnone : (s.complete b (s.disk (s.buf b).key)).idequeue = none := Chain.nil_iff.mp hchain
        simp only [hnone, Option.some.injEq] at ht
        subst ht
        exact ⟨⟨hwaits, rfl, by simpa using hs⟩, fun c => complete_pc hb _⟩
      | cons c q =>
        have hsome : (s.complete b (s.disk (s.buf b).key)).idequeue = some c := (Chain.cons_iff.mp hchain).1
        simp only [hsome] at ht
        refine ⟨Inv.of_idestart hwaits hs ht, ?_⟩
        obtain rfl := idestart_eq_some ht
        intro d hd
        exact complete_pc hb (s.disk (s.buf b).key) hd

/-- Starting the disk and going to sleep do not depend on each other. -/
lemma idestart_wait (s : State B β) (b : B) :
    (s.idestart b).map (fun s => s.wait b) = (s.wait b).idestart b := by
  by_cases hblockno : FSSIZE ≤ (s.buf b).blockno
  · simp [idestart, State.wait, State.setPc, hblockno]
  · cases hdrive : s.drive <;> simp [idestart, State.wait, State.setPc, hblockno, hdrive]

/-- A call of `iderw` puts the buffer at the end of the queue, and starts the disk if it was empty. -/
theorem Inv.iderw [Fintype B] (h : s.Inv q) (hb : s.pc b = .outside)
    (hkey : ∀ c, s.pc c ≠ .outside → (s.buf c).key ≠ (s.buf b).key) (ht : s.iderw b = some t) :
    t.Inv (q ++ [b]) ∧ t.pc = Function.update s.pc b .sleeping := by
  by_cases hclean : (s.buf b).Clean
  · simp [State.iderw, hclean] at ht
  by_cases hdisk : (s.buf b).dev ≠ 0 ∧ s.havedisk1 = false
  · simp [State.iderw, hclean, hdisk] at ht
  obtain ⟨next, p, happend, hchain, hfirst⟩ := append_eq
    (s := { s with
      calls := Function.update s.calls b (s.calls b + 1)
      queued := s.queued ++ [(b, s.calls b + 1)] }) h.chain h.nodup (h.not_mem hb)
  have hwaits := h.toWaits.enqueue hb hclean hkey hchain
  simp only [State.iderw, hclean, hdisk, ↓reduceIte, happend, Option.bind_some] at ht
  cases q with
  | nil =>
    simp only [hfirst.mpr rfl, ↓reduceIte, idestart_wait] at ht
    simp only [State.wait, hclean, ↓reduceIte, State.setPc] at ht
    have hstarted : s.started = s.completed := by simpa using h.started
    obtain rfl := hfirst.mpr rfl
    refine ⟨Inv.of_idestart hwaits hstarted ht, ?_⟩
    obtain rfl := idestart_eq_some ht
    rfl
  | cons c q =>
    have hne : p ≠ some b := by simp [hfirst]
    simp only [hne, ↓reduceIte, Option.map_some, Option.some.injEq, State.wait, hclean, State.setPc] at ht
    obtain rfl := ht
    have hcb : c ≠ b := by
      rintro rfl
      exact h.not_mem hb List.mem_cons_self
    refine ⟨⟨hwaits, h.works, ?_⟩, rfl⟩
    have hstarted := h.started
    simp only [List.map_cons, List.take_succ_cons, List.take_zero] at hstarted
    simp only [List.cons_append, List.map_cons, List.take_succ_cons, List.take_zero, call,
      Function.update_of_ne hcb]
    exact hstarted

end State

/-! ## Runs -/

variable {s t : State B β} {q : List B}

/-- A step that takes nobody out of `iderw` is no return. -/
lemma not_returns {a : Act B β} {b : B} (hpc : t.pc b = .outside → s.pc b = .outside)
    (ha : a = .iderw b → t.pc b ≠ .outside) : ¬ Returns s a t b := by
  intro h
  rcases h.2 with hb | hb
  · exact hb (hpc h.1)
  · exact ha hb h.1

/-- **Step lemma.** -/
theorem inv_step [DecidableEq B] [Fintype B] (h : s.Inv q) (a : Act B β) (ht : step s a = some t) :
    (∃ q', t.Inv q') ∧ ∀ b, Returns s a t b → t.Served b := by
  cases a with
  | change c x =>
    simp only [step, Option.ite_none_right_eq_some, Option.some.injEq] at ht
    obtain ⟨hc, rfl⟩ := ht
    exact ⟨⟨q, h.change hc x⟩, fun b hb => absurd hb (not_returns id nofun)⟩
  | iderw c =>
    simp only [step, Option.ite_none_right_eq_some] at ht
    obtain ⟨⟨hc, hkey⟩, ht⟩ := ht
    obtain ⟨hinv, hpc⟩ := h.iderw hc hkey ht
    refine ⟨⟨q ++ [c], hinv⟩, fun b hb => absurd hb (not_returns ?_ ?_)⟩
    · rw [hpc]
      by_cases hbc : b = c
      · rw [hbc, Function.update_self]
        nofun
      · rw [Function.update_of_ne hbc]
        exact id
    · intro heq
      cases heq
      rw [hpc, Function.update_self]
      nofun
  -- only `resume` can be a return
  | finish =>
    obtain ⟨hinv, hpc⟩ := h.finish ht
    exact ⟨⟨q, hinv⟩, fun b hb => absurd hb (not_returns (by rw [hpc]; exact id) nofun)⟩
  | ideintr =>
    obtain ⟨hinv, hpc⟩ := h.ideintr ht
    exact ⟨⟨q.tail, hinv⟩, fun b hb => absurd hb (not_returns (hpc b) nofun)⟩
  | wake c =>
    simp only [step, Option.ite_none_right_eq_some, Option.some.injEq] at ht
    obtain ⟨hc, rfl⟩ := ht
    refine ⟨⟨q, h.wake hc⟩, fun b hb => absurd hb (not_returns ?_ nofun)⟩
    by_cases hbc : b = c
    · rw [hbc, State.setPc_pc_self]
      nofun
    · rw [State.setPc_pc_of_ne hbc]
      exact id
  | resume c =>
    simp only [step, Option.ite_none_right_eq_some, Option.some.injEq] at ht
    obtain ⟨hc, rfl⟩ := ht
    refine ⟨⟨q, h.wait hc⟩, ?_⟩
    intro b hb
    by_cases hbc : b = c
    · subst hbc
      have hne : s.pc b ≠ .outside := by simp [hc]
      apply h.served_wait hne
      -- a buffer still in the queue would be dirty or invalid
      intro hmem
      have hout := hb.1
      simp [State.wait, (h.waiting b hmem).2] at hout
    · have hpc : (s.wait c).pc b = s.pc b := State.setPc_pc_of_ne hbc
      exact absurd hb (not_returns (by rw [hpc]; exact id) nofun)

/-- In every run the requests are served in order and each of them once, and a call returns when its request
has been served. -/
theorem serves_run [DecidableEq B] [Fintype B] (buf : B → Buf β) (havedisk1 : Bool) (disk : ℕ × ℕ → β)
    (as : List (Act B β)) :
    Runs.Along step (fun s a => ∀ t, step s a = some t → t.Serves ∧ ∀ b, Returns s a t b → t.Served b)
      (boot buf havedisk1 disk) as := by
  apply Runs.along_of_invariant (I := fun s : State B β => ∃ q, s.Inv q)
  · rintro s a ⟨q, h⟩ t ht
    obtain ⟨⟨q', h'⟩, hreturns⟩ := inv_step h a ht
    exact ⟨h'.serves, hreturns⟩
  · rintro s a t ⟨q, h⟩ ht
    exact (inv_step h a ht).1
  · exact ⟨[], State.inv_boot buf havedisk1 disk⟩

end Ide
end OhMyXv6
