import OhMyXv6.Kernel.Sysfile
import OhMyXv6.Lib.Runs

/-!
# The kernel as a system

Two views of the system calls. In `call` a system call runs to its end before the next one
starts. In `Sys` each process is somewhere inside its system call, and an action lets one
process take its next step, so that a run is an interleaving.
-/

namespace OhMyXv6
namespace Kernel

/-! ## One call after the other -/

/-- The process exists. -/
def State.Live (s : State) (p : ℕ) : Prop := p < NPROC ∧ (s.proc p).live = true

instance (s : State) (p : ℕ) : Decidable (s.Live p) := instDecidableAnd

/-- The state after a whole system call; `none` when it does not return. -/
def call (s : State) (c : ℕ × Call) : Option State :=
  if s.Live c.1 then
    match (syscall c.1 c.2).exec s with
    | .done _ t => some t
    | .wait => none
    | .stop _ => none
  else none

lemma call_eq_some {s t : State} {c : ℕ × Call} (h : call s c = some t) :
    s.Live c.1 ∧ ∃ r, (syscall c.1 c.2).exec s = .done r t := by
  unfold call at h
  split at h
  · next hlive =>
    refine ⟨hlive, ?_⟩
    cases hx : (syscall c.1 c.2).exec s with
    | done r u =>
      rw [hx] at h
      exact ⟨r, by rw [Option.some.inj h]⟩
    | wait =>
      rw [hx] at h
      cases h
    | stop e =>
      rw [hx] at h
      cases h
  · cases h

/-- The state when the kernel has started on a disk: `userinit` has made the first process, whose
current directory is the root. -/
def boot (d : Disk) : State where
  sb := .read (d 1)
  disk := d
  icache := fun k => ⟨if k = 0 then ROOTINO else 0, if k = 0 then 1 else 0, none, false, .zero⟩
  ftable := fun _ => ⟨.FD_NONE, 0, false, false, 0, 0, 0⟩
  proc := fun p => ⟨p = 0, fun _ => none, 0⟩
  pipe := fun _ => none
  outstanding := 0
  lh := []
  inOp := []

/-! ## Steps of many processes -/

/-- The state, and for each process that is in a system call what is left of it. -/
structure Sys where
  st : State
  prog : ℕ → Option (M Ret)

/-- What may happen next. -/
inductive Act where
  /-- A process enters a system call. -/
  | enter (p : ℕ) (c : Call)
  /-- A process takes its next step, or returns from its system call. -/
  | step (p : ℕ)

namespace Sys

/-- Process `p` goes on with another program, or returns. -/
def setProg (S : Sys) (p : ℕ) (x : Option (M Ret)) : Sys :=
  { S with prog := Function.update S.prog p x }

/-- One action; `none` when the process cannot take it. A process that panics takes no step. -/
def next (S : Sys) : Act → Option Sys
  | .enter p c =>
    match S.prog p with
    | some _ => none
    | none => if S.st.Live p then some (S.setProg p (some (syscall p c))) else none
  | .step p =>
    match S.prog p with
    | none => none
    | some (.ret _) => some (S.setProg p none)
    | some (.step _ f k) =>
      match f S.st with
      | .done b t => some ({ S with st := t }.setProg p (some (k b)))
      -- a process that waits does not move
      | .wait => none
      | .stop _ => none

/-- The label of the next step of a process. -/
def label (S : Sys) (p : ℕ) : Option Label :=
  match S.prog p with
  | some (.step l _ _) => some l
  | _ => none

/-- The message that the next step of a process panics with. -/
def panics (S : Sys) (p : ℕ) : Option Panic :=
  match S.prog p with
  | some (.step _ f _) =>
    match f S.st with
    | .stop e => some e
    | _ => none
  | _ => none

/-- A process that enters a call was in none. -/
lemma next_enter {S T : Sys} {p : ℕ} {c : Call} (h : S.next (.enter p c) = some T) :
    S.prog p = none ∧ T = S.setProg p (some (syscall p c)) := by
  have hnext : S.next (.enter p c) = match S.prog p with
    | some _ => none
    | none => if S.st.Live p then some (S.setProg p (some (syscall p c))) else none := rfl
  rw [hnext] at h
  cases hp : S.prog p with
  | some x =>
    rw [hp] at h
    cases h
  | none =>
    rw [hp] at h
    by_cases hlive : S.st.Live p
    · rw [if_pos hlive] at h
      exact ⟨rfl, (Option.some.inj h).symm⟩
    · rw [if_neg hlive] at h
      cases h

/-- A process returns from its system call, or its next step is done. -/
theorem next_step {S T : Sys} {p : ℕ} (h : S.next (.step p) = some T) :
    (∃ r, S.prog p = some (.ret r) ∧ T = S.setProg p none) ∨
    ∃ (β : Type) (l : Label) (f : State → Out State Panic β) (k : β → M Ret) (b : β) (t : State),
      S.prog p = some (.step l f k) ∧ f S.st = .done b t ∧
        T = { S with st := t }.setProg p (some (k b)) := by
  have hnext : S.next (.step p) = match S.prog p with
    | none => none
    | some (.ret _) => some (S.setProg p none)
    | some (.step _ f k) =>
      match f S.st with
      | .done b t => some ({ S with st := t }.setProg p (some (k b)))
      | .wait => none
      | .stop _ => none := rfl
  rw [hnext] at h
  cases hp : S.prog p with
  | none =>
    rw [hp] at h
    cases h
  | some x =>
    rw [hp] at h
    cases x with
    | ret r => exact .inl ⟨r, rfl, (Option.some.inj h).symm⟩
    | step l f k =>
      dsimp only at h
      cases hf : f S.st with
      | done b t =>
        rw [hf] at h
        exact .inr ⟨_, l, f, k, b, t, rfl, hf, (Option.some.inj h).symm⟩
      | wait =>
        rw [hf] at h
        cases h
      | stop e =>
        rw [hf] at h
        cases h

/-- No process is in a system call. -/
structure Idle (S : Sys) : Prop where
  prog : ∀ p, S.prog p = none
  outstanding : S.st.outstanding = 0
  inOp : S.st.inOp = []

end Sys

/-! ## A small file system

The directories `/`, `/a` and `/a/b` on a disk of 64 blocks, and three processes, each with one of
them as its current directory. The witnesses and counterexamples start from here. -/

namespace Demo

/-- A small disk. -/
def sb : Superblock := ⟨64, 5, 8, 30, 2, 32, 58⟩

/-- The inode of a directory with a single block. -/
def dir (nlink size addr : ℕ) : Dinode :=
  ⟨T_DIR, 0, 0, nlink, size, fun k => if k = 0 then addr else 0⟩

/-- `"a"` -/
def nameA : List UInt8 := [97]

/-- `"b"` -/
def nameB : List UInt8 := [98]

/-- The superblock, the bitmap and the blocks of the three directories. -/
def blocks : Disk := fun b =>
  if b = 1 then sb.byte
  else if b = 58 then fun i => if i < 7 then 0xff else if i = 7 then 0x3f else 0
  else if b = 59 then Bytes.ofList (dirBytes [(dot, 1), (dotdot, 1), (nameA, 2)])
  else if b = 60 then Bytes.ofList (dirBytes [(dot, 2), (dotdot, 1), (nameB, 3)])
  else if b = 61 then Bytes.ofList (dirBytes [(dot, 3), (dotdot, 2)])
  else zeroBlock

/-- The root directory. -/
def root : Dinode := dir 2 48 59

/-- The directory `/a`. -/
def a : Dinode := dir 2 48 60

/-- The directory `/a/b`. -/
def b : Dinode := dir 1 32 61

/-- The disk with these three directories. -/
def disk : Disk := setDinode sb (setDinode sb (setDinode sb blocks 1 root) 2 a) 3 b

/-- Each of them has a valid entry in the cache. -/
def icache (k : ℕ) : Inode :=
  if k = 0 then ⟨1, 1, none, true, root⟩
  else if k = 1 then ⟨3, 1, none, true, b⟩
  else if k = 2 then ⟨2, 1, none, true, a⟩
  else ⟨0, 0, none, false, .zero⟩

/-- Three processes, with no file open. -/
def state : State where
  sb := sb
  disk := disk
  icache := icache
  ftable := fun _ => ⟨.FD_NONE, 0, false, false, 0, 0, 0⟩
  proc := fun p => ⟨p < 3, fun _ => none, p⟩
  pipe := fun _ => none
  outstanding := 0
  lh := []
  inOp := []

/-- No system call is running. -/
def sys : Sys := ⟨state, fun _ => none⟩

lemma sys_idle : sys.Idle := ⟨fun _ => rfl, rfl, rfl⟩

/-- The path `/a`. -/
def pathA : List UInt8 := slash :: nameA

/-- The path `/a/b`. -/
def pathAB : List UInt8 := pathA ++ slash :: nameB

/-- Process `p` makes a system call and takes its next `n` steps. -/
def acts (p : ℕ) (c : Call) (n : ℕ) : List Act := .enter p c :: List.replicate n (.step p)

end Demo

end Kernel
end OhMyXv6
