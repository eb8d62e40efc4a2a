import OhMyXv6.Kernel.Read
import OhMyXv6.Kernel.System

/-!
# The device table

`fileread`, `filewrite` and `fileioctl` look at a file to find out what it is, and go to a device
through `devsw`, by the major number of its inode. Here they are up to that point, as programs whose
steps are labelled with what they use. An index outside of the table finds whatever lies there in
memory, `mem`.
-/

namespace OhMyXv6
namespace Kernel

/-- What a step uses: nothing to speak of, the inode of file `f`, or an entry of `devsw`. -/
inductive Use where
  | other
  | ip (f : ℕ)
  | devsw (major : ℤ)
deriving DecidableEq

/-- A use, in the state in which it is made, is right. -/
def Use.Ok (u : Use × State) : Prop :=
  match u.1 with
  | .other => True
  | .ip f => (u.2.ftable f).type = .FD_INODE
  | .devsw major => 0 ≤ major ∧ major < NDEV

/-- `struct devsw`: which of the functions are set. -/
structure Devsw where
  read : Bool
  write : Bool
  ioctl : Bool

/-- `file.h`: the major number of the console. -/
def CONSOLE : ℤ := 1

/-- `file.h`: the major number of the display. -/
def DISPLAY : ℤ := 2

/-- `devsw[major]` after `consoleinit` and `displayinit`. -/
def devsw (mem : ℤ → Devsw) (major : ℤ) : Devsw :=
  if major < 0 ∨ NDEV ≤ major then mem major
  else if major = CONSOLE then ⟨true, true, true⟩
  else if major = DISPLAY then ⟨false, true, true⟩
  else ⟨false, false, false⟩

/-- The value of a `short`. -/
def short (n : ℕ) : ℤ := (n : ℤ).bmod (2 ^ 16)

/-- Where a call goes on: it is refused, or goes to a pipe, to the function of a device, or to the
inode of the file. -/
inductive Target where
  | refused
  | pipe (pg : ℕ)
  | device (major : ℤ)
  | inode (ip : ℕ)
deriving DecidableEq

/-! ## The dispatchers -/

/-- A dispatcher, whose steps say which part of the device table they use. -/
abbrev Dispatch := Prog State Panic Use

namespace Dispatch

section
variable {α : Type} (mem : ℤ → Devsw)

/-- Look at the state. -/
def get (g : State → α) : Dispatch α := .act .other fun s => .done (g s) s

/-- A field of `f->ip`. -/
def useIp (f : ℕ) (g : Inode → α) : Dispatch α :=
  .act (.ip f) fun s => .done (g (s.icache (s.ftable f).ip)) s

/-- Look at an entry of the device table. -/
def useDevsw (major : ℤ) : Dispatch Devsw := .act (.devsw major) fun s => .done (devsw mem major) s

/-- The call of `devsw[f->ip->major].read` and the like. -/
def callDevice (f : ℕ) : Dispatch Target := do
  let major ← useIp f fun x => short x.din.major
  let _ ← useDevsw mem major
  return .device major

/-- `fileioctl`. -/
def fileioctl (f : ℕ) : Dispatch Target := do
  let major ← useIp f fun x => short x.din.major
  let d ← useDevsw mem major
  if d.ioctl then callDevice mem f
  else
    -- `cprintf` of the device and its numbers
    let _ ← useIp f fun x => x.din
    return .refused

/-- The branch of `fileread` and `filewrite` for a device; `has` is the function that is asked for. -/
def device (f : ℕ) (has : Devsw → Bool) : Dispatch Target := do
  let major ← useIp f fun x => short x.din.major
  if major < 0 ∨ NDEV ≤ major then return .refused
  else
    let d ← useDevsw mem major
    if has d then callDevice mem f else return .refused

/-- `fileread` and `filewrite`: `allowed` is the permission they look at, `e` the message they panic
with. -/
def file (f : ℕ) (allowed : File → Bool) (has : Devsw → Bool) (e : Panic) : Dispatch Target := do
  let x ← get fun s => s.ftable f
  if ¬ allowed x then return .refused
  else
    match x.type with
    -- `panic("fileread")` and its like: an entry that is not open
    | .FD_NONE => .act .other fun _ => .stop e
    | .FD_PIPE => return .pipe x.pipe
    | .FD_INODE =>
      let type ← useIp f fun x => x.din.type
      if type = T_DEV then device mem f has
      else
        let _ ← useIp f fun x => x.lock
        return .inode x.ip

/-- Where `fileread` sends a call. -/
def fileread (f : ℕ) : Dispatch Target := file mem f (fun x => x.readable) (fun d => d.read) .fileread

/-- Where `filewrite` sends a call. -/
def filewrite (f : ℕ) : Dispatch Target :=
  file mem f (fun x => x.writable) (fun d => d.write) .filewrite

end

end Dispatch

/-! ## They are the beginnings of the system calls -/

section
variable {mem : ℤ → Devsw} {s : State} {p f n : ℕ} {ext : Ret}

/-- The test of `major` against `NDEV`, with the number as a `short`. -/
lemma short_range {n : ℕ} (h : n < 2 ^ 16) : short n < 0 ∨ NDEV ≤ short n ↔ NDEV ≤ n := by
  have hN : NDEV = 10 := rfl
  unfold short
  rw [Int.bmod_def, hN]
  split
  · omega
  · omega

section
variable {α β : Type}

lemma exec_dispatchGet {g : State → α} {k : α → Dispatch β} :
    Prog.exec (Dispatch.get g >>= k) s = Prog.exec (k (g s)) s := rfl

lemma exec_useIp {g : Inode → α} {k : α → Dispatch β} :
    Prog.exec (Dispatch.useIp f g >>= k) s = Prog.exec (k (g (s.icache (s.ftable f).ip))) s := rfl

lemma exec_useDevsw {major : ℤ} {k : Devsw → Dispatch β} :
    Prog.exec (Dispatch.useDevsw mem major >>= k) s = Prog.exec (k (devsw mem major)) s := rfl

end

/-- What a dispatcher that has come to `r` says about the call that it begins. -/
def Begins (s : State) (r : Target) (call : Ret → M Ret) (rest : ℕ → M Ret) : Prop :=
  match r with
  | .refused => Prog.exec (call failed) s = .done failed s
  | .pipe _ => ∀ ext, Prog.exec (call ext) s = .done ext s
  | .device _ => ∀ ext, Prog.exec (call ext) s = .done ext s
  | .inode ip => ∀ ext, Prog.exec (call ext) s = Prog.exec (rest ip) s

/-- A device that fails makes the call fail. -/
lemma devAnswer_failed (major : ℕ) : devAnswer major failed = failed := by
  unfold devAnswer
  split
  · rfl
  · rfl

/-- The branch for a device agrees with `devAnswer`. -/
lemma exec_device {has : Devsw → Bool} (hmajor : (s.icache (s.ftable f).ip).din.major < 2 ^ 16)
    {r : Target} {t : State} (h : Prog.exec (Dispatch.device mem f has) s = .done r t) : t = s ∧
      (r = .refused ∨ (∃ major, r = .device major) ∧
        ∀ ext, devAnswer (s.icache (s.ftable f).ip).din.major ext = ext) := by
  have hrange := short_range hmajor
  unfold Dispatch.device at h
  rw [exec_useIp] at h
  by_cases hbad : short (s.icache (s.ftable f).ip).din.major < 0 ∨
      NDEV ≤ short (s.icache (s.ftable f).ip).din.major
  · rw [if_pos hbad] at h
    obtain ⟨rfl, rfl⟩ := Out.done.inj h
    exact ⟨rfl, .inl rfl⟩
  · rw [if_neg hbad, exec_useDevsw] at h
    have hanswer : ∀ ext, devAnswer (s.icache (s.ftable f).ip).din.major ext = ext :=
      fun ext => if_neg fun hle => hbad (hrange.mpr hle)
    split at h
    · unfold Dispatch.callDevice at h
      rw [exec_useIp, exec_useDevsw] at h
      obtain ⟨rfl, rfl⟩ := Out.done.inj h
      exact ⟨rfl, .inr ⟨⟨_, rfl⟩, hanswer⟩⟩
    · obtain ⟨rfl, rfl⟩ := Out.done.inj h
      exact ⟨rfl, .inl rfl⟩

/-- What both calls have in common. -/
lemma file_begins {allowed : File → Bool} {has : Devsw → Bool} {e : Panic} {call : Ret → M Ret}
    {rest : ℕ → M Ret} (hmajor : (s.icache (s.ftable f).ip).din.major < 2 ^ 16)
    (hcall : ∀ ext, Prog.exec (call ext) s =
      if ¬ allowed (s.ftable f) then .done failed s
      else match (s.ftable f).type with
        | .FD_NONE => .stop e
        | .FD_PIPE => .done ext s
        | .FD_INODE =>
          if (s.icache (s.ftable f).ip).din.type = T_DEV then
            .done (devAnswer (s.icache (s.ftable f).ip).din.major ext) s
          else Prog.exec (rest (s.ftable f).ip) s)
    {r : Target} {t : State} (h : Prog.exec (Dispatch.file mem f allowed has e) s = .done r t) :
    t = s ∧ Begins s r call rest := by
  unfold Dispatch.file at h
  rw [exec_dispatchGet] at h
  by_cases hallowed : ¬ allowed (s.ftable f)
  · rw [if_pos hallowed] at h
    obtain ⟨rfl, rfl⟩ := Out.done.inj h
    refine ⟨rfl, ?_⟩
    show Prog.exec (call failed) s = _
    rw [hcall, if_pos hallowed]
  rw [if_neg hallowed] at h
  cases htype : (s.ftable f).type with
  | FD_NONE =>
    rw [htype] at h
    cases h
  | FD_PIPE =>
    rw [htype] at h
    obtain ⟨rfl, rfl⟩ := Out.done.inj h
    refine ⟨rfl, fun ext => ?_⟩
    rw [hcall, if_neg hallowed, htype]
  | FD_INODE =>
    rw [htype] at h
    dsimp only at h
    rw [exec_useIp] at h
    by_cases hdev : (s.icache (s.ftable f).ip).din.type = T_DEV
    · rw [if_pos hdev] at h
      -- a device answers by its major number
      have hcall' : ∀ ext, Prog.exec (call ext) s
          = .done (devAnswer (s.icache (s.ftable f).ip).din.major ext) s := by
        intro ext
        rw [hcall, if_neg hallowed, htype]
        exact if_pos hdev
      obtain ⟨rfl, rfl | ⟨⟨major, rfl⟩, hanswer⟩⟩ := exec_device hmajor h
      · refine ⟨rfl, ?_⟩
        show Prog.exec (call failed) _ = _
        rw [hcall', devAnswer_failed]
      · refine ⟨rfl, fun ext => ?_⟩
        rw [hcall', hanswer]
    · rw [if_neg hdev, exec_useIp] at h
      obtain ⟨rfl, rfl⟩ := Out.done.inj h
      refine ⟨rfl, fun ext => ?_⟩
      rw [hcall, if_neg hallowed, htype]
      exact if_neg hdev

/-- What `fileread` does is what its dispatch says it begins with. -/
lemma fileread_begins (hmajor : (s.icache (s.ftable f).ip).din.major < 2 ^ 16) {r : Target}
    {t : State} (h : Prog.exec (Dispatch.fileread mem f) s = .done r t) : t = s ∧
      Begins s r (fileread p f n) fun ip => ilock p ip >>= fun _ => filereadInode f ip n := by
  refine file_begins hmajor (fun ext => ?_) h
  unfold fileread
  rw [exec_get]
  split
  · rfl
  · cases (s.ftable f).type with
    | FD_NONE => rfl
    | FD_PIPE => rfl
    | FD_INODE =>
      dsimp only
      rw [exec_get]
      split
      · rfl
      · rfl

/-- What `filewrite` does is what its dispatch says it begins with. -/
lemma filewrite_begins (hmajor : (s.icache (s.ftable f).ip).din.major < 2 ^ 16)
    {src : List UInt8} {r : Target} {t : State}
    (h : Prog.exec (Dispatch.filewrite mem f) s = .done r t) : t = s ∧
      Begins s r (filewrite p f src) fun ip => do
        let all ← filewriteLoop p f ip src.length src
        return if all then (src.length, []) else failed := by
  refine file_begins hmajor (fun ext => ?_) h
  unfold filewrite
  rw [exec_get]
  split
  · rfl
  · cases (s.ftable f).type with
    | FD_NONE => rfl
    | FD_PIPE => rfl
    | FD_INODE =>
      dsimp only
      rw [exec_get]
      split
      · rfl
      · rfl

/-! ## What they use -/

lemma trace_useIp {α β : Type} {g : Inode → α} {k : α → Dispatch β} :
    Prog.trace (Dispatch.useIp f g >>= k) s
      = (.ip f, s) :: Prog.trace (k (g (s.icache (s.ftable f).ip))) s := rfl

lemma trace_useDevsw {β : Type} {major : ℤ} {k : Devsw → Dispatch β} :
    Prog.trace (Dispatch.useDevsw mem major >>= k) s
      = (.devsw major, s) :: Prog.trace (k (devsw mem major)) s := rfl

lemma trace_dispatchGet {α β : Type} {g : State → α} {k : α → Dispatch β} :
    Prog.trace (Dispatch.get g >>= k) s = (.other, s) :: Prog.trace (k (g s)) s := rfl

/-- All uses of a dispatcher that runs from `s` are right. -/
def Safe (x : Dispatch Target) (s : State) : Prop := ∀ u ∈ Prog.trace x s, Use.Ok u

/-- The file is that of an inode whose major number is in the table. -/
def InTable (s : State) (f : ℕ) : Prop :=
  (s.ftable f).type = .FD_INODE ∧ 0 ≤ short (s.icache (s.ftable f).ip).din.major ∧
    short (s.icache (s.ftable f).ip).din.major < NDEV

/-- A device is called safely exactly when its number is in the table. -/
lemma safe_callDevice : Safe (Dispatch.callDevice mem f) s ↔ InTable s f := by
  unfold Safe Dispatch.callDevice
  rw [trace_useIp, trace_useDevsw, List.forall_mem_cons, List.forall_mem_cons]
  exact ⟨fun h => ⟨h.1, h.2.1⟩, fun h => ⟨h.1, h.2, nofun⟩⟩

/-- `fileioctl` looks at nothing before it goes to the table. -/
lemma safe_fileioctl : Safe (Dispatch.fileioctl mem f) s ↔ InTable s f := by
  unfold Safe Dispatch.fileioctl
  rw [trace_useIp, trace_useDevsw, List.forall_mem_cons, List.forall_mem_cons]
  constructor
  · exact fun h => ⟨h.1, h.2.1⟩
  · intro h
    refine ⟨h.1, h.2, ?_⟩
    split
    · exact safe_callDevice.mpr h
    · intro u hu
      obtain rfl := List.mem_singleton.mp hu
      exact h.1

/-- A file of an inode uses no entry behind the table. -/
lemma safe_device {has : Devsw → Bool} (htype : (s.ftable f).type = .FD_INODE) :
    Safe (Dispatch.device mem f has) s := by
  unfold Safe Dispatch.device
  rw [trace_useIp, List.forall_mem_cons]
  refine ⟨htype, ?_⟩
  split
  · exact nofun
  · next hrange =>
    have htable : InTable s f := ⟨htype, by omega, by omega⟩
    rw [trace_useDevsw, List.forall_mem_cons]
    refine ⟨htable.2, ?_⟩
    split
    · exact safe_callDevice.mpr htable
    · exact nofun

/-- `fileread` and `filewrite` test all that they rely on. -/
lemma safe_file {allowed : File → Bool} {has : Devsw → Bool} {e : Panic} :
    Safe (Dispatch.file mem f allowed has e) s := by
  unfold Safe Dispatch.file
  rw [trace_dispatchGet, List.forall_mem_cons]
  refine ⟨trivial, ?_⟩
  split
  · exact nofun
  · cases htype : (s.ftable f).type with
    | FD_NONE =>
      intro u hu
      obtain rfl := List.mem_singleton.mp hu
      trivial
    | FD_PIPE => exact nofun
    | FD_INODE =>
      dsimp only
      rw [trace_useIp, List.forall_mem_cons]
      refine ⟨htype, ?_⟩
      split
      · exact safe_device htype
      · intro u hu
        obtain rfl := List.mem_singleton.mp hu
        exact htype

end

/-! ## Whole runs -/

/-- A system call of process `p`, with `ioctl` beside those of the file system. -/
inductive Request where
  | call (p : ℕ) (c : Call)
  | ioctl (p fd : ℕ) (param value : ℤ)

/-- The file of a descriptor. -/
def State.file (s : State) (p fd : ℕ) : Option ℕ :=
  if NOFILE ≤ fd then none else (s.proc p).ofile fd

/-- The state after a request. What `ioctl` does to a device is no part of it. -/
def State.serve (s : State) : Request → Option State
  | .call p c => call s (p, c)
  | .ioctl p _ _ _ => if s.Live p then some s else none

/-- The dispatcher that a request comes to, if it has a file to read from, to write to or to
control. -/
def Request.dispatch (mem : ℤ → Devsw) (s : State) : Request → Option (Dispatch Target)
  | .call p (.read fd (some _) _) => (s.file p fd).map (Dispatch.fileread mem)
  | .call p (.write fd (some _) _) => (s.file p fd).map (Dispatch.filewrite mem)
  | .ioctl p fd _ _ => (s.file p fd).map (Dispatch.fileioctl mem)
  | _ => none

/-- All that a request uses on its way is right. -/
def Dispatches (mem : ℤ → Devsw) (s : State) (r : Request) : Prop :=
  ∀ x, r.dispatch mem s = some x → Safe x s

/-- An `ioctl` is on the file of an inode whose major number is in the table. -/
def Controls (s : State) : Request → Prop
  | .call _ _ => True
  | .ioctl p fd _ _ => ∀ f ∈ s.file p fd, InTable s f

instance (s : State) (f : ℕ) : Decidable (InTable s f) := instDecidableAnd

instance (s : State) (r : Request) : Decidable (Controls s r) :=
  match r with
  | .call _ _ => .isTrue trivial
  | .ioctl p fd _ _ => inferInstanceAs (Decidable (∀ f ∈ s.file p fd, InTable s f))

/-- A request is served as it should exactly when it is none of the `ioctl`s that test nothing. -/
lemma dispatches_iff {mem : ℤ → Devsw} {s : State} {r : Request} :
    Dispatches mem s r ↔ Controls s r := by
  unfold Dispatches
  cases r with
  | call p c =>
    refine ⟨fun _ => trivial, fun _ x hx => ?_⟩
    cases c with
    | read fd n ext =>
      cases n with
      | none => cases hx
      | some n =>
        obtain ⟨f, -, rfl⟩ := Option.map_eq_some_iff.mp hx
        exact safe_file
    | write fd src ext =>
      cases src with
      | none => cases hx
      | some src =>
        obtain ⟨f, -, rfl⟩ := Option.map_eq_some_iff.mp hx
        exact safe_file
    | _ => cases hx
  | ioctl p fd param value =>
    constructor
    · intro h f hf
      refine safe_fileioctl.mp (h (Dispatch.fileioctl mem f) ?_)
      exact Option.map_eq_some_iff.mpr ⟨f, hf, rfl⟩
    · intro h x hx
      obtain ⟨f, hf, rfl⟩ := Option.map_eq_some_iff.mp hx
      exact safe_fileioctl.mpr (h f hf)

/-- **Which `ioctl`s stay in the device table.** From any state, all requests of a run use the inode
of an inode's file only, and the entries of the table only, exactly if every `ioctl` of the run is on
the file of an inode whose major number is in the table. -/
theorem dispatches_run_iff (mem : ℤ → Devsw) (s : State) (rs : List Request) :
    Runs.Along State.serve (Dispatches mem) s rs ↔ Runs.Along State.serve Controls s rs := by
  constructor
  · exact Runs.Along.mono fun _ _ h => dispatches_iff.mp h
  · exact Runs.Along.mono fun _ _ h => dispatches_iff.mpr h

/-- Zeros behind the table. -/
def Demo.mem : ℤ → Devsw := fun _ => ⟨false, false, false⟩

/-- An `ioctl` on the end of a pipe. -/
def Demo.pipeIoctl : List Request := [.call 0 (.pipe true (some 7)), .ioctl 0 0 1 3]

theorem not_dispatches_pipeIoctl :
    ¬ Runs.Along State.serve (Dispatches Demo.mem) (boot Demo.disk) Demo.pipeIoctl := by
  intro hall
  have hcontrols : Runs.Along State.serve Controls (boot Demo.disk) Demo.pipeIoctl :=
    Runs.Along.mono (fun _ _ h => dispatches_iff.mp h) hall
  exact absurd hcontrols (by decide +kernel)

end Kernel
end OhMyXv6
