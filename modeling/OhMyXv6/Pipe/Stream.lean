import OhMyXv6.Lib.Ring
import OhMyXv6.Pipe.Step

/-!
# A pipe is a stream

The bytes in the pipe lie in its buffer as a ring. A reader that copies bytes out of it holds the lock, so what
was stored is what was returned, what the holder of the lock has copied so far, and what is still there.
-/

namespace OhMyXv6
namespace Pipe

/-! ## The lock -/

/-- A process is inside the lock exactly if it is the one the lock names. -/
def Mutex (pc : ℕ → Pc) (lock : Option ℕ) : Prop := ∀ q, (pc q).Holds = true ↔ lock = some q

namespace Mutex

variable {pc : ℕ → Pc} {lock : Option ℕ} {p : ℕ} {x : Pc}

/-- The process goes on under the lock, or without it. -/
lemma goto (h : Mutex pc lock) (hx : x.Holds = (pc p).Holds) :
    Mutex (Function.update pc p x) lock := by
  intro q
  by_cases hq : q = p
  · subst hq
    rw [Function.update_self, hx]
    exact h q
  · rw [Function.update_of_ne hq]
    exact h q

lemma acquire (h : Mutex pc none) (hx : x.Holds = true) :
    Mutex (Function.update pc p x) (some p) := by
  intro q
  by_cases hq : q = p
  · subst hq
    simp [hx]
  · have hout := h q
    simp only [reduceCtorEq, iff_false] at hout
    rw [Function.update_of_ne hq]
    simp [hout, Ne.symm hq]

lemma release (h : Mutex pc lock) (hp : (pc p).Holds = true) (hx : x.Holds = false) :
    Mutex (Function.update pc p x) none := by
  have hlock := (h p).mp hp
  intro q
  by_cases hq : q = p
  · subst hq
    simp [hx]
  · have hout := h q
    rw [hlock] at hout
    rw [Function.update_of_ne hq]
    simp [hout, Ne.symm hq]

/-- Waking up concerns nobody who has the lock. -/
lemma wakeup (h : Mutex pc lock) (chan : Chan) : Mutex (fun q => (pc q).wake chan) lock := by
  intro q
  rw [Pc.holds_wake]
  exact h q

/-- Two processes inside the lock are one. -/
lemma eq_of_holds (h : Mutex pc lock) {q : ℕ} (hp : (pc p).Holds = true) (hq : (pc q).Holds = true) :
    q = p := by
  have h1 := (h p).mp hp
  have h2 := (h q).mp hq
  rw [h1] at h2
  exact (Option.some.inj h2).symm

end Mutex

section
variable {s t : St} {a : Act} {p : ℕ}

lemma mutex_next (h : Mutex s.pc s.lock) (hn : Next s p t) : Mutex t.pc t.lock := by
  -- a process that was woken is where it was
  have hwake : ∀ (chan : Chan) (x y : Pc), s.pc p = y → x.Holds = y.Holds →
      Mutex (Function.update (fun q => (s.pc q).wake chan) p x) s.lock := by
    intro chan x y hpc hx
    apply (h.wakeup chan).goto
    rw [Pc.holds_wake, hpc, hx]
  cases hn with
  | writeAcquire hpc hlock => exact (hlock ▸ h).acquire rfl
  | writeEnd hpc => exact h.goto (by rw [hpc]; rfl)
  | writeStop hpc => exact h.goto (by rw [hpc]; rfl)
  | writeFull hpc => exact h.goto (by rw [hpc]; rfl)
  | store hpc => exact h.goto (by rw [hpc]; rfl)
  | writeNotify hpc => exact hwake _ _ _ hpc rfl
  | writeSleep hpc => exact h.release (by rw [hpc]; rfl) rfl
  | writeFail hpc => exact h.release (by rw [hpc]; rfl) rfl
  | writeWakeup hpc => exact hwake _ _ _ hpc rfl
  | writeDone hpc => exact h.release (by rw [hpc]; rfl) rfl
  | readAcquire hpc hlock => exact (hlock ▸ h).acquire rfl
  | readStop hpc => exact h.goto (by rw [hpc]; rfl)
  | readEmpty hpc => exact h.goto (by rw [hpc]; rfl)
  | readStart hpc => exact h.goto (by rw [hpc]; rfl)
  | readSleep hpc => exact h.release (by rw [hpc]; rfl) rfl
  | readFail hpc => exact h.release (by rw [hpc]; rfl) rfl
  | readEnd hpc => exact h.goto (by rw [hpc]; rfl)
  | take hpc => exact h.goto (by rw [hpc]; rfl)
  | readWakeup hpc => exact hwake _ _ _ hpc rfl
  | readDone hpc => exact h.release (by rw [hpc]; rfl) rfl
  | closeAcquire hpc hlock => exact (hlock ▸ h).acquire rfl
  | closeWrite hpc => exact h.goto (by rw [hpc]; rfl)
  | closeRead hpc => exact h.goto (by rw [hpc]; rfl)
  | closeWakeup hpc => exact hwake _ _ _ hpc rfl
  | closeDone hpc => exact h.release (by rw [hpc]; rfl) rfl

lemma mutex_step (h : Mutex s.pc s.lock) (hs : Step s a t) : Mutex t.pc t.lock := by
  cases hs with
  | read hpc => exact h.goto (by rw [hpc]; rfl)
  | write hpc => exact h.goto (by rw [hpc]; rfl)
  | closeLast hpc => exact h.goto (by rw [hpc]; rfl)
  | close => exact h
  | dup => exact h
  | next hn => exact mutex_next h hn
  | kill => exact h.goto (by rw [Pc.holds_wake, Pc.holds_wake])

end

/-! ## The ring -/

/-- The bytes that the holder of the lock has copied out of the pipe. -/
def St.held (s : St) : List UInt8 :=
  match s.lock with
  | some q => (s.pc q).got
  | none => []

/-- The bytes in the pipe, as `piperead` would find them. -/
def St.buffered (s : St) : List UInt8 :=
  (List.range (s.nwrite - s.nread).toNat).map fun i => s.data ((s.nread + i.toUInt32) % PIPESIZE).toNat

/-- The cell of a counter; the counters wrap at a multiple of 512. -/
lemma cell_eq (x : UInt32) : (x % PIPESIZE).toNat = x.toNat % 512 := UInt32.toNat_mod x PIPESIZE

/-- The counters may wrap around: the size of the ring divides `2 ^ 32`. -/
theorem toNat_add_mod (x : UInt32) (n : ℕ) : (x + n.toUInt32).toNat % 512 = (x.toNat + n) % 512 := by
  have hadd : (x + n.toUInt32).toNat = (x.toNat + n) % 2 ^ 32 := by simp [UInt32.toNat_add]
  omega

/-- The list lies in the ring between the two counters. -/
structure Queue (s : St) (L : List UInt8) : Prop where
  ring : Ring.Holds 512 s.data s.nread.toNat L
  len : L.length ≤ 512
  nwrite : s.nwrite = s.nread + L.length.toUInt32

namespace Queue

variable {s t : St} {L : List UInt8}

/-- The distance of the counters is the number of bytes. -/
lemma sub_eq (h : Queue s L) : (s.nwrite - s.nread).toNat = L.length := by
  have hlen := h.len
  rw [h.nwrite, UInt32.add_comm, UInt32.add_sub_cancel]
  simp
  omega

/-- The cells between the counters are the bytes. -/
lemma buffered_eq (h : Queue s L) : s.buffered = L := by
  unfold St.buffered
  rw [h.sub_eq, h.ring.eq_map]
  simp only [cell_eq, toNat_add_mod, List.length_map, List.length_range]

/-- The pipe is full at 512 bytes. -/
lemma full_iff (h : Queue s L) : s.Full ↔ L.length = 512 := by
  have hlen := h.len
  unfold St.Full
  rw [h.nwrite, UInt32.add_right_inj, ← UInt32.toNat_inj]
  have h512 : PIPESIZE.toNat = 512 := rfl
  simp [h512]
  omega

lemma empty_iff (h : Queue s L) : s.Empty ↔ L = [] := by
  have hlen := h.len
  unfold St.Empty
  rw [h.nwrite, ← UInt32.toNat_inj]
  constructor
  · intro heq
    apply List.eq_nil_of_length_eq_zero
    simp [UInt32.toNat_add] at heq
    omega
  · rintro rfl
    simp

/-- The ring and the counters are all that counts. -/
lemma congr (h : Queue s L) (hdata : t.data = s.data) (hread : t.nread = s.nread)
    (hwrite : t.nwrite = s.nwrite) : Queue t L := by
  refine ⟨?_, h.len, ?_⟩
  · rw [hdata, hread]
    exact h.ring
  · rw [hwrite, hread]
    exact h.nwrite

lemma store (h : Queue s L) (hroom : ¬ s.Full) (c : UInt8) : Queue (s.store c) (L ++ [c]) := by
  have hlen := h.len
  rw [h.full_iff] at hroom
  have hcell : (s.nwrite % PIPESIZE).toNat = (s.nread.toNat + L.length) % 512 := by
    rw [cell_eq, h.nwrite, toNat_add_mod]
  refine ⟨?_, ?_, ?_⟩
  · unfold St.store
    dsimp only
    rw [hcell]
    exact h.ring.snoc (by omega) c
  · rw [List.length_append, List.length_singleton]
    omega
  · show s.nwrite + 1 = s.nread + _
    rw [h.nwrite, UInt32.add_assoc, List.length_append, List.length_singleton]
    congr 1
    rw [← UInt32.toNat_inj]
    simp [UInt32.toNat_add]

lemma front_eq {c : UInt8} (h : Queue s (c :: L)) : s.front = c := by
  have hcell := h.ring 0 (by simp)
  unfold St.front
  rw [cell_eq]
  simpa using hcell.symm

lemma take {c : UInt8} (h : Queue s (c :: L)) : Queue { s with nread := s.nread + 1 } L := by
  have hlen := h.len
  rw [List.length_cons] at hlen
  refine ⟨?_, by omega, ?_⟩
  · have hrest : Ring.Holds 512 s.data (s.nread.toNat + 1) L :=
      Ring.Holds.of_append_right (L := [c]) h.ring
    intro i hi
    have hmod := toNat_add_mod (s.nread + 1) i
    have hmod' := toNat_add_mod s.nread 1
    have hone : (1 : ℕ).toUInt32 = 1 := rfl
    rw [hone] at hmod'
    have hcell : (s.nread.toNat + 1 + i) % 512 = ((s.nread + 1).toNat + i) % 512 := by omega
    rw [hrest i hi, hcell]
  · show s.nwrite = s.nread + 1 + _
    rw [h.nwrite, UInt32.add_assoc, List.length_cons]
    congr 1
    rw [← UInt32.toNat_inj]
    simp [UInt32.toNat_add]
    omega

end Queue

/-! ## The invariant -/

/-- What was stored is what was returned, what is being returned, and what is in the pipe. -/
structure Stream (s : St) : Prop where
  mutex : Mutex s.pc s.lock
  bytes : ∃ L, Queue s L ∧ s.stored = s.returned ++ s.held ++ L

section
variable {s t : St} {a : Act} {p : ℕ}

/-- The holder of the lock. -/
lemma held_at {y : Pc} (h : Mutex s.pc s.lock) (hpc : s.pc p = y) (hy : y.Holds = true) :
    s.held = y.got := by
  have hlock := (h p).mp (by rw [hpc, hy])
  unfold St.held
  rw [hlock]
  exact congrArg Pc.got hpc

/-- Without the lock nobody has bytes on their way. -/
lemma held_eq_nil (h : s.lock = none) : s.held = [] := by
  unfold St.held
  rw [h]

/-- The ring and the history are the same. -/
structure Same (s t : St) : Prop where
  data : t.data = s.data
  nread : t.nread = s.nread
  nwrite : t.nwrite = s.nwrite
  stored : t.stored = s.stored
  returned : t.returned = s.returned

lemma Stream.quiet (h : Stream s) (hmutex : Mutex t.pc t.lock) (hsame : Same s t)
    (hheld : t.held = s.held) : Stream t := by
  obtain ⟨L, hq, hbytes⟩ := h.bytes
  refine ⟨hmutex, L, hq.congr hsame.data hsame.nread hsame.nwrite, ?_⟩
  rw [hsame.stored, hsame.returned, hheld, hbytes]

variable {x y : Pc}

/-- The holder of the lock goes on with the bytes it has. -/
lemma Stream.inside (h : Stream s) (hmutex : Mutex t.pc t.lock) (hsame : Same s t)
    (hpc : s.pc p = y) (hpc' : t.pc p = x) (hy : y.Holds = true) (hx : x.Holds = true)
    (hgot : x.got = y.got) : Stream t := by
  apply h.quiet hmutex hsame
  rw [held_at h.mutex hpc hy, held_at hmutex hpc' hx, hgot]

/-- The lock is acquired, or released without bytes. -/
lemma Stream.enter (h : Stream s) (hmutex : Mutex t.pc t.lock) (hsame : Same s t)
    (hlock : s.lock = none) (hpc : t.pc p = x) (hx : x.Holds = true) (hgot : x.got = []) :
    Stream t := by
  apply h.quiet hmutex hsame
  rw [held_eq_nil hlock, held_at hmutex hpc hx, hgot]

lemma Stream.leave (h : Stream s) (hmutex : Mutex t.pc t.lock) (hsame : Same s t)
    (hlock : t.lock = none) (hpc : s.pc p = y) (hy : y.Holds = true) (hgot : y.got = []) :
    Stream t := by
  apply h.quiet hmutex hsame
  rw [held_eq_nil hlock, held_at h.mutex hpc hy, hgot]

lemma stream_next (h : Stream s) (hn : Next s p t) : Stream t := by
  have hmutex := mutex_next h.mutex hn
  have hself : ∀ (pc : ℕ → Pc) (x : Pc), Function.update pc p x p = x := fun pc x =>
    Function.update_self p x pc
  cases hn with
  | writeAcquire hpc hlock =>
    exact h.enter hmutex ⟨rfl, rfl, rfl, rfl, rfl⟩ hlock (hself _ _) rfl rfl
  | writeEnd hpc => exact h.inside hmutex ⟨rfl, rfl, rfl, rfl, rfl⟩ hpc (hself _ _) rfl rfl rfl
  | writeStop hpc => exact h.inside hmutex ⟨rfl, rfl, rfl, rfl, rfl⟩ hpc (hself _ _) rfl rfl rfl
  | writeFull hpc => exact h.inside hmutex ⟨rfl, rfl, rfl, rfl, rfl⟩ hpc (hself _ _) rfl rfl rfl
  | @store c addr hpc hroom =>
    -- one more byte behind those in the pipe
    obtain ⟨L, hq, hbytes⟩ := h.bytes
    have hheld : s.held = [] := held_at h.mutex hpc rfl
    have hheld' : ((s.store c).goto p (.writeLoop addr)).held = [] :=
      held_at hmutex (hself s.pc (.writeLoop addr)) rfl
    refine ⟨hmutex, L ++ [c], (hq.store hroom c).congr rfl rfl rfl, ?_⟩
    show s.stored ++ [c] = s.returned ++ _ ++ _
    rw [hheld', hbytes, hheld]
    simp
  | writeNotify hpc => exact h.inside hmutex ⟨rfl, rfl, rfl, rfl, rfl⟩ hpc (hself _ _) rfl rfl rfl
  | writeSleep hpc => exact h.leave hmutex ⟨rfl, rfl, rfl, rfl, rfl⟩ rfl hpc rfl rfl
  | writeFail hpc => exact h.leave hmutex ⟨rfl, rfl, rfl, rfl, rfl⟩ rfl hpc rfl rfl
  | writeWakeup hpc => exact h.inside hmutex ⟨rfl, rfl, rfl, rfl, rfl⟩ hpc (hself _ _) rfl rfl rfl
  | writeDone hpc => exact h.leave hmutex ⟨rfl, rfl, rfl, rfl, rfl⟩ rfl hpc rfl rfl
  | readAcquire hpc hlock =>
    exact h.enter hmutex ⟨rfl, rfl, rfl, rfl, rfl⟩ hlock (hself _ _) rfl rfl
  | readStop hpc => exact h.inside hmutex ⟨rfl, rfl, rfl, rfl, rfl⟩ hpc (hself _ _) rfl rfl rfl
  | readEmpty hpc => exact h.inside hmutex ⟨rfl, rfl, rfl, rfl, rfl⟩ hpc (hself _ _) rfl rfl rfl
  | readStart hpc => exact h.inside hmutex ⟨rfl, rfl, rfl, rfl, rfl⟩ hpc (hself _ _) rfl rfl rfl
  | readSleep hpc => exact h.leave hmutex ⟨rfl, rfl, rfl, rfl, rfl⟩ rfl hpc rfl rfl
  | readFail hpc => exact h.leave hmutex ⟨rfl, rfl, rfl, rfl, rfl⟩ rfl hpc rfl rfl
  | readEnd hpc => exact h.inside hmutex ⟨rfl, rfl, rfl, rfl, rfl⟩ hpc (hself _ _) rfl rfl rfl
  | @take n got hpc hgo =>
    -- the first byte of the pipe goes to the reader
    obtain ⟨L, hq, hbytes⟩ := h.bytes
    rw [not_or, hq.empty_iff] at hgo
    obtain ⟨c, L, rfl⟩ := List.exists_cons_of_ne_nil hgo.2
    have hheld : s.held = got := held_at h.mutex hpc rfl
    have hfront := hq.front_eq
    have hheld' : ({ s with nread := s.nread + 1 }.goto p (.readLoop n (got ++ [s.front]))).held
        = got ++ [c] := by
      rw [← hfront]
      exact held_at hmutex (hself s.pc (.readLoop n (got ++ [s.front]))) rfl
    refine ⟨hmutex, L, hq.take.congr rfl rfl rfl, ?_⟩
    show s.stored = s.returned ++ _ ++ _
    rw [hheld', hbytes, hheld]
    simp
  | readWakeup hpc => exact h.inside hmutex ⟨rfl, rfl, rfl, rfl, rfl⟩ hpc (hself _ _) rfl rfl rfl
  | @readDone got hpc =>
    obtain ⟨L, hq, hbytes⟩ := h.bytes
    have hheld : s.held = got := held_at h.mutex hpc rfl
    refine ⟨hmutex, L, hq.congr rfl rfl rfl, ?_⟩
    show s.stored = s.returned ++ got ++ [] ++ L
    rw [hbytes, hheld, List.append_nil]
  | closeAcquire hpc hlock =>
    exact h.enter hmutex ⟨rfl, rfl, rfl, rfl, rfl⟩ hlock (hself _ _) rfl rfl
  | closeWrite hpc => exact h.inside hmutex ⟨rfl, rfl, rfl, rfl, rfl⟩ hpc (hself _ _) rfl rfl rfl
  | closeRead hpc => exact h.inside hmutex ⟨rfl, rfl, rfl, rfl, rfl⟩ hpc (hself _ _) rfl rfl rfl
  | closeWakeup hpc => exact h.inside hmutex ⟨rfl, rfl, rfl, rfl, rfl⟩ hpc (hself _ _) rfl rfl rfl
  | closeDone hpc => exact h.leave hmutex ⟨rfl, rfl, rfl, rfl, rfl⟩ rfl hpc rfl rfl

/-- A process that does not hold the lock is moved. -/
lemma held_update (hgot : x.got = (s.pc p).got) {killed : ℕ → Bool} {refs : Bool → List ℕ} :
    { s with pc := Function.update s.pc p x, killed := killed, refs := refs }.held = s.held := by
  unfold St.held
  dsimp only
  split
  · next q hq =>
    by_cases hqp : q = p
    · rw [hqp, Function.update_self, hgot]
    · rw [Function.update_of_ne hqp]
  · rfl

lemma stream_step (h : Stream s) (hs : Step s a t) : Stream t := by
  have hmutex := mutex_step h.mutex hs
  cases hs with
  | read hpc =>
    apply h.quiet hmutex ⟨rfl, rfl, rfl, rfl, rfl⟩
    exact held_update (by rw [hpc]; rfl)
  | write hpc =>
    apply h.quiet hmutex ⟨rfl, rfl, rfl, rfl, rfl⟩
    exact held_update (by rw [hpc]; rfl)
  | closeLast hpc =>
    apply h.quiet hmutex ⟨rfl, rfl, rfl, rfl, rfl⟩
    exact held_update (by rw [hpc]; rfl)
  | close => exact h.quiet hmutex ⟨rfl, rfl, rfl, rfl, rfl⟩ rfl
  | dup => exact h.quiet hmutex ⟨rfl, rfl, rfl, rfl, rfl⟩ rfl
  | next hn => exact stream_next h hn
  | kill =>
    apply h.quiet hmutex ⟨rfl, rfl, rfl, rfl, rfl⟩
    exact held_update (by rw [Pc.got_wake, Pc.got_wake])

lemma stream_pipealloc (p : ℕ) (data : ℕ → UInt8) : Stream (pipealloc p data) := by
  refine ⟨?_, [], ⟨Ring.holds_nil, Nat.zero_le _, rfl⟩, rfl⟩
  intro q
  simp [pipealloc, Pc.Holds]

/-- **A pipe is a lossless byte stream.** However the steps of its readers and writers are mixed, and
however often the counters have wrapped around, it has at most `PIPESIZE` bytes; and while nobody holds
its lock, the bytes that were returned and the bytes in it are the bytes that were stored, in this order. -/
theorem pipe_stream {p : ℕ} {data : ℕ → UInt8} {as : List Act} {s : St}
    (hrun : Runs.run St.step (pipealloc p data) as = some s) :
    s.nwrite - s.nread ≤ PIPESIZE ∧ (s.lock = none → s.returned ++ s.buffered = s.stored) := by
  have hstream : Stream s :=
    Runs.invariant (fun s a t hs ht => stream_step hs (step_cases ht)) (stream_pipealloc p data) hrun
  obtain ⟨L, hq, hbytes⟩ := hstream.bytes
  constructor
  · rw [UInt32.le_iff_toNat_le, hq.sub_eq]
    exact hq.len
  · intro hlock
    rw [hq.buffered_eq, hbytes, held_eq_nil hlock, List.append_nil]

end

/-- Two bytes are written and one is read. -/
def shortRun : List Act :=
  [.write 0 [7, 8]] ++ List.replicate 6 (.step 0) ++ [.read 0 1] ++ List.replicate 6 (.step 0)

theorem pipe_stream_shortRun : ∃ s, Runs.run St.step (pipealloc 0 fun _ => 0) shortRun = some s ∧
    s.returned = [7] ∧ s.buffered = [8] ∧ s.returned ++ s.buffered = s.stored := by
  have hany : (Runs.run St.step (pipealloc 0 fun _ => 0) shortRun).any (fun s =>
      s.lock = none ∧ s.returned = [7] ∧ s.buffered = [8]) = true := by
    decide +kernel
  obtain ⟨s, hs, hend⟩ := (Option.any_eq_true _ _).mp hany
  obtain ⟨hlock, hreturned, hbuffered⟩ := of_decide_eq_true hend
  exact ⟨s, hs, hreturned, hbuffered, (pipe_stream hs).2 hlock⟩

end Pipe
end OhMyXv6
