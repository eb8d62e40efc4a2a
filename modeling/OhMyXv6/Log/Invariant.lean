import Mathlib.Data.List.Perm.Subperm
import OhMyXv6.Log.Step

/-!
# The invariant behind crash atomicity

The specification is a list of block modifications replayed over the disk the machine first
booted with. `durable` replays those of the operations whose group commit has its header on
the disk, `volatile` those of the current group as well.

The crash invariant `Recoverable` is about the disk alone: wherever the machine stops, the
blocks the header lists have their committed contents in the log, and every other home block
has them in place. `Inv` adds to it what the kernel knows while it runs, or while
`recover_from_log` does. This module states the invariant and proves the parts of it that are
about bookkeeping: the history variables, which processes run or commit, and the buffers.

The buffers bound the log. A listed block stays dirty until it is installed, so a list of `NBUF`
blocks leaves `write_log` no buffer for its first copy, and a commit that gets past that copy
has fewer than `NBUF` blocks to write.
-/

namespace OhMyXv6
namespace Log

variable {P β : Type}

/-! ## Replaying modifications -/

/-- The blocks after a list of modifications. -/
def replay (d : ℕ → β) (us : List (Update β)) : ℕ → β :=
  us.foldl (fun d u => Function.update d u.blk u.data) d

@[simp] lemma replay_nil (d : ℕ → β) : replay d [] = d := rfl

/-- Two histories, one after the other. -/
lemma replay_append (d : ℕ → β) (us vs : List (Update β)) :
    replay d (us ++ vs) = replay (replay d us) vs := by
  rw [replay, replay, replay, List.foldl_append]

/-- A block that no modification names keeps its contents. -/
lemma replay_of_notMem {d : ℕ → β} {us : List (Update β)} {b : ℕ}
    (h : ∀ u ∈ us, u.blk ≠ b) : replay d us b = d b := by
  induction us generalizing d with
  | nil => rfl
  | cons u us ih =>
    rw [replay, List.foldl_cons]
    rw [← replay, ih fun w hw => h w (List.mem_cons_of_mem _ hw)]
    exact Function.update_of_ne (h u List.mem_cons_self).symm _ _

lemma replay_concat_self (d : ℕ → β) (us : List (Update β)) (o b : ℕ) (v : β) :
    replay d (us ++ [⟨o, b, v⟩]) b = v := by
  rw [replay_append]
  exact Function.update_self _ _ _

lemma replay_concat_ne (d : ℕ → β) (us : List (Update β)) (o : ℕ) {b c : ℕ} (v : β)
    (h : c ≠ b) : replay d (us ++ [⟨o, b, v⟩]) c = replay d us c := by
  rw [replay_append]
  exact Function.update_of_ne h _ _

/-- The modifications made by the operations whose group is committed. -/
def State.committedUpdates (s : State P β) : List (Update β) :=
  s.hist.filter fun u => u.op ∈ s.committed

/-- The home blocks the committed groups have reached. -/
def durable (d₀ : ℕ → β) (s : State P β) : ℕ → β := replay d₀ s.committedUpdates

/-- The home blocks as the running operations see them. -/
def volatile (d₀ : ℕ → β) (s : State P β) : ℕ → β := replay (durable d₀ s) s.pend

/-! ## The invariant -/

/-- The crash invariant: recovery of this disk yields the home blocks `C`. -/
structure Recoverable (L : Area) (C : ℕ → β) (d : Disk β) : Prop where
  /-- The blocks listed are home blocks. -/
  home : ∀ b ∈ d.head, ¬ L.Contains b
  /-- The copies lie in the log area. -/
  fits : ∀ i, i < d.head.length → i + 1 < L.size
  /-- A listed block has its contents in the log. -/
  logged : ∀ i b, d.head[i]? = some b → d.blk (L.start + i + 1) = C b
  /-- Any other home block has its contents in place. -/
  inPlace : ∀ b, ¬ L.Contains b → b ∉ d.head → d.blk b = C b

/-- The process is between `begin_op` and `end_op`. -/
def Pc.InOp : Pc → Prop
  | .op | .modified _ | .checked _ => True
  | _ => False

/-- The process is in `commit` or back from it with `log.committing` still set. -/
def Pc.InCommit : Pc → Prop
  | .commit | .writeLog _ | .writeHead | .installTrans _ | .clearHead | .committed => True
  | _ => False

/-- The process has modified buffer `b` and not logged it yet. -/
def Pc.Holds (b : ℕ) (pc : Pc) : Prop := pc = .modified b ∨ pc = .checked b

/-- The header on the disk lists a committed group that is being installed. -/
def Pc.Installing : Pc → Prop
  | .installTrans _ | .clearHead => True
  | _ => False

/-- Who is inside an operation, and who commits. -/
structure Control (s : State P β) : Prop where
  active : ∃ l : List P, l.Nodup ∧ l.length = s.outstanding ∧ ∀ p, p ∈ l ↔ (s.pc p).InOp
  committing : ∀ p, (s.pc p).InCommit → s.committing = true ∧ s.outstanding = 0
  unique : ∀ p q, (s.pc p).InCommit → (s.pc q).InCommit → p = q

/-- The buffer cache against the disk and the blocks `M` the operations see. -/
structure Coherent (L : Area) (M : ℕ → β) (s : State P β) : Prop where
  clean : ∀ b, s.isDirty b = false → s.isLocked b = false → s.bread b = s.disk.blk b
  area : ∀ b, L.Contains b → s.isDirty b = false ∧ s.isLocked b = false
  view : ∀ b, ¬ L.Contains b → s.bread b = M b
  locked : ∀ p b, (s.pc p).Holds b → s.isLocked b = true ∧ ¬ L.Contains b
  holder : ∀ p q b, (s.pc p).Holds b → (s.pc q).Holds b → p = q

/-- The buffers in use: at most `NBUF`, and a block is cached when it has one. -/
structure Buffers (s : State P β) : Prop where
  nodup : s.bufs.Nodup
  le : s.bufs.length ≤ NBUF
  mem : ∀ b, b ∈ s.bufs ↔ (s.cache b).isSome

/-- What holds at each point of `commit`, `C` being the durable blocks and `M` the blocks
the operations see. -/
def CommitAt (L : Area) (C M : ℕ → β) (s : State P β) : Pc → Prop
  | .writeLog tail =>
    0 < s.lh.length ∧ (0 < tail → s.lh.length < NBUF) ∧
      ∀ i b, i < tail → s.lh[i]? = some b → s.disk.blk (L.start + i + 1) = M b
  | .writeHead =>
    s.lh.length < NBUF ∧ ∀ i b, s.lh[i]? = some b → s.disk.blk (L.start + i + 1) = M b
  | .installTrans tail =>
    s.disk.head = s.lh ∧ s.pend = [] ∧ ∀ i b, i < tail → s.lh[i]? = some b → s.disk.blk b = C b
  | .clearHead => s.lh = [] ∧ s.pend = [] ∧ ∀ b, ¬ L.Contains b → s.disk.blk b = C b
  | .committed => s.lh = [] ∧ s.pend = []
  | _ => True

/-- The state of the log while processes run. -/
structure Running (L : Area) (C M : ℕ → β) (s : State P β) : Prop where
  control : Control s
  current : ∀ p, (s.pc p).InOp → s.opId p ∈ s.group
  coherent : Coherent L M s
  lhHome : ∀ b ∈ s.lh, ¬ L.Contains b
  lhNodup : s.lh.Nodup
  /-- What is listed keeps its buffer until it is installed. -/
  lhDirty : (∀ p, ¬ (s.pc p).Installing) → ∀ b ∈ s.lh, s.isDirty b = true
  /-- What the current group has modified is listed, or about to be. -/
  pending : ∀ u ∈ s.pend, u.blk ∈ s.lh ∨ ∃ p, (s.pc p).Holds u.blk
  commitAt : ∀ p, CommitAt L C M s (s.pc p)
  clear : (∀ p, ¬ (s.pc p).Installing) → s.disk.head = []

/-- The state of the log while `recover_from_log` runs. -/
structure Recovering (C : ℕ → β) (s : State P β) : Prop where
  idle : s.pend = [] ∧ s.outstanding = 0 ∧ s.committing = false ∧ ∀ p, s.pc p = .out
  clean : ∀ b, s.isDirty b = false ∧ s.isLocked b = false ∧ s.bread b = s.disk.blk b

/-- The bookkeeping of the history variables. -/
structure History (s : State P β) : Prop where
  fresh : ∀ o, (o ∈ s.group ∨ o ∈ s.committed ∨ ∃ u ∈ s.past, u.op = o) → o < s.nextOp
  disjoint : ∀ o ∈ s.group, o ∉ s.committed
  past : ∀ u ∈ s.past, u.op ∉ s.group
  pend : ∀ u ∈ s.pend, u.op ∈ s.group

/-- What holds in each mode of the machine. -/
def AtMode (L : Area) (C M : ℕ → β) (s : State P β) : Prop :=
  match s.mode with
  | .up => Running L C M s
  | .readHead => Recovering C s
  | .recover tail => Recovering C s ∧ s.lh = s.disk.head ∧
      ∀ i b, i < tail → s.lh[i]? = some b → s.disk.blk b = C b
  | .clearHead => Recovering C s ∧ s.lh = [] ∧ ∀ b, ¬ L.Contains b → s.disk.blk b = C b
  | .panicked _ => True
  | .overrun => False

/-- The invariant of the whole machine, for a machine that first booted with the home blocks
`d₀`. -/
structure Inv (L : Area) (d₀ : ℕ → β) (s : State P β) : Prop where
  history : History s
  buffers : Buffers s
  disk : Recoverable L (durable d₀ s) s.disk
  mode : AtMode L (durable d₀ s) (volatile d₀ s) s

/-! ## The history variables -/

section
variable {s t : State P β} {d₀ : ℕ → β}

/-- Only the history and what is committed count. -/
lemma durable_congr (hhist : t.hist = s.hist) (hcom : t.committed = s.committed) :
    durable d₀ t = durable d₀ s := by
  rw [durable, durable, State.committedUpdates, State.committedUpdates, hhist, hcom]

/-- A modification by an operation that is not committed leaves the durable blocks alone. -/
theorem durable_modify {u : Update β} (hhist : t.hist = s.hist ++ [u])
    (hcom : t.committed = s.committed) (hu : u.op ∉ s.committed) :
    durable d₀ t = durable d₀ s := by
  have hfilter : t.committedUpdates = s.committedUpdates := by
    rw [State.committedUpdates, State.committedUpdates, hhist, hcom, List.filter_append]
    simp [hu]
  rw [durable, durable, hfilter]

/-- The header write makes durable exactly what the operations of the group see. -/
theorem durable_writeHead (h : History s) (hhist : t.hist = s.hist)
    (hcom : t.committed = s.group ++ s.committed) : durable d₀ t = volatile d₀ s := by
  have hpast : s.past.filter (fun u => decide (u.op ∈ s.group ++ s.committed))
      = s.past.filter (fun u => decide (u.op ∈ s.committed)) := by
    refine List.filter_congr fun u hu => ?_
    simp [h.past u hu]
  have hpend : s.pend.filter (fun u => decide (u.op ∈ s.group ++ s.committed)) = s.pend := by
    refine List.filter_eq_self.mpr fun u hu => ?_
    simp [h.pend u hu]
  have hnone : s.pend.filter (fun u => decide (u.op ∈ s.committed)) = [] := by
    refine List.filter_eq_nil_iff.mpr fun u hu => ?_
    simpa using h.disjoint _ (h.pend u hu)
  rw [durable, volatile, durable, State.committedUpdates, State.committedUpdates, hhist, hcom,
    State.hist, List.filter_append, List.filter_append, hpast, hpend, hnone, List.append_nil,
    replay_append]

/-- Operations are numbered in their order. -/
lemma History.lost (h : History s) : ∀ u ∈ s.past ++ s.pend, u.op < s.nextOp := by
  intro u hu
  rcases List.mem_append.mp hu with hu | hu
  · exact h.fresh _ (.inr (.inr ⟨u, hu, rfl⟩))
  · exact h.fresh _ (.inl (h.pend u hu))

variable [DecidableEq P]

/-- Every step keeps the bookkeeping, given that a process inside an operation is counted in
the current group. -/
theorem History.step {L : Area} {a : Act P β} (h : History s)
    (hcur : s.mode = .up → ∀ p, (s.pc p).InOp → s.opId p ∈ s.group) (hs : Step L s a t) :
    History t := by
  have hlost := h.lost
  induction hs with
  -- a block read into the cache first: the operation comes after it
  | fill hmode hcache hroom _ ih => exact ih ⟨h.fresh, h.disjoint, h.past, h.pend⟩ hcur hlost
  | beginOp hmode hpc hcom hroom =>
    rename_i s p
    obtain ⟨hfresh, hdisj, hpast, hpend⟩ := h
    refine ⟨?_, ?_, ?_, fun u hu => List.mem_cons_of_mem _ (hpend u hu)⟩
    · intro o ho
      -- the new operation's number is the bound itself
      show o < s.nextOp + 1
      rcases ho with ho | ho
      · rcases List.mem_cons.mp ho with rfl | ho
        · omega
        · have := hfresh o (.inl ho); omega
      · have := hfresh o (.inr ho); omega
    · intro o ho hc
      rcases List.mem_cons.mp ho with rfl | ho
      · have := hfresh _ (.inr (.inl hc)); omega
      · exact hdisj o ho hc
    · intro u hu hc
      rcases List.mem_cons.mp hc with hc | hc
      · have := hfresh _ (.inr (.inr ⟨u, hu, rfl⟩)); omega
      · exact hpast u hu hc
  | modify hmode hpc hlock =>
    rename_i s p b v hbuf
    obtain ⟨hfresh, hdisj, hpast, hpend⟩ := h
    refine ⟨hfresh, hdisj, hpast, fun u hu => ?_⟩
    rcases List.mem_append.mp hu with hu | hu
    · exact hpend u hu
    · rw [List.mem_singleton.mp hu]
      exact hcur hmode p (by rw [hpc]; trivial)
  -- from here on the group is durable
  | writeHead hmode hpc hbuf =>
    refine ⟨?_, fun o ho => absurd ho List.not_mem_nil, fun u _ => List.not_mem_nil,
      fun u hu => absurd hu List.not_mem_nil⟩
    rintro o (ho | ho | ⟨u, hu, rfl⟩)
    · cases ho
    · rcases List.mem_append.mp ho with ho | ho
      · exact h.fresh o (.inl ho)
      · exact h.fresh o (.inr (.inl ho))
    · exact hlost u hu
  -- what was not durable is lost
  | crash =>
    refine ⟨?_, fun o ho => absurd ho List.not_mem_nil, fun u _ => List.not_mem_nil,
      fun u hu => absurd hu List.not_mem_nil⟩
    rintro o (ho | ho | ⟨u, hu, rfl⟩)
    · cases ho
    · exact h.fresh o (.inr (.inl ho))
    · exact hlost u hu
  | _ => exact ⟨h.fresh, h.disjoint, h.past, h.pend⟩

end

/-! ## Who runs and who commits -/

section
variable {s t : State P β}

/-- No commit while an operation is open. -/
lemma Control.noCommit (h : Control s) {p : P} (hp : (s.pc p).InOp) (q : P) :
    ¬ (s.pc q).InCommit := by
  intro hq
  obtain ⟨l, -, hlen, hmem⟩ := h.active
  have hzero := (h.committing q hq).2
  have : l = [] := List.length_eq_zero_iff.mp (by omega)
  have hpl := (hmem p).mpr hp
  simp [this] at hpl

/-- A buffer is held inside an operation only. -/
lemma Pc.Holds.inOp {b : ℕ} {pc : Pc} (h : pc.Holds b) : pc.InOp := by
  rcases h with rfl | rfl <;> trivial

lemma Pc.InCommit.not_inOp {pc : Pc} (h : pc.InCommit) : ¬ pc.InOp := by
  cases pc <;> simp_all [Pc.InCommit, Pc.InOp]

/-- Copying home is part of the commit. -/
lemma Pc.Installing.inCommit {pc : Pc} (h : pc.Installing) : pc.InCommit := by
  cases pc <;> simp_all [Pc.InCommit, Pc.Installing]

/-- While a process commits, none is inside an operation. -/
lemma Control.noOp (h : Control s) {p : P} (hp : (s.pc p).InCommit) (q : P) :
    ¬ (s.pc q).InOp :=
  fun hq => h.noCommit hq p hp

lemma Control.ofOut (hout : s.outstanding = 0) (hpc : ∀ p, s.pc p = .out) : Control s := by
  have hnone : ∀ p, ¬ (s.pc p).InOp ∧ ¬ (s.pc p).InCommit := fun p => by
    rw [hpc p]; exact ⟨id, id⟩
  refine ⟨⟨[], List.nodup_nil, hout.symm, fun p => ?_⟩, ?_, ?_⟩
  · exact ⟨fun hp => absurd hp List.not_mem_nil, fun hp => absurd hp (hnone p).1⟩
  · exact fun p hp => absurd hp (hnone p).2
  · exact fun p q hp => absurd hp (hnone p).2

variable [DecidableEq P]

/-- A process moves on without entering or leaving an operation or a commit. -/
theorem Control.move (h : Control s) {p : P} {x : Pc} (hpc : t.pc = Function.update s.pc p x)
    (hout : t.outstanding = s.outstanding) (hcom : t.committing = s.committing)
    (hop : x.InOp ↔ (s.pc p).InOp) (hcommit : x.InCommit → (s.pc p).InCommit) : Control t := by
  have hself : t.pc p = x := by rw [hpc, Function.update_self]
  have hother : ∀ q, q ≠ p → t.pc q = s.pc q := fun q hq => by
    rw [hpc, Function.update_of_ne hq]
  have hcommits : ∀ q, (t.pc q).InCommit → (s.pc q).InCommit := by
    intro q hq
    by_cases hqp : q = p
    · subst hqp; exact hcommit (hself ▸ hq)
    · exact hother q hqp ▸ hq
  refine ⟨?_, ?_, fun q r hq hr => h.unique q r (hcommits q hq) (hcommits r hr)⟩
  · obtain ⟨l, hnd, hlen, hmem⟩ := h.active
    refine ⟨l, hnd, by rw [hlen, hout], fun q => ?_⟩
    by_cases hqp : q = p
    · subst hqp; rw [hself, hop]; exact hmem q
    · rw [hother q hqp]; exact hmem q
  · intro q hq
    rw [hcom, hout]
    exact h.committing q (hcommits q hq)

/-- One process opens an operation. -/
lemma Control.beginOp (h : Control s) {p : P} (hp : s.pc p = .out)
    (hcom : s.committing = false) (hpc : t.pc = Function.update s.pc p .op)
    (hout : t.outstanding = s.outstanding + 1) : Control t := by
  have hself : t.pc p = .op := by rw [hpc, Function.update_self]
  have hother : ∀ q, q ≠ p → t.pc q = s.pc q := fun q hq => by
    rw [hpc, Function.update_of_ne hq]
  have hnone : ∀ q, ¬ (t.pc q).InCommit := by
    intro q hq
    by_cases hqp : q = p
    · subst hqp; rw [hself] at hq; exact hq
    · rw [hother q hqp] at hq
      have := (h.committing q hq).1
      simp [hcom] at this
  refine ⟨?_, fun q hq => absurd hq (hnone q), fun q r hq => absurd hq (hnone q)⟩
  obtain ⟨l, hnd, hlen, hmem⟩ := h.active
  have hpl : p ∉ l := by rw [hmem, hp]; exact id
  refine ⟨p :: l, List.nodup_cons.mpr ⟨hpl, hnd⟩, by simp [hlen, hout], fun q => ?_⟩
  by_cases hqp : q = p
  · subst hqp; simp [hself, Pc.InOp]
  · rw [hother q hqp, ← hmem q]; simp [hqp]

/-- A process leaves its operation; the last one starts to commit. -/
theorem Control.endOp (h : Control s) {p : P} {x : Pc} (hp : s.pc p = .op)
    (hpc : t.pc = Function.update s.pc p x) (hout : t.outstanding = s.outstanding - 1)
    (hx : x = .out ∨ x = .commit ∧ t.committing = true ∧ s.outstanding - 1 = 0) :
    Control t := by
  have hself : t.pc p = x := by rw [hpc, Function.update_self]
  have hother : ∀ q, q ≠ p → t.pc q = s.pc q := fun q hq => by
    rw [hpc, Function.update_of_ne hq]
  have honly : ∀ q, (t.pc q).InCommit → q = p ∧ x = .commit := by
    intro q hq
    by_cases hqp : q = p
    · subst hqp
      rcases hx with rfl | ⟨rfl, -⟩
      · rw [hself] at hq; cases hq
      · exact ⟨rfl, rfl⟩
    · rw [hother q hqp] at hq
      exact absurd hq (h.noCommit (by rw [hp]; trivial) q)
  have hnotop : ¬ x.InOp := by
    rcases hx with rfl | ⟨rfl, -⟩ <;> exact id
  refine ⟨?_, ?_, ?_⟩
  · obtain ⟨l, hnd, hlen, hmem⟩ := h.active
    have hpl : p ∈ l := (hmem p).mpr (by rw [hp]; trivial)
    refine ⟨l.erase p, hnd.erase p, by rw [List.length_erase_of_mem hpl, hlen, hout],
      fun q => ?_⟩
    rw [hnd.mem_erase_iff]
    by_cases hqp : q = p
    · subst hqp; simp [hself, hnotop]
    · rw [hother q hqp, ← hmem q]; simp [hqp]
  · intro q hq
    obtain ⟨-, hxc⟩ := honly q hq
    rcases hx with rfl | ⟨-, hcom, hzero⟩
    · cases hxc
    · exact ⟨hcom, by omega⟩
  · intro q r hq hr
    rw [(honly q hq).1, (honly r hr).1]

/-- The committing process is done. -/
lemma Control.committed (h : Control s) {p : P} (hp : s.pc p = .committed)
    (hpc : t.pc = Function.update s.pc p .out) (hout : t.outstanding = s.outstanding) :
    Control t := by
  have hself : t.pc p = .out := by rw [hpc, Function.update_self]
  have hother : ∀ q, q ≠ p → t.pc q = s.pc q := fun q hq => by
    rw [hpc, Function.update_of_ne hq]
  have hcommit : (s.pc p).InCommit := by rw [hp]; trivial
  have hnone : ∀ q, ¬ (t.pc q).InCommit := by
    intro q hq
    by_cases hqp : q = p
    · subst hqp; rw [hself] at hq; exact hq
    · rw [hother q hqp] at hq
      exact hqp (h.unique q p hq hcommit)
  have hnoop : ∀ q, ¬ (t.pc q).InOp := by
    intro q hq
    by_cases hqp : q = p
    · subst hqp; rw [hself] at hq; exact hq
    · rw [hother q hqp] at hq
      exact h.noOp hcommit q hq
  refine ⟨⟨[], List.nodup_nil, ?_, fun q => ?_⟩, fun q hq => absurd hq (hnone q),
    fun q r hq => absurd hq (hnone q)⟩
  · rw [hout, (h.committing p hcommit).2, List.length_nil]
  · simp [hnoop q]

/-- Every step of a running machine keeps the count of operations and the one committer. -/
theorem Control.step {L : Area} {a : Act P β} (h : Control s) (hup : t.mode = .up)
    (hs : Step L s a t) (hmode : s.mode = .up) : Control t := by
  induction hs with
  | fill _ _ _ _ ih => exact ih ⟨h.active, h.committing, h.unique⟩ hup hmode
  | beginOp _ hpc hcom => exact h.beginOp hpc hcom rfl rfl
  | modify _ hpc | logWrite _ hpc | append _ hpc | commitSome _ hpc | commitNone _ hpc
  | writeLog _ hpc | writeLogEnd _ hpc | writeHead _ hpc | installTrans _ hpc
  | installTransEnd _ hpc | clearHead _ hpc =>
    exact h.move rfl rfl rfl (by rw [hpc]; simp [Pc.InOp]) (by rw [hpc]; simp [Pc.InCommit])
  | endOpLast _ hpc _ hlast => exact h.endOp hpc rfl rfl (.inr ⟨rfl, rfl, hlast⟩)
  | endOp _ hpc => exact h.endOp hpc rfl rfl (.inl rfl)
  | committed _ hpc => exact h.committed hpc rfl rfl
  | bread | brelse | evict => exact ⟨h.active, h.committing, h.unique⟩
  | noBuffers | tooBig | outsideTrans | overrun | endOpPanic | crash => cases hup
  | readHead hm | recover hm | recoverEnd hm | recoverClear hm => rw [hmode] at hm; cases hm

end

/-! ## The buffers -/

section
variable {s t : State P β} {b : ℕ}

lemma isSome_of_isDirty (h : s.isDirty b = true) : (s.cache b).isSome := by
  unfold State.isDirty at h
  split at h
  · next buf hbuf => simp [hbuf]
  · cases h

lemma isSome_of_isLocked (h : s.isLocked b = true) : (s.cache b).isSome := by
  unfold State.isLocked at h
  split at h
  · next buf hbuf => simp [hbuf]
  · cases h

/-- A block with a buffer besides those of distinct dirty blocks leaves one fewer for these. -/
theorem Buffers.length_lt (h : Buffers s) {lh : List ℕ} (hnd : lh.Nodup)
    (hdirty : ∀ c ∈ lh, s.isDirty c = true) (hb : (s.cache b).isSome) (hnot : b ∉ lh) :
    lh.length < NBUF := by
  have hsub : b :: lh ⊆ s.bufs := by
    intro c hc
    rw [h.mem]
    rcases List.mem_cons.mp hc with rfl | hc
    · exact hb
    · exact isSome_of_isDirty (hdirty c hc)
  have hlen := (List.subperm_of_subset (List.nodup_cons.mpr ⟨hnot, hnd⟩) hsub).length_le
  have hle := h.le
  rw [List.length_cons] at hlen
  omega

/-- A block is read into a free buffer. -/
lemma Buffers.fill (h : Buffers s) (hcache : s.cache b = none) (hroom : s.bufs.length < NBUF) :
    Buffers (s.fill b) := by
  have hb : b ∉ s.bufs := by simp [h.mem, hcache]
  refine ⟨List.nodup_cons.mpr ⟨hb, h.nodup⟩, hroom, fun c => ?_⟩
  by_cases hc : c = b
  · subst hc; simp [State.fill]
  · simp [State.fill, hc, h.mem]

/-- The buffer of a cached block changes its contents or flags. -/
lemma Buffers.update (h : Buffers s) (hb : (s.cache b).isSome) {buf : Buf β}
    (hcache : t.cache = Function.update s.cache b (some buf)) (hbufs : t.bufs = s.bufs) :
    Buffers t := by
  refine ⟨hbufs ▸ h.nodup, hbufs ▸ h.le, fun c => ?_⟩
  rw [hbufs, h.mem, hcache]
  by_cases hc : c = b
  · subst hc; simp [hb]
  · simp [hc]

lemma Buffers.evict (h : Buffers s) {b : ℕ} : Buffers { s with
    cache := Function.update s.cache b none
    bufs := s.bufs.erase b } := by
  refine ⟨h.nodup.erase b, Nat.le_trans List.length_erase_le h.le, fun c => ?_⟩
  show c ∈ s.bufs.erase b ↔ _
  rw [h.nodup.mem_erase_iff, h.mem]
  by_cases hc : c = b
  · subst hc; simp
  · simp [hc]

/-- Every step keeps the buffers in order, given that a process which is about to append a block
holds its buffer. -/
theorem Buffers.step [DecidableEq P] {L : Area} {a : Act P β} (h : Buffers s)
    (hchk : ∀ p b, s.mode = .up → s.pc p = .checked b → (s.cache b).isSome)
    (hs : Step L s a t) : Buffers t := by
  induction hs with
  | fill hmode hcache hroom _ ih =>
    exact ih (h.fill hcache hroom) fun p b hm hp => fill_cached (hchk p b hm hp)
  | modify hmode hpc hlock hbuf => exact h.update hbuf rfl rfl
  | append hmode hpc => exact h.update (hchk _ _ hmode hpc) rfl rfl
  | writeLog hmode hpc htail hto => exact h.update hto rfl rfl
  | installTrans hmode hpc htail hfrom hto => exact h.update hto rfl rfl
  | recover hmode htail hfrom hto => exact h.update hto rfl rfl
  | evict => exact h.evict
  | crash => exact ⟨List.nodup_nil, Nat.zero_le _, fun b => by simp [crash]⟩
  | _ => exact ⟨h.nodup, h.le, h.mem⟩

end

end Log
end OhMyXv6
