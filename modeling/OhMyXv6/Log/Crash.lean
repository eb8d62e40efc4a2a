import OhMyXv6.Log.Commit

/-!
# Crash atomicity of the log

Each step keeps the invariant of `OhMyXv6.Log.Invariant`, so a disk is recoverable wherever
the machine stops, and `recover_from_log` leaves the home blocks of the committed groups.

`log_write` tests its limits before it takes `log.lock`, so two processes may both pass the
test when there is room for one block, and the list then has a block more than the log area has
room for. It is never copied: each listed block keeps a buffer, and with `NBUF` of them listed
`write_log` finds no buffer for its first copy.
-/

namespace OhMyXv6
namespace Log

variable {P β : Type} [DecidableEq P] {L : Area} {C M : ℕ → β} {s t : State P β}

/-! ## The invariant of a run -/

/-- The assumption of the crash theorem: operations modify home blocks only. -/
def OutsideLog (L : Area) : Act P β → Prop
  | .modify _ b _ => ¬ L.Contains b
  | _ => True

instance decidableOutsideLog (L : Area) : ∀ a : Act P β, Decidable (OutsideLog L a)
  | .modify _ b _ => inferInstanceAs (Decidable (¬ L.Contains b))
  | .beginOp _ | .logWrite _ | .append _ | .endOp _ | .commit _ | .bread _ | .brelse _ | .evict _
  | .crash | .recover => isTrue trivial

omit [DecidableEq P] in
/-- With nothing pending memory shows the disk. -/
lemma volatile_of_pend_nil {d₀ : ℕ → β} (h : s.pend = []) :
    volatile d₀ s = durable d₀ s := by
  rw [volatile, h, replay_nil]

omit [DecidableEq P] in
/-- What holds of a running system. -/
lemma Inv.running {d₀ : ℕ → β} (h : Inv L d₀ s) (hmode : s.mode = .up) :
    Running L (durable d₀ s) (volatile d₀ s) s := by
  have := h.mode
  rwa [AtMode, hmode] at this

omit [DecidableEq P] in
lemma Running.atMode (h : Running L C M s) (hmode : s.mode = .up) : AtMode L C M s := by
  rw [AtMode, hmode]
  exact h

omit [DecidableEq P] in
/-- The same with nothing pending. -/
lemma Running.atMode_of_pend_nil {d₀ : ℕ → β} (h : Running L (durable d₀ s) (durable d₀ s) s)
    (hmode : s.mode = .up) (hpend : s.pend = []) :
    AtMode L (durable d₀ s) (volatile d₀ s) s := by
  rw [volatile_of_pend_nil hpend]
  exact h.atMode hmode

omit [DecidableEq P] in
/-- A crash loses what is in memory and nothing else. -/
lemma recoverable_crash {d₀ : ℕ → β} (hrec : Recoverable L (durable d₀ s) s.disk) :
    Recoverable L (durable d₀ (Log.crash s)) (Log.crash s).disk ∧
      AtMode L (durable d₀ (Log.crash s)) (volatile d₀ (Log.crash s)) (Log.crash s) := by
  have hdur : durable d₀ (Log.crash s) = durable d₀ s :=
    durable_congr (by simp [State.hist, Log.crash]) rfl
  refine ⟨by rw [hdur]; exact hrec, ?_⟩
  exact ⟨⟨rfl, rfl, rfl, fun _ => rfl⟩, fun _ => ⟨rfl, rfl, rfl⟩⟩

omit [DecidableEq P] in
/-- A clean buffer comes into the cache or leaves it. -/
lemma Inv.setClean {d₀ : ℕ → β} (h : Inv L d₀ s) {b : ℕ} {o : Option (Buf β)} {bs : List ℕ}
    (hbuf : Buffers { s with cache := Function.update s.cache b o, bufs := bs })
    (hd : s.isDirty b = false) (hl : s.isLocked b = false)
    (ho : o = none ∨ o = some ⟨s.disk.blk b, false, false⟩) :
    Inv L d₀ { s with cache := Function.update s.cache b o, bufs := bs } where
  history := ⟨h.history.fresh, h.history.disjoint, h.history.past, h.history.pend⟩
  buffers := hbuf
  disk := h.disk
  mode := h.mode.setClean bs hd hl ho

omit [DecidableEq P] in
/-- A block is read into a free buffer. -/
lemma Inv.fill {d₀ : ℕ → β} (h : Inv L d₀ s) {b : ℕ} (hcache : s.cache b = none)
    (hroom : s.bufs.length < NBUF) : Inv L d₀ (s.fill b) := by
  refine h.setClean (h.buffers.fill hcache hroom) ?_ ?_ (.inr rfl)
  · rw [State.isDirty, hcache]
  · rw [State.isLocked, hcache]

omit [DecidableEq P] in
/-- A step of the recovery keeps the disk recoverable, and what is known at its point. -/
theorem Inv.recover {d₀ : ℕ → β} (h : Inv L d₀ s) {tail b : ℕ} (hmode : s.mode = .recover tail)
    (htail : s.lh[tail]? = some b) :
    Recoverable L (durable d₀ s) (s.bwrite b (s.bread (L.start + tail + 1))).disk ∧
      AtMode L (durable d₀ s) (volatile d₀ s)
        { s.bwrite b (s.bread (L.start + tail + 1)) with mode := .recover (tail + 1) } := by
  have hat := h.mode
  rw [AtMode, hmode] at hat
  obtain ⟨hrecov, hlh, hdone⟩ := hat
  have hi : s.disk.head[tail]? = some b := by rw [← hlh]; exact htail
  have hcopy : s.bread (L.start + tail + 1) = durable d₀ s b := by
    rw [(hrecov.clean _).2.2]
    exact h.disk.logged tail b hi
  refine ⟨h.disk.install hi hcopy, hrecov.bwrite _ _ _, hlh, ?_⟩
  intro i c hic hc
  have hc' : s.lh[i]? = some c := hc
  show (s.bwrite b _).disk.blk c = durable d₀ s c
  by_cases hcb : c = b
  · rw [hcb, bwrite_blk_self, hcopy]
  · rw [bwrite_blk_ne _ _ _ _ hcb]
    have hit : i ≠ tail := by
      rintro rfl
      rw [htail] at hc'
      exact hcb (Option.some.inj hc').symm
    exact hdone i c (by omega) hc'

omit [DecidableEq P] in
/-- The block a process is about to append has a buffer, and is not among the dirty ones. -/
theorem Inv.checked {d₀ : ℕ → β} (h : Inv L d₀ s) {p : P} {b : ℕ} (hmode : s.mode = .up)
    (hpc : s.pc p = .checked b) :
    (s.cache b).isSome ∧ (b ∉ s.lh → s.lh.length < NBUF) := by
  have hrun := h.running hmode
  have hlock := (hrun.coherent.locked p b (by rw [hpc]; exact .inr rfl)).1
  have hbuf := isSome_of_isLocked hlock
  refine ⟨hbuf, fun hnot => ?_⟩
  exact h.buffers.length_lt hrun.lhNodup (hrun.dirty (p := p) (by rw [hpc]; trivial)) hbuf hnot

/-- Every action keeps the disk recoverable, and what is known at each point of the code. -/
theorem Inv.step_disk (hsize : NBUF ≤ L.size) {d₀ : ℕ → β} {a : Act P β} (h : Inv L d₀ s)
    (hout : OutsideLog L a) (hs : Step L s a t) :
    Recoverable L (durable d₀ t) t.disk ∧ AtMode L (durable d₀ t) (volatile d₀ t) t := by
  induction hs with
  | fill hmode hcache hroom _ ih => exact ih (h.fill hcache hroom) hout
  | beginOp hmode hpc hcom hroom =>
    exact ⟨h.disk, ((h.running hmode).beginOp hpc hcom).atMode hmode⟩
  | modify hmode hpc hlock =>
    rename_i s p b v hbuf
    have hrun := h.running hmode
    have hcur := hrun.current p (by rw [hpc]; trivial)
    have hdur : durable d₀ { s with
        cache := Function.update s.cache b (some ⟨v, s.isDirty b, true⟩)
        pc := Function.update s.pc p (.modified b)
        pend := s.pend ++ [⟨s.opId p, b, v⟩] } = durable d₀ s :=
      durable_modify (u := ⟨s.opId p, b, v⟩) (by simp [State.hist]) rfl
        (h.history.disjoint _ hcur)
    refine ⟨by rw [hdur]; exact h.disk, ?_⟩
    refine Running.atMode ?_ hmode
    rw [hdur]
    refine hrun.modify hpc hlock hout ?_ ?_
    · rw [volatile, hdur]
      exact replay_concat_self _ _ _ _ _
    · intro c hc
      rw [volatile, hdur]
      exact replay_concat_ne _ _ _ _ hc
  | noBuffers | tooBig | outsideTrans | endOpPanic => exact ⟨h.disk, trivial⟩
  | overrun hmode hpc hnew hfull =>
    -- the listed blocks and the one to append all have buffers
    have hlen := (h.checked hmode hpc).2 hnew
    exact absurd hfull (Nat.not_le.mpr hlen)
  | logWrite hmode hpc => exact ⟨h.disk, ((h.running hmode).logWrite hpc).atMode hmode⟩
  | append hmode hpc hroom => exact ⟨h.disk, ((h.running hmode).append hpc).atMode hmode⟩
  | endOpLast hmode hpc hcom hlast =>
    refine ⟨h.disk, Running.atMode ?_ hmode⟩
    exact (h.running hmode).endOp hpc rfl (.inr ⟨rfl, rfl, hlast⟩)
  | endOp hmode hpc hcom hmore =>
    refine ⟨h.disk, Running.atMode ?_ hmode⟩
    exact (h.running hmode).endOp hpc rfl (.inl rfl)
  | commitSome hmode hpc hn =>
    exact ⟨h.disk, ((h.running hmode).commitSome hpc hn).atMode hmode⟩
  | commitNone hmode hpc hn =>
    exact ⟨h.disk, ((h.running hmode).commitNone hpc hn).atMode hmode⟩
  | writeLog hmode hpc htail hto hfrom =>
    have hrun := h.running hmode
    have hhead := hrun.head_nil_of_commit (by rw [hpc]; trivial) (by rw [hpc]; exact id)
    have hlen := hrun.lh_lt h.buffers hsize hpc hto
    have harea := area_of_lt hlen hsize (List.getElem?_eq_some_iff.mp htail).1
    exact ⟨h.disk.writeLog hhead harea _, (hrun.writeLog hsize hpc htail hlen).atMode hmode⟩
  | writeLogEnd hmode hpc htail =>
    exact ⟨h.disk, ((h.running hmode).writeLogEnd hpc htail).atMode hmode⟩
  | writeHead hmode hpc =>
    rename_i s p hbuf
    have hrun := h.running hmode
    have hdur : durable d₀ { s.writeHead with
        pc := Function.update s.pc p (.installTrans 0)
        committed := s.group ++ s.committed
        group := []
        past := s.past ++ s.pend
        pend := [] } = volatile d₀ s :=
      durable_writeHead h.history (by simp [State.hist]) rfl
    refine ⟨by rw [hdur]; exact hrun.recoverable_writeHead h.disk hsize hpc, ?_⟩
    rw [volatile_of_pend_nil rfl, hdur]
    exact (hrun.writeHead hpc).atMode hmode
  | installTrans hmode hpc htail =>
    have hrun := h.running hmode
    obtain ⟨hhead, hpend, -⟩ := hrun.installing hpc
    rw [volatile_of_pend_nil hpend] at hrun
    have hcopy := hrun.bread_logged h.disk hpc htail
    refine ⟨h.disk.install (by rw [hhead]; exact htail) hcopy, ?_⟩
    exact (hrun.installTrans h.disk hpc htail).atMode_of_pend_nil hmode hpend
  | installTransEnd hmode hpc htail =>
    have hrun := h.running hmode
    obtain ⟨-, hpend, -⟩ := hrun.installing hpc
    rw [volatile_of_pend_nil hpend] at hrun
    refine ⟨h.disk, ?_⟩
    exact (hrun.installTransEnd h.disk hpc htail).atMode_of_pend_nil hmode hpend
  | clearHead hmode hpc =>
    rename_i s p hbuf
    have hrun := h.running hmode
    have hat := hrun.commitAt p
    rw [hpc] at hat
    obtain ⟨hlh, hpend, hblk⟩ := hat
    rw [volatile_of_pend_nil hpend] at hrun
    exact ⟨.ofHead_nil hlh hblk, (hrun.clearHead hpc).atMode_of_pend_nil hmode hpend⟩
  | committed hmode hpc => exact ⟨h.disk, ((h.running hmode).committed hpc).atMode hmode⟩
  | bread hmode | brelse hmode => exact ⟨h.disk, ((h.running hmode).setRefs _).atMode hmode⟩
  | evict hmode hbuf hdirty hlock => exact ⟨h.disk, h.mode.setClean _ hdirty hlock (.inl rfl)⟩
  | crash => exact recoverable_crash h.disk
  | readHead hmode =>
    have hat := h.mode
    rw [AtMode, hmode] at hat
    refine ⟨h.disk, ?_⟩
    exact ⟨⟨hat.idle, hat.clean⟩, rfl, fun i b hi => absurd hi (Nat.not_lt_zero i)⟩
  | recover hmode htail => exact h.recover hmode htail
  | recoverEnd hmode htail =>
    have hat := h.mode
    rw [AtMode, hmode] at hat
    obtain ⟨hrecov, hlh, hdone⟩ := hat
    refine ⟨h.disk, ?_⟩
    exact ⟨⟨hrecov.idle, hrecov.clean⟩, rfl, h.disk.installed hlh htail hdone⟩
  | recoverClear hmode =>
    rename_i s hbuf
    have hat := h.mode
    rw [AtMode, hmode] at hat
    obtain ⟨hrecov, hlh, hblk⟩ := hat
    refine ⟨.ofHead_nil hlh hblk, ?_⟩
    have hvol : volatile d₀ { s.writeHead with mode := .up } = durable d₀ s :=
      volatile_of_pend_nil hrecov.idle.1
    show Running L (durable d₀ s) (volatile d₀ { s.writeHead with mode := .up }) _
    rw [hvol]
    exact hrecov.up hlh hblk

/-- **Step lemma.** Every action keeps the invariant. -/
theorem Inv.step (hsize : NBUF ≤ L.size) {d₀ : ℕ → β} {a : Act P β} (h : Inv L d₀ s)
    (hout : OutsideLog L a) (hs : Step L s a t) : Inv L d₀ t := by
  obtain ⟨hdisk, hmode⟩ := h.step_disk hsize hout hs
  refine ⟨h.history.step (fun hm => (h.running hm).current) hs, ?_, hdisk, hmode⟩
  exact h.buffers.step (fun p b hm hp => (h.checked hm hp).1) hs

omit [DecidableEq P] in
lemma inv_boot {d : Disk β} (hd : d.head = []) : Inv L d.blk (boot d : State P β) where
  history := by
    refine ⟨?_, ?_, ?_, ?_⟩ <;> simp [boot]
  buffers := ⟨List.nodup_nil, Nat.zero_le _, fun b => by simp [boot]⟩
  disk := .ofHead_nil hd fun _ _ => rfl
  mode := ⟨⟨rfl, rfl, rfl, fun _ => rfl⟩, fun _ => ⟨rfl, rfl, rfl⟩⟩

/-- **Run lemma.** The invariant holds wherever a run from power-on has got to. -/
theorem inv_run (hsize : NBUF ≤ L.size) {d : Disk β} (hd : d.head = []) {as : List (Act P β)}
    (hout : ∀ a ∈ as, OutsideLog L a) (hrun : Runs.run (step L) (boot d) as = some s) :
    Inv L d.blk s :=
  (Runs.along_of_forall hout).invariant (fun _ _ _ hI ha hs => hI.step hsize ha (step_cases hs))
    (inv_boot hd) hrun

/-! ## After recovery -/

/-- A step that ends a recovery starts no process. -/
lemma Step.recovered {a : Act P β} (hs : Step L s a t) (ha : a = .recover) (hup : t.mode = .up) :
    t.pc = s.pc ∧ s.mode ≠ .up := by
  induction hs with
  | fill _ _ _ _ ih => exact ih ha hup
  | noBuffers | readHead | recover | recoverEnd => cases hup
  | recoverClear hmode => exact ⟨rfl, by rw [hmode]; exact Mode.noConfusion⟩
  | _ => cases ha

/-- A machine whose recovery has just run to its end: everything is in place. -/
theorem Inv.recovered {d₀ : ℕ → β} (h : Inv L d₀ s) (h' : Inv L d₀ t)
    (hs : Log.recover L s = some t) (hup : t.mode = .up) :
    t.disk.head = [] ∧ ∀ b, ¬ L.Contains b → t.disk.blk b = durable d₀ t b := by
  obtain ⟨hpc, hmode⟩ := (step_recover_cases hs).recovered rfl hup
  have hout : ∀ p, s.pc p = .out := by
    have hat := h.mode
    rw [AtMode] at hat
    split at hat
    · next hm => exact absurd hm hmode
    · exact hat.idle.2.2.2
    · exact hat.1.idle.2.2.2
    · exact hat.1.idle.2.2.2
    · next hm => rw [Log.recover, hm] at hs; cases hs
    · exact hat.elim
  have hhead : t.disk.head = [] := (h'.running hup).clear fun p => by
    rw [hpc, hout p]
    exact id
  exact ⟨hhead, fun b hb => h'.disk.inPlace b hb (by simp [hhead])⟩

/-- The actions of a machine that is only being recovered. -/
def Act.Recovers : Act P β → Prop
  | .recover | .crash | .evict _ => True
  | _ => False

/-- Recovery of an empty log leaves the disk alone. -/
lemma Step.recovers_disk {a : Act P β} (hs : Step L s a t) (ha : a.Recovers)
    (hhead : s.disk.head = []) (hlh : s.lh = []) : t.disk = s.disk ∧ t.lh = [] := by
  induction hs with
  | fill _ _ _ _ ih => exact ih ha hhead hlh
  | noBuffers | evict => exact ⟨rfl, hlh⟩
  | crash | recoverEnd => exact ⟨rfl, rfl⟩
  | readHead => exact ⟨rfl, hhead⟩
  | recover _ htail =>
    rw [hlh] at htail
    cases htail
  | recoverClear =>
    rename_i s _ _
    refine ⟨?_, hlh⟩
    show ({ s.disk with head := s.lh } : Disk β) = s.disk
    rw [hlh, ← hhead]
  | _ => exact ha.elim

/-- Recovery of a disk with an empty header changes nothing, wherever it is interrupted. -/
theorem rerecover_disk {as : List (Act P β)} (has : ∀ a ∈ as, a.Recovers)
    (hhead : s.disk.head = []) (hlh : s.lh = []) (hrun : Runs.run (step L) s as = some t) :
    t.disk = s.disk := by
  have halong : Runs.Along (step L) (fun _ a => a.Recovers) s as := Runs.along_of_forall has
  have hinv := halong.invariant
    (I := fun u => u.disk = s.disk ∧ u.lh = []) (fun u a v hu ha hs => ?_) ⟨rfl, hlh⟩ hrun
  · exact hinv.1
  · obtain ⟨hdisk, hlh⟩ := (step_cases hs).recovers_disk ha (hu.1 ▸ hhead) hu.2
    exact ⟨hdisk.trans hu.1, hlh⟩

/-- **Crash atomicity.** On a log area with the blocks `mkfs` sets aside, take any run from
power-on, with any operations of any processes and any crashes, that ends with the last step of
a recovery. Then the home blocks on the disk are those of replaying exactly the modifications of
the operations whose group commit has its header on the disk: all modifications of such an
operation, none of any other. Running recovery again, interrupted as often as one likes, changes
nothing. -/
theorem crash_atomicity (hsize : LOGSIZE ≤ L.size) (d : Disk β) (hd : d.head = [])
    (as : List (Act P β)) (hout : ∀ a ∈ as, OutsideLog L a)
    (hrun : Runs.run (step L) (boot d) (as ++ [.recover]) = some t) (hup : t.mode = .up) :
    (∀ b, ¬ L.Contains b →
      t.disk.blk b = replay d.blk (t.hist.filter fun u => u.op ∈ t.committed) b) ∧
    ∀ bs u, (∀ a ∈ bs, a.Recovers) → Runs.run (step L) t (.crash :: bs) = some u →
      u.disk = t.disk := by
  obtain ⟨s, hs, hlast⟩ := Runs.run_concat_eq_some.mp hrun
  have hinv := inv_run hsize hd hout hs
  have hinv' : Inv L d.blk t := hinv.step hsize (a := .recover) trivial (step_cases hlast)
  obtain ⟨hhead, hblk⟩ := hinv.recovered hinv' hlast hup
  refine ⟨hblk, fun bs u hbs hu => ?_⟩
  obtain ⟨v, hv, hu⟩ := Runs.run_cons_eq_some.mp hu
  cases hv
  exact rerecover_disk (s := crash t) hbs hhead rfl hu

/-- The log area of an image made by `mkfs`: 30 blocks from block 2 on. -/
def mkfsArea : Area := ⟨2, LOGSIZE⟩

/-- One operation modifies and logs block 100; the machine stops after its header write and
again while the block is being copied home. -/
def commitRun : List (Act (Fin 3) ℕ) :=
  [.recover, .recover, .recover, .beginOp 0, .modify 0 100 1, .logWrite 0, .append 0, .bread 45,
    .endOp 0, .commit 0, .commit 0, .commit 0, .commit 0, .crash, .recover, .crash, .recover,
    .recover, .evict 100, .recover]

/-- A commit, a crash and a recovery. -/
theorem crash_atomicity_commitRun :
    ∃ t : State (Fin 3) ℕ,
      Runs.run (step mkfsArea) (boot ⟨[], fun _ => 0⟩) (commitRun ++ [.recover]) = some t ∧
      t.disk.blk 100 = replay (fun _ => 0) (t.hist.filter fun u => u.op ∈ t.committed) 100 ∧
      t.disk.blk 100 = 1 := by
  have hrun : (Runs.run (step mkfsArea) (boot ⟨[], fun _ => 0⟩) (commitRun ++ [.recover])).map
      (fun t => (t.mode, t.disk.blk 100)) = some (.up, 1) := by decide +kernel
  obtain ⟨t, ht, heq⟩ := Option.map_eq_some_iff.mp hrun
  simp only [Prod.mk.injEq] at heq
  have hall := crash_atomicity (by decide) ⟨[], fun _ => 0⟩ rfl commitRun (by decide +kernel) ht
    heq.1
  exact ⟨t, ht, hall.1 100 (by decide), heq.2⟩

end Log
end OhMyXv6
