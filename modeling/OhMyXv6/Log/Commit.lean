import OhMyXv6.Log.Operations

/-!
# The steps of the commit

The commit copies the listed blocks into the log, writes the header, copies the blocks home and clears the
header. After each of these writes the disk is recoverable, to the old contents until the header is written and to
the new ones from then on.
-/

namespace OhMyXv6
namespace Log

variable {P β : Type} [DecidableEq P] {L : Area} {C M : ℕ → β} {s t : State P β}

/-! ## Steps of the commit -/

/-- A step of the committing process `p`: what has to be shown is about the data alone, for no
other process is inside an operation. -/
theorem Running.commitStep (h : Running L C M s) {p : P} {x : Pc} {C' M' : ℕ → β}
    (hp : (s.pc p).InCommit) (hx : x.InCommit) (hpc : t.pc = Function.update s.pc p x)
    (hout : t.outstanding = s.outstanding) (hcom : t.committing = s.committing)
    (hcoh : Coherent L M' t) (hlh : t.lh = s.lh ∨ t.lh = [])
    (hdirty : ¬ x.Installing → ∀ b ∈ t.lh, t.isDirty b = true)
    (hpend : ∀ u ∈ t.pend, u.blk ∈ t.lh)
    (hat : CommitAt L C' M' t x) (hclear : ¬ x.Installing → t.disk.head = []) :
    Running L C' M' t := by
  have hself : t.pc p = x := by rw [hpc, Function.update_self]
  have hother : ∀ q, q ≠ p → t.pc q = s.pc q := fun q hq => by
    rw [hpc, Function.update_of_ne hq]
  have hcontrol : Control t := by
    refine h.control.move hpc hout hcom ?_ fun _ => hp
    exact ⟨fun hx' => absurd hx' hx.not_inOp, fun hp' => absurd hp' hp.not_inOp⟩
  have hxt : (t.pc p).InCommit := hself ▸ hx
  refine ⟨hcontrol, fun q hq => absurd hq (hcontrol.noOp hxt q), hcoh, ?_, ?_, ?_,
    fun u hu => .inl (hpend u hu), ?_, ?_⟩
  · rcases hlh with hlh | hlh <;> rw [hlh]
    · exact h.lhHome
    · exact fun b hb => absurd hb List.not_mem_nil
  · rcases hlh with hlh | hlh <;> rw [hlh]
    · exact h.lhNodup
    · exact List.nodup_nil
  · exact fun hq => hdirty (hself ▸ hq p)
  · intro q
    by_cases hqp : q = p
    · rw [hqp, hself]; exact hat
    · exact commitAt_of_not_inCommit fun hq => hqp (hcontrol.unique q p hq hxt)
  · intro hq
    exact hclear (hself ▸ hq p)

omit [DecidableEq P] in
/-- At the commit every modification of the group is listed. -/
lemma Running.pend_listed (h : Running L C M s) {p : P} (hp : (s.pc p).InCommit) :
    ∀ u ∈ s.pend, u.blk ∈ s.lh := by
  intro u hu
  rcases h.pending u hu with hl | ⟨q, hq⟩
  · exact hl
  · exact absurd hq.inOp (h.control.noOp hp q)

omit [DecidableEq P] in
/-- While the committing process is not installing, the header on the disk is empty. -/
theorem Running.head_nil_of_commit (h : Running L C M s) {p : P} (hp : (s.pc p).InCommit)
    (hinst : ¬ (s.pc p).Installing) : s.disk.head = [] := by
  refine h.clear fun q hq => hinst ?_
  rw [← h.control.unique q p hq.inCommit hp]
  exact hq

omit [DecidableEq P] in
/-- While the committing process is not installing, the listed blocks are all dirty. -/
theorem Running.dirty_of_commit (h : Running L C M s) {p : P} (hp : (s.pc p).InCommit)
    (hinst : ¬ (s.pc p).Installing) : ∀ b ∈ s.lh, s.isDirty b = true := by
  refine h.lhDirty fun q hq => hinst ?_
  rw [← h.control.unique q p hq.inCommit hp]
  exact hq

omit [DecidableEq P] in
/-- The log's blocks are inside its area. -/
lemma area_of_lt {i n : ℕ} (hn : n < NBUF) (hsize : NBUF ≤ L.size) (hi : i < n) :
    L.Contains (L.start + i + 1) := by
  constructor <;> omega

omit [DecidableEq P] in
/-- **The buffers bound the log.** Once `write_log` has a buffer for a copy, fewer than `NBUF`
blocks are listed. -/
theorem Running.lh_lt (h : Running L C M s) (hbuf : Buffers s) (hsize : NBUF ≤ L.size) {p : P}
    {tail : ℕ} (hp : s.pc p = .writeLog tail)
    (hto : (s.cache (L.start + tail + 1)).isSome) : s.lh.length < NBUF := by
  have hat := h.commitAt p
  rw [hp] at hat
  rcases Nat.eq_zero_or_pos tail with rfl | htail
  · -- the first copy goes to a block of the log area, which is not listed
    have harea : L.Contains (L.start + 0 + 1) := area_of_lt (i := 0) (n := 1) (by decide) hsize
      Nat.zero_lt_one
    have hdirty := h.dirty_of_commit (p := p) (by rw [hp]; trivial) (by rw [hp]; exact id)
    exact hbuf.length_lt h.lhNodup hdirty hto fun hmem => h.lhHome _ hmem harea
  · exact hat.2.1 htail

lemma Running.writeLog (h : Running L C M s) (hsize : NBUF ≤ L.size) {p : P} {tail b : ℕ}
    (hp : s.pc p = .writeLog tail) (htail : s.lh[tail]? = some b) (hlen : s.lh.length < NBUF) :
    Running L C M { s.bwrite (L.start + tail + 1) (s.bread b) with
      pc := Function.update s.pc p (.writeLog (tail + 1)) } := by
  have hpc : (s.pc p).InCommit := by rw [hp]; trivial
  have hinst : ¬ (s.pc p).Installing := by rw [hp]; exact id
  have harea := area_of_lt hlen hsize (List.getElem?_eq_some_iff.mp htail).1
  have hat := h.commitAt p
  rw [hp] at hat
  obtain ⟨hpos, -, hat⟩ := hat
  refine h.commitStep (x := .writeLog (tail + 1)) hpc trivial rfl rfl rfl ?_ (.inl rfl)
    (fun _ c hc => ?_) (h.pend_listed hpc) ⟨hpos, fun _ => hlen, ?_⟩ fun _ => ?_
  · refine h.coherent.bwrite rfl rfl rfl ?_ fun hn => absurd harea hn
    rintro c (hc | hc) <;> cases hc
  · have hne : c ≠ L.start + tail + 1 := by rintro rfl; exact h.lhHome _ hc harea
    exact (bwrite_isDirty_ne _ _ _ _ hne).trans (h.dirty_of_commit hpc hinst c hc)
  · intro i c hi hic
    have hic' : s.lh[i]? = some c := hic
    show (s.bwrite (L.start + tail + 1) (s.bread b)).disk.blk (L.start + i + 1) = M c
    by_cases hit : i = tail
    · subst hit
      rw [bwrite_blk_self]
      have hcb : c = b := by rw [htail] at hic'; exact (Option.some.inj hic').symm
      rw [hcb]
      exact h.coherent.view b (h.lhHome b (List.mem_of_getElem? htail))
    · rw [bwrite_blk_ne _ _ _ _ (by omega)]
      exact hat i c (by omega) hic'
  · exact h.head_nil_of_commit hpc hinst

/-- All the blocks are in the log. -/
lemma Running.writeLogEnd (h : Running L C M s) {p : P} {tail : ℕ}
    (hp : s.pc p = .writeLog tail) (htail : s.lh.length ≤ tail) :
    Running L C M { s with pc := Function.update s.pc p .writeHead } := by
  have hpc : (s.pc p).InCommit := by rw [hp]; trivial
  have hinst : ¬ (s.pc p).Installing := by rw [hp]; exact id
  have hat := h.commitAt p
  rw [hp] at hat
  obtain ⟨hpos, hlen, hat⟩ := hat
  refine h.commitStep (x := .writeHead) hpc trivial rfl rfl rfl ?_ (.inl rfl)
    (fun _ => h.dirty_of_commit hpc hinst) (h.pend_listed hpc) ⟨hlen (by omega), ?_⟩ fun _ => ?_
  · refine h.coherent.move rfl rfl rfl ?_
    rintro c (hc | hc) <;> cases hc
  · intro i c hic
    have hi : i < s.lh.length := (List.getElem?_eq_some_iff.mp hic).1
    exact hat i c (by omega) hic
  · exact h.head_nil_of_commit hpc hinst

lemma Running.commitSome (h : Running L C M s) {p : P} (hp : s.pc p = .commit)
    (hn : 0 < s.lh.length) :
    Running L C M { s with pc := Function.update s.pc p (.writeLog 0) } := by
  have hpc : (s.pc p).InCommit := by rw [hp]; trivial
  have hinst : ¬ (s.pc p).Installing := by rw [hp]; exact id
  refine h.commitStep (x := .writeLog 0) hpc trivial rfl rfl rfl ?_ (.inl rfl)
    (fun _ => h.dirty_of_commit hpc hinst) (h.pend_listed hpc)
    ⟨hn, fun h0 => absurd h0 (Nat.lt_irrefl 0), fun i c hi => absurd hi (Nat.not_lt_zero i)⟩
    fun _ => h.head_nil_of_commit hpc hinst
  refine h.coherent.move rfl rfl rfl ?_
  rintro c (hc | hc) <;> cases hc

/-- An empty group has modified nothing. -/
lemma Running.commitNone (h : Running L C M s) {p : P} (hp : s.pc p = .commit)
    (hn : s.lh = []) : Running L C M { s with pc := Function.update s.pc p .committed } := by
  have hpc : (s.pc p).InCommit := by rw [hp]; trivial
  have hpend : s.pend = [] := by
    refine List.eq_nil_iff_forall_not_mem.mpr fun u hu => ?_
    have := h.pend_listed hpc u hu
    simp [hn] at this
  have hinst : ¬ (s.pc p).Installing := by rw [hp]; exact id
  refine h.commitStep (x := .committed) hpc trivial rfl rfl rfl ?_ (.inl rfl)
    (fun _ => h.dirty_of_commit hpc hinst) (h.pend_listed hpc) ⟨hn, hpend⟩
    fun _ => h.head_nil_of_commit hpc hinst
  refine h.coherent.move rfl rfl rfl ?_
  rintro c (hc | hc) <;> cases hc

/-- The header write: from here on the durable blocks are the ones the group saw. -/
theorem Running.writeHead (h : Running L C M s) {p : P} (hp : s.pc p = .writeHead) :
    Running L M M { s.writeHead with
      pc := Function.update s.pc p (.installTrans 0)
      committed := s.group ++ s.committed
      group := []
      past := s.past ++ s.pend
      pend := [] } := by
  have hpc : (s.pc p).InCommit := by rw [hp]; trivial
  refine h.commitStep (x := .installTrans 0) hpc trivial rfl rfl rfl ?_ (.inl rfl)
    (fun hx => absurd trivial hx) (fun u hu => absurd hu List.not_mem_nil)
    ⟨rfl, rfl, fun i c hi => absurd hi (Nat.not_lt_zero i)⟩ fun hx => absurd trivial hx
  refine h.coherent.move rfl rfl rfl ?_
  rintro c (hc | hc) <;> cases hc

omit [DecidableEq P] in
/-- What holds while the blocks are copied home. -/
lemma Running.installing (h : Running L C M s) {p : P} {tail : ℕ}
    (hp : s.pc p = .installTrans tail) :
    s.disk.head = s.lh ∧ s.pend = [] ∧
      ∀ i b, i < tail → s.lh[i]? = some b → s.disk.blk b = C b := by
  have := h.commitAt p
  rwa [hp] at this

omit [DecidableEq P] in
/-- The copy in the log that `install_trans` reads next. -/
lemma Running.bread_logged (h : Running L C M s) (hrec : Recoverable L C s.disk) {p : P}
    {tail b : ℕ} (hp : s.pc p = .installTrans tail) (htail : s.lh[tail]? = some b) :
    s.bread (L.start + tail + 1) = C b := by
  have hhead : s.disk.head[tail]? = some b := by rw [(h.installing hp).1]; exact htail
  have hfit := hrec.fits tail (List.getElem?_eq_some_iff.mp hhead).1
  have harea : L.Contains (L.start + tail + 1) := by constructor <;> omega
  obtain ⟨hd, hl⟩ := h.coherent.area _ harea
  rw [h.coherent.clean _ hd hl]
  exact hrec.logged tail b hhead

lemma Running.installTrans (h : Running L C C s) (hrec : Recoverable L C s.disk) {p : P}
    {tail b : ℕ} (hp : s.pc p = .installTrans tail) (htail : s.lh[tail]? = some b) :
    Running L C C { s.bwrite b (s.bread (L.start + tail + 1)) with
      pc := Function.update s.pc p (.installTrans (tail + 1)) } := by
  have hpc : (s.pc p).InCommit := by rw [hp]; trivial
  obtain ⟨hhead, hpend, hdone⟩ := h.installing hp
  have hcopy := h.bread_logged hrec hp htail
  refine h.commitStep (x := .installTrans (tail + 1)) hpc trivial rfl rfl rfl ?_ (.inl rfl)
    (fun hx => absurd trivial hx) (h.pend_listed hpc) ⟨hhead, hpend, ?_⟩
    fun hx => absurd trivial hx
  · refine h.coherent.bwrite rfl rfl rfl ?_ fun _ => hcopy
    rintro c (hc | hc) <;> cases hc
  · intro i c hi hic
    show (s.bwrite b (s.bread (L.start + tail + 1))).disk.blk c = C c
    have hic' : s.lh[i]? = some c := hic
    by_cases hcb : c = b
    · rw [hcb, bwrite_blk_self, hcopy]
    · rw [bwrite_blk_ne _ _ _ _ hcb]
      have hit : i ≠ tail := by
        rintro rfl
        rw [htail] at hic'
        exact hcb (Option.some.inj hic').symm
      exact hdone i c (by omega) hic'

omit [DecidableEq P] in
/-- Once every listed block is installed, all home blocks are in place. -/
theorem Recoverable.installed (hrec : Recoverable L C s.disk) {tail : ℕ}
    (hhead : s.lh = s.disk.head) (htail : s.lh.length ≤ tail)
    (hdone : ∀ i b, i < tail → s.lh[i]? = some b → s.disk.blk b = C b) (b : ℕ)
    (hb : ¬ L.Contains b) : s.disk.blk b = C b := by
  by_cases hmem : b ∈ s.disk.head
  · obtain ⟨i, hi⟩ := List.mem_iff_getElem?.mp (hhead ▸ hmem)
    have hlt := (List.getElem?_eq_some_iff.mp hi).1
    exact hdone i b (by omega) hi
  · exact hrec.inPlace b hb hmem

lemma Running.installTransEnd (h : Running L C C s) (hrec : Recoverable L C s.disk) {p : P}
    {tail : ℕ} (hp : s.pc p = .installTrans tail) (htail : s.lh.length ≤ tail) :
    Running L C C { s with lh := [], pc := Function.update s.pc p .clearHead } := by
  have hpc : (s.pc p).InCommit := by rw [hp]; trivial
  obtain ⟨hhead, hpend, hdone⟩ := h.installing hp
  refine h.commitStep (x := .clearHead) hpc trivial rfl rfl rfl ?_ (.inr rfl)
    (fun hx => absurd trivial hx) ?_
    ⟨rfl, hpend, hrec.installed hhead.symm htail hdone⟩ fun hx => absurd trivial hx
  · refine h.coherent.move rfl rfl rfl ?_
    rintro c (hc | hc) <;> cases hc
  · intro u hu
    have hu' : u ∈ s.pend := hu
    rw [hpend] at hu'
    cases hu'

/-- The log on disk is empty again. -/
lemma Running.clearHead (h : Running L C C s) {p : P} (hp : s.pc p = .clearHead) :
    Running L C C { s.writeHead with pc := Function.update s.pc p .committed } := by
  have hpc : (s.pc p).InCommit := by rw [hp]; trivial
  have hat : s.lh = [] ∧ s.pend = [] ∧ ∀ b, ¬ L.Contains b → s.disk.blk b = C b := by
    have := h.commitAt p
    rwa [hp] at this
  have hnone : ∀ b, b ∉ s.lh := fun b hb => by
    rw [hat.1] at hb
    cases hb
  refine h.commitStep (x := .committed) hpc trivial rfl rfl rfl ?_ (.inl rfl)
    (fun _ b hb => absurd hb (hnone b)) (h.pend_listed hpc) ⟨hat.1, hat.2.1⟩ fun _ => hat.1
  refine h.coherent.move rfl rfl rfl ?_
  rintro c (hc | hc) <;> cases hc

/-- The log is open for the next operation. -/
lemma Running.committed (h : Running L C M s) {p : P} (hp : s.pc p = .committed) :
    Running L C M { s with
      committing := false
      pc := Function.update s.pc p .out } := by
  have hpc : (s.pc p).InCommit := by rw [hp]; trivial
  have hother : ∀ q, q ≠ p → ¬ (s.pc q).InCommit := fun q hqp hq =>
    hqp (h.control.unique q p hq hpc)
  have hinst : ¬ (s.pc p).Installing := by rw [hp]; exact id
  refine ⟨h.control.committed hp rfl rfl, ?_, ?_, h.lhHome, h.lhNodup,
    fun _ => h.dirty_of_commit hpc hinst, fun u hu => .inl (h.pend_listed hpc u hu), ?_,
    fun _ => h.head_nil_of_commit hpc hinst⟩
  · intro q hq
    by_cases hqp : q = p
    · subst hqp
      simp only [Function.update_self] at hq
      exact hq.elim
    · simp only [Function.update_of_ne hqp] at hq
      exact absurd hq (h.control.noOp hpc q)
  · refine h.coherent.move rfl rfl rfl ?_
    rintro c (hc | hc) <;> cases hc
  · intro q
    by_cases hqp : q = p
    · subst hqp; simp only [Function.update_self]; trivial
    · simp only [Function.update_of_ne hqp]
      exact commitAt_of_not_inCommit (hother q hqp)

/-! ## The disk -/

/-- With an empty header the blocks are what counts. -/
lemma Recoverable.ofHead_nil {C : ℕ → β} {d : Disk β} (hhead : d.head = [])
    (hblk : ∀ b, ¬ L.Contains b → d.blk b = C b) : Recoverable L C d where
  home b hb := by rw [hhead] at hb; cases hb
  fits i hi := by rw [hhead] at hi; exact absurd hi (Nat.not_lt_zero i)
  logged i b hi := by rw [hhead] at hi; cases hi
  inPlace b hb _ := hblk b hb

omit [DecidableEq P] in
/-- Writing a log block while no group is committed. -/
lemma Recoverable.writeLog (hrec : Recoverable L C s.disk) (hhead : s.disk.head = [])
    {c : ℕ} (hc : L.Contains c) (v : β) : Recoverable L C (s.bwrite c v).disk := by
  refine .ofHead_nil hhead fun b hb => ?_
  have hbc : b ≠ c := by rintro rfl; exact hb hc
  rw [bwrite_blk_ne _ _ _ _ hbc]
  exact hrec.inPlace b hb (by simp [hhead])

omit [DecidableEq P] in
/-- Copying a listed block home. -/
lemma Recoverable.install (hrec : Recoverable L C s.disk) {i b : ℕ}
    (hi : s.disk.head[i]? = some b) {v : β} (hv : v = C b) :
    Recoverable L C (s.bwrite b v).disk := by
  have hmem := List.mem_of_getElem? hi
  refine ⟨hrec.home, hrec.fits, ?_, ?_⟩
  · intro j c hj
    have hj' : s.disk.head[j]? = some c := hj
    have hfit := hrec.fits j (List.getElem?_eq_some_iff.mp hj').1
    -- the copy is inside the log area, the block it belongs to outside
    have hne : L.start + j + 1 ≠ b := by
      rintro rfl
      refine hrec.home _ hmem ⟨?_, ?_⟩ <;> omega
    rw [bwrite_blk_ne _ _ _ _ hne]
    exact hrec.logged j c hj'
  · intro c hc hcm
    have hcb : c ≠ b := by rintro rfl; exact hcm hmem
    rw [bwrite_blk_ne _ _ _ _ hcb]
    exact hrec.inPlace c hc hcm

omit [DecidableEq P] in
/-- The header write commits the group: the blocks it lists are all in the log, and the
others were not touched by the group. -/
theorem Running.recoverable_writeHead {d₀ : ℕ → β}
    (h : Running L (durable d₀ s) (volatile d₀ s) s)
    (hrec : Recoverable L (durable d₀ s) s.disk) (hsize : NBUF ≤ L.size) {p : P}
    (hp : s.pc p = .writeHead) : Recoverable L (volatile d₀ s) s.writeHead.disk := by
  have hpc : (s.pc p).InCommit := by rw [hp]; trivial
  have hhead := h.head_nil_of_commit hpc (by rw [hp]; exact id)
  have hat := h.commitAt p
  rw [hp] at hat
  obtain ⟨hlen, hat⟩ := hat
  refine ⟨h.lhHome, fun i hi => ?_, hat, ?_⟩
  · have hi' : i < s.lh.length := hi
    omega
  · intro b hb hlh
    have hnot : ∀ u ∈ s.pend, u.blk ≠ b := by
      rintro u hu rfl
      exact hlh (h.pend_listed hpc u hu)
    rw [volatile, replay_of_notMem hnot]
    exact hrec.inPlace b hb (by simp [hhead])

/-! ## Recovery -/

omit [DecidableEq P] in
/-- Recovery writes a block and goes on. -/
lemma Recovering.bwrite (h : Recovering C s) (b : ℕ) (v : β) (m : Mode) :
    Recovering C { s.bwrite b v with mode := m } := by
  refine ⟨h.idle, fun c => ?_⟩
  by_cases hcb : c = b
  · subst hcb
    refine ⟨bwrite_isDirty_self s c v, ?_, ?_⟩
    · exact (bwrite_isLocked s c c v).trans (h.clean c).2.1
    · exact (bwrite_bread_self s c v).trans (bwrite_blk_self s c v).symm
  · obtain ⟨h1, h2, h3⟩ := h.clean c
    refine ⟨(bwrite_isDirty_ne s b c v hcb).trans h1, (bwrite_isLocked s b c v).trans h2, ?_⟩
    exact (bwrite_bread_ne s b c v hcb).trans (h3.trans (bwrite_blk_ne s b c v hcb).symm)

omit [DecidableEq P] in
/-- The last step of recovery: processes may run. -/
lemma Recovering.up (h : Recovering C s) (hlh : s.lh = [])
    (hblk : ∀ b, ¬ L.Contains b → s.disk.blk b = C b) :
    Running L C C { s.writeHead with mode := .up } := by
  obtain ⟨hpend, hout, hcom, hpc⟩ := h.idle
  have hnone : ∀ p, ¬ (s.pc p).InOp ∧ ¬ (s.pc p).InCommit := fun p => by
    rw [hpc p]; exact ⟨id, id⟩
  have hnil : ∀ b, b ∉ s.lh := fun b hb => by
    rw [hlh] at hb
    cases hb
  refine ⟨.ofOut hout hpc, ?_, ?_, fun b hb => absurd hb (hnil b), ?_,
    fun _ b hb => absurd hb (hnil b), ?_, ?_, ?_⟩
  · exact fun p hp => absurd hp (hnone p).1
  · refine ⟨fun b _ _ => (h.clean b).2.2, fun b _ => ⟨(h.clean b).1, (h.clean b).2.1⟩, ?_, ?_, ?_⟩
    · exact fun b hb => ((h.clean b).2.2).trans (hblk b hb)
    · exact fun p b hp => absurd hp.inOp (hnone p).1
    · exact fun p q b hp => absurd hp.inOp (hnone p).1
  · show s.lh.Nodup
    rw [hlh]
    exact List.nodup_nil
  · intro u hu
    have hu' : u ∈ s.pend := hu
    rw [hpend] at hu'
    cases hu'
  · exact fun p => commitAt_of_not_inCommit (hnone p).2
  · exact fun _ => hlh

end Log
end OhMyXv6
