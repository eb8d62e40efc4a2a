import Mathlib.Data.List.Nodup
import OhMyXv6.Lib.Runs
import OhMyXv6.Log.Invariant

/-!
# The steps of the operations

An operation reads a buffer, changes it and puts its block on the list. Each of these steps keeps the invariant
of `Log.Invariant`, and so do the buffers that come and go for other reasons.
-/

namespace OhMyXv6
namespace Log

variable {P β : Type} [DecidableEq P] {L : Area} {C M : ℕ → β} {s t : State P β}

/-! ## The cache -/

/-- Only a program counter moves. -/
lemma Coherent.move (h : Coherent L M s) {p : P} {x : Pc}
    (hpc : t.pc = Function.update s.pc p x) (hcache : t.cache = s.cache)
    (hdisk : t.disk.blk = s.disk.blk) (hx : ∀ b, x.Holds b → (s.pc p).Holds b) :
    Coherent L M t := by
  have hread : ∀ b, t.bread b = s.bread b := fun b => by
    rw [State.bread, State.bread, hcache, hdisk]
  have hlock : ∀ b, t.isLocked b = s.isLocked b := fun b => by
    rw [State.isLocked, State.isLocked, hcache]
  have hdirty : ∀ b, t.isDirty b = s.isDirty b := fun b => by
    rw [State.isDirty, State.isDirty, hcache]
  have hheld : ∀ q b, (t.pc q).Holds b → (s.pc q).Holds b := by
    intro q b hq
    rw [hpc] at hq
    by_cases hqp : q = p
    · subst hqp
      rw [Function.update_self] at hq
      exact hx b hq
    · rwa [Function.update_of_ne hqp] at hq
  refine ⟨?_, ?_, ?_, ?_, fun q r b hq hr => h.holder q r b (hheld q b hq) (hheld r b hr)⟩
  · intro b hd hl
    rw [hread, hdisk]
    exact h.clean b (hdirty b ▸ hd) (hlock b ▸ hl)
  · intro b hb
    rw [hdirty, hlock]
    exact h.area b hb
  · intro b hb
    rw [hread]
    exact h.view b hb
  · intro q b hq
    rw [hlock]
    exact h.locked q b (hheld q b hq)

omit [DecidableEq P] in
/-- One buffer is replaced by another that holds what the operations are to see, while the
disk stays as it is. -/
theorem Coherent.setBuf (h : Coherent L M s) {M' : ℕ → β} {b : ℕ} {buf : Buf β}
    (hcache : t.cache = Function.update s.cache b (some buf)) (hdisk : t.disk = s.disk)
    (hb : ¬ L.Contains b) (hflag : buf.dirty = true ∨ buf.locked = true)
    (hdata : buf.data = M' b) (hM : ∀ c, c ≠ b → M' c = M c)
    (hheld : ∀ q c, (t.pc q).Holds c → c = b ∧ buf.locked = true ∨ c ≠ b ∧ (s.pc q).Holds c)
    (hone : ∀ q r, (t.pc q).Holds b → (t.pc r).Holds b → q = r) : Coherent L M' t := by
  have hread : ∀ c, c ≠ b → t.bread c = s.bread c := fun c hc => by
    rw [State.bread, State.bread, hcache, Function.update_of_ne hc, hdisk]
  have hself : t.bread b = buf.data := by rw [State.bread, hcache, Function.update_self]
  have hlock : ∀ c, c ≠ b → t.isLocked c = s.isLocked c := fun c hc => by
    rw [State.isLocked, State.isLocked, hcache, Function.update_of_ne hc]
  have hdirty : ∀ c, c ≠ b → t.isDirty c = s.isDirty c := fun c hc => by
    rw [State.isDirty, State.isDirty, hcache, Function.update_of_ne hc]
  have hlockb : t.isLocked b = buf.locked := by
    rw [State.isLocked, hcache, Function.update_self]
  have hdirtyb : t.isDirty b = buf.dirty := by
    rw [State.isDirty, hcache, Function.update_self]
  refine ⟨?_, ?_, ?_, ?_, ?_⟩
  · intro c hd hl
    -- the changed buffer is dirty or locked, so nothing is asked of it
    by_cases hc : c = b
    · subst hc
      rw [hdirtyb] at hd
      rw [hlockb] at hl
      rcases hflag with hf | hf
      · rw [hf] at hd; cases hd
      · rw [hf] at hl; cases hl
    · rw [hread c hc, hdisk]
      exact h.clean c (hdirty c hc ▸ hd) (hlock c hc ▸ hl)
  · intro c hc
    have hcb : c ≠ b := by rintro rfl; exact hb hc
    rw [hdirty c hcb, hlock c hcb]
    exact h.area c hc
  · intro c hc
    by_cases hcb : c = b
    · rw [hcb, hself, hdata]
    · rw [hread c hcb, hM c hcb]
      exact h.view c hc
  · intro q c hq
    rcases hheld q c hq with ⟨rfl, hl⟩ | ⟨hcb, hq'⟩
    · exact ⟨by rw [hlockb, hl], hb⟩
    · rw [hlock c hcb]
      exact h.locked q c hq'
  · intro q r c hq hr
    rcases hheld q c hq with ⟨rfl, -⟩ | ⟨hcb, hq'⟩
    · exact hone q r hq hr
    · rcases hheld r c hr with ⟨rfl, -⟩ | ⟨-, hr'⟩
      · exact absurd rfl hcb
      · exact h.holder q r c hq' hr'

/-- `bwrite` of a block of the log area, or of a home block with the contents the operations
see. -/
theorem Coherent.bwrite (h : Coherent L M s) {p : P} {x : Pc} {b : ℕ} {v : β}
    (hpc : t.pc = Function.update s.pc p x) (hcache : t.cache = (s.bwrite b v).cache)
    (hdisk : t.disk.blk = (s.bwrite b v).disk.blk) (hx : ∀ c, ¬ x.Holds c)
    (hv : ¬ L.Contains b → v = M b) : Coherent L M t := by
  have hread : ∀ c, t.bread c = (s.bwrite b v).bread c := fun c => by
    rw [State.bread, State.bread, hcache, hdisk]
  have hlock : ∀ c, t.isLocked c = s.isLocked c := fun c => by
    rw [← bwrite_isLocked s b c v, State.isLocked, State.isLocked, hcache]
  have hdirty : ∀ c, t.isDirty c = (s.bwrite b v).isDirty c := fun c => by
    rw [State.isDirty, State.isDirty, hcache]
  have hheld : ∀ q c, (t.pc q).Holds c → (s.pc q).Holds c := by
    intro q c hq
    rw [hpc] at hq
    by_cases hqp : q = p
    · subst hqp
      rw [Function.update_self] at hq
      exact absurd hq (hx c)
    · rwa [Function.update_of_ne hqp] at hq
  refine ⟨?_, ?_, ?_, ?_, fun q r c hq hr => h.holder q r c (hheld q c hq) (hheld r c hr)⟩
  · intro c hd hl
    rw [hread, hdisk]
    -- cache and disk agree on the block just written
    by_cases hc : c = b
    · rw [hc, bwrite_bread_self, bwrite_blk_self]
    · rw [bwrite_bread_ne _ _ _ _ hc, bwrite_blk_ne _ _ _ _ hc]
      rw [hdirty, bwrite_isDirty_ne _ _ _ _ hc] at hd
      exact h.clean c hd (hlock c ▸ hl)
  · intro c hc
    rw [hdirty, hlock]
    refine ⟨?_, (h.area c hc).2⟩
    by_cases hcb : c = b
    · rw [hcb, bwrite_isDirty_self]
    · rw [bwrite_isDirty_ne _ _ _ _ hcb]
      exact (h.area c hc).1
  · intro c hc
    rw [hread]
    by_cases hcb : c = b
    · subst hcb
      rw [bwrite_bread_self, hv hc]
    · rw [bwrite_bread_ne _ _ _ _ hcb]
      exact h.view c hc
  · intro q c hq
    rw [hlock]
    exact h.locked q c (hheld q c hq)

omit [DecidableEq P] in
/-- A clean, unlocked buffer may be dropped or filled from the disk. -/
theorem Coherent.setClean (h : Coherent L M s) {b : ℕ} {o : Option (Buf β)}
    (hcache : t.cache = Function.update s.cache b o) (hdisk : t.disk = s.disk)
    (hpc : t.pc = s.pc) (hd : s.isDirty b = false) (hl : s.isLocked b = false)
    (ho : o = none ∨ o = some ⟨s.disk.blk b, false, false⟩) : Coherent L M t := by
  have hother : ∀ c, c ≠ b → t.bread c = s.bread c ∧ t.isLocked c = s.isLocked c ∧
      t.isDirty c = s.isDirty c := by
    intro c hc
    simp only [State.bread, State.isLocked, State.isDirty, hcache, Function.update_of_ne hc, hdisk,
      and_self]
  have hself : t.bread b = s.disk.blk b ∧ t.isLocked b = false ∧ t.isDirty b = false := by
    rcases ho with rfl | rfl <;>
      simp [State.bread, State.isLocked, State.isDirty, hcache, hdisk]
  refine ⟨?_, ?_, ?_, ?_, by rw [hpc]; exact h.holder⟩
  · intro c hcd hcl
    rw [hdisk]
    -- the block that was read shows what the disk has
    by_cases hc : c = b
    · rw [hc, hself.1]
    · obtain ⟨h1, h2, h3⟩ := hother c hc
      rw [h1]
      exact h.clean c (h3 ▸ hcd) (h2 ▸ hcl)
  · intro c hca
    by_cases hc : c = b
    · rw [hc]
      exact ⟨hself.2.2, hself.2.1⟩
    · obtain ⟨-, h2, h3⟩ := hother c hc
      rw [h2, h3]
      exact h.area c hca
  · intro c hca
    by_cases hc : c = b
    · subst hc
      rw [hself.1, ← h.clean c hd hl]
      exact h.view c hca
    · rw [(hother c hc).1]
      exact h.view c hca
  · intro q c hq
    rw [hpc] at hq
    have hqs := h.locked q c hq
    have hc : c ≠ b := by
      rintro rfl
      rw [hl] at hqs
      exact Bool.noConfusion hqs.1
    rw [(hother c hc).2.1]
    exact hqs

/-! ## Steps of the operations -/

omit [DecidableEq P] in
/-- Outside the commit there is nothing to say. -/
lemma commitAt_of_not_inCommit {pc : Pc} (h : ¬ pc.InCommit) : CommitAt L C M s pc := by
  cases pc <;> first | trivial | exact absurd trivial h

omit [DecidableEq P] in
/-- While some process is inside an operation the header on the disk is empty. -/
theorem Running.head_nil (h : Running L C M s) {p : P} (hp : (s.pc p).InOp) :
    s.disk.head = [] :=
  h.clear fun q hq => h.control.noCommit hp q hq.inCommit

omit [DecidableEq P] in
/-- While some process is inside an operation the listed blocks are all dirty. -/
theorem Running.dirty (h : Running L C M s) {p : P} (hp : (s.pc p).InOp) :
    ∀ b ∈ s.lh, s.isDirty b = true :=
  h.lhDirty fun q hq => h.control.noCommit hp q hq.inCommit

lemma Running.beginOp (h : Running L C M s) {p : P} (hp : s.pc p = .out)
    (hcom : s.committing = false) :
    Running L C M { s with
      outstanding := s.outstanding + 1
      pc := Function.update s.pc p .op
      opId := Function.update s.opId p s.nextOp
      nextOp := s.nextOp + 1
      group := s.nextOp :: s.group
      logged := Function.update s.logged p [] } := by
  have hcontrol := h.control.beginOp (t := { s with
      outstanding := s.outstanding + 1
      pc := Function.update s.pc p .op
      opId := Function.update s.opId p s.nextOp
      nextOp := s.nextOp + 1
      group := s.nextOp :: s.group
      logged := Function.update s.logged p [] }) hp hcom rfl rfl
  -- nobody commits, since `committing` is clear
  have hnone : ∀ q, ¬ (s.pc q).InCommit := by
    intro q hq
    have := (h.control.committing q hq).1
    simp [hcom] at this
  have hheld : ∀ q b, (s.pc q).Holds b → (Function.update s.pc p .op q).Holds b := by
    intro q b hq
    by_cases hqp : q = p
    · subst hqp
      rw [hp] at hq
      exact absurd hq.inOp id
    · rwa [Function.update_of_ne hqp]
  have hnoop : ∀ b, ¬ Pc.op.Holds b := fun b hb => by rcases hb with hb | hb <;> cases hb
  refine ⟨hcontrol, ?_, ?_, h.lhHome, h.lhNodup, fun _ => h.lhDirty fun q hq => hnone q hq.inCommit,
    ?_, ?_, fun _ => ?_⟩
  · intro q hq
    by_cases hqp : q = p
    · subst hqp; simp
    · simp only [Function.update_of_ne hqp] at hq ⊢
      exact List.mem_cons_of_mem _ (h.current q hq)
  · exact h.coherent.move rfl rfl rfl fun b hb => absurd hb (hnoop b)
  · intro u hu
    rcases h.pending u hu with hl | ⟨q, hq⟩
    · exact .inl hl
    · exact .inr ⟨q, hheld q _ hq⟩
  · exact fun q => commitAt_of_not_inCommit (hcontrol.noCommit (p := p) (by simp [Pc.InOp]) q)
  · exact h.clear fun q hq => hnone q hq.inCommit

/-- A block is changed in memory only. -/
lemma Running.modify (h : Running L C M s) {p : P} {b : ℕ} {v : β} {M' : ℕ → β}
    (hp : s.pc p = .op) (hlock : s.isLocked b = false) (hb : ¬ L.Contains b)
    (hv : M' b = v) (hM : ∀ c, c ≠ b → M' c = M c) :
    Running L C M' { s with
      cache := Function.update s.cache b (some ⟨v, s.isDirty b, true⟩)
      pc := Function.update s.pc p (.modified b)
      pend := s.pend ++ [⟨s.opId p, b, v⟩] } := by
  have hop : (s.pc p).InOp := by rw [hp]; trivial
  -- the lock is free, so nobody else has unlogged changes to the block
  have hfree : ∀ q, ¬ (s.pc q).Holds b := by
    intro q hq
    have := (h.coherent.locked q b hq).1
    simp [hlock] at this
  have hmod : ∀ c, (Pc.modified b).Holds c → c = b := by
    rintro c (hc | hc)
    · exact (Pc.modified.inj hc).symm
    · cases hc
  have hcontrol : Control { s with
      cache := Function.update s.cache b (some ⟨v, s.isDirty b, true⟩)
      pc := Function.update s.pc p (.modified b)
      pend := s.pend ++ [⟨s.opId p, b, v⟩] } := by
    exact h.control.move rfl rfl rfl (by rw [hp]; exact Iff.rfl) fun hx => hx.elim
  refine ⟨hcontrol, ?_, ?_, h.lhHome, h.lhNodup, fun _ c hc => ?_, ?_, ?_,
    fun _ => h.head_nil hop⟩
  · intro q hq
    by_cases hqp : q = p
    · subst hqp; exact h.current q hop
    · simp only [Function.update_of_ne hqp] at hq
      exact h.current q hq
  · have honly : ∀ q, (Function.update s.pc p (.modified b) q).Holds b → q = p := by
      intro q hq
      by_contra hqp
      rw [Function.update_of_ne hqp] at hq
      exact hfree q hq
    refine h.coherent.setBuf rfl rfl hb (.inr rfl) hv.symm hM ?_
      fun q r hq hr => (honly q hq).trans (honly r hr).symm
    intro q c hq
    by_cases hqp : q = p
    · subst hqp
      simp only [Function.update_self] at hq
      exact .inl ⟨hmod c hq, rfl⟩
    · simp only [Function.update_of_ne hqp] at hq
      refine .inr ⟨?_, hq⟩
      rintro rfl
      exact hfree q hq
  · have hd := h.dirty hop c hc
    by_cases hcb : c = b
    · subst hcb; simpa [State.isDirty] using hd
    · simpa [State.isDirty, hcb] using hd
  · intro u hu
    rcases List.mem_append.mp hu with hu | hu
    · rcases h.pending u hu with hl | ⟨q, hq⟩
      · exact .inl hl
      · refine .inr ⟨q, ?_⟩
        have hqp : q ≠ p := by
          rintro rfl
          rw [hp] at hq
          rcases hq with hq | hq <;> cases hq
        simpa only [Function.update_of_ne hqp] using hq
    · rw [List.mem_singleton.mp hu]
      exact .inr ⟨p, .inl (Function.update_self _ _ _)⟩
  · exact fun q => commitAt_of_not_inCommit (hcontrol.noCommit (p := p) (by simp [Pc.InOp]) q)

/-- `log_write` checks its limits. -/
lemma Running.logWrite (h : Running L C M s) {p : P} {b : ℕ} (hp : s.pc p = .modified b) :
    Running L C M { s with pc := Function.update s.pc p (.checked b) } := by
  have hop : (s.pc p).InOp := by rw [hp]; trivial
  have hchk : ∀ c, (Pc.checked b).Holds c ↔ (s.pc p).Holds c := by
    intro c
    rw [hp]
    simp [Pc.Holds]
  have hcontrol : Control { s with pc := Function.update s.pc p (.checked b) } := by
    exact h.control.move rfl rfl rfl (by rw [hp]; exact Iff.rfl) fun hx => hx.elim
  refine ⟨hcontrol, ?_, ?_, h.lhHome, h.lhNodup, fun _ => h.dirty hop, ?_, ?_,
    fun _ => h.head_nil hop⟩
  · intro q hq
    by_cases hqp : q = p
    · subst hqp; exact h.current q hop
    · simp only [Function.update_of_ne hqp] at hq
      exact h.current q hq
  · exact h.coherent.move rfl rfl rfl fun c hc => (hchk c).mp hc
  · intro u hu
    rcases h.pending u hu with hl | ⟨q, hq⟩
    · exact .inl hl
    · refine .inr ⟨q, ?_⟩
      by_cases hqp : q = p
      · subst hqp
        simpa only [Function.update_self] using (hchk _).mpr hq
      · simpa only [Function.update_of_ne hqp] using hq
  · exact fun q => commitAt_of_not_inCommit (hcontrol.noCommit (p := p) (by simp [Pc.InOp]) q)

/-- The block is in the list, once. -/
lemma Running.append (h : Running L C M s) {p : P} {b : ℕ} (hp : s.pc p = .checked b) :
    Running L C M { s with
      lh := if b ∈ s.lh then s.lh else s.lh ++ [b]
      cache := Function.update s.cache b (some ⟨s.bread b, true, false⟩)
      pc := Function.update s.pc p .op
      logged := Function.update s.logged p (s.logged p ++ [b]) } := by
  have hop : (s.pc p).InOp := by rw [hp]; trivial
  have hheldb : (s.pc p).Holds b := by rw [hp]; exact .inr rfl
  have hhome := (h.coherent.locked p b hheldb).2
  have hnoop : ∀ c, ¬ Pc.op.Holds c := fun c hc => by rcases hc with hc | hc <;> cases hc
  -- the block is in the list afterwards, whether it was before or not
  have hmem : ∀ c, c ∈ s.lh ∨ c = b → c ∈ (if b ∈ s.lh then s.lh else s.lh ++ [b]) := by
    intro c hc
    split
    · rcases hc with hc | rfl <;> assumption
    · simpa using hc
  have hcontrol : Control { s with
      lh := if b ∈ s.lh then s.lh else s.lh ++ [b]
      cache := Function.update s.cache b (some ⟨s.bread b, true, false⟩)
      pc := Function.update s.pc p .op
      logged := Function.update s.logged p (s.logged p ++ [b]) } :=
    h.control.move rfl rfl rfl (by rw [hp]; exact Iff.rfl) fun hx => hx.elim
  refine ⟨hcontrol, ?_, ?_, ?_, ?_, fun _ c hc => ?_, ?_, ?_, fun _ => h.head_nil hop⟩
  · intro q hq
    by_cases hqp : q = p
    · subst hqp; exact h.current q hop
    · simp only [Function.update_of_ne hqp] at hq
      exact h.current q hq
  -- the buffer is given back
  · have hnone : ∀ q, ¬ (Function.update s.pc p .op q).Holds b := by
      intro q hq
      by_cases hqp : q = p
      · subst hqp
        rw [Function.update_self] at hq
        exact hnoop b hq
      · rw [Function.update_of_ne hqp] at hq
        exact hqp (h.coherent.holder q p b hq hheldb)
    refine h.coherent.setBuf rfl rfl hhome (.inl rfl) (h.coherent.view b hhome) (fun _ _ => rfl) ?_
      fun q r hq => absurd hq (hnone q)
    intro q c hq
    by_cases hqp : q = p
    · subst hqp
      simp only [Function.update_self] at hq
      exact absurd hq (hnoop c)
    · refine .inr ⟨?_, by simpa only [Function.update_of_ne hqp] using hq⟩
      rintro rfl
      exact hnone q hq
  · intro c hc
    simp only at hc
    split at hc
    · exact h.lhHome c hc
    · rcases List.mem_append.mp hc with hc | hc
      · exact h.lhHome c hc
      · rw [List.mem_singleton.mp hc]; exact hhome
  · simp only
    split
    · exact h.lhNodup
    · next hb =>
      rw [← List.concat_eq_append]
      exact List.Nodup.concat hb h.lhNodup
  · by_cases hcb : c = b
    · subst hcb; simp [State.isDirty]
    · have hd := h.dirty hop c (by simp only at hc; split at hc <;> simp_all)
      simpa [State.isDirty, hcb] using hd
  -- an update of another process stays with its holder
  · intro u hu
    rcases h.pending u hu with hl | ⟨q, hq⟩
    · exact .inl (hmem _ (.inl hl))
    · by_cases hqp : q = p
      · subst hqp
        rw [hp] at hq
        rcases hq with hq | hq
        · cases hq
        · exact .inl (hmem _ (.inr (Pc.checked.inj hq).symm))
      · exact .inr ⟨q, by simpa only [Function.update_of_ne hqp] using hq⟩
  · exact fun q => commitAt_of_not_inCommit (hcontrol.noCommit (p := p) (by simp [Pc.InOp]) q)

/-- A process leaves its operation, with or without a commit to make. -/
theorem Running.endOp (h : Running L C M s) {p : P} {x : Pc} {n : ℕ} {c : Bool}
    (hp : s.pc p = .op) (hn : n = s.outstanding - 1)
    (hx : x = .out ∨ x = .commit ∧ c = true ∧ s.outstanding - 1 = 0) :
    Running L C M { s with
      outstanding := n
      committing := c
      pc := Function.update s.pc p x } := by
  have hop : (s.pc p).InOp := by rw [hp]; trivial
  have hnohold : ∀ b, ¬ x.Holds b := by
    rintro b (hb | hb) <;> rcases hx with rfl | ⟨rfl, -⟩ <;> cases hb
  refine ⟨h.control.endOp hp rfl hn hx, ?_, ?_, h.lhHome, h.lhNodup, fun _ => h.dirty hop, ?_, ?_,
    fun _ => h.head_nil hop⟩
  · intro q hq
    by_cases hqp : q = p
    · subst hqp; exact h.current q hop
    · simp only [Function.update_of_ne hqp] at hq
      exact h.current q hq
  · exact h.coherent.move rfl rfl rfl fun b hb => absurd hb (hnohold b)
  · intro u hu
    rcases h.pending u hu with hl | ⟨q, hq⟩
    · exact .inl hl
    · refine .inr ⟨q, ?_⟩
      have hqp : q ≠ p := by
        rintro rfl
        rw [hp] at hq
        rcases hq with hq | hq <;> cases hq
      simpa only [Function.update_of_ne hqp] using hq
  · intro q
    by_cases hqp : q = p
    · subst hqp
      simp only [Function.update_self]
      rcases hx with rfl | ⟨rfl, -⟩ <;> trivial
    · simp only [Function.update_of_ne hqp]
      exact commitAt_of_not_inCommit (h.control.noCommit hop q)

/-! ## Buffers that come and go -/

section
omit [DecidableEq P]

/-- A clean buffer that comes or goes makes nothing dirty. -/
lemma setClean_isDirty {b : ℕ} {o : Option (Buf β)}
    (hcache : t.cache = Function.update s.cache b o) (hd : s.isDirty b = false)
    (ho : o = none ∨ o = some ⟨s.disk.blk b, false, false⟩) (c : ℕ) :
    t.isDirty c = s.isDirty c := by
  by_cases hc : c = b
  · subst hc
    rw [hd]
    rcases ho with rfl | rfl <;> simp [State.isDirty, hcache]
  · simp [State.isDirty, hcache, hc]

/-- A clean buffer comes into the cache or leaves it. -/
lemma Running.setClean (h : Running L C M s) {b : ℕ} {o : Option (Buf β)} (bs : List ℕ)
    (hd : s.isDirty b = false) (hl : s.isLocked b = false)
    (ho : o = none ∨ o = some ⟨s.disk.blk b, false, false⟩) :
    Running L C M { s with cache := Function.update s.cache b o, bufs := bs } := by
  refine ⟨⟨h.control.active, h.control.committing, h.control.unique⟩, h.current,
    h.coherent.setClean rfl rfl rfl hd hl ho, h.lhHome, h.lhNodup, ?_, h.pending, ?_, h.clear⟩
  · intro hq c hc
    rw [setClean_isDirty rfl hd ho]
    exact h.lhDirty hq c hc
  · intro p
    have hp := h.commitAt p
    show CommitAt L C M _ (s.pc p)
    cases hpc : s.pc p <;> rw [hpc] at hp <;> exact hp

/-- Only the counts of references change. -/
lemma Running.setRefs (h : Running L C M s) (r : ℕ → ℕ) :
    Running L C M { s with refs := r } := by
  obtain ⟨hcl, har, hv, hlk, hho⟩ := h.coherent
  refine ⟨⟨h.control.active, h.control.committing, h.control.unique⟩, h.current,
    ⟨hcl, har, hv, hlk, hho⟩, h.lhHome, h.lhNodup, h.lhDirty, h.pending, ?_, h.clear⟩
  intro p
  have hp := h.commitAt p
  show CommitAt L C M _ (s.pc p)
  cases hpc : s.pc p <;> rw [hpc] at hp <;> exact hp

lemma Recovering.setClean (h : Recovering C s) {b : ℕ} {o : Option (Buf β)} (bs : List ℕ)
    (ho : o = none ∨ o = some ⟨s.disk.blk b, false, false⟩) :
    Recovering C { s with cache := Function.update s.cache b o, bufs := bs } := by
  refine ⟨h.idle, fun c => ?_⟩
  by_cases hc : c = b
  · subst hc
    rcases ho with rfl | rfl <;> simp [State.bread, State.isLocked, State.isDirty]
  · have hcl := h.clean c
    simpa [State.bread, State.isLocked, State.isDirty, hc] using hcl

lemma atMode_iff : AtMode L C M s ↔
    (s.mode = .up → Running L C M s) ∧ (s.mode = .readHead → Recovering C s) ∧
    (∀ tail, s.mode = .recover tail → Recovering C s ∧ s.lh = s.disk.head ∧
      ∀ i b, i < tail → s.lh[i]? = some b → s.disk.blk b = C b) ∧
    (s.mode = .clearHead → Recovering C s ∧ s.lh = [] ∧
      ∀ b, ¬ L.Contains b → s.disk.blk b = C b) ∧
    s.mode ≠ .overrun := by
  unfold AtMode
  split <;> simp_all

/-- A clean and unlocked buffer may come and go at any time. -/
lemma AtMode.setClean (h : AtMode L C M s) {b : ℕ} {o : Option (Buf β)} (bs : List ℕ)
    (hd : s.isDirty b = false) (hl : s.isLocked b = false)
    (ho : o = none ∨ o = some ⟨s.disk.blk b, false, false⟩) :
    AtMode L C M { s with cache := Function.update s.cache b o, bufs := bs } := by
  rw [atMode_iff] at h ⊢
  obtain ⟨hup, hread, hrec, hclear, hover⟩ := h
  refine ⟨fun hm => (hup hm).setClean bs hd hl ho, fun hm => (hread hm).setClean bs ho, ?_, ?_, hover⟩
  · intro tail hm
    exact ⟨(hrec tail hm).1.setClean bs ho, (hrec tail hm).2⟩
  · intro hm
    exact ⟨(hclear hm).1.setClean bs ho, (hclear hm).2⟩

end

end Log
end OhMyXv6
