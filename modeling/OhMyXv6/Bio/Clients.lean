import OhMyXv6.Bio.Copies

/-!
# The steps of the processes

What the processes do with their buffers, and how operations begin and end.
-/

namespace OhMyXv6
namespace Store

open Bio

variable {P K β : Type}

section
variable [Fintype P] [DecidableEq P] [Fintype K] [DecidableEq K] {L : Area β} {D : ℕ → ℕ → β}
  {S S' : State P K β} {u : P × K}

/-! ## What the processes do -/

omit [Fintype P] [Fintype K] [DecidableEq P] [DecidableEq K] in
/-- A client's step is the step of its call. -/
lemma client_eq_some {p : P} {f : Option (State P K β)} (h : S.client p f = some S') :
    f = some S' := by
  unfold State.client at h
  rcases hpc : S.pc p with _ | _ | a
  all_goals rw [hpc] at h
  · exact h
  · exact h
  · exact nomatch h

omit [Fintype P] [Fintype K] [DecidableEq P] [DecidableEq K] in
/-- A step of the cache leaves the rest alone. -/
lemma withBio_eq_some {B : Option (Sys (Agent P K) β)} (h : S.withBio B = some S') :
    ∃ B', B = some B' ∧ S' = { S with bio := B' } := by
  obtain ⟨B', hB, rfl⟩ := Option.map_eq_some_iff.mp h
  exact ⟨B', hB, rfl⟩

lemma Inv.bget (h : Inv L D S) {d n : ℕ} (hstep : S.bget u d n = some S') : Inv L D S' := by
  obtain ⟨S₁, hS₁, rfl⟩ := Option.map_eq_some_iff.mp (client_eq_some hstep)
  obtain ⟨B', hB, rfl⟩ := withBio_eq_some hS₁
  obtain ⟨hholds, hframe, hwait⟩ := h.holds.bget hB
  have hself : Function.update S.req u (d, n) u = (d, n) := Function.update_self _ _ _
  refine h.slot (u := u) (r := .waiting) hholds hframe (by dsimp only; rw [hself]; exact hwait)
    (fun hph => ?_) (fun w hw => Function.update_of_ne hw _ _) (fun _ _ => rfl) rfl
    (h.rest.phase (u := u) rfl rfl rfl rfl (fun _ _ => rfl) (h.rest.checked u)) (.inl rfl) h.copies
  -- the slot was empty
  obtain ⟨b, hb, -⟩ := h.clients u hph
  unfold Sys.bget at hB
  rw [hb, if_neg nofun] at hB
  exact nomatch hB

lemma Inv.acquiresleep (h : Inv L D S) (hstep : S.acquiresleep u = some S') : Inv L D S' := by
  obtain ⟨B', hB, rfl⟩ := withBio_eq_some (client_eq_some hstep)
  -- the process waits for the buffer it asked for
  have hwait : S.bio.At (.inl u) (S.req u).1 (S.req u).2 .waiting := by
    unfold Sys.acquiresleep at hB
    rcases hu : S.bio.stage (.inl u) with _ | b | b | b
    all_goals rw [hu] at hB
    · exact nomatch hB
    · exact ⟨b, hu, h.asked u b (by rw [hu]; rfl)⟩
    · exact nomatch hB
    · exact nomatch hB
  obtain ⟨hholds, hframe, hlocked⟩ := h.holds.acquiresleep hwait hB
  refine h.slot (u := u) hholds hframe hlocked (fun hph => ?_) (fun _ _ => rfl) (fun _ _ => rfl) rfl
    (h.rest.phase (u := u) rfl rfl rfl rfl (fun _ _ => rfl) (h.rest.checked u)) (.inl rfl) h.copies
  obtain ⟨b, hb, -⟩ := h.clients u hph
  obtain ⟨b', hb', -⟩ := hwait
  rw [hb] at hb'
  exact nomatch hb'

omit [Fintype P] [Fintype K] in
/-- The phase of one process says nothing about another. -/
lemma unsaved_other {ph : Phase} (S : State P K β) {w : Agent P K} (hw : w ≠ .inl u)
    (h : Unsaved S w) : Unsaved (S.setPhase u ph) w := by
  rcases w with w | a
  · have hne : w ≠ u := fun heq => hw (heq ▸ rfl)
    unfold Unsaved State.setPhase
    dsimp only
    rw [Function.update_of_ne hne]
    exact h
  · exact h

omit [Fintype P] [Fintype K] [DecidableEq P] [DecidableEq K] in
/-- A process has something unsaved between its store and its entry in the log. -/
lemma unsaved_inl : Unsaved S (.inl u) ↔ S.phase u = .modified ∨ S.phase u = .checked := Iff.rfl

omit [Fintype P] [Fintype K] in
/-- A process that had nothing unsaved may move on. -/
lemma unsaved_of_saved {ph : Phase} {w : Agent P K} (hu : ¬ Unsaved S (.inl u))
    (h : Unsaved S w) : Unsaved (S.setPhase u ph) w :=
  unsaved_other S (fun heq => hu (heq ▸ h)) h

omit [Fintype P] [DecidableEq P] [Fintype K] [DecidableEq K] in
/-- A user that is ready holds the block it asked for. -/
lemma held_eq_some {w : Agent P K} {d n : ℕ} (hat : S.bio.At w d n .ready) :
    ∃ x, S.bio.held w = some x ∧ x.Is d n ∧ x.valid = true := by
  obtain ⟨b, hb, his, hv⟩ := hat
  exact ⟨_, held_of_stage hb, his, hv⟩

omit [Fintype P] [Fintype K] in
/-- The phases of the others stay. -/
lemma phase_setPhase_of_ne (S : State P K β) {w : P × K} {ph : Phase} (hw : w ≠ u) :
    (S.setPhase u ph).phase w = S.phase w := Function.update_of_ne hw _ _

omit [Fintype P] [Fintype K] in
lemma phase_setPhase (S : State P K β) (u : P × K) (ph : Phase) : (S.setPhase u ph).phase u = ph :=
  Function.update_self _ _ _

/-- The phase of the slot changes with its buffer. -/
lemma Inv.slotPhase (h : Inv L D S) {B' : Sys (Agent P K) β} {disk' : ℕ → ℕ → β}
    {mods' : List (ℕ × ℕ × β)} {q : Phase} (hph : q ≠ .checked)
    (hS' : S' = { S.setPhase u q with bio := B', disk := disk', mods := mods' })
    (hholds : Holds B' disk' (latest D mods') (Unsaved (S.setPhase u q)))
    (hframe : S.bio.Frame (.inl u) B') {pr : Prog}
    (hask : B'.At (.inl u) (S.req u).1 (S.req u).2 pr) (hat : q ≠ .unread → pr = .ready)
    (hcopies : ∀ p a j n, S.pc p = .commit a → a.Copied j → S.lh[j]? = some n →
      latest D mods' L.dev (L.start + j + 1) = latest D mods' L.dev n) : Inv L D S' := by
  subst hS'
  have hself := phase_setPhase S u q
  have hother : ∀ w, w ≠ u → (S.setPhase u q).phase w = S.phase w := fun w hw =>
    phase_setPhase_of_ne S hw
  refine h.slot (u := u) hholds hframe hask (fun hu => hat ?_) (fun _ _ => rfl) hother rfl
    (h.rest.phase (u := u) rfl rfl rfl rfl hother fun hu => ?_) (.inl rfl) hcopies
  · rwa [hself] at hu
  · rw [hself] at hu
    exact absurd hu hph

/-- `bread` reads the block from the disk. -/
lemma Inv.fill (h : Inv L D S) (hstep : S.fill u = some S') : Inv L D S' := by
  have hstep := client_eq_some hstep
  by_cases hun : S.phase u = .unread
  · rw [if_pos hun] at hstep
    obtain ⟨S₁, hS₁, rfl⟩ := Option.map_eq_some_iff.mp hstep
    obtain ⟨B', hB, rfl⟩ := withBio_eq_some hS₁
    have hlock : S.bio.At (.inl u) (S.req u).1 (S.req u).2 .locked := by
      unfold Sys.fill Sys.held at hB
      rcases hu : S.bio.stage (.inl u) with _ | b | b | b
      all_goals rw [hu] at hB
      · exact nomatch hB
      · exact nomatch hB
      · exact ⟨b, hu, h.asked u b (by rw [hu]; rfl)⟩
      · exact nomatch hB
    obtain ⟨hholds, hframe, hready⟩ := h.holds.fill hlock hB
    have hsaved : ¬ Unsaved S (.inl u) := by
      rw [unsaved_inl, hun]
      decide
    exact h.slotPhase (q := .ready) nofun rfl (hholds.mono fun w => unsaved_of_saved hsaved)
      hframe hready (fun _ => rfl) h.copies
  · rw [if_neg hun] at hstep
    exact nomatch hstep

/-- A process stores into its block; the flat store changes with it. -/
lemma Inv.modify (h : Inv L D S) {v : β} (hallow : Allowed L S (.modify u v))
    (hstep : S.modify u v = some S') : Inv L D S' := by
  have hstep := client_eq_some hstep
  by_cases hph : S.phase u = .ready ∨ S.phase u = .modified
  · rw [if_pos hph] at hstep
    have hne : S.phase u ≠ .unread := by
      rcases hph with hp | hp
      · rw [hp]
        nofun
      · rw [hp]
        nofun
    have hready := h.clients u hne
    obtain ⟨x, hx, his, hv⟩ := held_eq_some hready
    rw [hx] at hstep
    obtain ⟨S₁, hS₁, rfl⟩ := Option.map_eq_some_iff.mp hstep
    obtain ⟨B', hB, rfl⟩ := withBio_eq_some hS₁
    have hself : Unsaved (S.setPhase u .modified) (.inl u) := .inl (phase_setPhase S u .modified)
    obtain ⟨hholds, hframe, -, hready'⟩ :=
      h.holds.modify hready hB (fun w hw => unsaved_other S hw) hself
    rw [← his.1, ← his.2] at hholds
    refine h.slotPhase (q := .modified) nofun rfl hholds hframe hready' (fun _ => rfl) ?_
    -- neither the log's copy nor the block itself is the one that changes
    intro p a j n hp hj hn
    obtain ⟨hlt, -⟩ := List.getElem?_eq_some_iff.mp hn
    have hin : L.Contains (L.start + j + 1) := by
      rcases h.rest.small with hnil | hsmall
      · rw [hnil] at hlt
        exact absurd hlt (Nat.not_lt_zero _)
      · exact ⟨by omega, by omega⟩
    have hfar : ∀ m, L.Contains m ∨ InFlight S m → ¬ (L.dev = x.dev ∧ m = x.blockno) := by
      intro m hm heq
      obtain ⟨hno, hfl⟩ := hallow x hx heq.1.symm
      rw [heq.2] at hm
      rcases hm with hm | hm
      · exact hno hm
      · exact hfl hm
    show put _ _ _ _ _ _ = put _ _ _ _ _ _
    rw [put_of_ne (hfar _ (.inl hin)), put_of_ne (hfar _ (.inr ⟨p, a, j, hp, hj, hn⟩))]
    exact h.copies p a j n hp hj hn
  · rw [if_neg hph] at hstep
    exact nomatch hstep

/-- `log_write` checks its limits. -/
lemma Inv.logWrite (h : Inv L D S) (hstep : S.logWrite L u = some S') : Inv L D S' := by
  unfold State.logWrite at hstep
  by_cases hpc : S.pc u.1 = .op ∧ (S.phase u = .ready ∨ S.phase u = .modified)
  · rw [if_pos hpc] at hstep
    split at hstep
    · exact nomatch hstep
    obtain rfl := Option.some.inj hstep
    have hne : S.phase u ≠ .unread := by
      rcases hpc.2 with hp | hp
      · rw [hp]
        nofun
      · rw [hp]
        nofun
    have hother : ∀ w, w ≠ u → (S.setPhase u .checked).phase w = S.phase w := fun w hw =>
      phase_setPhase_of_ne S hw
    refine h.slot (u := u) (h.holds.mono fun w huw => ?_)
      (.refl _ _) (h.clients u hne) (fun _ => rfl) (fun _ _ => rfl) hother rfl
      (h.rest.phase (u := u) rfl rfl rfl rfl hother fun _ => hpc.1) (.inl rfl) h.copies
    by_cases hwu : w = .inl u
    · rw [hwu]
      exact .inr (phase_setPhase S u .checked)
    · exact unsaved_other S hwu huw
  · rw [if_neg hpc] at hstep
    exact nomatch hstep

/-- The block is in the log's list. -/
lemma Inv.append (h : Inv L D S) (hallow : Allowed L S (.append u))
    (hstep : S.append u = some S') : Inv L D S' := by
  have hstep := client_eq_some hstep
  by_cases hph : S.phase u = .checked
  · rw [if_pos hph] at hstep
    have hne : S.phase u ≠ .unread := by
      rw [hph]
      nofun
    have hready := h.clients u hne
    obtain ⟨x, hx, his, hv⟩ := held_eq_some hready
    rw [hx] at hstep
    dsimp only at hstep
    split at hstep
    · exact nomatch hstep
    obtain ⟨S₁, hS₁, rfl⟩ := Option.map_eq_some_iff.mp hstep
    obtain ⟨B', hB, rfl⟩ := withBio_eq_some hS₁
    obtain ⟨hno, hroom⟩ := hallow x hx
    obtain ⟨hholds, hframe, -, hready'⟩ :=
      h.holds.setDirty (V := Unsaved (S.setPhase u .ready)) hready hB
        (fun w hw => unsaved_other S hw)
    have hother : ∀ w, w ≠ u → (S.setPhase u .ready).phase w = S.phase w := fun w hw =>
      phase_setPhase_of_ne S hw
    -- an operation is open, so `commit` does not run
    have hopen : S.pc u.1 = .op := h.rest.checked u hph
    have hquiet : ∀ p a, S.pc p ≠ .commit a := fun p a hp =>
      h.rest.quiet (h.rest.busy p a hp) u.1 hopen
    refine h.slot (u := u) hholds hframe hready' (fun _ => rfl) (fun _ _ => rfl) hother rfl ?_
      (.inr hquiet)
      fun p a j n hp => absurd hp (hquiet p a)
    have hrest : Rest L (S.setPhase u .ready) :=
      h.rest.phase (u := u) rfl rfl rfl rfl hother fun hu => by
        rw [phase_setPhase] at hu
        exact nomatch hu
    refine ⟨?_, ?_, hrest.ops, hrest.one, hrest.busy, hrest.quiet, hrest.checked⟩
    · dsimp only [State.setPhase]
      by_cases hmem : x.blockno ∈ S.lh
      · rw [if_pos hmem]
        exact h.rest.small
      · rw [if_neg hmem, List.length_append, List.length_singleton]
        exact .inr (hroom.resolve_left hmem)
    · dsimp only [State.setPhase]
      by_cases hmem : x.blockno ∈ S.lh
      · rw [if_pos hmem]
        exact h.rest.home
      · rw [if_neg hmem]
        intro m hm
        rcases List.mem_append.mp hm with hm | hm
        · exact h.rest.home m hm
        · rw [List.mem_singleton.mp hm]
          exact hno
  · rw [if_neg hph] at hstep
    exact nomatch hstep

omit [Fintype P] [Fintype K] [DecidableEq P] [DecidableEq K] in
/-- `bwrite` writes what is held to the disk. -/
lemma bwrite_eq_some {w : Agent P K} {x : Buf β} (hx : S.bio.held w = some x)
    (hstep : S.bwrite w = some S') : ∃ B', S.bio.bwrite w = some B' ∧
      S' = { S with bio := B', disk := put S.disk x.dev x.blockno x.data } := by
  unfold State.bwrite at hstep
  rw [hx] at hstep
  obtain ⟨B', hB, rfl⟩ := Option.map_eq_some_iff.mp hstep
  exact ⟨B', hB, rfl⟩

lemma Inv.write (h : Inv L D S) (hstep : S.write u = some S') : Inv L D S' := by
  have hstep := client_eq_some hstep
  by_cases hph : S.phase u = .ready ∨ S.phase u = .modified
  · rw [if_pos hph] at hstep
    have hne : S.phase u ≠ .unread := by
      rcases hph with hp | hp
      · rw [hp]
        nofun
      · rw [hp]
        nofun
    have hready := h.clients u hne
    obtain ⟨x, hx, his, hv⟩ := held_eq_some hready
    obtain ⟨S₁, hS₁, rfl⟩ := Option.map_eq_some_iff.mp hstep
    obtain ⟨B', hB, rfl⟩ := bwrite_eq_some hx hS₁
    obtain ⟨hholds, hframe, -, hready'⟩ :=
      h.holds.bwrite (V := Unsaved (S.setPhase u .ready)) hready hx hB
        (fun w hw => unsaved_other S hw)
    rw [← his.1, ← his.2] at hholds
    exact h.slotPhase (q := .ready) nofun rfl hholds hframe hready' (fun _ => rfl) h.copies
  · rw [if_neg hph] at hstep
    exact nomatch hstep

lemma Inv.releasesleep (h : Inv L D S) (hstep : S.releasesleep u = some S') : Inv L D S' := by
  have hstep := client_eq_some hstep
  by_cases hph : S.phase u = .ready
  · rw [if_pos hph] at hstep
    have hne : S.phase u ≠ .unread := by
      rw [hph]
      nofun
    have hready := h.clients u hne
    obtain ⟨S₁, hS₁, rfl⟩ := Option.map_eq_some_iff.mp hstep
    obtain ⟨B', hB, rfl⟩ := withBio_eq_some hS₁
    have hsaved : ¬ Unsaved S (.inl u) := by
      rw [unsaved_inl, hph]
      decide
    obtain ⟨hholds, hframe, hrel⟩ := h.holds.releasesleep hready hsaved hB
    exact h.slotPhase (q := .unread) nofun rfl (hholds.mono fun w => unsaved_of_saved hsaved)
      hframe hrel (fun hno => absurd rfl hno) h.copies
  · rw [if_neg hph] at hstep
    exact nomatch hstep

lemma Inv.brelse (h : Inv L D S) (hstep : S.brelse u = some S') : Inv L D S' := by
  obtain ⟨B', hB, rfl⟩ := withBio_eq_some (client_eq_some hstep)
  have hrel : S.bio.At (.inl u) (S.req u).1 (S.req u).2 .releasing := by
    unfold Sys.brelse at hB
    rcases hu : S.bio.stage (.inl u) with _ | b | b | b
    all_goals rw [hu] at hB
    · exact nomatch hB
    · exact nomatch hB
    · exact nomatch hB
    · exact ⟨b, hu, h.asked u b (by rw [hu]; rfl)⟩
  obtain ⟨hholds, hframe, hidle⟩ := h.holds.brelse hrel hB
  refine h.slot (u := u) hholds hframe hidle (fun hph => ?_) (fun _ _ => rfl) (fun _ _ => rfl) rfl
    (h.rest.phase (u := u) rfl rfl rfl rfl (fun _ _ => rfl) (h.rest.checked u)) (.inl rfl) h.copies
  obtain ⟨b, hb, -⟩ := h.clients u hph
  obtain ⟨b', hb', -⟩ := hrel
  rw [hb] at hb'
  exact nomatch hb'

/-! ## Operations -/

variable {p : P} {a a' : At}

omit [Fintype P] [Fintype K] [DecidableEq K] in
/-- The other processes stay where they are. -/
lemma pc_setPc_of_ne (S : State P K β) {q : P} {pc : Pc} (hq : q ≠ p) :
    (S.setPc p pc).pc q = S.pc q := Function.update_of_ne hq _ _

omit [Fintype P] [Fintype K] [DecidableEq K] in
lemma pc_setPc (S : State P K β) (p : P) (pc : Pc) : (S.setPc p pc).pc p = pc :=
  Function.update_self _ _ _

omit [Fintype K] [DecidableEq K] in
/-- The count of open operations after one process has moved. -/
lemma ops_setPc (S : State P K β) (p : P) (pc : Pc) :
    (∑ q, if (S.setPc p pc).pc q = .op then 1 else 0) + (if S.pc p = .op then 1 else 0) =
      (∑ q, if S.pc q = .op then 1 else 0) + if pc = .op then 1 else 0 :=
  Count.sum_update (fun pc => if pc = Pc.op then 1 else 0) (Finset.mem_univ p)

omit [Fintype P] [Fintype K] [DecidableEq K] in
/-- A process in `commit`, when another one moves on to something else. -/
theorem commit_of_setPc {pc : Pc} (hpc : ∀ a, pc ≠ .commit a) {q : P}
    (hq : (S.setPc p pc).pc q = .commit a) : S.pc q = .commit a := by
  by_cases hqp : q = p
  · rw [hqp, pc_setPc] at hq
    exact absurd hq (hpc a)
  · rwa [pc_setPc_of_ne S hqp] at hq

omit [DecidableEq K] in
/-- A process begins or ends an operation, and no commit follows. -/
theorem Inv.setPc (h : Inv L D S) {pc : Pc} {out : ℕ} (hpc : ∀ a, pc ≠ .commit a)
    (hfree : S.committing = false)
    (hout : out = ∑ q, if (S.setPc p pc).pc q = .op then 1 else 0)
    (hchecked : ∀ k, S.phase (p, k) = .checked → pc = .op) :
    Inv L D { S.setPc p pc with outstanding := out } := by
  have hnone : ∀ q a, S.pc q ≠ .commit a := by
    intro q a hq
    have hbusy := h.rest.busy q a hq
    rw [hfree] at hbusy
    exact nomatch hbusy
  have hnone' : ∀ q a, (S.setPc p pc).pc q ≠ .commit a := fun q a hq =>
    hnone q a (commit_of_setPc hpc hq)
  refine ⟨h.holds, h.asked, h.clients, ⟨h.rest.small, h.rest.home, hout, fun q _ a _ hq =>
    absurd hq (hnone' q a), fun q a hq => absurd hq (hnone' q a), fun hc => ?_, fun u hu => ?_⟩,
    fun q a hq => absurd hq (hnone' q a), fun _ => h.free hnone,
    fun q a _ _ hq => absurd hq (hnone' q a)⟩
  · rw [show ({ S.setPc p pc with outstanding := out } : State P K β).committing = S.committing
      from rfl, hfree] at hc
    exact nomatch hc
  · show (S.setPc p pc).pc u.1 = .op
    by_cases hup : u.1 = p
    · rw [hup, pc_setPc]
      exact hchecked u.2 (hup ▸ hu)
    · rw [pc_setPc_of_ne S hup]
      exact h.rest.checked u hu

omit [DecidableEq K] in
lemma Inv.beginOp (h : Inv L D S) (hstep : S.beginOp p = some S') : Inv L D S' := by
  unfold State.beginOp at hstep
  by_cases hpc : S.pc p = .out
  · rw [if_pos hpc] at hstep
    split at hstep
    · exact nomatch hstep
    next hbusy =>
    obtain rfl := Option.some.inj hstep
    have hfree : S.committing = false := by
      by_contra hc
      exact hbusy (.inl (Bool.eq_true_of_not_eq_false hc))
    have hsum := ops_setPc S p .op
    rw [hpc, if_neg nofun, if_pos rfl, ← h.rest.ops] at hsum
    refine h.setPc nofun hfree hsum.symm fun k hk => ?_
    exact rfl
  · rw [if_neg hpc] at hstep
    exact nomatch hstep

omit [DecidableEq K] in
lemma Inv.endOp (h : Inv L D S) (hstep : S.endOp p = some S') : Inv L D S' := by
  unfold State.endOp at hstep
  by_cases hpc : S.pc p = .op ∧ ∀ k, S.phase (p, k) = .unread ∨ S.phase (p, k) = .ready
  · rw [if_pos hpc] at hstep
    obtain ⟨hop, hphase⟩ := hpc
    have hdone : ∀ k, S.phase (p, k) ≠ .checked := by
      intro k hk
      rcases hphase k with hp | hp
      · rw [hk] at hp
        exact nomatch hp
      · rw [hk] at hp
        exact nomatch hp
    rcases hfree : S.committing with _ | _
    · rw [hfree, if_neg Bool.false_ne_true] at hstep
      by_cases hlast : S.outstanding - 1 = 0
      · rw [if_pos hlast] at hstep
        obtain rfl := Option.some.inj hstep
        have hnone : ∀ q a, S.pc q ≠ .commit a := by
          intro q a hq
          have hbusy := h.rest.busy q a hq
          rw [hfree] at hbusy
          exact nomatch hbusy
        have hsum := ops_setPc S p (.commit .test)
        rw [hop, if_pos rfl, if_neg nofun, ← h.rest.ops] at hsum
        have hzero : (∑ q, if (S.setPc p (.commit .test)).pc q = .op then 1 else 0) = 0 := by omega
        -- the process itself is the only one in `commit`
        have honly : ∀ q a, (S.setPc p (.commit .test)).pc q = .commit a → q = p ∧ a = .test := by
          intro q a hq
          by_cases hqp : q = p
          · rw [hqp, pc_setPc] at hq
            exact ⟨hqp, (Pc.commit.inj hq).symm⟩
          · rw [pc_setPc_of_ne S hqp] at hq
            exact absurd hq (hnone q a)
        have hquiet : ∀ q, (S.setPc p (.commit .test)).pc q ≠ .op := by
          intro q hq
          have hone := (Finset.sum_eq_zero_iff.mp hzero) q (Finset.mem_univ q)
          rw [if_pos hq] at hone
          exact nomatch hone
        refine ⟨h.holds, h.asked, h.clients, ⟨h.rest.small, h.rest.home, ?_, fun q r a b hq hr => ?_,
          fun _ _ _ => rfl, fun _ => hquiet, fun u hu => ?_⟩, fun q a hq => ?_, fun hno => ?_,
          fun q a j n hq hj => ?_⟩
        · show S.outstanding - 1 = ∑ q, if (S.setPc p (.commit .test)).pc q = .op then 1 else 0
          rw [hzero, hlast]
        · rw [(honly q a hq).1, (honly r b hr).1]
        · by_cases hup : u.1 = p
          · exact absurd hu (hup ▸ hdone u.2)
          · have hother := h.rest.checked u hu
            exact absurd ((pc_setPc_of_ne S hup).trans hother) (hquiet u.1)
        · rw [(honly q a hq).2]
          exact h.free hnone
        · exact absurd (pc_setPc S p (.commit .test)) (hno p .test)
        · rw [(honly q a hq).2] at hj
          exact absurd hj id
      · rw [if_neg hlast] at hstep
        obtain rfl := Option.some.inj hstep
        have hsum := ops_setPc S p .out
        rw [hop, if_pos rfl, if_neg nofun, ← h.rest.ops] at hsum
        exact h.setPc nofun hfree (by omega) fun k hk => absurd hk (hdone k)
    · rw [hfree, if_pos rfl] at hstep
      exact nomatch hstep
  · rw [if_neg hpc] at hstep
    exact nomatch hstep

end

end Store
end OhMyXv6
