import OhMyXv6.Bio.Clients

/-!
# The steps of `commit`

`commit` copies each block into the log and then each block back, with two buffers of its own.
-/

namespace OhMyXv6
namespace Store

open Bio

variable {P K β : Type}

section
variable [Fintype P] [DecidableEq P] [Fintype K] [DecidableEq K] {L : Area β} {D : ℕ → ℕ → β}
  {S S' : State P K β} {u : P × K}
variable {p : P} {a a' : At}

/-! ## `commit` -/

/-- The buffers of the processes are left alone. -/
def Apart (B B' : Sys (Agent P K) β) : Prop := ∃ x : Bool, B.Frame (.inr x) B'

omit [DecidableEq K] in
/-- A step of `commit`, from the state `S₁` that it leaves but for the program counter. -/
theorem Inv.commitStep (h : Inv L D S) (hp : S.pc p = .commit a) {T : State P K β}
    (hpc : T.pc = S.pc) (hphase : T.phase = S.phase) (hout : T.outstanding = S.outstanding)
    (hcom : T.committing = S.committing) (hreq : T.req = S.req)
    (hlh : T.lh = S.lh ∨ T.lh = [])
    (hholds : Holds T.bio T.disk (latest D T.mods) (Unsaved S))
    (hapart : Apart S.bio T.bio) (hbufs : Bufs L T.bio T.lh a')
    (hcopies : ∀ j n, a'.Copied j → T.lh[j]? = some n →
      latest D T.mods L.dev (L.start + j + 1) = latest D T.mods L.dev n) :
    Inv L D (T.setPc p (.commit a')) := by
  have hother : ∀ q, q ≠ p → (T.setPc p (.commit a')).pc q = S.pc q := by
    intro q hq
    rw [pc_setPc_of_ne T hq, hpc]
  -- one process commits at a time
  have honly : ∀ q b, (T.setPc p (.commit a')).pc q = .commit b → q = p ∧ b = a' := by
    intro q b hq
    by_cases hqp : q = p
    · rw [hqp, pc_setPc] at hq
      exact ⟨hqp, (Pc.commit.inj hq).symm⟩
    · rw [hother q hqp] at hq
      exact absurd (h.rest.one q p b a hq hp) hqp
  have hsum := ops_setPc T p (.commit a')
  rw [hpc, hp, if_neg nofun, if_neg nofun, ← h.rest.ops] at hsum
  -- and no operation is open meanwhile
  have hquiet : ∀ q, (T.setPc p (.commit a')).pc q ≠ .op := by
    intro q hq
    by_cases hqp : q = p
    · rw [hqp, pc_setPc] at hq
      exact nomatch hq
    · rw [hother q hqp] at hq
      exact h.rest.quiet (h.rest.busy p a hp) q hq
  -- the phases of the operations are those before
  have huns : Unsaved (T.setPc p (.commit a')) = Unsaved S := by
    funext w
    rcases w with u | x
    · show (T.phase u = _ ∨ T.phase u = _) = _
      rw [hphase]
      rfl
    · rfl
  obtain ⟨x, hframe⟩ := hapart
  refine ⟨?_, fun u b hu => ?_, fun u hu => ?_, ⟨?_, ?_, ?_, fun q r b c hq hr => ?_, fun q b _ => ?_,
    fun _ => hquiet, fun u hu => ?_⟩, fun q b hq => ?_, fun hno => ?_, fun q b j n hq hj hn => ?_⟩
  · rw [huns]
    exact hholds
  · show (T.bio.cache.buf b).Is (T.req u).1 (T.req u).2
    rw [hreq]
    have hne : (.inl u : Agent P K) ≠ .inr x := nofun
    exact hframe.is hne (h.asked u) hu
  · show T.bio.At _ (T.req u).1 (T.req u).2 _
    rw [hreq]
    exact hframe.at nofun (h.clients u (hphase ▸ hu))
  · rcases hlh with hlh | hnil
    · exact hlh ▸ h.rest.small
    · exact .inl hnil
  · intro n hn
    rcases hlh with hlh | hnil
    · exact h.rest.home n (hlh ▸ hn)
    · rw [show (T.setPc p (.commit a')).lh = T.lh from rfl, hnil] at hn
      exact absurd hn List.not_mem_nil
  · show T.outstanding = _
    omega
  · rw [(honly q b hq).1, (honly r c hr).1]
  · show T.committing = true
    rw [hcom]
    exact h.rest.busy p a hp
  · have hold : S.phase u = .checked := hphase ▸ hu
    exact absurd (h.rest.checked u hold) (h.rest.quiet (h.rest.busy p a hp) u.1)
  · rw [(honly q b hq).2]
    exact hbufs
  · exact absurd (pc_setPc T p (.commit a')) (hno p a')
  · rw [(honly q b hq).2] at hj
    exact hcopies j n hj hn

/-- The two buffers in the first part of a round. -/
lemma readBoth_ok (h : Inv L D S) {m n i : ℕ} {late late' : Bool} {S₁ : State P K β}
    (hl : S.bio.At lbuf L.dev m (progL late i)) (hd : S.bio.At dbuf L.dev n (progD late' i))
    (hstep : S.readBoth L m n i = some S₁) : ∃ B', S₁ = { S with bio := B' } ∧
      Holds B' S.disk (latest D S.mods) (Unsaved S) ∧ Apart S.bio B' ∧
      B'.At lbuf L.dev m (progL late (i + 1)) ∧ B'.At dbuf L.dev n (progD late' (i + 1)) := by
  have hdl : (dbuf : Agent P K) ≠ lbuf := nofun
  have hld : (lbuf : Agent P K) ≠ dbuf := nofun
  match i, hl, hd, hstep with
  | 0, hl, hd, hstep =>
    obtain ⟨B', hB, rfl⟩ := withBio_eq_some hstep
    obtain ⟨hholds, hframe, hat⟩ := h.holds.bget hB
    exact ⟨B', rfl, hholds, ⟨_, hframe⟩, hat, hframe.at hdl hd⟩
  | 1, hl, hd, hstep =>
    obtain ⟨B', hB, rfl⟩ := withBio_eq_some hstep
    obtain ⟨hholds, hframe, hat⟩ := h.holds.acquiresleep hl hB
    exact ⟨B', rfl, hholds, ⟨_, hframe⟩, hat, hframe.at hdl hd⟩
  | 2, hl, hd, hstep =>
    obtain ⟨B', hB, rfl⟩ := withBio_eq_some hstep
    obtain ⟨hholds, hframe, hat⟩ := h.holds.fill hl hB
    exact ⟨B', rfl, hholds, ⟨_, hframe⟩, hat, hframe.at hdl hd⟩
  | 3, hl, hd, hstep =>
    obtain ⟨B', hB, rfl⟩ := withBio_eq_some hstep
    obtain ⟨hholds, hframe, hat⟩ := h.holds.bget hB
    exact ⟨B', rfl, hholds, ⟨_, hframe⟩, hframe.at hld hl, hat⟩
  | 4, hl, hd, hstep =>
    obtain ⟨B', hB, rfl⟩ := withBio_eq_some hstep
    obtain ⟨hholds, hframe, hat⟩ := h.holds.acquiresleep hd hB
    exact ⟨B', rfl, hholds, ⟨_, hframe⟩, hframe.at hld hl, hat⟩
  | 5, hl, hd, hstep =>
    obtain ⟨B', hB, rfl⟩ := withBio_eq_some hstep
    obtain ⟨hholds, hframe, hat⟩ := h.holds.fill hd hB
    exact ⟨B', rfl, hholds, ⟨_, hframe⟩, hframe.at hld hl, hat⟩
  | i + 6, _, _, hstep => exact nomatch hstep

/-- The first buffer to be released, and the second one. -/
def progFirst : ℕ → Prog
  | 7 => .ready
  | 8 => .releasing
  | _ => .idle

/-- The stage of the second buffer of `commit`, by the steps done. -/
def progSecond : ℕ → Prog
  | 10 => .releasing
  | 11 => .idle
  | _ => .ready

/-- The commit gives back both the buffers it copied between. -/
lemma releaseBoth_ok (h : Inv L D S) {x y : Bool} (hxy : x ≠ y) {d m n i : ℕ} {S₁ : State P K β}
    (hx : S.bio.At (.inr x) d m (progFirst i)) (hy : S.bio.At (.inr y) d n (progSecond i))
    (hstep : S.releaseBoth (.inr x) (.inr y) i = some S₁) : ∃ B', S₁ = { S with bio := B' } ∧
      Holds B' S.disk (latest D S.mods) (Unsaved S) ∧ Apart S.bio B' ∧
      B'.At (.inr x) d m (progFirst (i + 1)) ∧ B'.At (.inr y) d n (progSecond (i + 1)) := by
  have hxy' : (.inr x : Agent P K) ≠ .inr y := fun heq => hxy (Sum.inr.inj heq)
  match i, hx, hy, hstep with
  | 7, hx, hy, hstep =>
    obtain ⟨B', hB, rfl⟩ := withBio_eq_some hstep
    obtain ⟨hholds, hframe, hat⟩ := h.holds.releasesleep hx id hB
    exact ⟨B', rfl, hholds, ⟨_, hframe⟩, hat, hframe.at hxy'.symm hy⟩
  | 8, hx, hy, hstep =>
    obtain ⟨B', hB, rfl⟩ := withBio_eq_some hstep
    obtain ⟨hholds, hframe, hat⟩ := h.holds.brelse hx hB
    exact ⟨B', rfl, hholds, ⟨_, hframe⟩, hat, hframe.at hxy'.symm hy⟩
  | 9, hx, hy, hstep =>
    obtain ⟨B', hB, rfl⟩ := withBio_eq_some hstep
    obtain ⟨hholds, hframe, hat⟩ := h.holds.releasesleep hy id hB
    exact ⟨B', rfl, hholds, ⟨_, hframe⟩, hframe.at hxy' hx, hat⟩
  | 10, hx, hy, hstep =>
    obtain ⟨B', hB, rfl⟩ := withBio_eq_some hstep
    obtain ⟨hholds, hframe, hat⟩ := h.holds.brelse hy hB
    exact ⟨B', rfl, hholds, ⟨_, hframe⟩, hframe.at hxy' hx, hat⟩

/-- `memmove` into the data of a buffer that `commit` holds, and `bwrite`. -/
theorem overwrite_ok (h : Inv L D S) {x : Bool} {d n : ℕ} {v : β} {S₁ : State P K β}
    (hat : S.bio.At (.inr x) d n .ready) (hstep : S.overwrite (.inr x) v = some S₁) :
    ∃ B', S₁ = { S with bio := B', disk := put S.disk d n v } ∧
      Holds B' (put S.disk d n v) (put (latest D S.mods) d n v) (Unsaved S) ∧
      S.bio.Frame (.inr x) B' ∧ B'.At (.inr x) d n .ready := by
  obtain ⟨S₂, hS₂, hstep⟩ := Option.bind_eq_some_iff.mp hstep
  obtain ⟨B₂, hB₂, rfl⟩ := withBio_eq_some hS₂
  obtain ⟨h₂, hf₂, -, hat₂⟩ := h.holds.modify (V := fun w => w = .inr x ∨ Unsaved S w) hat hB₂
    (fun w _ hw => .inr hw) (.inl rfl)
  -- the buffer holds the new data
  obtain ⟨b, hb, his, hv⟩ := hat₂
  have hdata : (B₂.cache.buf b).data = v := by
    rw [h₂.data b hv, his.1, his.2, put_self]
  have hheld : B₂.held (.inr x) = some (B₂.cache.buf b) := held_of_stage hb
  obtain ⟨B₃, hB₃, rfl⟩ := bwrite_eq_some (S := { S with bio := B₂ }) hheld hstep
  obtain ⟨h₃, hf₃, -, hat₃⟩ := h₂.bwrite (V := Unsaved S) ⟨b, hb, his, hv⟩ hheld hB₃
    (fun w hw hor => hor.resolve_left hw)
  rw [hdata] at h₃
  refine ⟨B₃, ?_, h₃, hf₂.trans hf₃, hat₃⟩
  rw [hdata, his.1, his.2]

omit [DecidableEq P] [Fintype K] [DecidableEq K] in
/-- The log's own blocks are none that are logged. -/
lemma Rest.contains (h : Rest L S) {j n : ℕ} (hn : S.lh[j]? = some n) :
    L.Contains L.start ∧ L.Contains (L.start + j + 1) ∧ ¬ L.Contains n := by
  obtain ⟨hlt, hget⟩ := List.getElem?_eq_some_iff.mp hn
  have hmem : n ∈ S.lh := hget ▸ List.getElem_mem hlt
  rcases h.small with hnil | hsmall
  · rw [hnil] at hmem
    exact absurd hmem List.not_mem_nil
  · exact ⟨⟨by omega, by omega⟩, ⟨by omega, by omega⟩, h.home n hmem⟩

/-- One block is copied into the log. -/
lemma Inv.writeLog (h : Inv L D S) {tail b i : ℕ} {S₁ : State P K β}
    (hp : S.pc p = .commit (.writeLog tail i)) (hb : S.lh[tail]? = some b)
    (hstep : S.writeLog L tail b i = some S₁) : Inv L D (S₁.setPc p (.commit
      (if i = 10 then .writeLog (tail + 1) 0 else .writeLog tail (i + 1)))) := by
  obtain ⟨hi, -, -, hl, hd⟩ := h.bufs p _ hp
  have hd := hd b (.inr hb)
  obtain ⟨hlt, -⟩ := List.getElem?_eq_some_iff.mp hb
  have hbuf : ∀ m, S.lh[tail]? = some m → m = b := by
    intro m hm
    rw [hb] at hm
    exact (Option.some.inj hm).symm
  unfold State.writeLog at hstep
  by_cases hi6 : i < 6
  · rw [if_pos hi6] at hstep
    obtain ⟨B', rfl, hholds, hapart, hl', hd'⟩ := readBoth_ok h hl hd hstep
    rw [if_neg (by omega)]
    refine h.commitStep hp rfl rfl rfl rfl rfl (.inl rfl) hholds hapart
      ⟨by omega, by dsimp only; omega, fun heq => absurd heq (by dsimp only; omega), hl', ?_⟩ ?_
    · intro m hm
      rw [hbuf m (hm.resolve_left (by omega))]
      exact hd'
    · intro j n hj hn
      refine h.copies p _ j n hp ?_ hn
      rcases hj with hj | hj
      · exact .inl hj
      · exact absurd hj.2 (by omega)
  rw [if_neg hi6] at hstep
  by_cases hi7 : i = 6
  · subst hi7
    rw [if_pos rfl] at hstep
    obtain ⟨x, hx, his, hv⟩ := held_eq_some hd
    unfold State.copy at hstep
    rw [hx] at hstep
    obtain ⟨S₂, hS₂, rfl⟩ := Option.map_eq_some_iff.mp hstep
    obtain ⟨B', rfl, hholds, hframe, hl'⟩ := overwrite_ok h (x := false) hl hS₂
    -- the log gets what the block holds
    have hdata : x.data = latest D S.mods L.dev b := by
      obtain ⟨c, hc, -, -⟩ := hd
      rw [held_of_stage hc] at hx
      obtain rfl := Option.some.inj hx
      rw [h.holds.data c hv, his.1, his.2]
    rw [if_neg (by omega)]
    refine h.commitStep hp rfl rfl rfl rfl rfl (.inl rfl) hholds ⟨_, hframe⟩
      ⟨by omega, by dsimp only; omega, fun heq => absurd heq (by dsimp only; omega), hl', ?_⟩ ?_
    · intro m hm
      rw [hbuf m (hm.resolve_left (by omega))]
      exact hframe.at nofun hd
    · intro j n hj hn
      have hin := h.rest.contains hn
      have hin' := h.rest.contains hb
      have hne : ¬ (L.dev = L.dev ∧ n = L.start + tail + 1) := fun heq => hin.2.2 (heq.2 ▸ hin'.2.1)
      show put _ _ _ _ _ _ = put _ _ _ _ _ _
      rw [put_of_ne hne]
      rcases hj with hj | ⟨rfl, -⟩
      · rw [put_of_ne fun heq => absurd heq.2 (by dsimp only; omega)]
        exact h.copies p _ j n hp (.inl hj) hn
      · rw [put_self, hdata, hbuf n hn]
  · rw [if_neg hi7] at hstep
    have h4 : i = 7 ∨ i = 8 ∨ i = 9 ∨ i = 10 := by omega
    have hfirst : progD false i = progFirst i ∧ progL true i = progSecond i := by
      rcases h4 with rfl | rfl | rfl | rfl
      · exact ⟨rfl, rfl⟩
      · exact ⟨rfl, rfl⟩
      · exact ⟨rfl, rfl⟩
      · exact ⟨rfl, rfl⟩
    rw [hfirst.1] at hd
    rw [hfirst.2] at hl
    obtain ⟨B', rfl, hholds, hapart, hd', hl'⟩ :=
      releaseBoth_ok h (x := true) (y := false) (by decide) hd hl hstep
    by_cases hi10 : i = 10
    · subst hi10
      rw [if_pos rfl]
      refine h.commitStep hp rfl rfl rfl rfl rfl (.inl rfl) hholds hapart
        ⟨Nat.zero_le _, hlt, fun _ => rfl, hl', fun m _ => hd'⟩ ?_
      intro j n hj hn
      refine h.copies p _ j n hp ?_ hn
      rcases hj with hj | hj
      · rcases Nat.lt_succ_iff_lt_or_eq.mp hj with hj | hj
        · exact .inl hj
        · exact .inr ⟨hj, by omega⟩
      · exact absurd hj.2 (Nat.not_lt_zero _)
    · rw [if_neg hi10]
      have hnext : progD false (i + 1) = progFirst (i + 1) ∧
          progL true (i + 1) = progSecond (i + 1) := by
        rcases h4 with rfl | rfl | rfl | rfl
        · exact ⟨rfl, rfl⟩
        · exact ⟨rfl, rfl⟩
        · exact ⟨rfl, rfl⟩
        · exact absurd rfl hi10
      rw [← hnext.1] at hd'
      rw [← hnext.2] at hl'
      refine h.commitStep hp rfl rfl rfl rfl rfl (.inl rfl) hholds hapart
        ⟨by omega, by dsimp only; omega, fun heq => absurd heq (by dsimp only; omega), hl', ?_⟩ ?_
      · intro m hm
        rw [hbuf m (hm.resolve_left (by omega))]
        exact hd'
      · intro j n hj hn
        refine h.copies p _ j n hp ?_ hn
        rcases hj with hj | hj
        · exact .inl hj
        · exact .inr ⟨hj.1, by omega⟩

lemma Inv.installTrans (h : Inv L D S) {tail b i : ℕ} {S₁ : State P K β}
    (hp : S.pc p = .commit (.installTrans tail i)) (hb : S.lh[tail]? = some b)
    (hstep : S.installTrans L tail b i = some S₁) : Inv L D (S₁.setPc p (.commit
      (if i = 10 then .installTrans (tail + 1) 0 else .installTrans tail (i + 1)))) := by
  obtain ⟨hi, -, -, hl, hd⟩ := h.bufs p _ hp
  have hd := hd b (.inr hb)
  obtain ⟨hlt, -⟩ := List.getElem?_eq_some_iff.mp hb
  have hbuf : ∀ m, S.lh[tail]? = some m → m = b := by
    intro m hm
    rw [hb] at hm
    exact (Option.some.inj hm).symm
  -- what is left to be copied back gets less and less
  have hcopied : ∀ j, At.Copied (.installTrans tail (i + 1)) j →
      At.Copied (.installTrans tail i) j := by
    intro j hj
    rcases hj with hj | hj
    · exact .inl hj
    · exact .inr ⟨hj.1, by omega⟩
  unfold State.installTrans at hstep
  by_cases hi6 : i < 6
  · rw [if_pos hi6] at hstep
    obtain ⟨B', rfl, hholds, hapart, hl', hd'⟩ := readBoth_ok h hl hd hstep
    rw [if_neg (by omega)]
    refine h.commitStep hp rfl rfl rfl rfl rfl (.inl rfl) hholds hapart
      ⟨by omega, by dsimp only; omega, fun heq => absurd heq (by dsimp only; omega), hl', ?_⟩
      fun j n hj hn => h.copies p _ j n hp (hcopied j hj) hn
    intro m hm
    rw [hbuf m (hm.resolve_left (by omega))]
    exact hd'
  rw [if_neg hi6] at hstep
  by_cases hi7 : i = 6
  · subst hi7
    rw [if_pos rfl] at hstep
    obtain ⟨x, hx, his, hv⟩ := held_eq_some hl
    unfold State.copy at hstep
    rw [hx] at hstep
    obtain ⟨B', rfl, hholds, hframe, hd'⟩ := overwrite_ok h (x := true) hd hstep
    -- the block gets what it holds, by way of the log
    have hdata : x.data = latest D S.mods L.dev b := by
      obtain ⟨c, hc, -, -⟩ := hl
      rw [held_of_stage hc] at hx
      obtain rfl := Option.some.inj hx
      rw [h.holds.data c hv, his.1, his.2]
      exact h.copies p _ tail b hp (.inr ⟨rfl, Nat.le_refl _⟩) hb
    have hsame : put (latest D S.mods) L.dev b x.data = latest D S.mods := by
      funext d n
      by_cases heq : d = L.dev ∧ n = b
      · obtain ⟨rfl, rfl⟩ := heq
        rw [put_self, hdata]
      · rw [put_of_ne heq]
    rw [hsame] at hholds
    rw [if_neg (by omega)]
    refine h.commitStep hp rfl rfl rfl rfl rfl (.inl rfl) hholds ⟨_, hframe⟩
      ⟨by omega, by dsimp only; omega, fun heq => absurd heq (by dsimp only; omega),
        hframe.at nofun hl, ?_⟩ fun j n hj hn => h.copies p _ j n hp (hcopied j hj) hn
    intro m hm
    rw [hbuf m (hm.resolve_left (by omega))]
    exact hd'
  · rw [if_neg hi7] at hstep
    have h4 : i = 7 ∨ i = 8 ∨ i = 9 ∨ i = 10 := by omega
    have hfirst : progL false i = progFirst i ∧ progD true i = progSecond i := by
      rcases h4 with rfl | rfl | rfl | rfl
      · exact ⟨rfl, rfl⟩
      · exact ⟨rfl, rfl⟩
      · exact ⟨rfl, rfl⟩
      · exact ⟨rfl, rfl⟩
    rw [hfirst.2] at hd
    rw [hfirst.1] at hl
    obtain ⟨B', rfl, hholds, hapart, hl', hd'⟩ :=
      releaseBoth_ok h (x := false) (y := true) (by decide) hl hd hstep
    by_cases hi10 : i = 10
    · subst hi10
      rw [if_pos rfl]
      refine h.commitStep hp rfl rfl rfl rfl rfl (.inl rfl) hholds hapart
        ⟨Nat.zero_le _, hlt, fun _ => rfl, hl', fun m _ => hd'⟩ ?_
      intro j n hj hn
      refine h.copies p _ j n hp (.inl ?_) hn
      rcases hj with hj | hj
      · omega
      · omega
    · rw [if_neg hi10]
      have hnext : progL false (i + 1) = progFirst (i + 1) ∧
          progD true (i + 1) = progSecond (i + 1) := by
        rcases h4 with rfl | rfl | rfl | rfl
        · exact ⟨rfl, rfl⟩
        · exact ⟨rfl, rfl⟩
        · exact ⟨rfl, rfl⟩
        · exact absurd rfl hi10
      rw [← hnext.2] at hd'
      rw [← hnext.1] at hl'
      refine h.commitStep hp rfl rfl rfl rfl rfl (.inl rfl) hholds hapart
        ⟨by omega, by dsimp only; omega, fun heq => absurd heq (by dsimp only; omega), hl', ?_⟩
        fun j n hj hn => h.copies p _ j n hp (hcopied j hj) hn
      intro m hm
      rw [hbuf m (hm.resolve_left (by omega))]
      exact hd'

/-- The steps of `write_head`: `a` is where it is called, and the copies in the log are not touched. -/
theorem Inv.writeHead (h : Inv L D S) {i : ℕ} {S₁ : State P K β} (hp : S.pc p = .commit a)
    (hl : S.bio.At lbuf L.dev L.start (progH i)) (hd : S.bio.stage dbuf = .idle)
    (hstep : S.writeHead L i = some S₁)
    (hbufs : ∀ B' : Sys (Agent P K) β, B'.At lbuf L.dev L.start (if i = 5 then .idle else progH (i + 1)) →
      B'.stage dbuf = .idle → Bufs L B' S.lh a')
    (hcopied : ∀ j, a'.Copied j → a.Copied j) : Inv L D (S₁.setPc p (.commit a')) := by
  have hcopies : ∀ j n, a'.Copied j → S.lh[j]? = some n →
      latest D S.mods L.dev (L.start + j + 1) = latest D S.mods L.dev n := fun j n hj hn =>
    h.copies p a j n hp (hcopied j hj) hn
  have hidle : ∀ B', S.bio.Frame lbuf B' → B'.stage dbuf = .idle := fun B' hf =>
    (hf.stage dbuf nofun).trans hd
  match i, hl, hstep, hbufs with
  | 0, hl, hstep, hbufs =>
    obtain ⟨B', hB, rfl⟩ := withBio_eq_some hstep
    obtain ⟨hholds, hframe, hat⟩ := h.holds.bget hB
    exact h.commitStep hp rfl rfl rfl rfl rfl (.inl rfl) hholds ⟨_, hframe⟩
      (hbufs B' hat (hidle B' hframe)) hcopies
  | 1, hl, hstep, hbufs =>
    obtain ⟨B', hB, rfl⟩ := withBio_eq_some hstep
    obtain ⟨hholds, hframe, hat⟩ := h.holds.acquiresleep hl hB
    exact h.commitStep hp rfl rfl rfl rfl rfl (.inl rfl) hholds ⟨_, hframe⟩
      (hbufs B' hat (hidle B' hframe)) hcopies
  | 2, hl, hstep, hbufs =>
    obtain ⟨B', hB, rfl⟩ := withBio_eq_some hstep
    obtain ⟨hholds, hframe, hat⟩ := h.holds.fill hl hB
    exact h.commitStep hp rfl rfl rfl rfl rfl (.inl rfl) hholds ⟨_, hframe⟩
      (hbufs B' hat (hidle B' hframe)) hcopies
  | 3, hl, hstep, hbufs =>
    obtain ⟨x, hx, -, -⟩ := held_eq_some hl
    unfold State.writeHead at hstep
    rw [hx] at hstep
    obtain ⟨S₂, hS₂, rfl⟩ := Option.map_eq_some_iff.mp hstep
    obtain ⟨B', rfl, hholds, hframe, hat⟩ := overwrite_ok h (x := false) hl hS₂
    refine h.commitStep hp rfl rfl rfl rfl rfl (.inl rfl) hholds ⟨_, hframe⟩
      (hbufs B' hat (hidle B' hframe)) ?_
    -- the header is neither a copy in the log nor a block that is logged
    intro j n hj hn
    obtain ⟨hstart, -, hno⟩ := h.rest.contains hn
    have hne : n ≠ L.start := fun heq => hno (heq ▸ hstart)
    show put _ _ _ _ _ _ = put _ _ _ _ _ _
    rw [put_of_ne fun heq => absurd heq.2 (by dsimp only; omega), put_of_ne fun heq => hne heq.2]
    exact hcopies j n hj hn
  | 4, hl, hstep, hbufs =>
    obtain ⟨B', hB, rfl⟩ := withBio_eq_some hstep
    obtain ⟨hholds, hframe, hat⟩ := h.holds.releasesleep hl id hB
    exact h.commitStep hp rfl rfl rfl rfl rfl (.inl rfl) hholds ⟨_, hframe⟩
      (hbufs B' hat (hidle B' hframe)) hcopies
  | 5, hl, hstep, hbufs =>
    obtain ⟨B', hB, rfl⟩ := withBio_eq_some hstep
    obtain ⟨hholds, hframe, hat⟩ := h.holds.brelse hl hB
    exact h.commitStep hp rfl rfl rfl rfl rfl (.inl rfl) hholds ⟨_, hframe⟩
      (hbufs B' hat (hidle B' hframe)) hcopies
  | i + 6, _, hstep, _ => exact nomatch hstep

omit [DecidableEq K] in
/-- The end of `end_op` after `commit`. -/
lemma Inv.done (h : Inv L D S) (hp : S.pc p = .commit .done) :
    Inv L D { S.setPc p .out with committing := false } := by
  have hnone : ∀ q a, (S.setPc p .out).pc q ≠ .commit a := by
    intro q a hq
    have hout : ∀ a, Pc.out ≠ .commit a := nofun
    have hold := commit_of_setPc hout hq
    rw [h.rest.one q p a .done hold hp, pc_setPc] at hq
    exact nomatch hq
  have hsum := ops_setPc S p .out
  rw [hp, if_neg nofun, if_neg nofun, ← h.rest.ops] at hsum
  refine ⟨h.holds, h.asked, h.clients, ⟨h.rest.small, h.rest.home, ?_, fun q _ a _ hq =>
    absurd hq (hnone q a), fun q a hq => absurd hq (hnone q a), fun hc => (nomatch hc),
    fun u hu => ?_⟩, fun q a hq => absurd hq (hnone q a), fun _ => h.bufs p .done hp,
    fun q a _ _ hq => absurd hq (hnone q a)⟩
  · exact (Nat.add_zero _ ▸ Nat.add_zero _ ▸ hsum).symm
  · exact absurd (h.rest.checked u hu) (h.rest.quiet (h.rest.busy p _ hp) u.1)

lemma Inv.commit (h : Inv L D S) (hstep : S.commit L p = some S') : Inv L D S' := by
  unfold State.commit at hstep
  rcases hp : S.pc p with _ | _ | a
  all_goals rw [hp] at hstep
  · exact nomatch hstep
  · exact nomatch hstep
  rcases a with _ | ⟨tail, i⟩ | i | ⟨tail, i⟩ | i | _
  · obtain rfl := Option.some.inj hstep
    obtain ⟨hl, hd⟩ := h.bufs p _ hp
    refine h.commitStep hp rfl rfl rfl rfl rfl (.inl rfl) h.holds ⟨true, .refl _ _⟩ ?_ ?_
    · split
      · exact ⟨Nat.zero_le _, Nat.zero_le _, fun _ => rfl, hl, fun _ _ => hd⟩
      · exact ⟨hl, hd⟩
    · intro j n hj
      split at hj
      · exact absurd hj (by unfold At.Copied; omega)
      · exact absurd hj id
  · dsimp only at hstep
    obtain ⟨-, hle, hlast, hl, hd⟩ := h.bufs p _ hp
    rcases hb : S.lh[tail]? with _ | b
    · rw [hb] at hstep
      obtain rfl := Option.some.inj hstep
      -- all of them are copied
      have hlen : tail = S.lh.length := by
        have := List.getElem?_eq_none_iff.mp hb
        omega
      obtain rfl := hlast hlen
      refine h.commitStep hp rfl rfl rfl rfl rfl (.inl rfl) h.holds ⟨true, .refl _ _⟩
        ⟨Nat.zero_le _, hl, hd 0 (.inl rfl)⟩ fun j n _ hn => h.copies p _ j n hp (.inl ?_) hn
      have := (List.getElem?_eq_some_iff.mp hn).1
      omega
    · rw [hb] at hstep
      obtain ⟨S₁, hS₁, rfl⟩ := Option.map_eq_some_iff.mp hstep
      exact h.writeLog hp hb hS₁
  · obtain ⟨S₁, hS₁, rfl⟩ := Option.map_eq_some_iff.mp hstep
    obtain ⟨hi, hl, hd⟩ := h.bufs p _ hp
    refine h.writeHead hp hl hd hS₁ (fun B' hl' hd' => ?_) fun _ _ => trivial
    by_cases hi5 : i = 5
    · rw [if_pos hi5] at hl' ⊢
      exact ⟨Nat.zero_le _, Nat.zero_le _, fun _ => rfl, hl', fun _ _ => hd'⟩
    · rw [if_neg hi5] at hl' ⊢
      exact ⟨by omega, hl', hd'⟩
  · dsimp only at hstep
    obtain ⟨-, hle, hlast, hl, hd⟩ := h.bufs p _ hp
    rcases hb : S.lh[tail]? with _ | b
    · rw [hb] at hstep
      obtain rfl := Option.some.inj hstep
      have hlen : tail = S.lh.length := by
        have := List.getElem?_eq_none_iff.mp hb
        omega
      obtain rfl := hlast hlen
      exact h.commitStep (T := { S with lh := [] }) hp rfl rfl rfl rfl rfl (.inr rfl) h.holds
        ⟨true, .refl _ _⟩ ⟨Nat.zero_le _, hl, hd 0 (.inl rfl)⟩ fun j n hj => absurd hj id
    · rw [hb] at hstep
      obtain ⟨S₁, hS₁, rfl⟩ := Option.map_eq_some_iff.mp hstep
      exact h.installTrans hp hb hS₁
  · obtain ⟨S₁, hS₁, rfl⟩ := Option.map_eq_some_iff.mp hstep
    obtain ⟨hi, hl, hd⟩ := h.bufs p _ hp
    refine h.writeHead hp hl hd hS₁ (fun B' hl' hd' => ?_) fun j hj => ?_
    · by_cases hi5 : i = 5
      · rw [if_pos hi5] at hl' ⊢
        exact ⟨hl', hd'⟩
      · rw [if_neg hi5] at hl' ⊢
        exact ⟨by omega, hl', hd'⟩
    · split at hj
      · exact absurd hj id
      · exact absurd hj id
  · obtain rfl := Option.some.inj hstep
    exact h.done hp

end

end Store
end OhMyXv6
