import OhMyXv6.Icache.Having

/-!
# Consistency of the inode cache

`iput` lets go of `icache.lock` while it frees an inode. The entry still counts as valid then, so a
process that gets a reference to it in the meantime may lock it and see the inode as it is being
freed. The results are about the runs in which nobody does: no `ilock` goes on with an entry that is
being freed, and no inode is freed that `ialloc` has taken and not yet returned.
-/

namespace OhMyXv6
namespace Icache

open Stage

variable {U : Type}

namespace State

section
variable [Fintype U]
variable {S S' : State U} {e c : Fin NINODE} {u v : U}

namespace Inv

section
variable [DecidableEq U] {x : Entry} {st : Stage}

/-! ## The steps of a user that has no entry -/

/-- The entry that `iget` takes: the one in use for the inode, with one more reference, or an empty
one. -/
def Taken (S : State U) (e : Fin NINODE) (x : Entry) : Prop :=
  (0 < (S.ent e).ref ∧ x = { S.ent e with ref := (S.ent e).ref + 1 }) ∨
    ((∀ c, 0 < (S.ent c).ref → ¬ (S.ent c).Is x.dev x.inum) ∧ (S.ent e).ref = 0 ∧ x.ref = 1 ∧
      x.valid = false)

omit [Fintype U] [DecidableEq U] in
lemma slot_taken {d n : ℕ} (hslot : S.slot d n = some (e, x)) : Taken S e x ∧ x.Is d n := by
  unfold slot at hslot
  rcases hhit : (List.finRange NINODE).find? fun e => 0 < (S.ent e).ref ∧ (S.ent e).Is d n with _ | c
  · rw [hhit] at hslot
    have hmiss : ∀ c, 0 < (S.ent c).ref → ¬ (S.ent c).Is d n := by
      intro c hpos his
      have hnot := List.find?_eq_none.mp hhit c (List.mem_finRange c)
      exact hnot (decide_eq_true ⟨hpos, his⟩)
    rcases hempty : (List.finRange NINODE).find? fun e => (S.ent e).ref = 0 with _ | c
    · rw [hempty] at hslot
      exact nomatch hslot
    · rw [hempty] at hslot
      have hfound := List.find?_some hempty
      have href : (S.ent c).ref = 0 := of_decide_eq_true hfound
      simp only [Option.some.injEq, Prod.mk.injEq] at hslot
      obtain ⟨rfl, rfl⟩ := hslot
      exact ⟨.inr ⟨hmiss, href, rfl, rfl⟩, rfl, rfl⟩
  · rw [hhit] at hslot
    have hfound := List.find?_some hhit
    have hc : 0 < (S.ent c).ref ∧ (S.ent c).Is d n := of_decide_eq_true hfound
    simp only [Option.some.injEq, Prod.mk.injEq] at hslot
    obtain ⟨rfl, rfl⟩ := hslot
    exact ⟨.inl ⟨hc.1, rfl⟩, hc.2⟩

/-- The user has got a reference. -/
def joined (S : State U) (u : U) (e : Fin NINODE) (x : Entry) (f : Bool) : State U :=
  { (S.setEnt e x).setStage u (.having e) with fresh := Function.update S.fresh u f }

lemma join (h : S.Inv) {f : Bool} (hu : ∀ c, ¬ (S.stage u).On c) (hx : Taken S e x)
    (hgiven : f = true → S.Given u x.dev x.inum) : (joined S u e x f).Inv := by
  have hfine := h.fine e
  have hent : (joined S u e x f).ent e = x := Function.update_self _ _ _
  have hstage : (joined S u e x f).stage u = .having e := Function.update_self _ _ _
  have hm : Moves S (joined S u e x f) u e := by
    refine ⟨fun c hc => Function.update_of_ne hc _ _, fun v hv => Function.update_of_ne hv _ _,
      fun v hv => Function.update_of_ne hv _ _, fun c _ => hu c, ?_, fun _ _ => .inl rfl, ?_⟩
    · intro c hc hon
      rw [hstage] at hon
      exact hc (Eq.symm hon)
    · intro v _ hv
      rw [hent]
      rcases hx with ⟨-, rfl⟩ | ⟨-, href, -⟩
      · exact ⟨rfl, rfl⟩
      · exact absurd hv (hfine.not_on href v)
  -- of two entries with one number, the new one was in use by nobody
  have hsingle : (joined S u e x f).Single := by
    intro a b ha hb hsame
    by_cases hae : a = e
    · by_cases hbe : b = e
      · rw [hae, hbe]
      · rw [hae, hent, hm.ent b hbe] at hsame
        rw [hm.ent b hbe] at hb
        rcases hx with ⟨hpos, rfl⟩ | ⟨hnew, -⟩
        · rw [hae]
          exact h.single e b hpos hb hsame
        · exact absurd hsame (hnew b hb)
    · by_cases hbe : b = e
      · rw [hbe, hent, hm.ent a hae] at hsame
        rw [hm.ent a hae] at ha
        rcases hx with ⟨hpos, rfl⟩ | ⟨hnew, -⟩
        · rw [hbe]
          exact h.single a e ha hpos hsame
        · exact absurd ⟨hsame.1.symm, hsame.2.symm⟩ (hnew a ha)
      · rw [hm.ent a hae] at ha hsame
        rw [hm.ent b hbe] at hb hsame
        exact h.single a b ha hb hsame
  apply hm.inv h hsingle
  · apply hm.fine hfine
    · rw [hent, hstage, if_neg (hu e), if_pos (show (Stage.having e).On e from rfl)]
      rcases hx with ⟨-, rfl⟩ | ⟨-, href, hone, -⟩
      · rfl
      · rw [href, hone]
    · rw [hstage]
      exact fun v _ => apart_having e
    · intro v _ hv
      rw [hent]
      rcases hx with ⟨-, rfl⟩ | ⟨-, href, -⟩
      · exact hfine.holds v hv
      · exact absurd hv.on (hfine.not_on href v)
    · rw [hstage]
      exact nofun
    · intro v _ hv
      rw [hent]
      rcases hx with ⟨-, rfl⟩ | ⟨-, href, -⟩
      · exact hfine.valid v hv
      · exact absurd hv.on (hfine.not_on href v)
    · rw [hstage]
      exact nofun
    · rw [hent]
      intro _ hvalid
      rcases hx with ⟨hpos, rfl⟩ | ⟨-, -, -, hinvalid⟩
      · apply hm.content (hfine.content hpos hvalid)
        · rw [hent]
        · unfold dinode
          rw [hent]
          rfl
        · exact fun hfree => hu e hfree.uses.on
        · intro heq
          exact hu e (by rw [heq]; rfl)
      · rw [hinvalid] at hvalid
        exact nomatch hvalid
  · rw [hstage]
    exact nofun
  -- the claim is the one that came with the reference
  · intro d n hg
    rcases hg with hclaimed | ⟨hfresh, c, hkeeps, his⟩
    · rw [hstage] at hclaimed
      exact nomatch hclaimed
    · have hc : c = e := by
        by_contra hne
        exact hm.after c hne hkeeps.1
      rw [hc, hent] at his
      have hf : f = true := by
        rw [← hfresh]
        exact (Function.update_self u f S.fresh).symm
      rw [← his.1, ← his.2]
      exact hgiven hf
  · exact .inl rfl
  · rw [hstage]
    exact nofun

omit [Fintype U] in
lemma get_eq {d n : ℕ} {S₁ : State U} (hget : S.get u d n = some S₁) (f : Bool) :
    ∃ e x, Taken S e x ∧ x.Is d n ∧
      { S₁ with fresh := Function.update S₁.fresh u f } = joined S u e x f := by
  unfold State.get at hget
  obtain ⟨⟨e, x⟩, hslot, rfl⟩ := Option.map_eq_some_iff.mp hget
  obtain ⟨htaken, his⟩ := slot_taken hslot
  exact ⟨e, x, htaken, his, rfl⟩

lemma iget (h : S.Inv) {d n : ℕ} (hstep : S.iget u d n = some S') : S'.Inv := by
  unfold State.iget at hstep
  split at hstep
  case isFalse => exact nomatch hstep
  case isTrue hu =>
  obtain ⟨S₁, hget, rfl⟩ := Option.map_eq_some_iff.mp hstep
  obtain ⟨e, x, htaken, -, heq⟩ := get_eq hget false
  rw [heq]
  apply h.join _ htaken
  · exact nofun
  · intro c
    rw [hu]
    exact id

/-- The reference from the scan of `ialloc`. -/
lemma take (h : S.Inv) (hstep : S.take u = some S') : S'.Inv := by
  unfold State.take at hstep
  split at hstep
  case h_2 => exact nomatch hstep
  case h_1 d n hu =>
  obtain ⟨S₁, hget, rfl⟩ := Option.map_eq_some_iff.mp hstep
  obtain ⟨e, x, htaken, his, heq⟩ := get_eq hget true
  rw [heq]
  apply h.join _ htaken
  · intro _
    rw [his.1, his.2]
    exact .inl hu
  · intro c
    rw [hu]
    exact id

/-- A second reference to the same inode. -/
lemma idup (h : S.Inv) {v : U} (hstep : S.idup u v = some S') : S'.Inv := by
  have hother : S.stage u = .idle ∧ ∃ e, (S.stage v).On e ∧
      S' = joined S u e { S.ent e with ref := (S.ent e).ref + 1 } false := by
    unfold State.idup at hstep
    split at hstep
    case isFalse => exact nomatch hstep
    case isTrue hu =>
    refine ⟨hu, ?_⟩
    split at hstep
    case h_1 e hv => exact ⟨e, by rw [hv]; rfl, (Option.some.inj hstep).symm⟩
    case h_2 e hv => exact ⟨e, by rw [hv]; rfl, (Option.some.inj hstep).symm⟩
    case h_3 e hv => exact ⟨e, by rw [hv]; rfl, (Option.some.inj hstep).symm⟩
    case h_4 => exact nomatch hstep
  obtain ⟨hu, e, hon, rfl⟩ := hother
  apply h.join
  · intro c
    rw [hu]
    exact id
  · exact .inl ⟨(h.fine e).pos hon, rfl⟩
  · exact nofun

/-- A user that neither has an entry nor gets one. It may take a free inode on the disk. -/
theorem roam (h : S.Inv) {D : ℕ → ℕ → Dinode} (hu : ∀ c, ¬ (S.stage u).On c) (hst : ∀ c, ¬ st.On c)
    (hscan : ∀ d n type, st = .scanning d n type → type ≠ 0)
    (hdisk : ∀ d n, D d n = S.disk d n ∨ ((S.disk d n).type = 0 ∧ (D d n).type ≠ 0))
    (hclaim : ∀ d n, st = .claimed d n → (S.disk d n).type = 0 ∧ (D d n).type ≠ 0) :
    (({ S with disk := D } : State U).setStage u st).Inv := by
  set S' : State U := ({ S with disk := D } : State U).setStage u st with hS'
  have hself : S'.stage u = st := setStage_self
  have hne : ∀ v, v ≠ u → S'.stage v = S.stage v := fun v hv => Function.update_of_ne hv _ _
  have hentry : ∀ {v c}, (S.stage v).On c → S'.stage v = S.stage v := by
    intro v c hv
    apply hne
    rintro rfl
    exact hu c hv
  have htype : ∀ d n, (S.disk d n).type ≠ 0 → (S'.disk d n).type ≠ 0 := by
    intro d n hold
    rcases hdisk d n with heq | ⟨hzero, -⟩
    · show (D d n).type ≠ 0
      rwa [heq]
    · exact absurd hzero hold
  have hgiven : ∀ v d n, S'.Given v d n →
      (v = u ∧ st = .claimed d n) ∨ S.Given v d n := by
    intro v d n hv
    by_cases hvu : v = u
    · subst hvu
      rcases hv with hclaimed | ⟨-, c, hkeeps, -⟩
      · exact .inl ⟨rfl, hself ▸ hclaimed⟩
      · exact absurd (hself ▸ hkeeps.1) (hst c)
    · unfold Given at hv
      rw [hne v hvu] at hv
      exact .inr hv
  refine ⟨?_, h.single, ?_, ?_, ?_⟩
  · intro c
    have hfine := h.fine c
    refine ⟨?_, ?_, ?_, ?_, ?_⟩
    · have hsum := Count.sum_update_of_eq (S := Finset.univ) (g := S.stage) (a := u) (x := st)
        (fun st => if st.On c then 1 else 0) (by rw [if_neg (hu c), if_neg (hst c)])
      exact hfine.refs.trans hsum.symm
    · intro v w hvw
      by_cases hv : v = u
      · rw [hv, hself]
        exact apart_of_not_on (hst c)
      · by_cases hw : w = u
        · rw [hw, hself]
          exact (apart_of_not_on (hst c)).symm
        · rw [hne v hv, hne w hw]
          exact hfine.apart v w hvw
    · intro v hv
      by_cases hvu : v = u
      · rw [hvu, hself] at hv
        exact absurd hv.on (hst c)
      · exact hfine.holds v (hne v hvu ▸ hv)
    · intro v hv
      by_cases hvu : v = u
      · rw [hvu, hself] at hv
        exact absurd hv.on (hst c)
      · exact hfine.valid v (hne v hvu ▸ hv)
    · intro href hvalid
      -- A valid entry with a free inode is one that is being freed.
      rcases hfine.content href hvalid with ⟨v, i, hv, hmem, hd⟩ | ⟨v, hv, hmem, hd⟩ | ⟨hsame, hmem⟩
      · have hstage := hentry (v := v) (c := c) (by rw [hv]; rfl)
        exact .inl ⟨v, i, hstage.trans hv, hmem, fun hi => htype _ _ (hd hi)⟩
      · have hstage := hentry (v := v) (c := c) (by rw [hv]; rfl)
        exact .inr (.inl ⟨v, hstage.trans hv, hmem, htype _ _ hd⟩)
      · refine .inr (.inr ⟨?_, hmem⟩)
        rcases hdisk (S.ent c).dev (S.ent c).inum with heq | ⟨hzero, -⟩
        · exact hsame.trans heq.symm
        · rw [hsame] at hmem
          exact absurd hzero hmem
  · intro v d n type hv
    by_cases hvu : v = u
    · rw [hvu, hself] at hv
      exact hscan d n type hv
    · exact h.scan v d n type (hne v hvu ▸ hv)
  · intro v d n hv
    rcases hgiven v d n hv with ⟨-, hclaimed⟩ | hold
    · exact (hclaim d n hclaimed).2
    · exact htype d n (h.given v d n hold)
  · intro w v c i hw hi hv
    have hwu : w ≠ u := by
      rintro rfl
      rw [hself] at hw
      exact hst c (by rw [hw]; rfl)
    rw [hne w hwu] at hw
    rcases hgiven v _ _ hv with ⟨-, hclaimed⟩ | hold
    · exact ((h.fine c).freeing hw).2 hi (hclaim _ _ hclaimed).1
    · exact h.kept w v c i hw hi hold

/-- A free inode is claimed on the disk. -/
lemma ialloc (h : S.Inv) {d type : ℕ} (hstep : S.ialloc u d type = some S') : S'.Inv := by
  unfold State.ialloc at hstep
  split at hstep
  case isFalse => exact nomatch hstep
  case isTrue hu =>
  rw [← Option.some.inj hstep]
  apply h.roam
  · intro c
    rw [hu.1]
    exact id
  · exact fun _ => id
  · intro d' n type' heq
    rw [Stage.scanning.injEq] at heq
    rw [← heq.2.2]
    rcases hu.2 with rfl | rfl | rfl
    all_goals decide
  · exact fun _ _ => .inl rfl
  · exact nofun

lemma scan_step (h : S.Inv) (hstep : S.scan u = some S') : S'.Inv := by
  unfold State.scan at hstep
  split at hstep
  case h_2 => exact nomatch hstep
  case h_1 d n type hu =>
  have htype := h.scan u d n type hu
  have hoff : ∀ c, ¬ (S.stage u).On c := by
    intro c
    rw [hu]
    exact id
  split at hstep
  case isFalse => exact nomatch hstep
  -- a free inode is claimed, one in use is passed over
  by_cases hfree : (S.disk d n).type = 0
  · rw [if_pos hfree] at hstep
    rw [← Option.some.inj hstep]
    apply h.roam hoff
    · exact fun _ => id
    · exact nofun
    · intro d' n'
      by_cases heq : d' = d ∧ n' = n
      · refine .inr ⟨?_, ?_⟩
        · rw [heq.1, heq.2]
          exact hfree
        · rw [if_pos heq]
          exact htype
      · exact .inl (if_neg heq)
    · intro d' n' heq
      rw [Stage.claimed.injEq] at heq
      obtain ⟨rfl, rfl⟩ := heq
      refine ⟨hfree, ?_⟩
      rw [if_pos ⟨rfl, rfl⟩]
      exact htype
  · rw [if_neg hfree] at hstep
    rw [← Option.some.inj hstep]
    apply h.roam hoff
    · exact fun _ => id
    · intro d' n' type' heq
      rw [Stage.scanning.injEq] at heq
      rw [← heq.2.2]
      exact htype
    · exact fun _ _ => .inl rfl
    · exact nofun

end

end Inv

/-- The states that the cache should be in. -/
structure Consistent (S : State U) : Prop where
  /-- At most one entry with references for an inode. -/
  single : ∀ e c, 0 < (S.ent e).ref → 0 < (S.ent c).ref →
    (S.ent c).Is (S.ent e).dev (S.ent e).inum → c = e
  /-- When `ilock` has returned, the inode in memory is the one on the disk. -/
  ready : ∀ u e, S.stage u = .ready e →
    (S.ent e).din = S.disk (S.ent e).dev (S.ent e).inum ∧ (S.ent e).din.type ≠ 0
  /-- When `ilock` reads an inode from the disk that `ialloc` has given to the process, it has a
  type. -/
  fresh : ∀ u e, S.stage u = .locked e → S.fresh u = true → (S.ent e).valid = false →
    (S.disk (S.ent e).dev (S.ent e).inum).type ≠ 0

lemma Inv.consistent (h : S.Inv) : S.Consistent := by
  refine ⟨h.single, ?_, ?_⟩
  · intro u e hu
    exact (h.fine e).ready hu
  · intro u e hu hfresh _
    apply h.given u
    refine .inr ⟨hfresh, e, ?_, rfl, rfl⟩
    rw [hu]
    exact ⟨rfl, id⟩

end

end State

/-- No step goes through the hole in `iput`: `ilock` does not return an entry that is being freed, and
no inode is freed between the time `ialloc` marks it and the `iget` that follows. -/
def Calm (S : State U) : Act U → Prop
  | .load u => ∀ e, S.stage u = .locked e → ∀ v, ¬ (S.stage v).Freeing e
  | .iput u => ∀ e, S.stage u = .having e → State.Frees (S.ent e) →
    ∀ v, S.stage v ≠ .claimed (S.ent e).dev (S.ent e).inum
  | _ => True

section
variable [Fintype U]

instance (S : State U) : ∀ a, Decidable (Calm S a)
  | .load u => inferInstanceAs (Decidable (∀ e, S.stage u = .locked e →
    ∀ v, ¬ (S.stage v).Freeing e))
  | .iput u => inferInstanceAs (Decidable (∀ e, S.stage u = .having e → State.Frees (S.ent e) →
    ∀ v, S.stage v ≠ .claimed (S.ent e).dev (S.ent e).inum))
  | .iget .. | .ialloc .. | .scan .. | .take .. | .idup .. | .acquiresleep .. | .change ..
  | .iupdate .. | .iunlock .. | .free .. => .isTrue trivial

lemma inv_init (ninodes : ℕ) (D : ℕ → ℕ → Dinode) : (init ninodes D : State U).Inv := by
  have hgiven : ∀ u d n, ¬ (init ninodes D : State U).Given u d n := by
    intro u d n hu
    rcases hu with hu | ⟨hu, -⟩
    · exact nomatch hu
    · exact nomatch hu
  refine ⟨?_, ?_, ?_, ?_, ?_⟩
  · intro e
    refine ⟨?_, fun _ _ _ => Stage.apart_of_not_on id, nofun, nofun, nofun⟩
    show 0 = ∑ u : U, if Stage.idle.On e then 1 else 0
    rw [if_neg (show ¬ Stage.idle.On e from id), Finset.sum_const_zero]
  · exact nofun
  · exact nofun
  · exact fun u d n hu => absurd hu (hgiven u d n)
  · exact fun _ v _ _ _ _ => hgiven v _ _

variable [DecidableEq U]

lemma inv_step {S S' : State U} {a : Act U} (h : S.Inv) (hcalm : Calm S a)
    (hstep : step S a = some S') : S'.Inv := by
  cases a with
  | iget u d n => exact h.iget hstep
  | ialloc u d type => exact h.ialloc hstep
  | scan u => exact h.scan_step hstep
  | take u => exact h.take hstep
  | idup u v => exact h.idup hstep
  | acquiresleep u => exact h.acquiresleep hstep
  | load u => exact h.load hcalm hstep
  | change u x => exact h.change hstep
  | iupdate u => exact h.iupdate hstep
  | iunlock u => exact h.iunlock hstep
  | iput u => exact h.iput hcalm hstep
  | free u => exact h.free hstep

/-- In every run that keeps out of the hole the cache is consistent. -/
theorem cache_consistent {ninodes : ℕ} {D : ℕ → ℕ → Dinode} {acts : List (Act U)} {S : State U}
    (hcalm : Runs.Along step Calm (init ninodes D) acts)
    (hrun : Runs.run step (init ninodes D) acts = some S) : S.Consistent :=
  (hcalm.invariant (fun _ _ _ h hc hs => inv_step h hc hs) (inv_init ninodes D) hrun).consistent

end

/-- The first entry of the cache. -/
def first : Fin NINODE := ⟨0, by decide⟩

/-- A device with one inode, a file. -/
def oneFile (_ n : ℕ) : Dinode :=
  if n = 1 then { Dinode.zero with type := T_FILE, nlink := 1, size := 5 } else .zero

local instance users_neZero : NeZero 2 := ⟨by decide⟩

/-- User 0 removes the last link of the file and frees it, all but the last step. -/
def remove : List (Act (Fin 2)) :=
  [.iget 0 1 1, .acquiresleep 0, .load 0,
    .change 0 { Dinode.zero with type := T_FILE, size := 5 }, .iupdate 0, .iunlock 0, .iput 0,
    .free 0, .free 0, .free 0, .free 0]

/-- User 1 makes a new file. -/
def make : List (Act (Fin 2)) := [.ialloc 1 1 T_FILE, .scan 1, .take 1, .acquiresleep 1, .load 1]

/-- A file is removed and its inode used again. -/
theorem cache_consistent_reuse : ∃ S : State (Fin 2),
    Runs.run step (init 2 oneFile) (remove ++ [.free 0] ++ make) = some S ∧
    S.stage 1 = .ready first ∧ (S.ent first).din.type = T_FILE ∧ S.Consistent := by
  have hsome : (Runs.run step (init 2 oneFile) (remove ++ [.free 0] ++ make)).map (fun S =>
      (S.stage 1, (S.ent first).din.type)) = some (.ready first, T_FILE) := by decide +kernel
  have hcalm : Runs.Along step Calm (init 2 oneFile) (remove ++ [.free 0] ++ make) := by
    decide +kernel
  obtain ⟨S, hS, hval⟩ := Option.map_eq_some_iff.mp hsome
  rw [Prod.mk.injEq] at hval
  exact ⟨S, hS, hval.1, hval.2, cache_consistent hcalm hS⟩

/-- The new file is made before the last step of `iput`: `ilock` returns an inode of type 0. -/
theorem not_cache_consistent : ¬ ∀ (ninodes : ℕ) (D : ℕ → ℕ → Dinode) (acts : List (Act (Fin 2)))
    (S : State (Fin 2)), Runs.run step (init ninodes D) acts = some S → S.Consistent := by
  intro hall
  have hsome : (Runs.run step (init 2 oneFile) (remove ++ make)).map (fun S =>
      (S.stage 1, S.fresh 1, (S.ent first).din.type, (S.disk 1 1).type)) =
      some (.ready first, true, 0, T_FILE) := by decide +kernel
  obtain ⟨S, hS, hval⟩ := Option.map_eq_some_iff.mp hsome
  simp only [Prod.mk.injEq] at hval
  obtain ⟨hstage, -, htype, -⟩ := hval
  exact ((hall 2 oneFile _ S hS).ready 1 first hstage).2 htype

end Icache
end OhMyXv6
