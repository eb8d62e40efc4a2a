import OhMyXv6.Icache.Fine

/-!
# The steps of a user that has an entry

`ilock` and `iunlock`, `iupdate` and `iput`: the user stays at its entry, or leaves it.
-/

namespace OhMyXv6
namespace Icache

open Stage

variable {U : Type}

namespace State

section
variable [Fintype U]
variable {S S' : State U} {e c : Fin NINODE} {u v : U}

/-! ## The steps of a user that has the entry -/

section
variable [DecidableEq U] {x : Entry} {st : Stage}

omit [Fintype U] in
@[simp] lemma set_ent_self : ((S.setEnt e x).setStage u st).ent e = x := Function.update_self _ _ _

omit [Fintype U] in
@[simp] lemma set_stage_self : ((S.setEnt e x).setStage u st).stage u = st :=
  Function.update_self _ _ _

omit [Fintype U] in
@[simp] lemma setStage_self : (S.setStage u st).stage u = st := Function.update_self _ _ _

omit [Fintype U] in
/-- A user changes the entry it is on. -/
lemma moves_set (hu : (S.stage u).On e) (hst : ∀ c, c ≠ e → ¬ st.On c)
    (hname : x.Is (S.ent e).dev (S.ent e).inum) :
    Moves S ((S.setEnt e x).setStage u st) u e where
  ent _ hc := Function.update_of_ne hc _ _
  stage _ hv := Function.update_of_ne hv _ _
  fresh _ _ := rfl
  before _ hc h := hc (hu.eq h)
  after c hc := by
    rw [set_stage_self]
    exact hst c hc
  disk _ _ := .inl rfl
  name _ _ _ := by rwa [set_ent_self]

omit [Fintype U] in
lemma moves_writeBack (hu : (S.stage u).On e) (hst : ∀ c, c ≠ e → ¬ st.On c)
    (href : 0 < (S.ent e).ref) : Moves S ((S.writeBack e).setStage u st) u e where
  ent _ _ := rfl
  stage _ hv := Function.update_of_ne hv _ _
  fresh _ _ := rfl
  before _ hc h := hc (hu.eq h)
  after c hc := by
    rw [setStage_self]
    exact hst c hc
  disk d n := by
    by_cases h : d = (S.ent e).dev ∧ n = (S.ent e).inum
    · exact .inr ⟨href, h.1.symm, h.2.symm⟩
    · exact .inl (if_neg h)
  name _ _ _ := ⟨rfl, rfl⟩

omit [Fintype U] in
@[simp] lemma dinode_writeBack : ((S.writeBack e).setStage u st).dinode e = (S.ent e).din :=
  if_pos ⟨rfl, rfl⟩

end

namespace Inv

/-- A user that stays at its entry, or leaves it. -/
lemma stay (h : S.Inv) (hm : Moves S S' u e)
    (hname : (S'.ent e).Is (S.ent e).dev (S.ent e).inum) (href : (S'.ent e).ref ≤ (S.ent e).ref)
    (hu : S'.stage u = .idle ∨ (S'.stage u).On e) (hfresh : S'.fresh = S.fresh)
    (hkeeps : (S'.stage u).Keeps e → (S.stage u).Keeps e) (hfine : S'.Fine e)
    (hwrite : S'.disk = S.disk ∨ (S'.dinode e).type ≠ 0 ∨ ((S'.stage u).Freeing e ∧
      ∀ v, v ≠ u → ¬ S.Given v (S.ent e).dev (S.ent e).inum))
    (hkept : ∀ i, S'.stage u = .freeing e i → i ≤ 3 →
      ∀ v, v ≠ u → ¬ S.Given v (S.ent e).dev (S.ent e).inum) : S'.Inv := by
  have hsingle : S'.Single := by
    intro a b ha hb hsame
    -- an entry in use was in use before, under the same name
    have hent : ∀ c, 0 < (S'.ent c).ref →
        0 < (S.ent c).ref ∧ (S'.ent c).Is (S.ent c).dev (S.ent c).inum := by
      intro c hc
      by_cases hce : c = e
      · subst hce
        exact ⟨by omega, hname⟩
      · rw [hm.ent c hce] at hc ⊢
        exact ⟨hc, rfl, rfl⟩
    obtain ⟨ha', hnamea⟩ := hent a ha
    obtain ⟨hb', hnameb⟩ := hent b hb
    apply h.single a b ha' hb'
    rw [Entry.Is, hnamea.1, hnamea.2, hnameb.1, hnameb.2] at hsame
    exact hsame
  apply hm.inv h hsingle hfine
  · intro d n type heq
    rcases hu with hu | hu
    all_goals
      rw [heq] at hu
      exact nomatch hu
  · intro d n hgiven
    rcases hgiven with heq | ⟨hf, c, hc, his⟩
    · rcases hu with hu | hu
      all_goals
        rw [heq] at hu
        exact nomatch hu
    · have hce : c = e := by
        by_contra hne
        exact hm.after c hne hc.1
      subst hce
      refine .inr ⟨hfresh ▸ hf, c, hkeeps hc, ?_⟩
      exact ⟨hname.1.symm.trans his.1, hname.2.symm.trans his.2⟩
  · rwa [hname.1, hname.2]
  · rwa [hname.1, hname.2]

section
variable [DecidableEq U] {x : Entry} {st : Stage}

/-- The user changes the entry and its own stage. -/
lemma set (h : S.Inv) (hu : (S.stage u).On e)
    (hst : (st.On e ∧ x.ref = (S.ent e).ref) ∨ (st = .idle ∧ x.ref + 1 = (S.ent e).ref))
    (hkeeps : st.Keeps e → (S.stage u).Keeps e)
    (hname : x.Is (S.ent e).dev (S.ent e).inum)
    (hapart : ∀ v, v ≠ u → Apart e st (S.stage v))
    (hholds : ∀ v, v ≠ u → (S.stage v).Holds e → x.locked = true)
    (hholdsu : st.Holds e → x.locked = true)
    (hvalid : ∀ v, v ≠ u → (S.stage v).Uses e → x.valid = true)
    (hvalidu : st.Uses e → x.valid = true)
    (hcontent : 0 < (S.ent e).ref → x.valid = true →
      ((S.setEnt e x).setStage u st).Content e)
    (hkept : ∀ i, st = .freeing e i → i ≤ 3 →
      ∀ v, v ≠ u → ¬ S.Given v (S.ent e).dev (S.ent e).inum) :
    ((S.setEnt e x).setStage u st).Inv := by
  -- the actor moves within `e` or leaves it
  have hafter : ∀ c, c ≠ e → ¬ st.On c := by
    intro c hc hon
    rcases hst with ⟨hst, -⟩ | ⟨rfl, -⟩
    · exact hc (hst.eq hon)
    · exact hon
  have hle : x.ref ≤ (S.ent e).ref := by omega
  have hm : Moves S ((S.setEnt e x).setStage u st) u e := moves_set hu hafter hname
  apply h.stay hm
  · rwa [set_ent_self]
  · rwa [set_ent_self]
  · rw [set_stage_self]
    rcases hst with ⟨hst, -⟩ | ⟨rfl, -⟩
    · exact .inr hst
    · exact .inl rfl
  · rfl
  · rwa [set_stage_self]
  · apply hm.fine (h.fine e)
    · rw [set_ent_self, set_stage_self, if_pos hu]
      rcases hst with ⟨hst, href⟩ | ⟨rfl, href⟩
      · rw [if_pos hst, href]
      · rw [if_neg (show ¬ Stage.idle.On e from id), href]
        rfl
    · rwa [set_stage_self]
    · rwa [set_ent_self]
    · rwa [set_ent_self, set_stage_self]
    · rwa [set_ent_self]
    · rwa [set_ent_self, set_stage_self]
    · rw [set_ent_self]
      exact fun hpos => hcontent (by omega)
  · exact .inl rfl
  · rwa [set_stage_self]

/-- The user writes the inode to the disk. -/
lemma writeBack (h : S.Inv) (hu : (S.stage u).On e) (hst : st.On e)
    (hkeeps : st.Keeps e → (S.stage u).Keeps e)
    (hholds : st.Holds e → (S.stage u).Holds e) (huses : st.Uses e → (S.stage u).Uses e)
    (hfree : st.Freeing e → (S.stage u).Freeing e)
    (hcontent : ((S.writeBack e).setStage u st).Content e)
    (hwrite : (S.ent e).din.type ≠ 0 ∨
      (st.Freeing e ∧ ∀ v, v ≠ u → ¬ S.Given v (S.ent e).dev (S.ent e).inum))
    (hkept : ∀ i, st = .freeing e i → i ≤ 3 →
      ∀ v, v ≠ u → ¬ S.Given v (S.ent e).dev (S.ent e).inum) :
    ((S.writeBack e).setStage u st).Inv := by
  have hfine := h.fine e
  have hm : Moves S ((S.writeBack e).setStage u st) u e :=
    moves_writeBack hu (fun c hc hon => hc (hst.eq hon)) (hfine.pos hu)
  apply h.stay hm
  · exact ⟨rfl, rfl⟩
  · exact le_refl _
  · rw [setStage_self]
    exact .inr hst
  · rfl
  · rwa [setStage_self]
  · apply hm.fine hfine
    · rw [setStage_self, if_pos hu, if_pos hst]
      rfl
    · rw [setStage_self]
      exact fun v hv => (hfine.apart u v (Ne.symm hv)).mono hholds huses hfree
    · exact fun v _ => hfine.holds v
    · rw [setStage_self]
      exact fun hv => hfine.holds u (hholds hv)
    · exact fun v _ => hfine.valid v
    · rw [setStage_self]
      exact fun hv => hfine.valid u (huses hv)
    · exact fun _ _ => hcontent
  · rw [dinode_writeBack, setStage_self]
    exact .inr hwrite
  · rwa [setStage_self]

omit [Fintype U] in
/-- What the entry says, when nothing of it is changed. -/
lemma content_set (hu : (S.stage u).On e) (hst : st = .idle ∨ st.On e)
    (hname : x.Is (S.ent e).dev (S.ent e).inum) (hdin : x.din = (S.ent e).din)
    (hfree : ¬ (S.stage u).Freeing e) (hchanged : S.stage u ≠ .changed e) (h : S.Content e) :
    ((S.setEnt e x).setStage u st).Content e := by
  have hafter : ∀ c, c ≠ e → ¬ st.On c := by
    intro c hc hon
    rcases hst with rfl | hst
    · exact hon
    · exact hc (hst.eq hon)
  have hm : Moves S ((S.setEnt e x).setStage u st) u e := moves_set hu hafter hname
  apply hm.content h
  · rwa [set_ent_self]
  · unfold dinode
    rw [set_ent_self, hname.1, hname.2]
    rfl
  · exact hfree
  · exact hchanged

lemma acquiresleep (h : S.Inv) (hstep : S.acquiresleep u = some S') : S'.Inv := by
  unfold State.acquiresleep at hstep
  split at hstep
  case h_2 => exact nomatch hstep
  case h_1 e hu =>
  by_cases hbusy : (S.ent e).ref < 1 ∨ (S.ent e).locked
  · rw [if_pos hbusy] at hstep
    exact nomatch hstep
  rw [if_neg hbusy, Option.some.injEq] at hstep
  subst hstep
  rw [not_or] at hbusy
  have hfine := h.fine e
  have hon : (S.stage u).On e := by rw [hu]; rfl
  apply h.set hon
  · exact .inl ⟨rfl, rfl⟩
  · rw [hu]
    exact fun _ => ⟨rfl, id⟩
  · exact ⟨rfl, rfl⟩
  · intro v _
    exact ⟨fun _ hv => hbusy.2 (hfine.holds v hv), nofun, fun _ => nofun⟩
  · exact fun _ _ _ => rfl
  · exact fun _ => rfl
  · exact fun v _ => hfine.valid v
  · exact nofun
  · intro href hvalid
    apply content_set hon
    · exact .inr rfl
    · exact ⟨rfl, rfl⟩
    · rfl
    · rw [hu]
      exact id
    · rw [hu]
      exact nofun
    · exact hfine.content href hvalid
  · exact nofun

/-- `ilock` returns. Nobody may be freeing the inode: the entry says that it is valid then. -/
theorem load (h : S.Inv) (hcalm : ∀ e, S.stage u = .locked e → ∀ v, ¬ (S.stage v).Freeing e)
    (hstep : S.load u = some S') : S'.Inv := by
  unfold State.load at hstep
  split at hstep
  case h_2 => exact nomatch hstep
  case h_1 e hu =>
  have hfine := h.fine e
  have hon : (S.stage u).On e := by rw [hu]; rfl
  have hlocked : (S.ent e).locked = true := hfine.holds u (by rw [hu]; rfl)
  -- nobody frees the inode that is being read
  have hapart : ∀ v, v ≠ u → Apart e (.ready e) (S.stage v) := by
    intro v hv
    have hold := hfine.apart u v (Ne.symm hv)
    rw [hu] at hold
    exact ⟨hold.1, nofun, fun hfree => absurd hfree (hcalm e hu v)⟩
  have hkeeps : (Stage.ready e).Keeps e → (S.stage u).Keeps e := by
    rw [hu]
    exact fun _ => ⟨rfl, id⟩
  -- the entry is valid, or the inode is read from the disk
  by_cases hvalid : (S.ent e).valid = true
  · rw [if_pos hvalid, Option.some.injEq] at hstep
    have heq : S' = (S.setEnt e (S.ent e)).setStage u (.ready e) := by
      rw [← hstep, setEnt, Function.update_eq_self]
    rw [heq]
    apply h.set hon
    · exact .inl ⟨rfl, rfl⟩
    · exact hkeeps
    · exact ⟨rfl, rfl⟩
    · exact hapart
    · exact fun _ _ _ => hlocked
    · exact fun _ => hlocked
    · exact fun _ _ _ => hvalid
    · exact fun _ => hvalid
    · intro href _
      apply content_set hon
      · exact .inr rfl
      · exact ⟨rfl, rfl⟩
      · rfl
      · rw [hu]
        exact id
      · rw [hu]
        exact nofun
      · exact hfine.content href hvalid
    · exact nofun
  · rw [if_neg hvalid] at hstep
    by_cases htype : (S.disk (S.ent e).dev (S.ent e).inum).type = 0
    · rw [if_pos htype] at hstep
      exact nomatch hstep
    rw [if_neg htype, Option.some.injEq] at hstep
    subst hstep
    apply h.set hon
    · exact .inl ⟨rfl, rfl⟩
    · exact hkeeps
    · exact ⟨rfl, rfl⟩
    · exact hapart
    · exact fun _ _ _ => hlocked
    · exact fun _ => hlocked
    · exact fun _ _ _ => rfl
    · exact fun _ => rfl
    · intro _ _
      refine .inr (.inr ?_)
      unfold dinode
      rw [set_ent_self]
      exact ⟨rfl, htype⟩
    · exact nofun

/-- What the holder of the lock may become: the lock and the use of the entry stay. -/
theorem set_same (h : S.Inv) {y : Dinode} (hu : (S.stage u).On e) (hst : st.On e)
    (hkeeps : st.Keeps e → (S.stage u).Keeps e) (hholds : st.Holds e → (S.stage u).Holds e)
    (huses : st.Uses e → (S.stage u).Uses e) (hfree : st.Freeing e → (S.stage u).Freeing e)
    (hcontent : ((S.setEnt e { S.ent e with din := y }).setStage u st).Content e)
    (hkept : ∀ i, st = .freeing e i → i ≤ 3 →
      ∀ v, v ≠ u → ¬ S.Given v (S.ent e).dev (S.ent e).inum) :
    ((S.setEnt e { S.ent e with din := y }).setStage u st).Inv := by
  have hfine := h.fine e
  apply h.set hu
  · exact .inl ⟨hst, rfl⟩
  · exact hkeeps
  · exact ⟨rfl, rfl⟩
  · exact fun v hv => (hfine.apart u v (Ne.symm hv)).mono hholds huses hfree
  · exact fun v _ => hfine.holds v
  · exact fun hv => hfine.holds u (hholds hv)
  · exact fun v _ => hfine.valid v
  · exact fun hv => hfine.valid u (huses hv)
  · exact fun _ _ => hcontent
  · exact hkept

lemma change (h : S.Inv) {y : Dinode} (hstep : S.change u y = some S') : S'.Inv := by
  have hholder : ∃ e, (S.stage u = .ready e ∨ S.stage u = .changed e) ∧
      y.type = (S.ent e).din.type ∧
      S' = (S.setEnt e { S.ent e with din := y }).setStage u (.changed e) := by
    unfold State.change at hstep
    split at hstep
    case h_1 e hu =>
      split at hstep
      · exact ⟨e, .inl hu, ‹_›, (Option.some.inj hstep).symm⟩
      · exact nomatch hstep
    case h_2 e hu =>
      split at hstep
      · exact ⟨e, .inr hu, ‹_›, (Option.some.inj hstep).symm⟩
      · exact nomatch hstep
    case h_3 => exact nomatch hstep
  obtain ⟨e, hu, htype, rfl⟩ := hholder
  have hstage := owner hu
  apply h.set_same hstage.1.1
  · rfl
  · exact fun _ => hstage.1
  · exact fun _ => hstage.2.1
  · exact fun _ => hstage.2.2
  · exact nofun
  · obtain ⟨hmem, hdisk⟩ := (h.fine e).types hu
    refine .inr (.inl ⟨u, set_stage_self, ?_⟩)
    unfold dinode
    rw [set_ent_self]
    exact ⟨by rwa [htype], hdisk⟩
  · exact nofun

lemma iupdate (h : S.Inv) (hstep : S.iupdate u = some S') : S'.Inv := by
  have hholder : ∃ e, (S.stage u = .ready e ∨ S.stage u = .changed e) ∧
      S' = (S.writeBack e).setStage u (.ready e) := by
    unfold State.iupdate at hstep
    split at hstep
    case h_1 e hu => exact ⟨e, .inl hu, (Option.some.inj hstep).symm⟩
    case h_2 e hu => exact ⟨e, .inr hu, (Option.some.inj hstep).symm⟩
    case h_3 => exact nomatch hstep
  obtain ⟨e, hu, rfl⟩ := hholder
  have hstage := owner hu
  have htype := ((h.fine e).types hu).1
  apply h.writeBack hstage.1.1
  · rfl
  · exact fun _ => hstage.1
  · exact fun _ => hstage.2.1
  · exact fun _ => hstage.2.2
  · exact nofun
  · refine .inr (.inr ?_)
    rw [dinode_writeBack]
    exact ⟨rfl, htype⟩
  · exact .inl htype
  · exact nofun

lemma iunlock (h : S.Inv) (hstep : S.iunlock u = some S') : S'.Inv := by
  unfold State.iunlock at hstep
  split at hstep
  case h_2 => exact nomatch hstep
  case h_1 e hu =>
  rw [Option.some.injEq] at hstep
  subst hstep
  have hfine := h.fine e
  have hon : (S.stage u).On e := by rw [hu]; rfl
  apply h.set hon
  · exact .inl ⟨rfl, rfl⟩
  · rw [hu]
    exact fun _ => ⟨rfl, id⟩
  · exact ⟨rfl, rfl⟩
  · exact fun v _ => apart_having e
  · intro v hv hholds
    have hapart := hfine.apart u v (Ne.symm hv)
    exact absurd hholds (hapart.1 (by rw [hu]; rfl))
  · exact nofun
  · exact fun v _ => hfine.valid v
  · exact nofun
  · intro href hvalid
    apply content_set hon
    · exact .inr rfl
    · exact ⟨rfl, rfl⟩
    · rfl
    · rw [hu]
      exact id
    · rw [hu]
      exact nofun
    · exact hfine.content href hvalid
  · exact nofun

/-- `iput`. An inode that is to be freed must not be one that `ialloc` has taken. -/
theorem iput (h : S.Inv) (hcalm : ∀ e, S.stage u = .having e → Frees (S.ent e) →
      ∀ v, S.stage v ≠ .claimed (S.ent e).dev (S.ent e).inum)
    (hstep : S.iput u = some S') : S'.Inv := by
  unfold State.iput at hstep
  split at hstep
  case h_2 => exact nomatch hstep
  case h_1 e hu =>
  have hfine := h.fine e
  have hon : (S.stage u).On e := by rw [hu]; rfl
  have hpos := hfine.pos hon
  by_cases hfrees : Frees (S.ent e)
  · rw [if_pos hfrees, Option.some.injEq] at hstep
    have heq : S' = (S.setEnt e (S.ent e)).setStage u (.freeing e 0) := by
      rw [← hstep, setEnt, Function.update_eq_self]
    rw [heq]
    have hvalid : (S.ent e).valid = true := hfrees.2.1
    -- The reference is the only one, so nobody else is at the entry.
    have hother : ∀ v, v ≠ u → ¬ (S.stage v).On e := fun v hv hv' =>
      hv (hfine.only hfrees.1 hon hv')
    have hsame : (S.ent e).din = S.dinode e ∧ (S.ent e).din.type ≠ 0 := by
      rcases hfine.content hpos hvalid with ⟨v, i, hv, -⟩ | ⟨v, hv, -⟩ | hsame
      · refine absurd (by rw [hv]; rfl) (hother v ?_)
        rintro rfl
        rw [hu] at hv
        exact nomatch hv
      · refine absurd (by rw [hv]; rfl) (hother v ?_)
        rintro rfl
        rw [hu] at hv
        exact nomatch hv
      · exact hsame
    apply h.set hon
    · exact .inl ⟨rfl, rfl⟩
    · exact fun hkeeps => absurd rfl hkeeps.2
    · exact ⟨rfl, rfl⟩
    · exact fun v hv => (apart_of_not_on (hother v hv)).symm
    · exact fun v _ => hfine.holds v
    · exact nofun
    · exact fun _ _ _ => hvalid
    · exact fun _ => hvalid
    · intro _ _
      refine .inl ⟨u, 0, set_stage_self, ?_⟩
      unfold dinode
      rw [set_ent_self]
      have htype : (S.dinode e).type ≠ 0 := hsame.1 ▸ hsame.2
      exact ⟨fun _ => hsame.2, fun _ => htype⟩
    · intro i _ _ v hv hgiven
      rcases hgiven with hclaimed | ⟨-, c, hkeeps, his⟩
      · exact hcalm e hu hfrees v hclaimed
      · have hc := h.single e c hpos ((h.fine c).pos hkeeps.1) his
        rw [hc] at hkeeps
        exact hother v hv hkeeps.1
  · rw [if_neg hfrees, Option.some.injEq] at hstep
    subst hstep
    apply h.set hon
    · refine .inr ⟨rfl, ?_⟩
      show (S.ent e).ref - 1 + 1 = (S.ent e).ref
      omega
    · exact fun hkeeps => hkeeps.1.elim
    · exact ⟨rfl, rfl⟩
    · exact fun v _ => apart_of_not_on id
    · exact fun v _ => hfine.holds v
    · exact nofun
    · exact fun v _ => hfine.valid v
    · exact nofun
    · intro href hvalid
      apply content_set hon
      · exact .inl rfl
      · exact ⟨rfl, rfl⟩
      · rfl
      · rw [hu]
        exact id
      · rw [hu]
        exact nofun
      · exact hfine.content href hvalid
    · exact nofun

/-- The next step of `iput`, in memory. -/
lemma set_freeing (h : S.Inv) {y : Dinode} {i : ℕ} (hu : S.stage u = .freeing e i) (hi : i ≤ 3)
    (htype : i + 1 ≤ 2 → y.type ≠ 0) :
    ((S.setEnt e { S.ent e with din := y }).setStage u (.freeing e (i + 1))).Inv := by
  have htypes := (h.fine e).freeing hu
  apply h.set_same
  · rw [hu]
    rfl
  · rfl
  · exact fun hkeeps => absurd rfl hkeeps.2
  · exact nofun
  · rw [hu]
    exact fun _ => rfl
  · rw [hu]
    exact fun _ => rfl
  · refine .inl ⟨u, i + 1, set_stage_self, ?_⟩
    unfold dinode
    rw [set_ent_self]
    exact ⟨htype, fun _ => htypes.2 hi⟩
  · exact fun _ _ _ v _ => h.kept u v e i hu hi

/-- The next step of `iput`, on the disk. -/
lemma write_freeing (h : S.Inv) {i : ℕ} (hu : S.stage u = .freeing e i) (hi : i ≤ 3) :
    ((S.writeBack e).setStage u (.freeing e (i + 1))).Inv := by
  have htypes := (h.fine e).freeing hu
  apply h.writeBack
  · rw [hu]
    rfl
  · rfl
  · exact fun hkeeps => absurd rfl hkeeps.2
  · exact nofun
  · rw [hu]
    exact fun _ => rfl
  · rw [hu]
    exact fun _ => rfl
  · refine .inl ⟨u, i + 1, setStage_self, ?_⟩
    rw [dinode_writeBack]
    exact ⟨fun _ => htypes.1 (by omega), fun _ => htypes.1 (by omega)⟩
  · -- The type that is written may be zero, but the inode is nobody's yet.
    exact .inr ⟨rfl, fun v _ => h.kept u v e i hu hi⟩
  · exact fun _ _ _ v _ => h.kept u v e i hu hi

/-- The steps of `iput` that free the inode. -/
lemma free (h : S.Inv) (hstep : S.free u = some S') : S'.Inv := by
  unfold State.free at hstep
  split at hstep
  case h_6 => exact nomatch hstep
  case h_1 e hu =>
    rw [← Option.some.inj hstep]
    have htypes := (h.fine e).freeing hu
    exact h.set_freeing hu (by omega) fun _ => htypes.1 (by omega)
  case h_2 e hu =>
    rw [← Option.some.inj hstep]
    exact h.write_freeing hu (by omega)
  case h_3 e hu =>
    rw [← Option.some.inj hstep]
    exact h.set_freeing hu (by omega) fun hle => absurd hle (by omega)
  case h_4 e hu =>
    rw [← Option.some.inj hstep]
    exact h.write_freeing hu (by omega)
  case h_5 e hu =>
    rw [Option.some.injEq] at hstep
    subst hstep
    have hfine := h.fine e
    have hon : (S.stage u).On e := by rw [hu]; rfl
    have hpos := hfine.pos hon
    apply h.set hon
    · refine .inr ⟨rfl, ?_⟩
      show (S.ent e).ref - 1 + 1 = (S.ent e).ref
      omega
    · exact fun hkeeps => hkeeps.1.elim
    · exact ⟨rfl, rfl⟩
    · exact fun v _ => apart_of_not_on id
    · exact fun v _ => hfine.holds v
    · exact nofun
    · intro v hv huses
      exact absurd huses ((hfine.apart u v (Ne.symm hv)).2.1 (by rw [hu]; rfl))
    · exact nofun
    · exact nofun
    · exact nofun

end

end Inv

end

end State
end Icache
end OhMyXv6
