import Mathlib.Algebra.Order.BigOperators.Group.Finset
import OhMyXv6.Icache.Model
import OhMyXv6.Lib.Count
import OhMyXv6.Lib.Runs

/-!
# Entries of the inode cache

Everything about one entry is `Fine`. A step changes one entry, so all others stay fine by a frame rule, and
what is left is one lemma for each kind of step.
-/

namespace OhMyXv6
namespace Icache

namespace Stage

/-- The user is freeing the inode of the entry. -/
def Freeing (e : Fin NINODE) : Stage → Prop
  | .freeing c _ => c = e
  | _ => False

instance (e : Fin NINODE) : ∀ st : Stage, Decidable (st.Freeing e)
  | .idle => .isFalse id
  | .scanning .. => .isFalse id
  | .claimed .. => .isFalse id
  | .having _ => .isFalse id
  | .locked _ => .isFalse id
  | .ready _ => .isFalse id
  | .changed _ => .isFalse id
  | .freeing c _ => inferInstanceAs (Decidable (c = e))

/-- The user relies on what the entry says about the inode. -/
def Uses (e : Fin NINODE) : Stage → Prop
  | .ready c => c = e
  | .changed c => c = e
  | .freeing c _ => c = e
  | _ => False

/-- The user has a reference that it is not giving back. -/
def Keeps (e : Fin NINODE) (st : Stage) : Prop := st.On e ∧ ¬ st.Freeing e

/-- Two users that may both be at the entry. -/
def Apart (e : Fin NINODE) (st st' : Stage) : Prop :=
  (st.Holds e → ¬ st'.Holds e) ∧ (st.Freeing e → ¬ st'.Uses e) ∧ (st'.Freeing e → ¬ st.Uses e)

variable {e : Fin NINODE} {st st' : Stage}

/-- The order of the two users does not matter. -/
lemma Apart.symm (h : Apart e st st') : Apart e st' st :=
  ⟨fun h' h'' => h.1 h'' h', h.2.2, h.2.1⟩

lemma Holds.on (h : st.Holds e) : st.On e := by
  rcases st with _ | _ | _ | _ | _ | _ | _ | _
  all_goals first | exact h | exact h.elim

lemma Uses.on (h : st.Uses e) : st.On e := by
  rcases st with _ | _ | _ | _ | _ | _ | _ | _
  all_goals first | exact h | exact h.elim

lemma Freeing.uses (h : st.Freeing e) : st.Uses e := by
  rcases st with _ | _ | _ | _ | _ | _ | _ | _
  all_goals first | exact h | exact h.elim

/-- A user is on one inode at a time. -/
lemma On.eq {c : Fin NINODE} (h : st.On e) (h' : st.On c) : c = e := by
  rcases st with _ | _ | _ | _ | _ | _ | _ | _
  all_goals first | exact h.elim | exact (show _ = c from h').symm.trans h

/-- It is at `iput`'s last part then. -/
lemma Freeing.eq (h : st.Freeing e) : ∃ i, st = .freeing e i := by
  rcases st with _ | _ | _ | _ | _ | _ | _ | ⟨c, i⟩
  all_goals first | exact h.elim | exact ⟨i, by rw [show c = e from h]⟩

/-- Who is not at the entry is in nobody's way. -/
lemma apart_of_not_on (h : ¬ st.On e) : Apart e st st' :=
  ⟨fun h' => absurd h'.on h, fun h' => absurd h'.uses.on h, fun _ h' => h h'.on⟩

/-- Neither does who only has a reference. -/
lemma apart_having (c : Fin NINODE) : Apart e (.having c) st' := ⟨nofun, nofun, fun _ => nofun⟩

/-- Being apart depends only on the lock and on what is used. -/
lemma Apart.mono {st₁ : Stage} (h : Apart e st st') (hholds : st₁.Holds e → st.Holds e)
    (huses : st₁.Uses e → st.Uses e) (hfree : st₁.Freeing e → st.Freeing e) : Apart e st₁ st' :=
  ⟨fun h' => h.1 (hholds h'), fun h' => h.2.1 (hfree h'), fun h' h'' => h.2.2 h' (huses h'')⟩

/-- Who may change the inode in memory. -/
lemma owner (h : st = .ready e ∨ st = .changed e) : st.Keeps e ∧ st.Holds e ∧ st.Uses e := by
  rcases h with rfl | rfl
  all_goals exact ⟨⟨rfl, id⟩, rfl, rfl⟩

end Stage

open Stage

variable {U : Type}

namespace State

/-- The inode of the entry on the disk. -/
def dinode (S : State U) (e : Fin NINODE) : Dinode := S.disk (S.ent e).dev (S.ent e).inum

/-- What a valid entry says, beside what is on the disk: it is being freed, or it is changed, or the
two are the same. -/
def Content (S : State U) (e : Fin NINODE) : Prop :=
  (∃ u i, S.stage u = .freeing e i ∧ (i ≤ 2 → (S.ent e).din.type ≠ 0) ∧
      (i ≤ 3 → (S.dinode e).type ≠ 0)) ∨
    (∃ u, S.stage u = .changed e ∧ (S.ent e).din.type ≠ 0 ∧ (S.dinode e).type ≠ 0) ∨
    ((S.ent e).din = S.dinode e ∧ (S.ent e).din.type ≠ 0)

/-- `ialloc` has given the inode to the user, or is about to. -/
def Given (S : State U) (u : U) (d n : ℕ) : Prop :=
  S.stage u = .claimed d n ∨
    (S.fresh u = true ∧ ∃ e, (S.stage u).Keeps e ∧ (S.ent e).Is d n)

/-- At most one entry in use for an inode. -/
def Single (S : State U) : Prop :=
  ∀ e c, 0 < (S.ent e).ref → 0 < (S.ent c).ref → (S.ent c).Is (S.ent e).dev (S.ent e).inum → c = e

section
variable [Fintype U]

/-- What holds of one entry: its count, its lock, and what it says of the disk. -/
structure Fine (S : State U) (e : Fin NINODE) : Prop where
  refs : (S.ent e).ref = ∑ u, if (S.stage u).On e then 1 else 0
  apart : ∀ u v, u ≠ v → Apart e (S.stage u) (S.stage v)
  holds : ∀ u, (S.stage u).Holds e → (S.ent e).locked = true
  valid : ∀ u, (S.stage u).Uses e → (S.ent e).valid = true
  content : 0 < (S.ent e).ref → (S.ent e).valid = true → S.Content e

/-- What holds between any two steps. -/
structure Inv (S : State U) : Prop where
  fine : ∀ e, S.Fine e
  single : S.Single
  scan : ∀ u d n type, S.stage u = .scanning d n type → type ≠ 0
  given : ∀ u d n, S.Given u d n → (S.disk d n).type ≠ 0
  /-- Until `iput` has written the type of the inode, `ialloc` does not give it to anybody. -/
  kept : ∀ u v e i, S.stage u = .freeing e i → i ≤ 3 → ¬ S.Given v (S.ent e).dev (S.ent e).inum

variable {S S' : State U} {e c : Fin NINODE} {u v : U}

namespace Fine

/-- An inode with a user has a reference. -/
lemma pos (h : S.Fine e) (hu : (S.stage u).On e) : 0 < (S.ent e).ref := by
  rw [h.refs]
  apply Finset.sum_pos'
  · exact fun _ _ => Nat.zero_le _
  · exact ⟨u, Finset.mem_univ u, by rw [if_pos hu]; omega⟩

/-- An inode without references has no user. -/
lemma not_on (h : S.Fine e) (href : (S.ent e).ref = 0) (u : U) : ¬ (S.stage u).On e := by
  intro hu
  have hpos := h.pos hu
  omega

/-- Who has the only reference. -/
lemma only (h : S.Fine e) (href : (S.ent e).ref = 1) (hu : (S.stage u).On e)
    (hv : (S.stage v).On e) : v = u := by
  have hcard : (Finset.univ.filter fun u => (S.stage u).On e).card ≤ 1 := by
    rw [Finset.card_filter, ← h.refs, href]
  apply Finset.card_le_one.mp hcard
  · simpa using hv
  · simpa using hu

/-- A locked inode is what the disk has, and is allocated. -/
lemma ready (h : S.Fine e) (hu : S.stage u = .ready e) :
    (S.ent e).din = S.dinode e ∧ (S.ent e).din.type ≠ 0 := by
  have hon : (S.stage u).On e := by rw [hu]; rfl
  have huses : (S.stage u).Uses e := by rw [hu]; rfl
  rcases h.content (h.pos hon) (h.valid u huses) with ⟨v, i, hv, -⟩ | ⟨v, hv, -⟩ | hsame
  · have hne : v ≠ u := by
      intro heq
      rw [heq, hu] at hv
      exact nomatch hv
    exact absurd huses ((h.apart v u hne).2.1 (by rw [hv]; rfl))
  · have hne : v ≠ u := by
      intro heq
      rw [heq, hu] at hv
      exact nomatch hv
    exact absurd (by rw [hu]; rfl) ((h.apart v u hne).1 (by rw [hv]; rfl))
  · exact hsame

/-- Nobody frees what somebody has locked, so the types are not zero. -/
theorem types (h : S.Fine e) (hu : S.stage u = .ready e ∨ S.stage u = .changed e) :
    (S.ent e).din.type ≠ 0 ∧ (S.dinode e).type ≠ 0 := by
  have huses := (owner hu).2.2
  rcases h.content (h.pos huses.on) (h.valid u huses) with ⟨v, i, hv, -⟩ | ⟨v, hv, htypes⟩ | hsame
  · have hne : v ≠ u := by
      rintro rfl
      rcases hu with hu | hu
      all_goals
        rw [hu] at hv
        exact nomatch hv
    exact absurd huses ((h.apart v u hne).2.1 (by rw [hv]; rfl))
  · exact htypes
  · exact ⟨hsame.2, hsame.1 ▸ hsame.2⟩

/-- What is on the disk while the inode is being freed. -/
lemma freeing (h : S.Fine e) {i : ℕ} (hu : S.stage u = .freeing e i) :
    (i ≤ 2 → (S.ent e).din.type ≠ 0) ∧ (i ≤ 3 → (S.dinode e).type ≠ 0) := by
  have huses : (S.stage u).Uses e := by rw [hu]; rfl
  rcases h.content (h.pos huses.on) (h.valid u huses) with ⟨v, j, hv, htypes⟩ | ⟨v, hv, -⟩ | hsame
  · have heq : v = u := by
      by_contra hne
      exact (h.apart v u hne).2.1 (by rw [hv]; rfl) huses
    rw [heq, hu, Stage.freeing.injEq] at hv
    rw [hv.2]
    exact htypes
  · have hne : u ≠ v := by
      rintro rfl
      rw [hu] at hv
      exact nomatch hv
    exact absurd (by rw [hv]; rfl) ((h.apart u v hne).2.1 (by rw [hu]; rfl))
  · exact ⟨fun _ => hsame.2, fun _ => hsame.1 ▸ hsame.2⟩

end Fine

/-! ## One step

All that a step of user `u` changes is the entry `e` and the inode of `e` on the disk. -/

/-- A step of user `u` at entry `e`, with all others left alone. -/
structure Moves (S S' : State U) (u : U) (e : Fin NINODE) : Prop where
  ent : ∀ c, c ≠ e → S'.ent c = S.ent c
  stage : ∀ v, v ≠ u → S'.stage v = S.stage v
  fresh : ∀ v, v ≠ u → S'.fresh v = S.fresh v
  before : ∀ c, c ≠ e → ¬ (S.stage u).On c
  after : ∀ c, c ≠ e → ¬ (S'.stage u).On c
  disk : ∀ d n, S'.disk d n = S.disk d n ∨ (0 < (S'.ent e).ref ∧ (S'.ent e).Is d n)
  /-- An entry that somebody else has keeps its name. -/
  name : ∀ v, v ≠ u → (S.stage v).On e → (S'.ent e).Is (S.ent e).dev (S.ent e).inum

namespace Moves

omit [Fintype U] in
/-- Whoever is at another entry is another user. -/
lemma ne_of_on (hm : Moves S S' u e) (hne : c ≠ e) (hv : (S.stage v).On c) : v ≠ u := by
  rintro rfl
  exact hm.before c hne hv

omit [Fintype U] in
/-- The other inodes of the disk stay. -/
lemma dinode_of_ne (hm : Moves S S' u e) (hsingle : S'.Single) (hne : c ≠ e)
    (href : 0 < (S.ent c).ref) : S'.dinode c = S.dinode c := by
  unfold dinode
  rw [hm.ent c hne]
  rcases hm.disk (S.ent c).dev (S.ent c).inum with heq | ⟨hpos, his⟩
  · exact heq
  · refine absurd ?_ hne
    apply hsingle e c hpos
    · rwa [hm.ent c hne]
    · rw [hm.ent c hne]
      exact ⟨his.1.symm, his.2.symm⟩

/-- **Frame rule.** The other entries stay as they are. -/
theorem fine_of_ne (hm : Moves S S' u e) (hsingle : S'.Single) (hne : c ≠ e) (h : S.Fine c) :
    S'.Fine c := by
  have hstage : ∀ v, v = u ∨ S'.stage v = S.stage v := fun v =>
    (em (v = u)).imp_right (hm.stage v)
  refine ⟨?_, ?_, ?_, ?_, ?_⟩
  · rw [hm.ent c hne, h.refs]
    apply Finset.sum_congr rfl
    intro v _
    rcases hstage v with rfl | heq
    · rw [if_neg (hm.before c hne), if_neg (hm.after c hne)]
    · rw [heq]
  · intro v w hvw
    rcases hstage v with rfl | hv
    · exact apart_of_not_on (hm.after c hne)
    · rcases hstage w with rfl | hw
      · exact (apart_of_not_on (hm.after c hne)).symm
      · rw [hv, hw]
        exact h.apart v w hvw
  · intro v hv
    rcases hstage v with rfl | heq
    · exact absurd hv.on (hm.after c hne)
    · rw [hm.ent c hne]
      exact h.holds v (heq ▸ hv)
  · intro v hv
    rcases hstage v with rfl | heq
    · exact absurd hv.on (hm.after c hne)
    · rw [hm.ent c hne]
      exact h.valid v (heq ▸ hv)
  · intro href hvalid
    rw [hm.ent c hne] at href hvalid
    unfold Content
    rw [hm.ent c hne, hm.dinode_of_ne hsingle hne href]
    rcases h.content href hvalid with ⟨v, i, hv, htypes⟩ | ⟨v, hv, htypes⟩ | hsame
    · have hvu := hm.ne_of_on hne (v := v) (by rw [hv]; rfl)
      exact .inl ⟨v, i, (hm.stage v hvu).trans hv, htypes⟩
    · have hvu := hm.ne_of_on hne (v := v) (by rw [hv]; rfl)
      exact .inr (.inl ⟨v, (hm.stage v hvu).trans hv, htypes⟩)
    · exact .inr (.inr hsame)

/-- The entry itself is fine when its new value and the new stage of the user fit together. -/
theorem fine (hm : Moves S S' u e) (h : S.Fine e)
    (href : (S'.ent e).ref + (if (S.stage u).On e then 1 else 0) =
      (S.ent e).ref + if (S'.stage u).On e then 1 else 0)
    (hapart : ∀ v, v ≠ u → Apart e (S'.stage u) (S.stage v))
    (hholds : ∀ v, v ≠ u → (S.stage v).Holds e → (S'.ent e).locked = true)
    (hholdsu : (S'.stage u).Holds e → (S'.ent e).locked = true)
    (hvalid : ∀ v, v ≠ u → (S.stage v).Uses e → (S'.ent e).valid = true)
    (hvalidu : (S'.stage u).Uses e → (S'.ent e).valid = true)
    (hcontent : 0 < (S'.ent e).ref → (S'.ent e).valid = true → S'.Content e) : S'.Fine e := by
  refine ⟨?_, ?_, ?_, ?_, hcontent⟩
  · classical
    have hupdate : S'.stage = Function.update S.stage u (S'.stage u) := by
      funext v
      by_cases hv : v = u
      · rw [hv, Function.update_self]
      · rw [Function.update_of_ne hv, hm.stage v hv]
    -- the count changes by what the actor contributes
    have hsum := Count.sum_update (g := S.stage) (x := S'.stage u)
      (fun st => if st.On e then 1 else 0) (Finset.mem_univ u)
    rw [← hupdate, ← h.refs] at hsum
    omega
  · intro v w hvw
    by_cases hv : v = u
    · subst hv
      rw [hm.stage w (Ne.symm hvw)]
      exact hapart w (Ne.symm hvw)
    · by_cases hw : w = u
      · subst hw
        rw [hm.stage v hv]
        exact (hapart v hv).symm
      · rw [hm.stage v hv, hm.stage w hw]
        exact h.apart v w hvw
  · intro v hv
    by_cases hvu : v = u
    · exact hholdsu (hvu ▸ hv)
    · exact hholds v hvu (hm.stage v hvu ▸ hv)
  · intro v hv
    by_cases hvu : v = u
    · exact hvalidu (hvu ▸ hv)
    · exact hvalid v hvu (hm.stage v hvu ▸ hv)

omit [Fintype U] in
/-- What the entry says stays right when nothing of it changes and the user did not matter for it. -/
theorem content (hm : Moves S S' u e) (h : S.Content e) (hdin : (S'.ent e).din = (S.ent e).din)
    (hdisk : S'.dinode e = S.dinode e) (hu : ¬ (S.stage u).Freeing e)
    (hu' : S.stage u ≠ .changed e) : S'.Content e := by
  unfold Content
  rw [hdin, hdisk]
  rcases h with ⟨v, i, hv, htypes⟩ | ⟨v, hv, htypes⟩ | hsame
  · have hvu : v ≠ u := by
      rintro rfl
      exact hu (by rw [hv]; rfl)
    exact .inl ⟨v, i, (hm.stage v hvu).trans hv, htypes⟩
  · have hvu : v ≠ u := by
      rintro rfl
      exact hu' hv
    exact .inr (.inl ⟨v, (hm.stage v hvu).trans hv, htypes⟩)
  · exact .inr (.inr hsame)

omit [Fintype U] in
/-- Nobody else is given anything. -/
lemma given (hm : Moves S S' u e) (hu : ∀ d n, S'.Given u d n → S.Given u d n) {v : U} {d n : ℕ}
    (hv : S'.Given v d n) : S.Given v d n := by
  by_cases hvu : v = u
  · rw [hvu] at hv ⊢
    exact hu d n hv
  · unfold Given at hv ⊢
    rw [hm.stage v hvu, hm.fresh v hvu] at hv
    rcases hv with hv | ⟨hfresh, c, hkeeps, his⟩
    · exact .inl hv
    · refine .inr ⟨hfresh, c, hkeeps, ?_⟩
      by_cases hc : c = e
      · subst hc
        have hname := hm.name v hvu hkeeps.1
        exact ⟨hname.1.symm.trans his.1, hname.2.symm.trans his.2⟩
      · rwa [hm.ent c hc] at his

/-- The whole invariant after a step. -/
lemma inv (hm : Moves S S' u e) (h : S.Inv) (hsingle : S'.Single) (hfine : S'.Fine e)
    (hscan : ∀ d n type, S'.stage u ≠ .scanning d n type)
    (hgiven : ∀ d n, S'.Given u d n → S.Given u d n)
    (hwrite : S'.disk = S.disk ∨ (S'.dinode e).type ≠ 0 ∨ ((S'.stage u).Freeing e ∧
      ∀ v, v ≠ u → ¬ S.Given v (S'.ent e).dev (S'.ent e).inum))
    (hkept : ∀ i, S'.stage u = .freeing e i → i ≤ 3 →
      ∀ v, v ≠ u → ¬ S.Given v (S'.ent e).dev (S'.ent e).inum) : S'.Inv := by
  -- who frees an inode claims none
  have hself : (S'.stage u).Freeing e → ∀ d n, ¬ S'.Given u d n := by
    intro hfree d n hu
    obtain ⟨i, heq⟩ := hfree.eq
    rcases hu with hu | ⟨-, c, hc, -⟩
    · rw [heq] at hu
      exact nomatch hu
    · rw [heq] at hc
      exact hc.2 hc.1
  refine ⟨?_, hsingle, ?_, ?_, ?_⟩
  · intro c
    by_cases hc : c = e
    · rw [hc]
      exact hfine
    · exact hm.fine_of_ne hsingle hc (h.fine c)
  · intro v d n type hv
    by_cases hvu : v = u
    · rw [hvu] at hv
      exact absurd hv (hscan d n type)
    · rw [hm.stage v hvu] at hv
      exact h.scan v d n type hv
  · intro v d n hv
    have hold := h.given v d n (hm.given hgiven hv)
    rcases hm.disk d n with heq | ⟨-, his⟩
    · rwa [heq]
    · obtain ⟨rfl, rfl⟩ := his
      rcases hwrite with heq | htype | hno
      · rwa [heq]
      · exact htype
      · by_cases hvu : v = u
        · rw [hvu] at hv
          exact absurd hv (hself hno.1 _ _)
        · exact absurd (hm.given hgiven hv) (hno.2 v hvu)
  -- an inode that is being freed is claimed by nobody
  · intro w v c i hw hi hv
    have hold := hm.given hgiven hv
    by_cases hwu : w = u
    · subst hwu
      have hc : c = e := by
        by_contra hne
        exact hm.after c hne (by rw [hw]; rfl)
      subst hc
      by_cases hvw : v = w
      · rw [hvw] at hv
        exact hself (by rw [hw]; rfl) _ _ hv
      · exact hkept i hw hi v hvw hold
    · rw [hm.stage w hwu] at hw
      by_cases hc : c = e
      · subst hc
        have hname := hm.name w hwu (by rw [hw]; rfl)
        rw [hname.1, hname.2] at hold
        exact h.kept w v c i hw hi hold
      · rw [hm.ent c hc] at hold
        exact h.kept w v c i hw hi hold

end Moves

end

end State
end Icache
end OhMyXv6
