import OhMyXv6.Bio.Cache

/-!
# The cache over a disk

A buffer that is valid holds what its block should hold, and a block whose content on the disk is out
of date has a buffer that says so: it is dirty, or its holder has changed it and has not written it
yet. The first is what a reader needs, the second makes it safe to take a clean buffer for another
block. Each operation on a buffer keeps both; what should be in a block is a parameter that only a
change of the data updates.
-/

namespace OhMyXv6
namespace Bio

variable {β U : Type}

/-- Block `n` of device `d` is set to `v`. -/
def put (D : ℕ → ℕ → β) (d n : ℕ) (v : β) : ℕ → ℕ → β :=
  fun d' n' => if d' = d ∧ n' = n then v else D d' n'

@[simp] lemma put_self (D : ℕ → ℕ → β) (d n : ℕ) (v : β) : put D d n v d n = v := if_pos ⟨rfl, rfl⟩

lemma put_of_ne {D : ℕ → ℕ → β} {d n d' n' : ℕ} {v : β} (h : ¬ (d' = d ∧ n' = n)) :
    put D d n v d' n' = D d' n' := if_neg h

/-- How far a user has got with a block. -/
inductive Prog where
  | idle
  | waiting
  /-- Holds the buffer, whose data may not have been read. -/
  | locked
  /-- `bread` has returned. -/
  | ready
  | releasing

namespace Sys

/-- The user has got that far with block `n` of device `d`. -/
def At (B : Sys U β) (u : U) (d n : ℕ) : Prog → Prop
  | .idle => B.stage u = .idle
  | .waiting => ∃ b, B.stage u = .waiting b ∧ (B.cache.buf b).Is d n
  | .locked => ∃ b, B.stage u = .holding b ∧ (B.cache.buf b).Is d n
  | .ready => ∃ b, B.stage u = .holding b ∧ (B.cache.buf b).Is d n ∧ (B.cache.buf b).valid = true
  | .releasing => ∃ b, B.stage u = .releasing b ∧ (B.cache.buf b).Is d n

/-- The buffer that a user is on has the number it asked for. -/
lemma At.on {B : Sys U β} {u : U} {d n : ℕ} {pr : Prog} {b : Fin NBUF} (h : B.At u d n pr)
    (hon : (B.stage u).On b) : (B.cache.buf b).Is d n := by
  rcases pr with _ | _ | _ | _ | _
  · rw [show B.stage u = .idle from h] at hon
    exact absurd hon id
  · obtain ⟨c, hc, his⟩ := h
    rw [hc] at hon
    exact (show c = b from hon) ▸ his
  · obtain ⟨c, hc, his⟩ := h
    rw [hc] at hon
    exact (show c = b from hon) ▸ his
  · obtain ⟨c, hc, his, -⟩ := h
    rw [hc] at hon
    exact (show c = b from hon) ▸ his
  · obtain ⟨c, hc, his⟩ := h
    rw [hc] at hon
    exact (show c = b from hon) ▸ his

/-- What the buffers of other users keep when `u` takes a step. -/
structure Frame (u : U) (B B' : Sys U β) : Prop where
  stage : ∀ v, v ≠ u → B'.stage v = B.stage v
  buf : ∀ v b, v ≠ u → (B.stage v).On b → (B.cache.buf b).Same (B'.cache.buf b) ∧
    ((B.cache.buf b).valid = true → (B'.cache.buf b).valid = true)

lemma Frame.refl (u : U) (B : Sys U β) : Frame u B B :=
  ⟨fun _ _ => rfl, fun _ _ _ _ => ⟨⟨rfl, rfl⟩, id⟩⟩

/-- The others' buffers keep their numbers. -/
lemma Frame.is {u v : U} {B B' : Sys U β} {d n : ℕ} (h : Frame u B B') (hv : v ≠ u)
    (hold : ∀ b, (B.stage v).On b → (B.cache.buf b).Is d n) {b : Fin NBUF}
    (hon : (B'.stage v).On b) : (B'.cache.buf b).Is d n := by
  rw [h.stage v hv] at hon
  have hs := (h.buf v b hv hon).1
  have his := hold b hon
  exact ⟨hs.1.trans his.1, hs.2.trans his.2⟩

lemma Frame.trans {u : U} {B B' B'' : Sys U β} (h : Frame u B B') (h' : Frame u B' B'') :
    Frame u B B'' := by
  refine ⟨fun v hv => (h'.stage v hv).trans (h.stage v hv), fun v b hv hon => ?_⟩
  have hs := h.buf v b hv hon
  have hon' : (B'.stage v).On b := by
    rw [h.stage v hv]
    exact hon
  have hs' := h'.buf v b hv hon'
  exact ⟨⟨hs'.1.1.trans hs.1.1, hs'.1.2.trans hs.1.2⟩, fun hval => hs'.2 (hs.2 hval)⟩

/-- The other users are where they were. -/
lemma Frame.at {u v : U} {B B' : Sys U β} {d n : ℕ} {pr : Prog} (h : Frame u B B') (hv : v ≠ u)
    (hat : B.At v d n pr) : B'.At v d n pr := by
  have hstage := h.stage v hv
  have hsame : ∀ b, (B.stage v).On b → (B.cache.buf b).Is d n → (B'.cache.buf b).Is d n := by
    intro b hon his
    have hs := (h.buf v b hv hon).1
    exact ⟨hs.1.trans his.1, hs.2.trans his.2⟩
  rcases pr with _ | _ | _ | _ | _
  · exact hstage.trans hat
  · obtain ⟨b, hb, his⟩ := hat
    exact ⟨b, hstage.trans hb, hsame b (by rw [hb]; rfl) his⟩
  · obtain ⟨b, hb, his⟩ := hat
    exact ⟨b, hstage.trans hb, hsame b (by rw [hb]; rfl) his⟩
  · obtain ⟨b, hb, his, hval⟩ := hat
    have hon : (B.stage v).On b := by
      rw [hb]
      rfl
    exact ⟨b, hstage.trans hb, hsame b hon his, (h.buf v b hv hon).2 hval⟩
  · obtain ⟨b, hb, his⟩ := hat
    exact ⟨b, hstage.trans hb, hsame b (by rw [hb]; rfl) his⟩

end Sys

/-- The cache and the disk together hold `store`; `unsaved` are the users that have changed the buffer
they hold and have not written it. -/
structure Holds [Fintype U] (B : Sys U β) (disk store : ℕ → ℕ → β) (unsaved : U → Prop) : Prop where
  ok : ∃ l, B.Ok l
  data : ∀ b, (B.cache.buf b).valid = true →
    (B.cache.buf b).data = store (B.cache.buf b).dev (B.cache.buf b).blockno
  disk : ∀ d n, disk d n = store d n ∨ ∃ b, (B.cache.buf b).Is d n ∧
    (B.cache.buf b).valid = true ∧
    ((B.cache.buf b).dirty = true ∨ ∃ u, B.stage u = .holding b ∧ unsaved u)
  dirty : ∀ b, (B.cache.buf b).dirty = true → (B.cache.buf b).valid = true

section
variable [Fintype U] [DecidableEq U] {B B' : Sys U β} {disk store : ℕ → ℕ → β} {unsaved : U → Prop}
  {u : U} {b c : Fin NBUF} {d n : ℕ} {v : β}

omit [DecidableEq U] in
/-- A buffer in use is the only valid one with its number. -/
lemma Holds.eq_of_valid (h : Holds B disk store unsaved) (hb : 0 < (B.cache.buf b).refcnt)
    (hc : (B.cache.buf c).valid = true) (hsame : (B.cache.buf b).Same (B.cache.buf c)) : c = b := by
  by_contra hne
  obtain ⟨l, hl⟩ := h.ok
  obtain ⟨l₁, l₂, rfl⟩ := hl.cache.split b
  have hmem := hl.cache.all c
  rw [List.mem_append, List.mem_cons] at hmem
  obtain ⟨-, hp₂, hp⟩ := List.pairwise_append.mp hl.cache.first
  rcases hmem with hc₁ | rfl | hc₂
  · have hpri := hp c hc₁ b List.mem_cons_self ⟨hsame.1.symm, hsame.2.symm⟩
    exact absurd hpri.1 (Nat.ne_of_gt hb)
  · exact hne rfl
  · have hpri := (List.pairwise_cons.mp hp₂).1 c hc₂ hsame
    rw [hpri.2.2] at hc
    exact nomatch hc

omit [DecidableEq U] in
lemma Holds.mono {V : U → Prop} (h : Holds B disk store unsaved)
    (himp : ∀ u, unsaved u → V u) : Holds B disk store V := by
  refine ⟨h.ok, h.data, fun d n => ?_, h.dirty⟩
  rcases h.disk d n with heq | ⟨b, hb, hv, hdir | ⟨w, hw, hun⟩⟩
  · exact .inl heq
  · exact .inr ⟨b, hb, hv, .inl hdir⟩
  · exact .inr ⟨b, hb, hv, .inr ⟨w, hw, himp w hun⟩⟩

/-- A buffer recycled is one that nobody uses and that has nothing unsaved. -/
lemma Holds.bget (h : Holds B disk store unsaved) (hstep : B.bget u d n = some B') :
    Holds B' disk store unsaved ∧ B.Frame u B' ∧ B'.At u d n .waiting := by
  obtain ⟨l, hl⟩ := h.ok
  obtain ⟨hok, hkeeps⟩ := hl.bget hstep
  unfold Sys.bget at hstep
  by_cases hidle : B.stage u = .idle
  · rw [if_pos hidle] at hstep
    obtain ⟨⟨b, C'⟩, hget, rfl⟩ := Option.map_eq_some_iff.mp hstep
    obtain ⟨l₁, l₂, -, hcase⟩ := hl.cache.bget_cases hget
    -- what the new content of the buffer has to do with the old one
    have hbuf : ∃ x, C' = B.cache.set b x ∧ x.Is d n ∧
        (x.valid = true → (B.cache.buf b).valid = true ∧ x.data = (B.cache.buf b).data ∧
          (B.cache.buf b).Same x) ∧ (x.dirty = true → x.valid = (B.cache.buf b).valid ∧
          (B.cache.buf b).dirty = true) ∧
        ((B.cache.buf b).Unused ∨ ((B.cache.buf b).Same x ∧ x.valid = (B.cache.buf b).valid ∧
          x.dirty = (B.cache.buf b).dirty)) := by
      rcases hcase with ⟨his, -, rfl⟩ | ⟨-, hun, rfl⟩
      · exact ⟨_, rfl, his, fun hv => ⟨hv, rfl, rfl, rfl⟩, fun hd => ⟨rfl, hd⟩,
          .inr ⟨⟨rfl, rfl⟩, rfl, rfl⟩⟩
      · exact ⟨_, rfl, ⟨rfl, rfl⟩, fun hv => (nomatch hv), fun hd => (nomatch hd), .inl hun⟩
    obtain ⟨x, rfl, his, hval, hdirty, hold⟩ := hbuf
    have hself : ((B.cache.set b x).buf b) = x := Cache.set_buf_self _ _ _
    refine ⟨⟨⟨l, hok⟩, fun c hc => ?_, fun d' n' => ?_, fun c hc => ?_⟩, ⟨fun v hv => ?_, ?_⟩, ?_⟩
    · by_cases hcb : c = b
      · subst hcb
        dsimp only at hc ⊢
        rw [hself] at hc ⊢
        obtain ⟨hv, hd, hs⟩ := hval hc
        rw [hd, h.data c hv, hs.1, hs.2]
      · dsimp only at hc ⊢
        rw [Cache.set_buf_of_ne hcb] at hc ⊢
        exact h.data c hc
    · rcases h.disk d' n' with heq | ⟨c, hc, hv, hw⟩
      · exact .inl heq
      · -- a buffer that makes up for the disk is not taken
        have hused : ¬ (B.cache.buf c).Unused := by
          intro hun
          rcases hw with hdir | ⟨w, hw, -⟩
          · rw [hun.2] at hdir
            exact nomatch hdir
          · have hpos := hl.refcnt_pos (u := w) (b := c) (by rw [hw]; rfl)
            exact absurd hun.1 (Nat.ne_of_gt hpos)
        refine .inr ⟨c, ?_⟩
        have hstage : ∀ w, B.stage w = .holding c → (Function.update B.stage u (.waiting b)) w =
            .holding c := by
          intro w hwc
          have hne : w ≠ u := by
            intro heq
            rw [heq, hidle] at hwc
            exact nomatch hwc
          rw [Function.update_of_ne hne]
          exact hwc
        by_cases hcb : c = b
        · subst hcb
          obtain hun | ⟨hs, hv', hd'⟩ := hold
          · exact absurd hun hused
          · dsimp only
            rw [hself]
            refine ⟨⟨hs.1.trans hc.1, hs.2.trans hc.2⟩, hv'.trans hv, ?_⟩
            rcases hw with hdir | ⟨w, hwc, hun⟩
            · exact .inl (hd'.trans hdir)
            · exact .inr ⟨w, hstage w hwc, hun⟩
        · dsimp only
          rw [Cache.set_buf_of_ne hcb]
          refine ⟨hc, hv, ?_⟩
          rcases hw with hdir | ⟨w, hwc, hun⟩
          · exact .inl hdir
          · exact .inr ⟨w, hstage w hwc, hun⟩
    · by_cases hcb : c = b
      · subst hcb
        dsimp only at hc ⊢
        rw [hself] at hc ⊢
        obtain ⟨hv, hd⟩ := hdirty hc
        rw [hv]
        exact h.dirty c hd
      · dsimp only at hc ⊢
        rw [Cache.set_buf_of_ne hcb] at hc ⊢
        exact h.dirty c hc
    · exact Function.update_of_ne hv _ _
    · intro v c _ hon
      have hpos := hl.refcnt_pos hon
      refine ⟨hkeeps c (.inl hpos), fun hv => ?_⟩
      by_cases hcb : c = b
      · subst hcb
        dsimp only
        rw [hself]
        obtain hun | ⟨-, hv', -⟩ := hold
        · exact absurd hun.1 (Nat.ne_of_gt hpos)
        · exact hv'.trans hv
      · dsimp only
        rw [Cache.set_buf_of_ne hcb]
        exact hv
    · refine ⟨b, Function.update_self _ _ _, ?_⟩
      dsimp only
      rw [hself]
      exact his
  · rw [if_neg hidle] at hstep
    exact nomatch hstep

omit [DecidableEq U] in
/-- The block of a buffer in use. -/
lemma Holds.disk_of_used (h : Holds B disk store unsaved) (hb : 0 < (B.cache.buf b).refcnt) :
    disk (B.cache.buf b).dev (B.cache.buf b).blockno =
        store (B.cache.buf b).dev (B.cache.buf b).blockno ∨
      ((B.cache.buf b).valid = true ∧
        ((B.cache.buf b).dirty = true ∨ ∃ w, B.stage w = .holding b ∧ unsaved w)) := by
  rcases h.disk (B.cache.buf b).dev (B.cache.buf b).blockno with heq | ⟨c, hc, hv, hw⟩
  · exact .inl heq
  · obtain rfl := h.eq_of_valid hb hv hc
    exact .inr ⟨hv, hw⟩

omit [DecidableEq U] in
/-- A user changes the buffer it has a reference to, its block, or both. -/
theorem Holds.change {E T : ℕ → ℕ → β} {V : U → Prop} {x : Buf β}
    (h : Holds B disk store unsaved) (hon : (B.stage u).On b) (hok : ∃ l, B'.Ok l)
    (hbuf : B'.cache.buf = (B.cache.set b x).buf) (hsame : (B.cache.buf b).Same x)
    (hstage : ∀ w, w ≠ u → B'.stage w = B.stage w) (huns : ∀ w, w ≠ u → unsaved w → V w)
    (hother : ∀ d n, ¬ (d = (B.cache.buf b).dev ∧ n = (B.cache.buf b).blockno) →
      E d n = disk d n ∧ T d n = store d n)
    (hdata : x.valid = true →
      x.data = T (B.cache.buf b).dev (B.cache.buf b).blockno)
    (hdisk : E (B.cache.buf b).dev (B.cache.buf b).blockno =
        T (B.cache.buf b).dev (B.cache.buf b).blockno ∨
      (x.valid = true ∧ (x.dirty = true ∨ ∃ w, B'.stage w = .holding b ∧ V w)))
    (hdirty : x.dirty = true → x.valid = true)
    (hvalid : (B.cache.buf b).valid = true → x.valid = true) :
    Holds B' E T V ∧ B.Frame u B' := by
  obtain ⟨l, hl⟩ := h.ok
  have hpos := hl.refcnt_pos hon
  have hself : B'.cache.buf b = x := by
    rw [hbuf, Cache.set_buf_self]
  have hne : ∀ c, c ≠ b → B'.cache.buf c = B.cache.buf c := by
    intro c hc
    rw [hbuf, Cache.set_buf_of_ne hc]
  -- no other valid buffer has the number of this one
  have hnum : ∀ c, c ≠ b → (B.cache.buf c).valid = true →
      ¬ ((B.cache.buf c).dev = (B.cache.buf b).dev ∧
        (B.cache.buf c).blockno = (B.cache.buf b).blockno) :=
    fun c hc hv heq => hc (h.eq_of_valid hpos hv heq)
  refine ⟨⟨hok, fun c hc => ?_, fun d n => ?_, fun c hc => ?_⟩, hstage, fun v c hv hvc => ?_⟩
  · by_cases hcb : c = b
    · subst hcb
      rw [hself] at hc ⊢
      rw [hdata hc, hsame.1, hsame.2]
    · rw [hne c hcb] at hc ⊢
      rw [(hother _ _ (hnum c hcb hc)).2]
      exact h.data c hc
  · by_cases hdn : d = (B.cache.buf b).dev ∧ n = (B.cache.buf b).blockno
    · obtain ⟨rfl, rfl⟩ := hdn
      rcases hdisk with heq | hw
      · exact .inl heq
      · refine .inr ⟨b, ?_⟩
        rw [hself]
        exact ⟨hsame, hw⟩
    · obtain ⟨hd, hs⟩ := hother d n hdn
      rw [hd, hs]
      rcases h.disk d n with heq | ⟨c, hc, hv, hw⟩
      · exact .inl heq
      · have hcb : c ≠ b := by
          intro heq
          rw [heq] at hc
          exact hdn ⟨hc.1.symm, hc.2.symm⟩
        refine .inr ⟨c, ?_⟩
        rw [hne c hcb]
        refine ⟨hc, hv, ?_⟩
        rcases hw with hdir | ⟨w, hwc, hun⟩
        · exact .inl hdir
        · have hwu : w ≠ u := by
            intro heq
            rw [← heq, hwc] at hon
            exact hcb hon
          exact .inr ⟨w, (hstage w hwu).trans hwc, huns w hwu hun⟩
  · by_cases hcb : c = b
    · subst hcb
      rw [hself] at hc ⊢
      exact hdirty hc
    · rw [hne c hcb] at hc ⊢
      exact h.dirty c hc
  · by_cases hcb : c = b
    · subst hcb
      rw [hself]
      exact ⟨hsame, hvalid⟩
    · rw [hne c hcb]
      exact ⟨⟨rfl, rfl⟩, id⟩

lemma Holds.acquiresleep (h : Holds B disk store unsaved) (hat : B.At u d n .waiting)
    (hstep : B.acquiresleep u = some B') :
    Holds B' disk store unsaved ∧ B.Frame u B' ∧ B'.At u d n .locked := by
  obtain ⟨l, hl⟩ := h.ok
  have hok := (hl.acquiresleep hstep).1
  obtain ⟨b, hu, his⟩ := hat
  unfold Sys.acquiresleep at hstep
  rw [hu] at hstep
  dsimp only at hstep
  rcases hfree : (B.cache.buf b).locked with _ | _
  · rw [hfree, if_neg Bool.false_ne_true] at hstep
    obtain rfl := Option.some.inj hstep
    have hon : (B.stage u).On b := by
      rw [hu]
      rfl
    have hch := h.change (x := { B.cache.buf b with locked := true }) hon ⟨l, hok⟩ rfl ⟨rfl, rfl⟩
      (fun w hw => Function.update_of_ne hw _ _) (fun w _ hw => hw) (fun _ _ _ => ⟨rfl, rfl⟩)
      (h.data b) ?_ (h.dirty b) id
    · refine ⟨hch.1, hch.2, b, Function.update_self _ _ _, ?_⟩
      dsimp only
      rw [Cache.set_buf_self]
      exact his
    · rcases h.disk_of_used (hl.refcnt_pos hon) with heq | ⟨hv, hdir | ⟨w, hw, -⟩⟩
      · exact .inl heq
      · exact .inr ⟨hv, .inl hdir⟩
      · have hlocked := hl.locked w b hw
        rw [hfree] at hlocked
        exact nomatch hlocked
  · rw [hfree, if_pos rfl] at hstep
    exact nomatch hstep

omit [DecidableEq U] in
/-- A holder changes its buffer. -/
lemma Holds.onHeld {f : Buf β → Option (Buf β)} {E T : ℕ → ℕ → β}
    {V : U → Prop} (h : Holds B disk store unsaved) (hstep : B.onHeld u f = some B')
    (hok : ∃ l, B'.Ok l) (hu : B.stage u = .holding b)
    (huns : ∀ w, w ≠ u → unsaved w → V w)
    (hother : ∀ d n, ¬ (d = (B.cache.buf b).dev ∧ n = (B.cache.buf b).blockno) →
      E d n = disk d n ∧ T d n = store d n)
    (hx : ∀ x, f (B.cache.buf b) = some x → (B.cache.buf b).Same x ∧ x.valid = true ∧
      x.data = T (B.cache.buf b).dev (B.cache.buf b).blockno ∧
      (E (B.cache.buf b).dev (B.cache.buf b).blockno =
        T (B.cache.buf b).dev (B.cache.buf b).blockno ∨ x.dirty = true ∨ V u)) :
    Holds B' E T V ∧ B.Frame u B' ∧ B'.stage = B.stage ∧
      B'.At u (B.cache.buf b).dev (B.cache.buf b).blockno .ready := by
  obtain ⟨b', x, hb', hfx, rfl⟩ := Sys.onHeld_eq_some hstep
  rw [hu] at hb'
  obtain rfl := Stage.holding.inj hb'
  obtain ⟨hsame, hv, hd, hw⟩ := hx x hfx
  have hon : (B.stage u).On b := by
    rw [hu]
    rfl
  have hch := h.change (x := x) (V := V) hon hok rfl hsame (fun w _ => rfl) huns
    hother (fun _ => hd) ?_ (fun _ => hv) (fun _ => hv)
  · refine ⟨hch.1, hch.2, rfl, b, hu, ?_⟩
    dsimp only
    rw [Cache.set_buf_self]
    exact ⟨hsame, hv⟩
  · rcases hw with heq | hdir | hun
    · exact .inl heq
    · exact .inr ⟨hv, .inl hdir⟩
    · exact .inr ⟨hv, .inr ⟨u, hu, hun⟩⟩

/-! ## The operations of a holder -/

omit [Fintype U] [DecidableEq U] in
lemma held_of_stage (hu : B.stage u = .holding b) : B.held u = some (B.cache.buf b) := by
  unfold Sys.held
  rw [hu]

/-- The buffer shows the disk, which shows the store. -/
lemma Holds.fill (h : Holds B disk store unsaved) (hat : B.At u d n .locked)
    (hstep : B.fill disk u = some B') :
    Holds B' disk store unsaved ∧ B.Frame u B' ∧ B'.At u d n .ready := by
  obtain ⟨l, hl⟩ := h.ok
  obtain ⟨b, hu, rfl, rfl⟩ := hat
  unfold Sys.fill at hstep
  rw [held_of_stage hu] at hstep
  dsimp only at hstep
  rcases hv : (B.cache.buf b).valid with _ | _
  · rw [hv, if_neg Bool.false_ne_true] at hstep
    have hon : (B.stage u).On b := by
      rw [hu]
      rfl
    -- no buffer makes up for the disk, so it is up to date
    have heq := (h.disk_of_used (hl.refcnt_pos hon)).resolve_right fun hr => by
      rw [hv] at hr
      exact Bool.false_ne_true hr.1
    have hclean : (B.cache.buf b).dirty = false := by
      by_contra hd
      have hvalid := h.dirty b (Bool.eq_true_of_not_eq_false hd)
      rw [hv] at hvalid
      exact nomatch hvalid
    obtain ⟨hh, hf, -, hready⟩ := h.onHeld (T := store) (V := unsaved) hstep
      ⟨l, (hl.ideintr hstep).1⟩ hu (fun w _ hw => hw) (fun _ _ _ => ⟨rfl, rfl⟩) (fun x hx => by
        rw [hv, hclean, if_neg (by decide)] at hx
        obtain rfl := Option.some.inj hx
        exact ⟨⟨rfl, rfl⟩, rfl, heq, .inl heq⟩)
    exact ⟨hh, hf, hready⟩
  · rw [hv, if_pos rfl] at hstep
    obtain rfl := Option.some.inj hstep
    exact ⟨h, .refl u B, b, hu, ⟨rfl, rfl⟩, hv⟩

/-- The holder stores into the buffer and into the flat store alike. -/
lemma Holds.modify {V : U → Prop} (h : Holds B disk store unsaved)
    (hat : B.At u d n .ready) (hstep : B.store u v = some B')
    (huns : ∀ w, w ≠ u → unsaved w → V w) (hun : V u) :
    Holds B' disk (put store d n v) V ∧ B.Frame u B' ∧ B'.stage = B.stage ∧
      B'.At u d n .ready := by
  obtain ⟨l, hl⟩ := h.ok
  obtain ⟨b, hu, ⟨rfl, rfl⟩, hv⟩ := hat
  apply h.onHeld hstep ⟨l, (hl.store hstep).1⟩ hu huns
  · exact fun d n hdn => ⟨rfl, put_of_ne hdn⟩
  · intro x hx
    obtain rfl := Option.some.inj hx
    exact ⟨⟨rfl, rfl⟩, hv, (put_self _ _ _ _).symm, .inr (.inr hun)⟩

/-- A dirty buffer is kept from now on. -/
lemma Holds.setDirty {V : U → Prop} (h : Holds B disk store unsaved)
    (hat : B.At u d n .ready) (hstep : B.setDirty u = some B')
    (huns : ∀ w, w ≠ u → unsaved w → V w) :
    Holds B' disk store V ∧ B.Frame u B' ∧ B'.stage = B.stage ∧ B'.At u d n .ready := by
  obtain ⟨l, hl⟩ := h.ok
  obtain ⟨b, hu, ⟨rfl, rfl⟩, hv⟩ := hat
  apply h.onHeld hstep ⟨l, (hl.setDirty hstep).1⟩ hu huns
  · exact fun _ _ _ => ⟨rfl, rfl⟩
  · intro x hx
    obtain rfl := Option.some.inj hx
    exact ⟨⟨rfl, rfl⟩, hv, h.data b hv, .inr (.inl rfl)⟩

/-- The buffer is on the disk and clean. -/
lemma Holds.bwrite {V : U → Prop} {x : Buf β} (h : Holds B disk store unsaved)
    (hat : B.At u d n .ready) (hx : B.held u = some x) (hstep : B.bwrite u = some B')
    (huns : ∀ w, w ≠ u → unsaved w → V w) :
    Holds B' (put disk d n x.data) store V ∧ B.Frame u B' ∧ B'.stage = B.stage ∧
      B'.At u d n .ready := by
  unfold Sys.bwrite at hstep
  rw [hx] at hstep
  obtain ⟨B₁, hB₁, hstep⟩ := Option.bind_eq_some_iff.mp hstep
  obtain ⟨h₁, hf₁, hst₁, hat₁⟩ := h.setDirty (V := V) hat hB₁ huns
  obtain ⟨l, hl⟩ := h₁.ok
  obtain ⟨b, hu, ⟨rfl, rfl⟩, hv⟩ := hat
  rw [held_of_stage hu] at hx
  obtain rfl := Option.some.inj hx
  -- the buffer is dirty now, and otherwise as before
  obtain ⟨b', x, hb', hbx, rfl⟩ := Sys.onHeld_eq_some hB₁
  rw [hu] at hb'
  obtain rfl := Stage.holding.inj hb'
  obtain rfl := Option.some.inj hbx
  have hself : (B.cache.set b { B.cache.buf b with dirty := true }).buf b =
      { B.cache.buf b with dirty := true } := Cache.set_buf_self _ _ _
  have hstore := h.data b hv
  obtain ⟨h₂, hf₂, hst₂, hat₂⟩ := h₁.onHeld (b := b)
    (E := put disk (B.cache.buf b).dev (B.cache.buf b).blockno (B.cache.buf b).data)
    (T := store) (V := V) hstep ⟨l, (hl.ideintr hstep).1⟩ hu
    (fun w _ hw => hw) (by
      dsimp only
      rw [hself]
      exact fun d n hdn => ⟨put_of_ne hdn, rfl⟩) (by
      dsimp only
      rw [hself]
      intro x hx
      rw [if_neg fun hno => Bool.false_ne_true hno.2.symm] at hx
      obtain rfl := Option.some.inj hx
      exact ⟨⟨rfl, rfl⟩, rfl, hstore, .inl (by rw [put_self, hstore])⟩)
  dsimp only at hat₂
  rw [hself] at hat₂
  exact ⟨h₂, hf₁.trans hf₂, hst₂, hat₂⟩

lemma Holds.releasesleep (h : Holds B disk store unsaved) (hat : B.At u d n .ready)
    (hu : ¬ unsaved u) (hstep : B.releasesleep u = some B') :
    Holds B' disk store unsaved ∧ B.Frame u B' ∧ B'.At u d n .releasing := by
  obtain ⟨l, hl⟩ := h.ok
  have hok := (hl.releasesleep hstep).1
  obtain ⟨b, hub, his, hv⟩ := hat
  unfold Sys.releasesleep at hstep
  rw [hub] at hstep
  obtain rfl := Option.some.inj hstep
  have hon : (B.stage u).On b := by
    rw [hub]
    rfl
  have hch := h.change (x := { B.cache.buf b with locked := false }) hon ⟨l, hok⟩ rfl ⟨rfl, rfl⟩
    (fun w hw => Function.update_of_ne hw _ _) (fun w _ hw => hw) (fun _ _ _ => ⟨rfl, rfl⟩)
    (h.data b) ?_ (h.dirty b) id
  · refine ⟨hch.1, hch.2, b, Function.update_self _ _ _, ?_⟩
    dsimp only
    rw [Cache.set_buf_self]
    exact his
  · rcases h.disk_of_used (hl.refcnt_pos hon) with heq | ⟨hv, hdir | ⟨w, hw, hun⟩⟩
    · exact .inl heq
    · exact .inr ⟨hv, .inl hdir⟩
    · exact absurd (hl.unique w u b hw hub ▸ hun) hu

lemma Holds.brelse (h : Holds B disk store unsaved) (hat : B.At u d n .releasing)
    (hstep : B.brelse u = some B') :
    Holds B' disk store unsaved ∧ B.Frame u B' ∧ B'.At u d n .idle := by
  obtain ⟨l, hl⟩ := h.ok
  obtain ⟨l', hok, -⟩ := hl.brelse hstep
  obtain ⟨b, hub, his⟩ := hat
  unfold Sys.brelse at hstep
  rw [hub] at hstep
  obtain rfl := Option.some.inj hstep
  have hon : (B.stage u).On b := by
    rw [hub]
    rfl
  have hch := h.change (x := { B.cache.buf b with refcnt := (B.cache.buf b).refcnt - 1 }) hon
    ⟨l', hok⟩ (Cache.brelse_buf _ _) ⟨rfl, rfl⟩ (fun w hw => Function.update_of_ne hw _ _)
    (fun w _ hw => hw) (fun _ _ _ => ⟨rfl, rfl⟩) (h.data b) ?_ (h.dirty b) id
  · exact ⟨hch.1, hch.2, Function.update_self _ _ _⟩
  · rcases h.disk_of_used (hl.refcnt_pos hon) with heq | ⟨hv, hdir | ⟨w, hw, hun⟩⟩
    · exact .inl heq
    · exact .inr ⟨hv, .inl hdir⟩
    · -- somebody else may have got the lock meanwhile
      have hne : w ≠ u := by
        intro heq
        rw [heq, hub] at hw
        exact nomatch hw
      exact .inr ⟨hv, .inr ⟨w, (Function.update_of_ne hne _ _).trans hw, hun⟩⟩

end

end Bio
end OhMyXv6
