import Mathlib.Algebra.Order.BigOperators.Group.Finset
import Mathlib.Data.List.Pairwise
import OhMyXv6.Bio.Model
import OhMyXv6.Lib.Count
import OhMyXv6.Lib.Runs

/-!
# The structure of the buffer cache

At the start all buffers carry the number zero, so the numbers are not distinct. What holds in every
run is weaker: of the buffers with the same number only the one that comes first in the ring has ever
been used. `bget` finds that one, a buffer that is taken for another block gets a number that is not
in the ring, and only a buffer that is first among its equals is ever moved to the front.
-/

namespace OhMyXv6
namespace Bio

variable {β U : Type}

/-- The two buffers carry the same number. -/
def Buf.Same (x y : Buf β) : Prop := y.Is x.dev x.blockno

/-- The buffer has not been used since it got its number. -/
def Buf.Pristine (x : Buf β) : Prop := x.refcnt = 0 ∧ x.dirty = false ∧ x.valid = false

/-- Every buffer is in the ring, in the order of `l`, and only the first with a number is in use. -/
structure Cache.Ok (C : Cache β) (l : List (Fin NBUF)) : Prop where
  linked : Dlist.Linked C.next C.prev head (l.map some)
  all : ∀ b, b ∈ l
  first : l.Pairwise fun b c => (C.buf b).Same (C.buf c) → (C.buf c).Pristine

namespace Cache

section
variable {C : Cache β} {l l₁ l₂ : List (Fin NBUF)} {b c : Fin NBUF} {x : Buf β}

/-- No buffer is in the list twice. -/
lemma Ok.nodup (h : C.Ok l) : l.Nodup :=
  List.Nodup.of_map _ (List.nodup_cons.mp h.linked.nodup).2

/-- All `NBUF` buffers are in the list. -/
lemma Ok.length (h : C.Ok l) : l.length = NBUF := by
  have hperm : l.Perm (List.finRange NBUF) := by
    rw [List.perm_ext_iff_of_nodup h.nodup (List.nodup_finRange NBUF)]
    exact fun b => ⟨fun _ => List.mem_finRange b, fun _ => h.all b⟩
  rw [hperm.length_eq, List.length_finRange]

@[simp] lemma set_buf_self (C : Cache β) (b : Fin NBUF) (x : Buf β) : (C.set b x).buf b = x :=
  Function.update_self _ _ _

lemma set_buf_of_ne (hne : c ≠ b) : (C.set b x).buf c = C.buf c := Function.update_of_ne hne _ _

/-- The ring splits at every buffer. -/
lemma Ok.split (h : C.Ok l) (b : Fin NBUF) : ∃ l₁ l₂, l = l₁ ++ b :: l₂ :=
  List.append_of_mem (h.all b)

/-- No buffer in front of `b` carries its number. -/
def First (C : Cache β) (l₁ : List (Fin NBUF)) (b : Fin NBUF) : Prop :=
  ∀ c ∈ l₁, ¬ (C.buf c).Same (C.buf b)

/-- A buffer in use is the first with its number. -/
lemma Ok.first_of_used (h : C.Ok (l₁ ++ b :: l₂)) (hb : ¬ (C.buf b).Pristine) :
    First C l₁ b := by
  intro c hc hsame
  have hpair := (List.pairwise_append.mp h.first).2.2 c hc b List.mem_cons_self
  exact hb (hpair hsame)

/-- The pointers are not touched. -/
lemma Ok.set (h : C.Ok (l₁ ++ b :: l₂))
    (hfst : ∀ c ∈ l₁, (C.buf c).Same x → x.Pristine)
    (hsnd : ∀ c ∈ l₂, x.Same (C.buf c) → (C.buf c).Pristine) : (C.set b x).Ok (l₁ ++ b :: l₂) := by
  refine ⟨h.linked, h.all, ?_⟩
  have hnodup := List.nodup_append.mp h.nodup
  have hne₁ : ∀ c ∈ l₁, c ≠ b := fun c hc => hnodup.2.2 c hc b List.mem_cons_self
  have hne₂ : ∀ c ∈ l₂, c ≠ b := fun c hc heq => (List.nodup_cons.mp hnodup.2.1).1 (heq ▸ hc)
  obtain ⟨hp₁, hp₂, hp⟩ := List.pairwise_append.mp h.first
  obtain ⟨-, hp₂⟩ := List.pairwise_cons.mp hp₂
  rw [List.pairwise_append, List.pairwise_cons]
  refine ⟨?_, ⟨?_, ?_⟩, ?_⟩
  · apply hp₁.imp_of_mem
    intro c d hc hd hcd
    rw [set_buf_of_ne (hne₁ c hc), set_buf_of_ne (hne₁ d hd)]
    exact hcd
  · intro c hc
    rw [set_buf_self, set_buf_of_ne (hne₂ c hc)]
    exact hsnd c hc
  · apply hp₂.imp_of_mem
    intro c d hc hd hcd
    rw [set_buf_of_ne (hne₂ c hc), set_buf_of_ne (hne₂ d hd)]
    exact hcd
  · intro c hc d hd
    rw [set_buf_of_ne (hne₁ c hc)]
    rcases List.mem_cons.mp hd with rfl | hd
    · rw [set_buf_self]
      exact hfst c hc
    · rw [set_buf_of_ne (hne₂ d hd)]
      exact hp c hc d (List.mem_cons_of_mem _ hd)

/-- A change of a buffer that keeps its number and is the first with it. -/
theorem Ok.change (h : C.Ok (l₁ ++ b :: l₂)) (hfirst : First C l₁ b)
    (hx : x.dev = (C.buf b).dev ∧ x.blockno = (C.buf b).blockno) :
    (C.set b x).Ok (l₁ ++ b :: l₂) := by
  apply h.set
  · intro c hc hsame
    refine absurd ?_ (hfirst c hc)
    exact ⟨hx.1.symm.trans hsame.1, hx.2.symm.trans hsame.2⟩
  · intro c hc hsame
    have hp₂ := (List.pairwise_append.mp h.first).2.1
    apply (List.pairwise_cons.mp hp₂).1 c hc
    exact ⟨hsame.1.trans hx.1, hsame.2.trans hx.2⟩

/-- A buffer that gets a number which no buffer has. -/
lemma Ok.rename (h : C.Ok (l₁ ++ b :: l₂)) (hnew : ∀ c, ¬ (C.buf c).Is x.dev x.blockno) :
    (C.set b x).Ok (l₁ ++ b :: l₂) := by
  apply h.set
  · intro c _ hsame
    exact absurd ⟨hsame.1.symm, hsame.2.symm⟩ (hnew c)
  · intro c _ hsame
    exact absurd hsame (hnew c)

/-- The first buffer with its number moves to the front. -/
lemma Ok.moveFront (h : C.Ok (l₁ ++ b :: l₂)) (hfirst : First C l₁ b) :
    ((C.unlink b).pushFront b).Ok (b :: (l₁ ++ l₂)) := by
  have hlinked : Dlist.Linked C.next C.prev head (l₁.map some ++ some b :: l₂.map some) := by
    have hl := h.linked
    rwa [List.map_append, List.map_cons] at hl
  have hnodup := List.nodup_append.mp h.nodup
  have hne : ∀ c ∈ l₁ ++ l₂, c ≠ b := by
    intro c hc
    rcases List.mem_append.mp hc with hc | hc
    · exact hnodup.2.2 c hc b List.mem_cons_self
    · exact fun heq => (List.nodup_cons.mp hnodup.2.1).1 (heq ▸ hc)
  have hmap : l₁.map some ++ l₂.map some = (l₁ ++ l₂).map some := List.map_append.symm
  obtain ⟨hp₁, hp₂, hp⟩ := List.pairwise_append.mp h.first
  obtain ⟨hb₂, hp₂⟩ := List.pairwise_cons.mp hp₂
  refine ⟨?_, ?_, ?_⟩
  · rw [List.map_cons, ← hmap]
    apply hlinked.unlink.pushFront
    rw [hmap, List.mem_cons, not_or, List.mem_map]
    refine ⟨nofun, ?_⟩
    rintro ⟨c, hc, heq⟩
    exact hne c hc (Option.some.inj heq)
  · intro c
    have hc := h.all c
    rw [List.mem_append, List.mem_cons] at hc
    rw [List.mem_cons, List.mem_append]
    tauto
  · rw [List.pairwise_cons, List.pairwise_append]
    refine ⟨?_, hp₁, hp₂, fun c hc d hd => hp c hc d (List.mem_cons_of_mem _ hd)⟩
    intro c hc hsame
    rcases List.mem_append.mp hc with hc | hc
    · exact absurd ⟨hsame.1.symm, hsame.2.symm⟩ (hfirst c hc)
    · exact hb₂ c hc hsame

/-! ## The searches -/

/-- Looking through the list of pointers. -/
lemma find_map_some (l : List (Fin NBUF)) (p : Fin NBUF → Bool) :
    (l.map some).find? (fun q => q.any p) = (l.find? p).map some := by
  induction l with
  | nil => rfl
  | cons b l ih =>
    rw [List.map_cons, List.find?_cons, List.find?_cons, ih]
    show (match p b with | true => _ | false => _) = _
    rcases p b with _ | _
    · rfl
    · rfl

/-- What `bget` does: it finds the first buffer with the number, or takes one that is not in use. -/
theorem Ok.bget_cases (h : C.Ok l) {dev blockno : ℕ} {C' : Cache β}
    (hget : C.bget dev blockno = some (b, C')) : ∃ l₁ l₂, l = l₁ ++ b :: l₂ ∧
      (((C.buf b).Is dev blockno ∧ First C l₁ b ∧
          C' = C.set b { C.buf b with refcnt := (C.buf b).refcnt + 1 }) ∨
        ((∀ c, ¬ (C.buf c).Is dev blockno) ∧ (C.buf b).Unused ∧
          C' = C.set b { C.buf b with
            dev := dev, blockno := blockno, valid := false, dirty := false, refcnt := 1 })) := by
  have hlen : (l.map some).length ≤ NBUF := by
    rw [List.length_map, h.length]
  unfold Cache.bget at hget
  rw [h.linked.find_next hlen, h.linked.find_prev hlen, find_map_some, ← List.map_reverse,
    find_map_some] at hget
  rcases hhit : l.find? fun b => (C.buf b).Is dev blockno with _ | c
  · rw [hhit] at hget
    have hmiss : ∀ c, ¬ (C.buf c).Is dev blockno := fun c =>
      of_decide_eq_false (Bool.eq_false_iff.mpr (List.find?_eq_none.mp hhit c (h.all c)))
    rcases hfree : l.reverse.find? fun b => (C.buf b).Unused with _ | c
    · rw [hfree] at hget
      exact nomatch hget
    · rw [hfree] at hget
      have hsome := List.find?_some hfree
      have hun : (C.buf c).Unused := of_decide_eq_true hsome
      simp only [Option.map_none, Option.map_some, Option.some.injEq, Prod.mk.injEq] at hget
      obtain ⟨rfl, rfl⟩ := hget
      obtain ⟨l₁, l₂, hl⟩ := h.split c
      exact ⟨l₁, l₂, hl, .inr ⟨hmiss, hun, rfl⟩⟩
  · rw [hhit] at hget
    simp only [Option.map_some, Option.some.injEq, Prod.mk.injEq] at hget
    obtain ⟨rfl, rfl⟩ := hget
    obtain ⟨his, l₁, l₂, hl, hbefore⟩ := List.find?_eq_some_iff_append.mp hhit
    have his' : (C.buf c).Is dev blockno := of_decide_eq_true his
    refine ⟨l₁, l₂, hl, .inl ⟨his', fun d hd hsame => ?_, rfl⟩⟩
    have hno := hbefore d hd
    rw [Bool.not_eq_true', decide_eq_false_iff_not] at hno
    exact hno ⟨hsame.1.symm.trans his'.1, hsame.2.symm.trans his'.2⟩

/-! ## The critical sections -/

/-- `bget` leaves the list as it is. -/
lemma Ok.bget (h : C.Ok l) {dev blockno : ℕ} {C' : Cache β}
    (hget : C.bget dev blockno = some (b, C')) : C'.Ok l := by
  obtain ⟨l₁, l₂, rfl, ⟨-, hfirst, rfl⟩ | ⟨hnew, -, rfl⟩⟩ := h.bget_cases hget
  · exact h.change hfirst ⟨rfl, rfl⟩
  · exact h.rename hnew

/-- A change of a buffer in use. -/
lemma Ok.set_used (h : C.Ok l) (hb : 0 < (C.buf b).refcnt)
    (hx : x.dev = (C.buf b).dev ∧ x.blockno = (C.buf b).blockno) : (C.set b x).Ok l := by
  obtain ⟨l₁, l₂, rfl⟩ := h.split b
  have hused : ¬ (C.buf b).Pristine := fun hp => absurd hp.1 (Nat.ne_of_gt hb)
  exact h.change (h.first_of_used hused) hx

/-- `brelse` changes one reference count. -/
lemma brelse_buf (C : Cache β) (b : Fin NBUF) : (C.brelse b).buf =
    (C.set b { C.buf b with refcnt := (C.buf b).refcnt - 1 }).buf := by
  unfold Cache.brelse
  dsimp only
  split
  · rfl
  · rfl

/-- `brelse` moves the buffer to the front, if it was the last reference. -/
lemma Ok.brelse (h : C.Ok l) (hb : 0 < (C.buf b).refcnt) : ∃ l', (C.brelse b).Ok l' := by
  obtain ⟨l₁, l₂, rfl⟩ := h.split b
  have hused : ¬ (C.buf b).Pristine := fun hp => absurd hp.1 (Nat.ne_of_gt hb)
  have hfirst := h.first_of_used hused
  have hset : (C.set b { C.buf b with refcnt := (C.buf b).refcnt - 1 }).Ok (l₁ ++ b :: l₂) :=
    h.change hfirst ⟨rfl, rfl⟩
  unfold Cache.brelse
  dsimp only
  split
  · -- the buffer keeps its number, so it is still the first with it
    refine ⟨b :: (l₁ ++ l₂), hset.moveFront fun c hc hsame => ?_⟩
    have hne : c ≠ b := (List.nodup_append.mp h.nodup).2.2 c hc b List.mem_cons_self
    rw [set_buf_of_ne hne, set_buf_self] at hsame
    exact hfirst c hc hsame
  · exact ⟨_, hset⟩

/-! ## `binit` -/

/-- By induction on the buffers that `binit` puts in front. -/
lemma linked_foldl (L : List (Fin NBUF)) : ∀ {C : Cache β} {l : List (Fin NBUF)},
    Dlist.Linked C.next C.prev head (l.map some) → (L.reverse ++ l).Nodup →
    Dlist.Linked (L.foldl pushFront C).next (L.foldl pushFront C).prev head
      ((L.reverse ++ l).map some) ∧ (L.foldl pushFront C).buf = C.buf := by
  induction L with
  | nil => exact fun hl _ => ⟨hl, rfl⟩
  | cons b L ih =>
    intro C l hl hnodup
    rw [List.reverse_cons, List.append_assoc] at hnodup ⊢
    have hb : some b ∉ head :: l.map some := by
      have htail := (List.nodup_append.mp hnodup).2.1
      have hbl : b ∉ l := (List.nodup_cons.mp htail).1
      rw [List.mem_cons, not_or, List.mem_map]
      refine ⟨nofun, ?_⟩
      rintro ⟨c, hc, heq⟩
      exact hbl (Option.some.inj heq ▸ hc)
    have hpush : Dlist.Linked (C.pushFront b).next (C.pushFront b).prev head
        ((b :: l).map some) := hl.pushFront hb
    exact ih hpush hnodup

lemma binit_linked (z : β) : Dlist.Linked (binit z).next (binit z).prev head
    ((List.finRange NBUF).reverse.map some) ∧ (binit z).buf = (zero z).buf := by
  have hzero : Dlist.Linked (zero z).next (zero z).prev head (List.map some []) :=
    ⟨⟨rfl, rfl⟩, List.nodup_singleton _⟩
  have hnodup : ((List.finRange NBUF).reverse ++ []).Nodup := by
    rw [List.append_nil, List.nodup_reverse]
    exact List.nodup_finRange NBUF
  have hall := linked_foldl (List.finRange NBUF) hzero hnodup
  rwa [List.append_nil] at hall

lemma ok_binit (z : β) : (binit z).Ok (List.finRange NBUF).reverse := by
  obtain ⟨hlinked, hbuf⟩ := binit_linked z
  refine ⟨hlinked, fun b => List.mem_reverse.mpr (List.mem_finRange b), ?_⟩
  apply List.pairwise_of_forall
  intro b c _
  rw [hbuf]
  exact ⟨rfl, rfl, rfl⟩

end

end Cache

/-! ## Steps -/

namespace Sys

/-- The users that have a reference to the buffer. -/
def refs [Fintype U] (S : Sys U β) (b : Fin NBUF) : ℕ := ∑ u, if (S.stage u).On b then 1 else 0

/-- The references are counted, and a lock has one holder. -/
structure Ok [Fintype U] (S : Sys U β) (l : List (Fin NBUF)) : Prop where
  cache : S.cache.Ok l
  refcnt : ∀ b, (S.cache.buf b).refcnt = S.refs b
  locked : ∀ u b, S.stage u = .holding b → (S.cache.buf b).locked = true
  unique : ∀ u v b, S.stage u = .holding b → S.stage v = .holding b → u = v

/-- A buffer that is in use or dirty keeps its number. -/
def Keeps (S S' : Sys U β) : Prop :=
  ∀ b, 0 < (S.cache.buf b).refcnt ∨ (S.cache.buf b).dirty = true →
    (S.cache.buf b).Same (S'.cache.buf b)

section
variable [Fintype U] [DecidableEq U] {S S' : Sys U β} {l : List (Fin NBUF)} {u : U} {b : Fin NBUF}

omit [DecidableEq U] in
/-- A buffer in use has a reference. -/
lemma Ok.refcnt_pos (h : S.Ok l) (hu : (S.stage u).On b) : 0 < (S.cache.buf b).refcnt := by
  rw [h.refcnt b]
  unfold refs
  have hle := Finset.single_le_sum (f := fun u => if (S.stage u).On b then 1 else 0)
    (fun _ _ => Nat.zero_le _) (Finset.mem_univ u)
  rw [if_pos hu] at hle
  exact hle

/-- The references when one user moves on. -/
lemma refs_update (S : Sys U β) (C : Cache β) (u : U) (st : Stage) (b : Fin NBUF) :
    refs ⟨C, Function.update S.stage u st⟩ b + (if (S.stage u).On b then 1 else 0) =
      S.refs b + if st.On b then 1 else 0 :=
  Count.sum_update (fun st => if Stage.On b st then 1 else 0) (Finset.mem_univ u)

/-- A user that stays on its buffer. -/
lemma refs_same {C : Cache β} {st : Stage} (hst : ∀ c, st.On c ↔ (S.stage u).On c) (b : Fin NBUF) :
    refs ⟨C, Function.update S.stage u st⟩ b = S.refs b := by
  have hsum := refs_update S C u st b
  by_cases hon : st.On b
  · rw [if_pos hon, if_pos ((hst b).mp hon)] at hsum
    omega
  · rw [if_neg hon, if_neg fun h => hon ((hst b).mpr h)] at hsum
    omega

omit [Fintype U] in
/-- Either the user is the one that moves or it stays where it is. -/
lemma update_stage_eq {st st' : Stage} {v : U} (h : Function.update S.stage u st v = st') :
    (v = u ∧ st = st') ∨ (v ≠ u ∧ S.stage v = st') := by
  by_cases hv : v = u
  · subst hv
    rw [Function.update_self] at h
    exact .inl ⟨rfl, h⟩
  · rw [Function.update_of_ne hv] at h
    exact .inr ⟨hv, h⟩

lemma Ok.bget (h : S.Ok l) {dev blockno : ℕ} (hstep : S.bget u dev blockno = some S') :
    S'.Ok l ∧ Keeps S S' := by
  unfold Sys.bget at hstep
  by_cases hidle : S.stage u = .idle
  · rw [if_pos hidle] at hstep
    obtain ⟨⟨b, C'⟩, hget, rfl⟩ := Option.map_eq_some_iff.mp hstep
    have hcache := h.cache.bget hget
    obtain ⟨l₁, l₂, hl, hcase⟩ := h.cache.bget_cases hget
    -- in both cases the buffer gets one more reference and keeps its lock
    have hbuf : ∃ x, C' = S.cache.set b x ∧ x.refcnt = (S.cache.buf b).refcnt + 1 ∧
        x.locked = (S.cache.buf b).locked ∧
        (0 < (S.cache.buf b).refcnt ∨ (S.cache.buf b).dirty = true → (S.cache.buf b).Same x) := by
      rcases hcase with ⟨-, -, rfl⟩ | ⟨-, hun, rfl⟩
      · exact ⟨_, rfl, rfl, rfl, fun _ => ⟨rfl, rfl⟩⟩
      · refine ⟨_, rfl, ?_, rfl, fun hused => ?_⟩
        · rw [hun.1]
        · rw [hun.1, hun.2] at hused
          exact absurd hused (by decide)
    obtain ⟨x, rfl, href, hlock, hsame⟩ := hbuf
    refine ⟨⟨hcache, fun c => ?_, fun v c hv => ?_, fun v w c hv hw => ?_⟩, fun c hc => ?_⟩
    · have hsum := refs_update S (S.cache.set b x) u (.waiting b) c
      rw [hidle, if_neg (show ¬ Stage.On c .idle from id)] at hsum
      show ((S.cache.set b x).buf c).refcnt = _
      by_cases hcb : c = b
      · subst hcb
        rw [if_pos (show Stage.On c (.waiting c) from rfl), ← h.refcnt c] at hsum
        rw [Cache.set_buf_self, href]
        exact hsum.symm
      · rw [if_neg (show ¬ Stage.On c (.waiting b) from fun heq => hcb heq.symm),
          ← h.refcnt c] at hsum
        rw [Cache.set_buf_of_ne hcb]
        exact hsum.symm
    · rcases update_stage_eq hv with ⟨-, heq⟩ | ⟨-, hv'⟩
      · exact nomatch heq
      · show ((S.cache.set b x).buf c).locked = true
        by_cases hcb : c = b
        · rw [hcb, Cache.set_buf_self, hlock]
          exact h.locked v b (hcb ▸ hv')
        · rw [Cache.set_buf_of_ne hcb]
          exact h.locked v c hv'
    · rcases update_stage_eq hv with ⟨-, heq⟩ | ⟨-, hv⟩
      · exact nomatch heq
      · rcases update_stage_eq hw with ⟨-, heq⟩ | ⟨-, hw⟩
        · exact nomatch heq
        · exact h.unique v w c hv hw
    · show (S.cache.buf c).Same ((S.cache.set b x).buf c)
      by_cases hcb : c = b
      · subst hcb
        rw [Cache.set_buf_self]
        exact hsame hc
      · rw [Cache.set_buf_of_ne hcb]
        exact ⟨rfl, rfl⟩
  · rw [if_neg hidle] at hstep
    exact nomatch hstep

/-- A change of a buffer in use that keeps its number and its count. -/
theorem Ok.set {x : Buf β} {q : Stage} (h : S.Ok l) (hb : (S.stage u).On b)
    (hx : (S.cache.buf b).Same x) (href : x.refcnt = (S.cache.buf b).refcnt)
    (hst : ∀ c, q.On c ↔ (S.stage u).On c)
    (hlock : ∀ v c, Function.update S.stage u q v = .holding c →
      ((S.cache.set b x).buf c).locked = true)
    (hone : ∀ v w c, Function.update S.stage u q v = .holding c →
      Function.update S.stage u q w = .holding c → v = w) :
    Ok ⟨S.cache.set b x, Function.update S.stage u q⟩ l ∧
      Keeps S ⟨S.cache.set b x, Function.update S.stage u q⟩ := by
  refine ⟨⟨h.cache.set_used (h.refcnt_pos hb) hx, fun c => ?_, hlock, hone⟩, fun c hc => ?_⟩
  · rw [refs_same hst c, ← h.refcnt c]
    show ((S.cache.set b x).buf c).refcnt = _
    by_cases hcb : c = b
    · subst hcb
      rw [Cache.set_buf_self, href]
    · rw [Cache.set_buf_of_ne hcb]
  · show (S.cache.buf c).Same ((S.cache.set b x).buf c)
    by_cases hcb : c = b
    · subst hcb
      rw [Cache.set_buf_self]
      exact hx
    · rw [Cache.set_buf_of_ne hcb]
      exact ⟨rfl, rfl⟩

lemma Ok.acquiresleep (h : S.Ok l) (hstep : S.acquiresleep u = some S') :
    S'.Ok l ∧ Keeps S S' := by
  unfold Sys.acquiresleep at hstep
  rcases hu : S.stage u with _ | b | b | b
  all_goals rw [hu] at hstep
  · exact nomatch hstep
  · dsimp only at hstep
    rcases hfree : (S.cache.buf b).locked with _ | _
    · rw [hfree, if_neg Bool.false_ne_true] at hstep
      obtain rfl := Option.some.inj hstep
      -- nobody else holds a lock that is free
      have hnone : ∀ v, S.stage v ≠ .holding b := by
        intro v hv
        have hlocked := h.locked v b hv
        rw [hfree] at hlocked
        exact nomatch hlocked
      refine h.set (by rw [hu]; rfl) (by exact ⟨rfl, rfl⟩) (by rfl) ?_ ?_ ?_
      · intro c
        rw [hu]
        exact Iff.rfl
      · intro v c hv
        rcases update_stage_eq hv with ⟨-, heq⟩ | ⟨-, hv⟩
        · rw [← Stage.holding.inj heq, Cache.set_buf_self]
        · have hcb : c ≠ b := fun heq => hnone v (heq ▸ hv)
          rw [Cache.set_buf_of_ne hcb]
          exact h.locked v c hv
      · intro v w c hv hw
        rcases update_stage_eq hv with ⟨hvu, hvc⟩ | ⟨-, hv'⟩
        · rcases update_stage_eq hw with ⟨hwu, -⟩ | ⟨-, hw'⟩
          · rw [hvu, hwu]
          · exact absurd (Stage.holding.inj hvc ▸ hw') (hnone w)
        · rcases update_stage_eq hw with ⟨-, hwc⟩ | ⟨-, hw'⟩
          · exact absurd (Stage.holding.inj hwc ▸ hv') (hnone v)
          · exact h.unique v w c hv' hw'
    · rw [hfree, if_pos rfl] at hstep
      exact nomatch hstep
  · exact nomatch hstep
  · exact nomatch hstep

omit [Fintype U] [DecidableEq U] in
/-- A step on the buffer held changes that buffer only. -/
lemma onHeld_eq_some {f : Buf β → Option (Buf β)} (hstep : S.onHeld u f = some S') :
    ∃ b x, S.stage u = .holding b ∧ f (S.cache.buf b) = some x ∧
      S' = { S with cache := S.cache.set b x } := by
  unfold Sys.onHeld at hstep
  rcases hu : S.stage u with _ | b | b | b
  all_goals rw [hu] at hstep
  · exact nomatch hstep
  · exact nomatch hstep
  · obtain ⟨x, hx, rfl⟩ := Option.map_eq_some_iff.mp hstep
    exact ⟨b, x, rfl, hx, rfl⟩
  · exact nomatch hstep

/-- Such a step keeps the cache if it keeps number, count and lock. -/
lemma Ok.onHeld {f : Buf β → Option (Buf β)} (h : S.Ok l) (hstep : S.onHeld u f = some S')
    (hf : ∀ x y, f x = some y → x.Same y ∧ y.refcnt = x.refcnt ∧ y.locked = x.locked) :
    S'.Ok l ∧ Keeps S S' := by
  obtain ⟨b, x, hu, hx, rfl⟩ := onHeld_eq_some hstep
  obtain ⟨hsame, href, hlock⟩ := hf _ _ hx
  have hstage : Function.update S.stage u (.holding b) = S.stage := by
    rw [← hu, Function.update_eq_self]
  have hok := h.set (u := u) (q := .holding b) (b := b) (by rw [hu]; rfl) hsame href
    (fun c => by rw [hu]) (fun v c hv => ?_) (fun v w c hv hw => ?_)
  · rw [hstage] at hok
    exact hok
  · rw [hstage] at hv
    by_cases hcb : c = b
    · subst hcb
      rw [Cache.set_buf_self, hlock]
      exact h.locked v c hv
    · rw [Cache.set_buf_of_ne hcb]
      exact h.locked v c hv
  · rw [hstage] at hv hw
    exact h.unique v w c hv hw

lemma Ok.releasesleep (h : S.Ok l) (hstep : S.releasesleep u = some S') :
    S'.Ok l ∧ Keeps S S' := by
  unfold Sys.releasesleep at hstep
  rcases hu : S.stage u with _ | b | b | b
  all_goals rw [hu] at hstep
  · exact nomatch hstep
  · exact nomatch hstep
  · obtain rfl := Option.some.inj hstep
    refine h.set (by rw [hu]; rfl) (by exact ⟨rfl, rfl⟩) (by rfl) ?_ ?_ ?_
    · intro c
      rw [hu]
      exact Iff.rfl
    · intro v c hv
      rcases update_stage_eq hv with ⟨-, heq⟩ | ⟨hne, hv⟩
      · exact nomatch heq
      · have hcb : c ≠ b := fun heq => hne (h.unique v u b (heq ▸ hv) hu)
        rw [Cache.set_buf_of_ne hcb]
        exact h.locked v c hv
    · intro v w c hv hw
      rcases update_stage_eq hv with ⟨-, heq⟩ | ⟨-, hv⟩
      · exact nomatch heq
      · rcases update_stage_eq hw with ⟨-, heq⟩ | ⟨-, hw⟩
        · exact nomatch heq
        · exact h.unique v w c hv hw
  · exact nomatch hstep

lemma Ok.brelse (h : S.Ok l) (hstep : S.brelse u = some S') : ∃ l', S'.Ok l' ∧ Keeps S S' := by
  unfold Sys.brelse at hstep
  rcases hu : S.stage u with _ | b | b | b
  all_goals rw [hu] at hstep
  · exact nomatch hstep
  · exact nomatch hstep
  · exact nomatch hstep
  · obtain rfl := Option.some.inj hstep
    have hpos : 0 < (S.cache.buf b).refcnt := h.refcnt_pos (u := u) (by rw [hu]; rfl)
    obtain ⟨l', hl'⟩ := h.cache.brelse hpos
    refine ⟨l', ⟨hl', fun c => ?_, fun v c hv => ?_, fun v w c hv hw => ?_⟩, fun c _ => ?_⟩
    · have hsum := refs_update S (S.cache.brelse b) u .idle c
      rw [hu, if_neg (show ¬ Stage.On c .idle from id), ← h.refcnt c] at hsum
      show ((S.cache.brelse b).buf c).refcnt = _
      rw [Cache.brelse_buf]
      by_cases hcb : c = b
      · subst hcb
        rw [if_pos (show Stage.On c (.releasing c) from rfl)] at hsum
        rw [Cache.set_buf_self]
        dsimp only
        omega
      · rw [if_neg (show ¬ Stage.On c (.releasing b) from fun heq => hcb heq.symm)] at hsum
        rw [Cache.set_buf_of_ne hcb]
        omega
    · rcases update_stage_eq hv with ⟨-, heq⟩ | ⟨-, hv'⟩
      · exact nomatch heq
      · show ((S.cache.brelse b).buf c).locked = true
        rw [Cache.brelse_buf]
        by_cases hcb : c = b
        · rw [hcb, Cache.set_buf_self]
          exact h.locked v b (hcb ▸ hv')
        · rw [Cache.set_buf_of_ne hcb]
          exact h.locked v c hv'
    · rcases update_stage_eq hv with ⟨-, heq⟩ | ⟨-, hv⟩
      · exact nomatch heq
      · rcases update_stage_eq hw with ⟨-, heq⟩ | ⟨-, hw⟩
        · exact nomatch heq
        · exact h.unique v w c hv hw
    · show (S.cache.buf c).Same ((S.cache.brelse b).buf c)
      rw [Cache.brelse_buf]
      by_cases hcb : c = b
      · subst hcb
        rw [Cache.set_buf_self]
        exact ⟨rfl, rfl⟩
      · rw [Cache.set_buf_of_ne hcb]
        exact ⟨rfl, rfl⟩

/-- The user writes into the buffer it holds. -/
lemma Ok.store {v : β} (h : S.Ok l) (hstep : S.store u v = some S') : S'.Ok l ∧ Keeps S S' := by
  apply h.onHeld hstep
  intro x y hy
  obtain rfl := Option.some.inj hy
  exact ⟨⟨rfl, rfl⟩, rfl, rfl⟩

lemma Ok.setDirty (h : S.Ok l) (hstep : S.setDirty u = some S') : S'.Ok l ∧ Keeps S S' := by
  apply h.onHeld hstep
  intro x y hy
  obtain rfl := Option.some.inj hy
  exact ⟨⟨rfl, rfl⟩, rfl, rfl⟩

/-- The disk fills it or has written it. -/
lemma Ok.ideintr {v : β} (h : S.Ok l) (hstep : S.ideintr u v = some S') :
    S'.Ok l ∧ Keeps S S' := by
  apply h.onHeld hstep
  intro x y hy
  split at hy
  · exact nomatch hy
  · obtain rfl := Option.some.inj hy
    exact ⟨⟨rfl, rfl⟩, rfl, rfl⟩

/-- Every step; the list may change its order. -/
lemma Ok.step (h : S.Ok l) {a : Act U β} (hstep : S.step a = some S') :
    ∃ l', S'.Ok l' ∧ Keeps S S' := by
  rcases a with ⟨u, dev, blockno⟩ | u | ⟨u, v⟩ | u | ⟨u, v⟩ | u | u
  · exact ⟨l, h.bget hstep⟩
  · exact ⟨l, h.acquiresleep hstep⟩
  · exact ⟨l, h.store hstep⟩
  · exact ⟨l, h.setDirty hstep⟩
  · exact ⟨l, h.ideintr hstep⟩
  · exact ⟨l, h.releasesleep hstep⟩
  · exact h.brelse hstep

omit [DecidableEq U] in
lemma ok_init (z : β) : Ok (init z : Sys U β) (List.finRange NBUF).reverse := by
  refine ⟨Cache.ok_binit z, fun b => ?_, fun u b hu => (nomatch hu),
    fun u v b hu => (nomatch hu)⟩
  show ((Cache.binit z).buf b).refcnt = _
  rw [(Cache.binit_linked z).2]
  unfold refs
  rw [Finset.sum_eq_zero]
  · rfl
  · exact fun u _ => if_neg id

lemma ok_run {z : β} {as : List (Act U β)} (hrun : Runs.run step (init z) as = some S) :
    ∃ l, S.Ok l := by
  apply Runs.invariant (I := fun S => ∃ l, S.Ok l) _ ⟨_, ok_init z⟩ hrun
  intro S a S' hS hstep
  obtain ⟨l, hl⟩ := hS
  obtain ⟨l', hl', -⟩ := hl.step hstep
  exact ⟨l', hl'⟩

omit [DecidableEq U] in
/-- Of two buffers with the same number one is not in use. -/
lemma Ok.eq_of_used (h : S.Ok l) {b c : Fin NBUF} (hb : 0 < (S.cache.buf b).refcnt)
    (hc : 0 < (S.cache.buf c).refcnt) (hsame : (S.cache.buf b).Same (S.cache.buf c)) : b = c := by
  by_contra hne
  obtain ⟨l₁, l₂, rfl⟩ := h.cache.split b
  have hfirst := h.cache.first
  have hmem := h.cache.all c
  rw [List.mem_append, List.mem_cons] at hmem
  obtain ⟨-, hp₂, hp⟩ := List.pairwise_append.mp hfirst
  rcases hmem with hc₁ | rfl | hc₂
  · have hpri := hp c hc₁ b List.mem_cons_self ⟨hsame.1.symm, hsame.2.symm⟩
    exact absurd hpri.1 (Nat.ne_of_gt hb)
  · exact hne rfl
  · have hpri := (List.pairwise_cons.mp hp₂).1 c hc₂ hsame
    exact absurd hpri.1 (Nat.ne_of_gt hc)

/-- **The structure of the buffer cache.** In every run from `binit` on, by any number of users:
following `next` from the head visits all buffers, each of them once, and following `prev` visits
them the other way round; no two buffers in use carry the same number; and no step changes the
number of a buffer that is in use or dirty. -/
theorem cache_structure {z : β} {as : List (Act U β)} (hrun : Runs.run step (init z) as = some S) :
    (∃ l : List (Fin NBUF), l.Nodup ∧ (∀ b, b ∈ l) ∧
        Dlist.visits S.cache.next (NBUF + 1) head = l.map some ++ [head] ∧
        Dlist.visits S.cache.prev (NBUF + 1) head = l.reverse.map some ++ [head]) ∧
      (∀ b c, 0 < (S.cache.buf b).refcnt → 0 < (S.cache.buf c).refcnt →
        (S.cache.buf b).Same (S.cache.buf c) → b = c) ∧
      ∀ a S', S.step a = some S' → Keeps S S' := by
  obtain ⟨l, hl⟩ := ok_run hrun
  have hlen : (l.map some).length = NBUF := by
    rw [List.length_map, hl.cache.length]
  have hrev : (l.map some).reverse.length = NBUF := by
    rw [List.length_reverse, hlen]
  refine ⟨⟨l, hl.cache.nodup, hl.cache.all, ?_, ?_⟩, fun b c => hl.eq_of_used, ?_⟩
  · have hvisits := hl.cache.linked.seg.visits
    rwa [hlen] at hvisits
  · have hvisits := hl.cache.linked.reverse.seg.visits
    rwa [hrev, ← List.map_reverse] at hvisits
  · intro a S' hstep
    obtain ⟨-, -, hkeeps⟩ := hl.step hstep
    exact hkeeps

/-- Two users of the same block, and one of them lets go of it. -/
theorem cache_structure_shared : ∃ S : Sys (Fin 2) Unit,
    Runs.run step (init ()) [.bget 0 1 7, .bget 1 1 7, .acquiresleep 0, .ideintr 0 (),
      .releasesleep 0, .brelse 0] = some S ∧
    ∀ b c, 0 < (S.cache.buf b).refcnt → 0 < (S.cache.buf c).refcnt →
      (S.cache.buf b).Same (S.cache.buf c) → b = c := by
  have hsome : (Runs.run step (init () : Sys (Fin 2) Unit) [.bget 0 1 7, .bget 1 1 7,
      .acquiresleep 0, .ideintr 0 (), .releasesleep 0, .brelse 0]).isSome := by decide +kernel
  obtain ⟨S, hS⟩ := Option.isSome_iff_exists.mp hsome
  exact ⟨S, hS, (cache_structure hS).2.1⟩

end

end Sys

end Bio
end OhMyXv6
