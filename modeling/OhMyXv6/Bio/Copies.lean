import OhMyXv6.Bio.Store

/-!
# What the cache and the log hold

For the blocks that `commit` is busy with the invariant needs some care: from the copy into the log on until
the copy back, the log holds what will be written over the block. The two copies are equal as long as nobody
changes one of them, which no `log_write` can do while `commit` runs, since no operation is open then, but a
`bwrite` can.
-/

namespace OhMyXv6
namespace Store

open Bio

variable {P K β : Type}

/-- The `j`-th logged block is in the log and not yet back in its place. -/
def At.Copied : At → ℕ → Prop
  | .writeLog tail i, j => j < tail ∨ (j = tail ∧ 6 < i)
  | .writeHead _, _ => True
  | .installTrans tail i, j => tail < j ∨ (j = tail ∧ i ≤ 6)
  | _, _ => False

/-- `commit` has copied the block into the log and has not copied it back. -/
def InFlight (S : State P K β) (n : ℕ) : Prop :=
  ∃ p a j, S.pc p = .commit a ∧ a.Copied j ∧ S.lh[j]? = some n

/-- The condition under which the processes use the store: they do not change or log the blocks of
the log, do not change a block that `commit` has copied and not installed, and do not append to a
full log. -/
def Allowed (L : Area β) (S : State P K β) : Act P K β → Prop
  | .modify u _ => ∀ x, S.bio.held (.inl u) = some x → x.dev = L.dev →
      ¬ L.Contains x.blockno ∧ ¬ InFlight S x.blockno
  | .append u => ∀ x, S.bio.held (.inl u) = some x → ¬ L.Contains x.blockno ∧
      (x.blockno ∈ S.lh ∨ S.lh.length + 1 < L.size)
  | _ => True

instance : ∀ (a : At) (j : ℕ), Decidable (a.Copied j)
  | .test, _ => .isFalse id
  | .writeLog _ _, _ => inferInstanceAs (Decidable (_ ∨ _))
  | .writeHead _, _ => .isTrue trivial
  | .installTrans _ _, _ => inferInstanceAs (Decidable (_ ∨ _))
  | .clearHead _, _ => .isFalse id
  | .done, _ => .isFalse id

instance [Fintype P] (S : State P K β) (n : ℕ) : Decidable (InFlight S n) :=
  decidable_of_iff (∃ p, ∃ j ∈ List.range S.lh.length,
    (match S.pc p with
      | .commit a => decide (a.Copied j)
      | _ => false) = true ∧ S.lh[j]? = some n) (by
    constructor
    · rintro ⟨p, j, -, hj, hn⟩
      rcases hp : S.pc p with _ | _ | a
      all_goals rw [hp] at hj
      · exact nomatch hj
      · exact nomatch hj
      · exact ⟨p, a, j, hp, of_decide_eq_true hj, hn⟩
    · rintro ⟨p, a, j, hp, hj, hn⟩
      refine ⟨p, j, List.mem_range.mpr (List.getElem?_eq_some_iff.mp hn).1, ?_, hn⟩
      rw [hp]
      exact decide_eq_true hj)

/-- A condition on the buffer that is held, if there is one. -/
def decidableHeld (o : Option (Buf β)) (Q : Buf β → Prop) [∀ x, Decidable (Q x)] :
    Decidable (∀ x, o = some x → Q x) :=
  match o with
  | none => .isTrue nofun
  | some x => decidable_of_iff (Q x) ⟨fun h _ heq => Option.some.inj heq ▸ h, fun h => h x rfl⟩

instance [Fintype P] (L : Area β) (S : State P K β) : ∀ a, Decidable (Allowed L S a)
  | .modify _ _ => decidableHeld _ _
  | .append _ => decidableHeld _ _
  | .bget .. => .isTrue trivial
  | .acquiresleep _ => .isTrue trivial
  | .fill _ => .isTrue trivial
  | .logWrite _ => .isTrue trivial
  | .write _ => .isTrue trivial
  | .releasesleep _ => .isTrue trivial
  | .brelse _ => .isTrue trivial
  | .beginOp _ => .isTrue trivial
  | .endOp _ => .isTrue trivial
  | .commit _ => .isTrue trivial

/-- The data in the buffer of this user is changed and not written. -/
def Unsaved (S : State P K β) : Agent P K → Prop
  | .inl u => S.phase u = .modified ∨ S.phase u = .checked
  | .inr _ => False

/-- How far `commit` is with the log block, and with the other one, in a round of a loop. `late` is
whether the buffer is the second one to be released. -/
def progL (late : Bool) : ℕ → Prog
  | 0 => .idle
  | 1 => .waiting
  | 2 => .locked
  | 8 => if late then .ready else .releasing
  | 9 => if late then .ready else .idle
  | 10 => if late then .releasing else .idle
  | _ => .ready

/-- The stage of the buffer for the block at home, by the steps done. -/
def progD (late : Bool) : ℕ → Prog
  | 0 => .idle
  | 1 => .idle
  | 2 => .idle
  | 3 => .idle
  | 4 => .waiting
  | 5 => .locked
  | 8 => if late then .ready else .releasing
  | 9 => if late then .ready else .idle
  | 10 => if late then .releasing else .idle
  | _ => .ready

/-- The same for `write_head`. -/
def progH : ℕ → Prog
  | 0 => .idle
  | 1 => .waiting
  | 2 => .locked
  | 5 => .releasing
  | _ => .ready

/-- The buffers of `commit`. -/
def Bufs (L : Area β) (B : Sys (Agent P K) β) (lh : List ℕ) : At → Prop
  | .test => B.stage lbuf = .idle ∧ B.stage dbuf = .idle
  | .writeLog tail i => i ≤ 10 ∧ tail ≤ lh.length ∧ (tail = lh.length → i = 0) ∧
      B.At lbuf L.dev (L.start + tail + 1) (progL true i) ∧
      ∀ n, (i = 0 ∨ lh[tail]? = some n) → B.At dbuf L.dev n (progD false i)
  | .writeHead i => i ≤ 5 ∧ B.At lbuf L.dev L.start (progH i) ∧ B.stage dbuf = .idle
  | .installTrans tail i => i ≤ 10 ∧ tail ≤ lh.length ∧ (tail = lh.length → i = 0) ∧
      B.At lbuf L.dev (L.start + tail + 1) (progL false i) ∧
      ∀ n, (i = 0 ∨ lh[tail]? = some n) → B.At dbuf L.dev n (progD true i)
  | .clearHead i => i ≤ 5 ∧ B.At lbuf L.dev L.start (progH i) ∧ B.stage dbuf = .idle
  | .done => B.stage lbuf = .idle ∧ B.stage dbuf = .idle

/-- What holds of the log and the processes, apart from the buffers. -/
structure Rest [Fintype P] (L : Area β) (S : State P K β) : Prop where
  small : S.lh = [] ∨ S.lh.length < L.size
  home : ∀ n ∈ S.lh, ¬ L.Contains n
  ops : S.outstanding = ∑ p, if S.pc p = .op then 1 else 0
  one : ∀ p q a b, S.pc p = .commit a → S.pc q = .commit b → p = q
  busy : ∀ p a, S.pc p = .commit a → S.committing = true
  quiet : S.committing = true → ∀ p, S.pc p ≠ .op
  checked : ∀ u, S.phase u = .checked → S.pc u.1 = .op

/-- What holds between any two steps: the cache holds the latest data, the log and the list fit
together, and what is in flight is the same in both places. -/
structure Inv [Fintype P] [Fintype K] (L : Area β) (D : ℕ → ℕ → β) (S : State P K β) : Prop where
  holds : Holds S.bio S.disk (latest D S.mods) (Unsaved S)
  asked : ∀ u b, (S.bio.stage (.inl u)).On b → (S.bio.cache.buf b).Is (S.req u).1 (S.req u).2
  clients : ∀ u, S.phase u ≠ .unread → S.bio.At (.inl u) (S.req u).1 (S.req u).2 .ready
  rest : Rest L S
  bufs : ∀ p a, S.pc p = .commit a → Bufs L S.bio S.lh a
  free : (∀ p a, S.pc p ≠ .commit a) → S.bio.stage lbuf = .idle ∧ S.bio.stage dbuf = .idle
  copies : ∀ p a j n, S.pc p = .commit a → a.Copied j → S.lh[j]? = some n →
    latest D S.mods L.dev (L.start + j + 1) = latest D S.mods L.dev n

section
variable [Fintype P] [DecidableEq P] [Fintype K] [DecidableEq K] {L : Area β} {D : ℕ → ℕ → β}
  {S S' : State P K β} {u : P × K}

/-! ## Frames -/

omit [Fintype P] [Fintype K] [DecidableEq P] [DecidableEq K] in
/-- The buffers of `commit` when a process does something. -/
lemma Bufs.frame {B B' : Sys (Agent P K) β} {lh : List ℕ} {a : At} (h : Bufs L B lh a)
    (hframe : B.Frame (.inl u) B') : Bufs L B' lh a := by
  have hl : (lbuf : Agent P K) ≠ .inl u := nofun
  have hd : (dbuf : Agent P K) ≠ .inl u := nofun
  have hidle : B.stage lbuf = .idle ∧ B.stage dbuf = .idle →
      B'.stage lbuf = .idle ∧ B'.stage dbuf = .idle := fun hi =>
    ⟨(hframe.stage _ hl).trans hi.1, (hframe.stage _ hd).trans hi.2⟩
  rcases a with _ | ⟨tail, i⟩ | i | ⟨tail, i⟩ | i | _
  · exact hidle h
  · exact ⟨h.1, h.2.1, h.2.2.1, hframe.at hl h.2.2.2.1, fun n hn => hframe.at hd (h.2.2.2.2 n hn)⟩
  · exact ⟨h.1, hframe.at hl h.2.1, (hframe.stage _ hd).trans h.2.2⟩
  · exact ⟨h.1, h.2.1, h.2.2.1, hframe.at hl h.2.2.2.1, fun n hn => hframe.at hd (h.2.2.2.2 n hn)⟩
  · exact ⟨h.1, hframe.at hl h.2.1, (hframe.stage _ hd).trans h.2.2⟩
  · exact hidle h

omit [Fintype K] [DecidableEq P] [DecidableEq K] in
/-- Only a phase changes, to one that is not `checked` or in an operation. -/
theorem Rest.phase (h : Rest L S) (hlh : S'.lh = S.lh) (hout : S'.outstanding = S.outstanding)
    (hcom : S'.committing = S.committing) (hpc : S'.pc = S.pc)
    (hother : ∀ w, w ≠ u → S'.phase w = S.phase w)
    (hu : S'.phase u = .checked → S.pc u.1 = .op) : Rest L S' := by
  refine ⟨?_, ?_, ?_, ?_, ?_, ?_, fun w hw => ?_⟩
  · rw [hlh]
    exact h.small
  · rw [hlh]
    exact h.home
  · rw [hout, hpc]
    exact h.ops
  · rw [hpc]
    exact h.one
  · rw [hpc, hcom]
    exact h.busy
  · rw [hpc, hcom]
    exact h.quiet
  · rw [hpc]
    by_cases hwu : w = u
    · rw [hwu] at hw ⊢
      exact hu hw
    · rw [hother w hwu] at hw
      exact h.checked w hw

/-- A process does something with the buffer in one of its slots. -/
theorem Inv.slot (h : Inv L D S)
    (hholds : Holds S'.bio S'.disk (latest D S'.mods) (Unsaved S'))
    (hframe : S.bio.Frame (.inl u) S'.bio) {r : Prog}
    (hask : S'.bio.At (.inl u) (S'.req u).1 (S'.req u).2 r) (hat : S'.phase u ≠ .unread → r = .ready)
    (hreq : ∀ w, w ≠ u → S'.req w = S.req w)
    (hphase : ∀ w, w ≠ u → S'.phase w = S.phase w) (hpc : S'.pc = S.pc) (hrest : Rest L S')
    (hlh : S'.lh = S.lh ∨ ∀ p a, S.pc p ≠ .commit a)
    (hcopies : ∀ p a j n, S.pc p = .commit a → a.Copied j → S.lh[j]? = some n →
      latest D S'.mods L.dev (L.start + j + 1) = latest D S'.mods L.dev n) : Inv L D S' := by
  refine ⟨hholds, fun w b hw => ?_, fun w hw => ?_, hrest, fun p a hp => ?_, fun hno => ?_,
    fun p a j n hp hj hn => ?_⟩
  · by_cases hwu : w = u
    · subst hwu
      exact hask.on hw
    · rw [hreq w hwu]
      exact hframe.is (fun heq => hwu (Sum.inl.inj heq)) (h.asked w) hw
  · by_cases hwu : w = u
    · subst hwu
      exact hat hw ▸ hask
    · rw [hphase w hwu] at hw
      rw [hreq w hwu]
      exact hframe.at (fun heq => hwu (Sum.inl.inj heq)) (h.clients w hw)
  · rw [hpc] at hp
    rcases hlh with hlh | hno
    · rw [hlh]
      exact (h.bufs p a hp).frame hframe
    · exact absurd hp (hno p a)
  · rw [hpc] at hno
    obtain ⟨hl, hd⟩ := h.free hno
    exact ⟨(hframe.stage lbuf nofun).trans hl, (hframe.stage dbuf nofun).trans hd⟩
  · rw [hpc] at hp
    rcases hlh with hlh | hno
    · rw [hlh] at hn
      exact hcopies p a j n hp hj hn
    · exact absurd hp (hno p a)

end

end Store
end OhMyXv6
