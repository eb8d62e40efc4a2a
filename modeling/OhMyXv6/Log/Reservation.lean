import Mathlib.Algebra.BigOperators.Fin
import OhMyXv6.Lib.Runs
import OhMyXv6.Log.Crash

/-!
# What `begin_op` reserves

`begin_op` admits an operation when the blocks already listed, and `MAXOPBLOCKS` for every
operation that would then be running, add up to at most `LOGSIZE`. `log_write` panics earlier:
the header block takes one of the `log.size = LOGSIZE` blocks `mkfs` sets aside, and the test
comes before the search for a block to absorb. So a call is only safe while the log lists fewer
than `log.size - 1` blocks, and the room an operation needs has to be measured against
`log.size - 2`.

`Reserved` is that test, made at each admission on the state before it: the listed blocks, what
the running operations may still log, and `MAXOPBLOCKS` for the newcomer.
-/

namespace OhMyXv6
namespace Log

variable {P β : Type}

instance : ∀ pc : Pc, Decidable pc.InOp
  | .op | .modified _ | .checked _ => isTrue trivial
  | .out | .commit | .writeLog _ | .writeHead | .installTrans _ | .clearHead | .committed =>
    isFalse id

/-- How many more distinct blocks the operation process `p` is in may log. -/
def room (s : State P β) (p : P) : ℕ :=
  if (s.pc p).InOp then MAXOPBLOCKS - (s.logged p).toFinset.card else 0

/-- The block a process is about to log is one of at most `MAXOPBLOCKS` of its operation. -/
def Pc.Within (logged : List ℕ) : Pc → Prop
  | .modified b | .checked b => (b :: logged).toFinset.card ≤ MAXOPBLOCKS
  | _ => True

/-- Every operation calls `log_write` for at most `MAXOPBLOCKS` distinct blocks. -/
def WithinOp (s : State P β) : Act P β → Prop
  | .logWrite p => (s.pc p).Within (s.logged p)
  | _ => True

/-- An operation is admitted only when the blocks listed, the room of the running operations
and its own reservation fit the blocks `log_write` can really list. -/
def Reserved [Fintype P] (L : Area) (s : State P β) : Act P β → Prop
  | .beginOp _ => s.lh.length + (∑ q, room s q) + MAXOPBLOCKS + 2 ≤ L.size
  | _ => True

instance (logged : List ℕ) : ∀ pc : Pc, Decidable (pc.Within logged)
  | .modified b | .checked b => inferInstanceAs (Decidable ((b :: logged).toFinset.card ≤ _))
  | .out | .op | .commit | .writeLog _ | .writeHead | .installTrans _ | .clearHead | .committed =>
    isTrue trivial

instance decidableWithinOp (s : State P β) : ∀ a : Act P β, Decidable (WithinOp s a)
  | .logWrite p => inferInstanceAs (Decidable ((s.pc p).Within (s.logged p)))
  | .beginOp _ | .modify _ _ _ | .append _ | .endOp _ | .commit _ | .bread _ | .brelse _
  | .evict _ | .crash | .recover => isTrue trivial

instance decidableReserved [Fintype P] (L : Area) (s : State P β) :
    ∀ a : Act P β, Decidable (Reserved L s a)
  | .beginOp _ => inferInstanceAs (Decidable (_ ≤ _))
  | .modify _ _ _ | .logWrite _ | .append _ | .endOp _ | .commit _ | .bread _ | .brelse _
  | .evict _ | .crash | .recover => isTrue trivial

/-! ## The budget -/

/-- What the log still owes the running operations. -/
structure Budget [Fintype P] (L : Area) (s : State P β) : Prop where
  fits : s.lh.length + (∑ q, room s q) + 2 ≤ L.size
  listed : ∀ p, (s.pc p).InOp → ∀ b ∈ s.logged p, b ∈ s.lh
  within : ∀ p b, s.pc p = .checked b → (b :: s.logged p).toFinset.card ≤ MAXOPBLOCKS

/-- The invariant of the reservation, in each mode. -/
def BudgetAt [Fintype P] (L : Area) (s : State P β) : Prop :=
  match s.mode with
  | .up => Control s ∧ Budget L s
  | .readHead | .recover _ => s.outstanding = 0 ∧ ∀ p, s.pc p = .out
  | .clearHead => s.lh = [] ∧ s.outstanding = 0 ∧ ∀ p, s.pc p = .out
  | .panicked .tooBig => False
  | .panicked _ | .overrun => True

section
variable [Fintype P] [DecidableEq P] {L : Area} {s t : State P β}

/-- When only one process is affected, the total changes by what that process gains. -/
theorem sum_room_update {p : P} (h : ∀ q, q ≠ p → room t q = room s q) :
    (∑ q, room t q) + room s p = (∑ q, room s q) + room t p := by
  have hrest : ∑ q ∈ Finset.univ.erase p, room t q = ∑ q ∈ Finset.univ.erase p, room s q :=
    Finset.sum_congr rfl fun q hq => h q (Finset.mem_erase.mp hq).1
  rw [← Finset.add_sum_erase _ (room t) (Finset.mem_univ p),
    ← Finset.add_sum_erase _ (room s) (Finset.mem_univ p), hrest]
  omega

omit [Fintype P] in
/-- The room of a process depends on its own program counter and list alone. -/
theorem room_congr {p q : P} {x : Pc} (hq : q ≠ p) (hpc : t.pc = Function.update s.pc p x)
    (hlog : t.logged q = s.logged q) : room t q = room s q := by
  rw [room, room, hpc, Function.update_of_ne hq, hlog]

/-- A process moves on and neither logs a block nor starts an operation. -/
theorem Budget.move (h : Budget L s) {p : P} {x : Pc} (hpc : t.pc = Function.update s.pc p x)
    (hlh : t.lh = s.lh ∨ t.lh = [] ∧ ∀ q, ¬ (t.pc q).InOp) (hlog : t.logged = s.logged)
    (hop : x.InOp → (s.pc p).InOp)
    (hchk : ∀ b, x = .checked b → (b :: s.logged p).toFinset.card ≤ MAXOPBLOCKS) :
    Budget L t := by
  have hself : t.pc p = x := by rw [hpc, Function.update_self]
  have hother : ∀ q, q ≠ p → t.pc q = s.pc q := fun q hq => by
    rw [hpc, Function.update_of_ne hq]
  -- a move inside the operation claims no more room
  have hroom : room t p ≤ room s p := by
    rw [room, room, hself, hlog]
    by_cases hx : x.InOp
    · rw [if_pos hx, if_pos (hop hx)]
    · rw [if_neg hx]
      exact Nat.zero_le _
  have hsum := sum_room_update (t := t) (s := s) (p := p) fun q hq =>
    room_congr hq hpc (by rw [hlog])
  have hlen : t.lh.length ≤ s.lh.length := by
    rcases hlh with hl | ⟨hl, -⟩
    · rw [hl]
    · rw [hl]
      exact Nat.zero_le _
  have hfit := h.fits
  refine ⟨by omega, ?_, ?_⟩
  · intro q hq b hb
    rcases hlh with hl | ⟨-, hnone⟩
    · rw [hl]
      rw [hlog] at hb
      by_cases hqp : q = p
      · subst hqp
        exact h.listed q (hop (hself ▸ hq)) b hb
      · exact h.listed q (hother q hqp ▸ hq) b hb
    · exact absurd hq (hnone q)
  · intro q b hq
    rw [hlog]
    by_cases hqp : q = p
    · subst hqp
      exact hchk b (hself ▸ hq)
    · exact h.within q b (hother q hqp ▸ hq)

/-- The admission of an operation that is reserved for. -/
lemma Budget.beginOp (h : Budget L s) {p : P} (hp : s.pc p = .out)
    (hres : s.lh.length + (∑ q, room s q) + MAXOPBLOCKS + 2 ≤ L.size)
    (hpc : t.pc = Function.update s.pc p .op) (hlh : t.lh = s.lh)
    (hlog : t.logged = Function.update s.logged p []) : Budget L t := by
  have hself : t.pc p = .op := by rw [hpc, Function.update_self]
  have hother : ∀ q, q ≠ p → t.pc q = s.pc q ∧ t.logged q = s.logged q := fun q hq => by
    rw [hpc, hlog, Function.update_of_ne hq, Function.update_of_ne hq]
    exact ⟨rfl, rfl⟩
  have hnew : room t p ≤ MAXOPBLOCKS := by
    rw [room]
    split
    · exact Nat.sub_le _ _
    · exact Nat.zero_le _
  have hold : room s p = 0 := by rw [room, hp, if_neg (by exact id)]
  have hsum := sum_room_update (t := t) (s := s) (p := p) fun q hq =>
    room_congr hq hpc (hother q hq).2
  refine ⟨by rw [hlh]; omega, ?_, ?_⟩
  · intro q hq b hb
    rw [hlh]
    by_cases hqp : q = p
    · subst hqp
      rw [hlog, Function.update_self] at hb
      cases hb
    · obtain ⟨h1, h2⟩ := hother q hqp
      exact h.listed q (h1 ▸ hq) b (h2 ▸ hb)
  · intro q b hq
    by_cases hqp : q = p
    · subst hqp
      rw [hself] at hq
      cases hq
    · obtain ⟨h1, h2⟩ := hother q hqp
      rw [h2]
      exact h.within q b (h1 ▸ hq)

/-- A block that is appended uses up one unit of its operation's room. -/
theorem Budget.append (h : Budget L s) {p : P} {b : ℕ} (hp : s.pc p = .checked b)
    (hpc : t.pc = Function.update s.pc p .op)
    (hlh : t.lh = if b ∈ s.lh then s.lh else s.lh ++ [b])
    (hlog : t.logged = Function.update s.logged p (s.logged p ++ [b])) : Budget L t := by
  have hop : (s.pc p).InOp := by rw [hp]; trivial
  have hself : t.pc p = .op := by rw [hpc, Function.update_self]
  have hlogp : t.logged p = s.logged p ++ [b] := by rw [hlog, Function.update_self]
  have hother : ∀ q, q ≠ p → t.pc q = s.pc q ∧ t.logged q = s.logged q := fun q hq => by
    rw [hpc, hlog, Function.update_of_ne hq, Function.update_of_ne hq]
    exact ⟨rfl, rfl⟩
  have hmem : ∀ c, c ∈ t.lh ↔ c ∈ s.lh ∨ c = b := by
    intro c
    rw [hlh]
    split
    · next hb => exact ⟨.inl, fun hc => hc.elim id fun hcb => hcb ▸ hb⟩
    · simp
  have hset : (t.logged p).toFinset = insert b (s.logged p).toFinset := by
    rw [hlogp]
    simp
  have hcard := h.within p b hp
  rw [List.toFinset_cons] at hcard
  have hrs : room s p = MAXOPBLOCKS - (s.logged p).toFinset.card := by rw [room, if_pos hop]
  have hrt : room t p = MAXOPBLOCKS - (insert b (s.logged p).toFinset).card := by
    rw [room, hself, if_pos (by trivial), hset]
  -- a new block of the log is new to the operation as well
  have hstep : t.lh.length + room t p ≤ s.lh.length + room s p := by
    rw [hlh, hrs, hrt]
    split
    · have := Finset.card_le_card (Finset.subset_insert b (s.logged p).toFinset)
      omega
    · next hb =>
      have hnew : b ∉ (s.logged p).toFinset := by
        rw [List.mem_toFinset]
        exact fun hbl => hb (h.listed p hop b hbl)
      rw [Finset.card_insert_of_notMem hnew] at hcard ⊢
      rw [List.length_append, List.length_singleton]
      omega
  have hsum := sum_room_update (t := t) (s := s) (p := p) fun q hq =>
    room_congr hq hpc (hother q hq).2
  have hfit := h.fits
  refine ⟨by omega, ?_, ?_⟩
  · intro q hq c hc
    rw [hmem]
    by_cases hqp : q = p
    · subst hqp
      rw [hlogp, List.mem_append, List.mem_singleton] at hc
      exact hc.imp_left (h.listed q hop c)
    · obtain ⟨h1, h2⟩ := hother q hqp
      exact .inl (h.listed q (h1 ▸ hq) c (h2 ▸ hc))
  · intro q c hq
    by_cases hqp : q = p
    · subst hqp
      rw [hself] at hq
      cases hq
    · obtain ⟨h1, h2⟩ := hother q hqp
      rw [h2]
      exact h.within q c (h1 ▸ hq)

omit [DecidableEq P] in
/-- Who is where, while the system is up. -/
lemma BudgetAt.control (h : BudgetAt L s) (hmode : s.mode = .up) : Control s := by
  rw [BudgetAt, hmode] at h
  exact h.1

omit [DecidableEq P] in
/-- The room that is reserved, while the system is up. -/
lemma BudgetAt.budget (h : BudgetAt L s) (hmode : s.mode = .up) : Budget L s := by
  rw [BudgetAt, hmode] at h
  exact h.2

omit [DecidableEq P] in
/-- The budget does not look at the buffers. -/
lemma BudgetAt.setCache (h : BudgetAt L s) (cache : ℕ → Option (Buf β)) (bufs : List ℕ) :
    BudgetAt L { s with cache := cache, bufs := bufs } := by
  unfold BudgetAt at h ⊢
  revert h
  simp only
  split
  · rintro ⟨hc, hb⟩
    exact ⟨⟨hc.active, hc.committing, hc.unique⟩, ⟨hb.fits, hb.listed, hb.within⟩⟩
  all_goals exact id

/-- Under the two conditions every action keeps the budget, where it keeps the count of the
operations. -/
theorem BudgetAt.step_of_control (hsize : L.size = LOGSIZE) {a : Act P β} (h : BudgetAt L s)
    (hwithin : WithinOp s a) (hres : Reserved L s a) (hs : Step L s a t)
    (hcontrol : s.mode = .up → t.mode = .up → Control t) : BudgetAt L t := by
  have hup : s.mode = .up → t.mode = .up → Budget L t → BudgetAt L t := by
    intro hmode hu hb
    rw [BudgetAt, hu]
    exact ⟨hcontrol hmode hu, hb⟩
  induction hs with
  | fill _ _ _ _ ih => exact ih (h.setCache _ _) hwithin hres hcontrol hup
  | beginOp hmode hpc hcom hroom =>
    exact hup hmode hmode ((h.budget hmode).beginOp hpc hres rfl rfl rfl)
  | modify hmode hpc hlock =>
    refine hup hmode hmode ?_
    exact (h.budget hmode).move rfl (.inl rfl) rfl (fun _ => by rw [hpc]; trivial) (by simp)
  | tooBig hmode hpc hfull =>
    have hfit := (h.budget hmode).fits
    omega
  | logWrite hmode hpc hroom hout =>
    refine hup hmode hmode ?_
    refine (h.budget hmode).move rfl (.inl rfl) rfl (fun _ => by rw [hpc]; trivial) ?_
    intro c hc
    rw [WithinOp, hpc] at hwithin
    rw [← Pc.checked.inj hc]
    exact hwithin
  | append hmode hpc hroom =>
    exact hup hmode hmode ((h.budget hmode).append hpc rfl rfl rfl)
  | endOpLast hmode | endOp hmode | commitSome hmode | commitNone hmode | writeLog hmode
  | writeLogEnd hmode | writeHead hmode | installTrans hmode | clearHead hmode
  | committed hmode =>
    refine hup hmode hmode ?_
    exact (h.budget hmode).move rfl (.inl rfl) rfl (fun hx => hx.elim) (by simp)
  | installTransEnd hmode hpc htail =>
    rename_i s p tail
    -- the list is emptied while a process commits, hence while no operation runs
    have hnoop : ∀ q, ¬ (Function.update s.pc p .clearHead q).InOp := by
      intro q hq
      by_cases hqp : q = p
      · subst hqp
        rw [Function.update_self] at hq
        exact hq
      · rw [Function.update_of_ne hqp] at hq
        exact (h.control hmode).noOp (p := p) (by rw [hpc]; trivial) q hq
    refine hup hmode hmode ?_
    exact (h.budget hmode).move rfl (.inr ⟨rfl, hnoop⟩) rfl (fun hx => hx.elim) (by simp)
  | bread hmode | brelse hmode =>
    have hb := h.budget hmode
    exact hup hmode hmode ⟨hb.fits, hb.listed, hb.within⟩
  | evict => exact h.setCache _ _
  | noBuffers | outsideTrans | overrun | endOpPanic => trivial
  | crash => exact ⟨rfl, fun _ => rfl⟩
  | readHead hmode =>
    rw [BudgetAt, hmode] at h
    exact h
  | recover hmode htail =>
    rw [BudgetAt, hmode] at h
    exact h
  | recoverEnd hmode htail =>
    rw [BudgetAt, hmode] at h
    exact ⟨rfl, h⟩
  | recoverClear hmode =>
    rename_i s _
    rw [BudgetAt, hmode] at h
    obtain ⟨hlh, hout, hpc⟩ := h
    have hnoop : ∀ p, ¬ (s.pc p).InOp := fun p => by rw [hpc p]; exact id
    refine ⟨.ofOut hout hpc, ?_, fun p hp => absurd hp (hnoop p), fun p b hp => ?_⟩
    · have hzero : ∑ q, room { s.writeHead with mode := .up } q = 0 :=
        Finset.sum_eq_zero fun q _ => if_neg (hnoop q)
      show s.lh.length + (∑ q, room { s.writeHead with mode := .up } q) + 2 ≤ L.size
      rw [hzero, hlh, hsize]
      decide
    · have hp' : s.pc p = .checked b := hp
      rw [hpc p] at hp'
      cases hp'

/-- **Step lemma.** Under the two conditions every action keeps the budget; in particular the
test of `log_write` passes. -/
theorem BudgetAt.step (hsize : L.size = LOGSIZE) {a : Act P β} (h : BudgetAt L s)
    (hwithin : WithinOp s a) (hres : Reserved L s a) (hs : Step L s a t) : BudgetAt L t :=
  h.step_of_control hsize hwithin hres hs fun hmode hup => (h.control hmode).step hup hs hmode

/-- **Sound reservation, where it is sound.** On a disk laid out by `mkfs`, in every run in
which each operation logs at most `MAXOPBLOCKS` distinct blocks and each admission meets
`Reserved`, `log_write` never panics with "too big a transaction". -/
theorem no_tooBig (hsize : L.size = LOGSIZE) (d : Disk β) (as : List (Act P β))
    (hwithin : Runs.Along (step L) WithinOp (boot d) as)
    (hres : Runs.Along (step L) (Reserved L) (boot d) as)
    (hrun : Runs.run (step L) (boot d) as = some t) : t.mode ≠ .panicked .tooBig := by
  have hboot : BudgetAt L (boot d : State P β) := ⟨rfl, fun _ => rfl⟩
  have hinv : BudgetAt L t := (hwithin.and hres).invariant
    (fun _ _ _ hI ha hs => hI.step hsize ha.1 ha.2 (step_cases hs)) hboot hrun
  intro hpanic
  rw [BudgetAt, hpanic] at hinv
  exact hinv

end

local instance operations_neZero : NeZero 3 := ⟨by decide⟩

/-- Process `p` modifies and logs the blocks `b, ..., b + n - 1`, one after the other. -/
def logBlocks (p : Fin 3) (b n : ℕ) : List (Act (Fin 3) ℕ) :=
  (List.range n).flatMap fun i => [.modify p (b + i) 1, .logWrite p, .append p]

/-- Two operations at a time, each using its whole reservation. -/
def pairRun : List (Act (Fin 3) ℕ) :=
  ([.recover, .recover, .recover, .beginOp 0, .beginOp 1] : List (Act (Fin 3) ℕ)) ++
    logBlocks 0 100 10 ++ logBlocks 1 110 10

theorem no_tooBig_pairRun :
    ∃ t : State (Fin 3) ℕ,
      Runs.run (step mkfsArea) (boot ⟨[], fun _ => 0⟩) pairRun = some t ∧
      t.lh.length = 20 ∧ t.mode ≠ .panicked .tooBig := by
  have hrun : (Runs.run (step mkfsArea) (boot ⟨[], fun _ => 0⟩) pairRun).map
      (fun t => t.lh.length) = some 20 := by decide +kernel
  obtain ⟨t, ht, hlen⟩ := Option.map_eq_some_iff.mp hrun
  exact ⟨t, ht, hlen, no_tooBig rfl ⟨[], fun _ => 0⟩ pairRun (by decide +kernel)
    (by decide +kernel) ht⟩

/-- Three operations are admitted together, since `0 + 3 * MAXOPBLOCKS` is not above `LOGSIZE`;
each logs no more than the ten blocks it has reserved. The last block takes over the buffer of
the log header, the only one that is not dirty by then. -/
def tripleRun : List (Act (Fin 3) ℕ) :=
  ([.recover, .recover, .recover, .beginOp 0, .beginOp 1, .beginOp 2] :
    List (Act (Fin 3) ℕ)) ++ logBlocks 0 100 10 ++ logBlocks 1 110 10 ++ logBlocks 2 120 9 ++
    ([.evict 2, .modify 2 129 1, .logWrite 2] : List (Act (Fin 3) ℕ))

/-- The last of the thirty blocks runs into the panic. -/
theorem tooBig_tripleRun :
    ∃ (as : List (Act (Fin 3) ℕ)) (t : State (Fin 3) ℕ),
      Runs.Along (step mkfsArea) WithinOp (boot ⟨[], fun _ => 0⟩) as ∧
      Runs.run (step mkfsArea) (boot ⟨[], fun _ => 0⟩) as = some t ∧
      t.mode = .panicked .tooBig := by
  have hrun : (Runs.run (step mkfsArea) (boot ⟨[], fun _ => 0⟩) tripleRun).map
      (fun t => t.mode) = some (.panicked .tooBig) := by decide +kernel
  obtain ⟨t, ht, hmode⟩ := Option.map_eq_some_iff.mp hrun
  exact ⟨tripleRun, t, by decide +kernel, ht, hmode⟩

end Log
end OhMyXv6
