import OhMyXv6.Bio.Commit

/-!
# The cache with the log is a flat store of blocks

What `bread` returns is what was last stored in the block, whatever was committed or evicted in
between.
-/

namespace OhMyXv6
namespace Store

open Bio

variable {P K β : Type}

section
variable [Fintype P] [DecidableEq P] [Fintype K] [DecidableEq K] {L : Area β} {D : ℕ → ℕ → β}
  {S S' : State P K β} {u : P × K}
variable {p : P} {a a' : At}

/-! ## Runs -/

lemma Inv.step (h : Inv L D S) {act : Act P K β} (hallow : Allowed L S act)
    (hstep : step L S act = some S') : Inv L D S' := by
  rcases act with ⟨u, d, n⟩ | u | u | ⟨u, v⟩ | u | u | u | u | u | p | p | p
  · exact h.bget hstep
  · exact h.acquiresleep hstep
  · exact h.fill hstep
  · exact h.modify hallow hstep
  · exact h.logWrite hstep
  · exact h.append hallow hstep
  · exact h.write hstep
  · exact h.releasesleep hstep
  · exact h.brelse hstep
  · exact h.beginOp hstep
  · exact h.endOp hstep
  · exact h.commit hstep

omit [DecidableEq P] [DecidableEq K] in
lemma inv_init (L : Area β) (z : β) (D : ℕ → ℕ → β) : Inv L D (init z D : State P K β) := by
  have hbuf : ∀ b, ((Cache.binit z).buf b) = (Cache.zero z).buf b := fun b => by
    rw [(Cache.binit_linked z).2]
  refine ⟨⟨⟨_, Sys.ok_init z⟩, fun b hb => ?_, fun d n => .inl rfl, fun b hb => ?_⟩,
    fun u b hu => absurd hu id, fun u hu => absurd rfl hu, ⟨.inl rfl, fun n hn =>
    absurd hn List.not_mem_nil, ?_, fun p q a b hp => (nomatch hp), fun p a hp => (nomatch hp),
    fun hc => (nomatch hc), fun u hu => (nomatch hu)⟩, fun p a hp => (nomatch hp),
    fun _ => ⟨rfl, rfl⟩, fun p a j n hp => (nomatch hp)⟩
  · rw [show (init z D : State P K β).bio.cache.buf b = (Cache.zero z).buf b from hbuf b] at hb
    exact nomatch hb
  · rw [show (init z D : State P K β).bio.cache.buf b = (Cache.zero z).buf b from hbuf b] at hb
    exact nomatch hb
  · symm
    apply Finset.sum_eq_zero
    exact fun p _ => if_neg nofun

/-- **The buffer cache with the log is a flat block store.** In every allowed run, by any number of
processes, with any number of slots for buffers each: when `bread` has returned, the buffer is that
of the block that was asked for, and its data is that of the last change of this block, or the one
that was on the disk at the start. -/
theorem flat_store {z : β} {acts : List (Act P K β)}
    (hrun : Runs.run (step L) (init z D) acts = some S)
    (hallow : Runs.Along (step L) (Allowed L) (init z D) acts) (hu : S.phase u ≠ .unread) :
    ∃ x, S.bio.held (.inl u) = some x ∧ x.Is (S.req u).1 (S.req u).2 ∧
      x.data = latest D S.mods (S.req u).1 (S.req u).2 := by
  have hinv : Inv L D S := by
    apply hallow.invariant (I := Inv L D) _ (inv_init L z D) hrun
    exact fun S a S' hS ha hstep => hS.step ha hstep
  obtain ⟨b, hb, his, hv⟩ := hinv.clients u hu
  refine ⟨_, held_of_stage hb, his, ?_⟩
  rw [hinv.holds.data b hv, his.1, his.2]

end

/-! ## Two processes, with one slot each -/

/-- A log with room for 30 blocks, on device 1. -/
def area : Area ℕ := ⟨1, 2, 30, fun lh _ => lh.length⟩

/-- `bread(1, 100)` by a process. -/
def read (p : Fin 2) : List (Act (Fin 2) Unit ℕ) :=
  [.bget (p, ()) 1 100, .acquiresleep (p, ()), .fill (p, ())]

/-- An operation that sets the block to 7, up to the call of `commit`. -/
def logged : List (Act (Fin 2) Unit ℕ) :=
  [.beginOp 0] ++ read 0 ++ [.modify (0, ()) 7, .logWrite (0, ()), .append (0, ()),
    .releasesleep (0, ()), .brelse (0, ()), .endOp 0]

/-- The block is set to 9 and written. -/
def written : List (Act (Fin 2) Unit ℕ) :=
  read 1 ++ [.modify (1, ()) 9, .write (1, ()), .releasesleep (1, ()), .brelse (1, ())]

/-- Process 1 sets the block after the commit, and process 0 reads it. -/
theorem flat_store_after_commit : ∃ S : State (Fin 2) Unit ℕ,
    Runs.run (step area) (init 0 fun _ _ => 0)
      (logged ++ List.replicate 38 (.commit 0) ++ written ++ read 0) = some S ∧
    S.req (0, ()) = (1, 100) ∧ latest (fun _ _ => 0) S.mods 1 100 = 9 ∧
    ∃ x, S.bio.held (.inl (0, ())) = some x ∧ x.Is (S.req (0, ())).1 (S.req (0, ())).2 ∧
      x.data = latest (fun _ _ => 0) S.mods (S.req (0, ())).1 (S.req (0, ())).2 := by
  let acts := logged ++ List.replicate 38 (.commit 0) ++ written ++ read 0
  have hsome : (Runs.run (step area) (init 0 fun _ _ => 0) acts).map (fun S =>
      (S.phase (0, ()), S.req (0, ()), latest (fun _ _ => 0) S.mods 1 100)) =
      some (.ready, (1, 100), 9) := by decide +kernel
  obtain ⟨S, hS, hval⟩ := Option.map_eq_some_iff.mp hsome
  rw [Prod.mk.injEq, Prod.mk.injEq] at hval
  have hallow : Runs.Along (step area) (Allowed area) (init 0 fun _ _ => 0) acts := by
    decide +kernel
  exact ⟨S, hS, hval.2.1, hval.2.2, flat_store hS hallow (by rw [hval.1]; nofun)⟩

/-- Process 1 sets the block and writes it between the copy into the log and the copy back: what it
has written is lost. -/
theorem not_flat_store_bwrite : ¬ ∀ (acts : List (Act (Fin 2) Unit ℕ)) (S : State (Fin 2) Unit ℕ)
    (u : Fin 2 × Unit), Runs.run (step area) (init 0 fun _ _ => 0) acts = some S →
      S.phase u ≠ .unread → ∃ x, S.bio.held (.inl u) = some x ∧
        x.data = latest (fun _ _ => 0) S.mods (S.req u).1 (S.req u).2 := by
  intro hall
  let acts := logged ++ List.replicate 19 (.commit 0) ++ written ++ List.replicate 19 (.commit 0) ++
    read 1
  have hsome : (Runs.run (step area) (init 0 fun _ _ => 0) acts).map (fun S =>
      (S.phase (1, ()), (S.bio.held (.inl (1, ()))).map fun x => x.data,
        latest (fun _ _ => 0) S.mods (S.req (1, ())).1 (S.req (1, ())).2)) =
      some (.ready, some 7, 9) := by decide +kernel
  obtain ⟨S, hS, hval⟩ := Option.map_eq_some_iff.mp hsome
  rw [Prod.mk.injEq, Prod.mk.injEq] at hval
  obtain ⟨hphase, hheld, hlast⟩ := hval
  obtain ⟨x, hx, hdata⟩ := hall acts S (1, ()) hS (by rw [hphase]; nofun)
  rw [hx, Option.map_some, Option.some.injEq, hdata, hlast] at hheld
  exact absurd hheld (by decide)

end Store
end OhMyXv6
