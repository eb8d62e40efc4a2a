import OhMyXv6.Shell.Navigation
import OhMyXv6.Shell.Recall

/-!
# Going through the history

A call keeps the lists a zipper of all nodes, and goes through it as the zipper says. Only
`get_prev_command` may fail to return: when the list of older commands is empty, and `load_history` finds
no newline where it looks.
-/

namespace OhMyXv6
namespace Sh

open Console Fallible

/-- What a call does to the zipper, and what it returns. -/
def NavOp.Moves (op : NavOp) (h : Links) (z : Zipper ℕ) (r : Option Str) (h' : Links) (z' : Zipper ℕ) :
    Prop :=
  match op with
  | .prev _ =>
    z'.seq = z.seq ++ h.loaded h' ∧ (z.prev ≠ [] → h.loaded h' = []) ∧ h.contents <+: h'.contents ∧
      r = z'.seq[z.place]?.map h'.content ∧
      z'.place = if z.place < z'.seq.length then z.place + 1 else z.place
  | .next =>
    z'.seq = z.seq ∧ h'.contents = h.contents ∧
      r = (if z.place < 2 then none else z.seq[z.place - 2]?.map h.content) ∧
      z'.place = z.place - 1
  | .reset => z'.seq = z.seq ∧ h'.contents = h.contents ∧ r = none ∧ z'.place = 0
  | .log buf =>
    (z'.seq = z.seq ∧ h'.contents = h.contents ∨
      z'.seq = h.heap.length :: z.seq ∧ h'.contents = h.contents ++ [buf.dropLast]) ∧
      r = none ∧ z'.place = 0

open Links

/-- `get_prev_command` would call `load_history` for ever. -/
structure Links.Stuck (h : Links) : Prop where
  prev : h.prev = none
  topped : h.file.topped = false
  far : DEFAULT_LOAD < h.file.pos
  newline : ∀ i, 1 ≤ i → i < DEFAULT_LOAD - 1 →
    h.file.file.data.getD (h.file.pos - DEFAULT_LOAD + i) 0 ≠ chr '\n'

/-- The call does not return. -/
def NavOp.Hangs (op : NavOp) (h : Links) : Prop :=
  match op with
  | .prev _ => h.Stuck
  | .next | .reset | .log _ => False

/-- `get_prev_command` may call itself once. -/
def NavOp.HasFuel : NavOp → Prop
  | .prev fuel => 2 ≤ fuel
  | .next | .reset | .log _ => True

/-- The call returns, leaves the lists a zipper of all nodes, goes through it as it should, and does what
it does to the history of commands. -/
def NavOp.Does (op : NavOp) (h : Links) (z : Zipper ℕ) : Prop :=
  Ends (fun _ => False) op.run (fun r h' => ∃ z', Kept h' z' ∧ op.Moves h z r h' z' ∧
    op.model (h.abs z) = some (h'.abs z', r)) h

/-- Each call is made where it returns. -/
def NavOp.AllReturn : List NavOp → Links → Prop
  | [], _ => True
  | op :: ops, h => op.HasFuel ∧ ¬ op.Hangs h ∧ Ends (fun _ => True) op.run (fun _ => AllReturn ops) h

/-! ## One call -/

section
variable {h : Links} {z : Zipper ℕ} {op : NavOp}

/-- The linked list is stuck where the list is. -/
lemma Links.Linked.stuck_iff (hl : Zips h z) : h.Stuck ↔ Sh.Stuck (h.abs z) := by
  have hprev : h.prev = none ↔ (h.abs z).prev = [] := by
    show _ ↔ z.prev.map h.content = []
    rw [List.map_eq_nil_iff]
    cases hp : z.prev with
    | nil => exact ⟨fun _ => rfl, fun _ => (hp ▸ hl.prev : Chain h.link h.prev [])⟩
    | cons a q =>
      have hsome := (hp ▸ hl.prev : Chain h.link h.prev (a :: q)).1
      rw [hsome]
      exact ⟨fun hx => (Option.some_ne_none a hx).elim, fun hx => (List.cons_ne_nil a q hx).elim⟩
  exact ⟨fun hs => ⟨hprev.mp hs.prev, hs.topped, hs.far, hs.newline⟩,
    fun hs => ⟨hprev.mpr hs.prev, hs.topped, hs.far, hs.newline⟩⟩

/-- A call ends in an error only where the history of commands does not return. -/
theorem NavOp.run_ends (op : NavOp) (hl : Zips h z) :
    Ends (fun _ => op.model (h.abs z) = none) op.run (fun r h' => ∃ z', Zips h' z' ∧
      op.Moves h z r h' z' ∧ op.model (h.abs z) = some (h'.abs z', r)) h := by
  cases op with
  | prev fuel =>
    refine (get_prev_command_ends fuel hl).mono (fun _ he => he.2) fun r h' hb => ?_
    refine ⟨_, hb.zips, ⟨by simp, hb.loads, hb.contents, ?_, ?_⟩, hb.abs⟩
    · rw [hb.ret, Zipper.head?_prev, Zipper.seq_older, Zipper.place_extend]
    · rw [Zipper.place_older, Zipper.seq_older, Zipper.place_extend]
  | next =>
    refine (get_next_command_ends z hl).mono (fun _ he => he) fun r h' hb => ?_
    obtain ⟨hl', hs, hr⟩ := hb
    refine ⟨_, hl', ⟨Zipper.seq_newer, hs.contents, ?_, Zipper.place_newer⟩, ?_⟩
    · rw [hr, Zipper.head?_next]
      split_ifs <;> rfl
    · rw [hr]
      obtain ⟨n, c, p, hnil⟩ := z
      unfold NavOp.model History.get_next_command Links.abs
      rw [hs.map_content, hs.file]
      cases n <;> cases c <;> rfl
  | reset =>
    refine (reset_command_position_ends hl).seq fun _ h' hb => ?_
    refine ends_pure.mpr ⟨z.reset, hb.1, ⟨Zipper.seq_reset, hb.2.contents, rfl, rfl⟩, ?_⟩
    show some ((h.abs z).reset_command_position, none) = _
    rw [abs_reset]
    unfold Links.abs
    rw [hb.2.map_content, hb.2.file]
  | log buf =>
    refine (log_command_ends hl buf).seq fun _ h' hb => ?_
    obtain ⟨z', hb⟩ := hb
    refine ends_pure.mpr ⟨z', hb.zips, ⟨?_, rfl, ?_⟩, ?_⟩
    · rcases hb.change with ⟨rfl, hc⟩ | ⟨rfl, hc⟩
      · exact .inl ⟨Zipper.seq_reset, hc⟩
      · exact .inr ⟨Zipper.seq_push _, hc⟩
    · rcases hb.change with ⟨rfl, -⟩ | ⟨rfl, -⟩ <;> rfl
    · unfold NavOp.model
      rw [hb.abs]

/-- The operation returns unless it hangs. -/
lemma NavOp.model_isSome_iff (hl : Zips h z) (hp : Placed (h.abs z)) (hfuel : op.HasFuel) :
    (op.model (h.abs z)).isSome ↔ ¬ op.Hangs h := by
  cases op with
  | prev fuel =>
    show ((h.abs z).get_prev_command load fuel).isSome ↔ ¬ h.Stuck
    rw [hl.stuck_iff]
    exact recall_isSome_iff hp hfuel
  | next | reset | log => exact ⟨fun _ => id, fun _ => rfl⟩

/-- The position stays inside the file. -/
lemma NavOp.model_placed {h h' : History HistFile} {r : Option Str} (hp : Placed h)
    (hmodel : op.model h = some (h', r)) : Placed h' := by
  cases op with
  | prev fuel => exact get_prev_command_placed fuel hp hmodel
  | next =>
    obtain ⟨rfl, -⟩ := Prod.mk.inj (Option.some.inj hmodel)
    split
    · exact hp
    · exact hp
  | reset =>
    cases hmodel
    exact hp
  | log buf =>
    cases hmodel
    exact log_command_placed hp buf

/-- **One call.** It returns, and does what it should, where it is not stuck, and only there. -/
theorem NavOp.does_iff (hl : Zips h z) (hp : Placed (h.abs z)) (hfuel : op.HasFuel) :
    op.Does h z ↔ ¬ op.Hangs h := by
  rw [← model_isSome_iff hl hp hfuel]
  constructor
  · intro hdoes
    obtain ⟨r, h', -, z', -, -, hmodel⟩ := Ends.returns hdoes fun _ => id
    rw [hmodel]
    rfl
  · intro hsome
    refine (op.run_ends hl).mono (fun _ hnone => ?_) fun r h' hb => ?_
    · rw [hnone] at hsome
      cases hsome
    · obtain ⟨z', hl', hmoves, hmodel⟩ := hb
      exact ⟨z', hl'.kept, hmoves, hmodel⟩

end

/-! ## Any calls -/

/-- The lists of a shell that has just been started. -/
lemma init_history_ends {E : LinkError → Prop} (data : List UInt8) (h₀ : Links) :
    Ends E (Links.init_history data) (fun _ h => ∃ z, Zips h z ∧ h.abs z = Sh.init_history data) h₀ := by
  let h₁ : Links := { file := ⟨⟨data, 0⟩, data.length, false⟩, heap := [], prev_end := none, prev := none,
                      curr := none, next := none }
  have hl₁ : Linked h₁ [] none [] := ⟨rfl, rfl, rfl, .refl _, nofun⟩
  refine ends_bind.mpr (ends_set.mpr ((load_history_ends hl₁).mono (fun _ he => he) ?_))
  intro _ h hb
  obtain ⟨hl, hcontents, hfile⟩ := hb
  refine ⟨⟨[], none, _, fun _ => rfl⟩, hl, ?_⟩
  have hmap := map_content_new hcontents
  unfold Links.abs Sh.init_history
  dsimp only
  rw [hfile, List.nil_append, hmap]
  rfl

/-- Calls that are made where they return leave a zipper. -/
lemma NavOp.runAll_ends (ops : List NavOp) : ∀ {h : Links} {z : Zipper ℕ}, Zips h z →
    Placed (h.abs z) → NavOp.AllReturn ops h →
    Ends (fun _ => False) (NavOp.runAll ops) (fun _ h' => ∃ z', Zips h' z' ∧ Placed (h'.abs z')) h := by
  induction ops with
  | nil => exact fun {h z} hl hp _ => ⟨z, hl, hp⟩
  | cons op ops ih =>
    intro h z hl hp hall
    obtain ⟨hfuel, hhangs, hrest⟩ := hall
    refine (((does_iff hl hp hfuel).mpr hhangs).and hrest).seq fun r h' hb => ?_
    obtain ⟨⟨z', hkept, -, hmodel⟩, hrest⟩ := hb
    exact ih hkept.zips (model_placed hp hmodel) hrest

/-- **The history is a zipper.** After any calls that are made where they return, the lists are a zipper
of all nodes, and a further call goes through it as the zipper says if and only if it is not a
`get_prev_command` that is stuck. -/
theorem history_is_zipper (data : List UInt8) (ops : List NavOp) (h₀ : Links)
    (hops : Ends (fun _ => True) (Links.init_history data) (fun _ => NavOp.AllReturn ops) h₀) :
    Ends (fun _ => False) (do
      Links.init_history data
      NavOp.runAll ops)
      (fun _ h => ∃ z, Kept h z ∧ ∀ op : NavOp, op.HasFuel → (op.Does h z ↔ ¬ op.Hangs h)) h₀ := by
  refine ((init_history_ends data h₀).and hops).seq fun _ h₁ hb => ?_
  obtain ⟨⟨z₁, hl₁, habs⟩, hall⟩ := hb
  have hp₁ : Placed (h₁.abs z₁) := habs ▸ placed_init data
  refine (NavOp.runAll_ends ops hl₁ hp₁ hall).mono (fun _ he => he) fun _ h hb => ?_
  obtain ⟨z, hl, hp⟩ := hb
  exact ⟨z, hl.kept, fun op hfuel => NavOp.does_iff hl hp hfuel⟩

instance (h : Links) : Decidable h.Stuck :=
  decidable_of_iff (h.prev = none ∧ h.file.topped = false ∧ DEFAULT_LOAD < h.file.pos ∧
      ∀ i, i < DEFAULT_LOAD - 1 → 1 ≤ i →
        h.file.file.data.getD (h.file.pos - DEFAULT_LOAD + i) 0 ≠ chr '\n')
    ⟨fun hs => ⟨hs.1, hs.2.1, hs.2.2.1, fun i hi hlt => hs.2.2.2 i hlt hi⟩,
      fun hs => ⟨hs.prev, hs.topped, hs.far, fun i hlt hi => hs.newline i hi hlt⟩⟩

instance : ∀ (op : NavOp) (h : Links), Decidable (op.Hangs h)
  | .prev _, h => inferInstanceAs (Decidable h.Stuck)
  | .next, _ | .reset, _ | .log _, _ => isFalse id

instance : DecidablePred NavOp.HasFuel
  | .prev fuel => inferInstanceAs (Decidable (2 ≤ fuel))
  | .next | .reset | .log _ => isTrue trivial

instance decidableAllReturn : ∀ (ops : List NavOp) (h : Links), Decidable (NavOp.AllReturn ops h)
  | [], _ => isTrue trivial
  | op :: ops, h =>
    have _ : DecidablePred (NavOp.AllReturn ops) := decidableAllReturn ops
    have : Decidable (Ends (fun _ => True) op.run (fun _ => NavOp.AllReturn ops) h) :=
      decidableEnds (E := fun _ => True) (Q := fun _ => NavOp.AllReturn ops) op.run h
    inferInstanceAs (Decidable (op.HasFuel ∧ ¬ op.Hangs h ∧ _))

/-- The struct `history` before the shell has set it. -/
def Links.zero : Links := ⟨⟨⟨[], 0⟩, 0, false⟩, [], none, none, none, none⟩

/-- There and back among three lines, of which two have to be loaded, and a new one. -/
def browse : List NavOp :=
  [.prev 2, .prev 2, .next, .prev 2, .prev 2, .prev 2, .reset, .log [chr 'd', chr '\n'], .prev 2, .next]

theorem history_is_zipper_browse : ∃ h,
    (do
      Links.init_history threeLines
      NavOp.runAll browse : Linking Unit).run Links.zero = .ok ((), h) ∧
    ∃ z, Kept h z ∧ ∀ op : NavOp, op.HasFuel → (op.Does h z ↔ ¬ op.Hangs h) := by
  obtain ⟨_, h, hrun, hz⟩ := Ends.returns
    (history_is_zipper threeLines browse Links.zero (by decide +kernel)) fun _ => id
  exact ⟨h, hrun, hz⟩

/-- With a line of 300 bytes the first `get_prev_command` does not return, however long it runs. -/
theorem not_history_is_zipper_longLine : ¬ ∀ data : List UInt8, ∃ fuel h,
    (do
      Links.init_history data
      NavOp.runAll [.prev fuel] : Linking Unit).run Links.zero = .ok ((), h) := by
  intro hall
  obtain ⟨fuel, h, hrun⟩ := hall longLine
  have hends : Ends (fun _ => True) (do
      Links.init_history longLine
      NavOp.runAll [.prev fuel]) (fun _ _ => False) Links.zero := by
    refine (init_history_ends longLine Links.zero).seq fun _ h₁ hb => ?_
    obtain ⟨z, hl, habs⟩ := hb
    refine ((NavOp.run_ends (.prev fuel) hl).mono (fun _ _ => trivial) fun _ _ hb => hb).seq
      fun r h' hb => ?_
    obtain ⟨z', -, -, hmodel⟩ := hb
    have hnone : (NavOp.prev fuel).model (h₁.abs z) = none := by
      rw [habs]
      exact get_prev_command_stuck fuel (placed_init longLine) stuck_longLine
    rw [hnone] at hmodel
    cases hmodel
  exact hends.of_ok hrun

end Sh
end OhMyXv6
