import Mathlib.Data.List.GetD
import OhMyXv6.Lib.Chain
import OhMyXv6.Lib.Zipper
import OhMyXv6.Shell.Links

/-!
# The history is a zipper

The three lists are the parts of a zipper of nodes. The functions of the history keep it so: none of them
follows a null pointer, no node is lost or in two places, and they go through the zipper as they should.
-/

namespace OhMyXv6
namespace Sh

open Console Fallible

namespace Links

/-- The node behind a node. -/
def link (h : Links) (a : ℕ) : Option ℕ := h.heap[a]?.bind Command.next

/-- The content of the nodes, in the order of their allocation. -/
def contents (h : Links) : List Str := h.heap.map Command.content

/-- The content of a node. -/
def content (h : Links) (a : ℕ) : Str := h.contents.getD a []

/-- `h.heap[a].next = v`. -/
def setLink (h : Links) (a : ℕ) (v : Option ℕ) : Links :=
  { h with heap := h.heap.modify a fun com => { com with next := v } }

/-- The lists that begin at the three pointers, and the last node of all. Each node is at one place of
them. -/
structure Linked (h : Links) (n : List ℕ) (c : Option ℕ) (p : List ℕ) : Prop where
  next : Chain h.link h.next n
  curr : Chain h.link h.curr c.toList
  prev : Chain h.link h.prev p
  nodes : (n.reverse ++ c.toList ++ p).Perm (List.range h.heap.length)
  prev_end : ∀ a ∈ (n.reverse ++ c.toList ++ p).getLast?, h.prev_end = some a

/-! ## The nodes -/

section
variable {h : Links} {a b : ℕ} {v : Option ℕ}

@[simp] lemma length_setLink : (h.setLink a v).heap.length = h.heap.length :=
  List.length_modify _ _ _

@[simp] lemma contents_setLink : (h.setLink a v).contents = h.contents := by
  refine List.ext_getElem? fun i => ?_
  simp only [contents, setLink, List.getElem?_map, List.getElem?_modify]
  split
  · cases h.heap[i]? <;> rfl
  · simp

lemma link_setLink (ha : a < h.heap.length) :
    (h.setLink a v).link = Function.update h.link a v := by
  funext b
  unfold link setLink
  by_cases hb : b = a
  · subst hb
    rw [Function.update_self]
    simp [ha]
  · rw [Function.update_of_ne hb]
    have hne : a ≠ b := fun heq => hb heq.symm
    simp [hne]

lemma link_setLink_of_ne (ha : a < h.heap.length) (hb : b ≠ a) :
    (h.setLink a v).link b = h.link b := by
  rw [link_setLink ha, Function.update_of_ne hb]

lemma link_setLink_self (ha : a < h.heap.length) : (h.setLink a v).link a = v := by
  rw [link_setLink ha, Function.update_self]

lemma ends_set {E : LinkError → Prop} {Q : PUnit → Links → Prop} {h' : Links} :
    Ends E (set h' : Linking PUnit) Q h ↔ Q ⟨⟩ h' := Iff.rfl

/-- A link is set through a pointer. -/
lemma ends_setNext {E : LinkError → Prop} {Q : PUnit → Links → Prop} (ha : a < h.heap.length)
    (hQ : Q ⟨⟩ (h.setLink a v)) : Ends E (setNext (some a) v) Q h := by
  have hrun : (setNext (some a) v).run h = .ok ((), h.setLink a v) := by
    unfold setNext setLink
    simp only [StateT.run, if_pos ha]
  unfold Fallible.Ends
  rw [hrun]
  exact hQ

/-- A command is read through a pointer. -/
lemma ends_deref {E : LinkError → Prop} {Q : Command → Links → Prop} (ha : a < h.heap.length)
    (hQ : ∀ com : Command, com.next = h.link a → com.content = h.content a → Q com h) :
    Ends E (deref (some a)) Q h := by
  have hrun : (deref (some a)).run h = .ok (h.heap[a], h) := by
    unfold deref
    simp only [StateT.run, Option.bind_some, List.getElem?_eq_getElem ha]
  unfold Fallible.Ends
  rw [hrun]
  refine hQ _ ?_ ?_
  · simp [link, ha]
  · simp [content, contents, ha]

end

/-! ## Moving a node -/

section
variable {h h' : Links} {n p l : List ℕ} {c : Option ℕ} {a : ℕ}

/-- Every command of the list is in the heap. -/
lemma Linked.lt (hl : Linked h n c p) (ha : a ∈ n.reverse ++ c.toList ++ p) : a < h.heap.length :=
  List.mem_range.mp (hl.nodes.mem_iff.mp ha)

lemma Linked.nodup (hl : Linked h n c p) : (n.reverse ++ c.toList ++ p).Nodup :=
  hl.nodes.nodup_iff.mpr List.nodup_range

lemma not_mem_of_nodup {m : List ℕ} (hl : (l ++ a :: m).Nodup) : a ∉ l ∧ a ∉ m := by
  rw [List.nodup_middle, List.nodup_cons, List.mem_append, not_or] at hl
  exact hl.1

/-- The newest command is in one place. -/
lemma Linked.not_mem_next (hl : Linked h (a :: n) c p) : a ∉ n ∧ a ∉ c.toList ++ p := by
  have hmem := not_mem_of_nodup (l := n.reverse) (m := c.toList ++ p) (by simpa using hl.nodup)
  exact ⟨fun hn => hmem.1 (List.mem_reverse.mpr hn), hmem.2⟩

lemma Linked.not_mem_curr (hl : Linked h n (some a) p) : a ∉ n ∧ a ∉ p := by
  have hmem := not_mem_of_nodup (l := n.reverse) (m := p) (by simpa using hl.nodup)
  exact ⟨fun hn => hmem.1 (List.mem_reverse.mpr hn), hmem.2⟩

lemma Linked.not_mem_prev (hl : Linked h n c (a :: p)) : a ∉ c.toList ++ n ∧ a ∉ p := by
  have hmem := not_mem_of_nodup (l := n.reverse ++ c.toList) (m := p) (by simpa using hl.nodup)
  refine ⟨fun hn => hmem.1 ?_, hmem.2⟩
  simpa [or_comm] using hn

/-- A list that the node is not in does not see that the node gets another link. -/
theorem chain_setLink {q v : Option ℕ} (ha : a < h.heap.length) (hl : Chain h.link q l) (hmem : a ∉ l) :
    Chain (h.setLink a v).link q l :=
  hl.congr fun _ hb => link_setLink_of_ne ha (ne_of_mem_of_not_mem hb hmem)

/-- What the moves leave as it is. -/
structure Same (h h' : Links) : Prop where
  file : h'.file = h.file
  contents : h'.contents = h.contents
  prev_end : h'.prev_end = h.prev_end

lemma Same.length (hs : Same h h') : h'.heap.length = h.heap.length := by
  have hlen := congrArg List.length hs.contents
  simpa [Links.contents] using hlen

lemma Same.trans {h₁ h₂ h₃ : Links} (hs : Same h₁ h₂) (hs' : Same h₂ h₃) : Same h₁ h₃ :=
  ⟨hs'.file.trans hs.file, hs'.contents.trans hs.contents, hs'.prev_end.trans hs.prev_end⟩

/-- The nodes are in the same order as before. -/
lemma Linked.same {n' p' : List ℕ} {c' : Option ℕ} (hl : Linked h n c p) (hs : Same h h')
    (hseq : n'.reverse ++ c'.toList ++ p' = n.reverse ++ c.toList ++ p)
    (hn : Chain h'.link h'.next n') (hc : Chain h'.link h'.curr c'.toList)
    (hp : Chain h'.link h'.prev p') : Linked h' n' c' p' := by
  refine ⟨hn, hc, hp, ?_, ?_⟩
  · rw [hseq, hs.length]
    exact hl.nodes
  · rw [hseq, hs.prev_end]
    exact hl.prev_end

/-- The current node goes to the front of the older ones. -/
lemma putBack_ends {E : LinkError → Prop} (hl : Linked h n c p) :
    Ends E putBack (fun _ h' => Linked { h' with curr := none } n none (c.toList ++ p) ∧ Same h h' ∧
      h'.next = h.next ∧ Chain h'.link h'.next n) h := by
  refine ends_bind.mpr (ends_get.mpr ?_)
  cases c with
  | none =>
    rw [if_pos (show h.curr = none from hl.curr)]
    exact ⟨hl.same ⟨rfl, rfl, rfl⟩ rfl hl.next rfl hl.prev, ⟨rfl, rfl, rfl⟩, rfl, hl.next⟩
  | some a =>
    have ha : a < h.heap.length := hl.lt (by simp)
    rw [if_neg (by rw [hl.curr.1]; simp), hl.curr.1]
    refine ends_bind.mpr (ends_setNext ha (ends_modify.mpr ?_))
    have hmem := hl.not_mem_curr
    have hnext := chain_setLink (v := h.prev) ha hl.next hmem.1
    have hs : Same h { h.setLink a h.prev with prev := h.curr } :=
      ⟨rfl, contents_setLink, rfl⟩
    refine ⟨hl.same ⟨rfl, contents_setLink, rfl⟩ (by simp) hnext rfl ?_, hs, rfl, hnext⟩
    refine ⟨hl.curr.1, ?_⟩
    show Chain (h.setLink a h.prev).link ((h.setLink a h.prev).link a) p
    rw [link_setLink_self ha]
    exact chain_setLink ha hl.prev hmem.2

/-- There are no more newer commands than commands. -/
lemma Linked.length_le (hl : Linked h n c p) : n.length ≤ h.heap.length := by
  have hlen := hl.nodes.length_eq
  simp only [List.length_append, List.length_reverse, List.length_range] at hlen
  omega

/-- By induction on the list of the newer nodes. -/
lemma resetLoop_ends {E : LinkError → Prop} (n : List ℕ) : ∀ {h : Links} {p : List ℕ} {fuel : ℕ},
    Linked h n none p → n.length < fuel →
    Ends E (resetLoop fuel) (fun _ h' => Linked h' [] none (n.reverse ++ p) ∧ Same h h' ∧ h'.curr = none)
      h := by
  induction n with
  | nil =>
    intro h p fuel hl hfuel
    cases fuel with
    | zero => cases hfuel
    | succ fuel =>
      refine ends_bind.mpr (ends_get.mpr ?_)
      rw [if_pos (show h.next = none from hl.next)]
      exact ⟨hl, ⟨rfl, rfl, rfl⟩, hl.curr⟩
  | cons a n ih =>
    intro h p fuel hl hfuel
    cases fuel with
    | zero => cases hfuel
    | succ fuel =>
      have ha : a < h.heap.length := hl.lt (by simp)
      have hmem : a ∉ n ∧ a ∉ p := hl.not_mem_next
      refine ends_bind.mpr (ends_get.mpr ?_)
      rw [if_neg (by rw [hl.next.1]; simp), hl.next.1]
      refine ends_bind.mpr (ends_deref ha fun com hcom _ => ?_)
      let h₁ : Links := { h with next := com.next }
      refine ends_bind.mpr (ends_set.mpr ?_)
      refine ends_bind.mpr (ends_setNext (h := h₁) ha (ends_bind.mpr (ends_modify.mpr ?_)))
      -- the links after one turn: `a` has moved over
      let h₂ : Links := { h₁.setLink a h.prev with prev := some a }
      show Ends E (resetLoop fuel) _ h₂
      have hs : Same h h₂ := ⟨rfl, contents_setLink (h := h₁), rfl⟩
      have hl₂ : Linked h₂ n none (a :: p) := by
        refine hl.same hs (by simp) ?_ hl.curr ⟨rfl, ?_⟩
        · show Chain (h₁.setLink a h.prev).link com.next n
          rw [hcom]
          exact chain_setLink (h := h₁) ha hl.next.2 hmem.1
        · show Chain (h₁.setLink a h.prev).link ((h₁.setLink a h.prev).link a) p
          rw [link_setLink_self (h := h₁) ha]
          exact chain_setLink (h := h₁) ha hl.prev hmem.2
      refine (ih hl₂ (Nat.lt_of_succ_lt_succ hfuel)).mono (fun _ he => he) fun _ h' hh' => ?_
      refine ⟨?_, hs.trans hh'.2.1, hh'.2.2⟩
      simpa using hh'.1

/-- The position is before the newest command. -/
lemma reset_command_position_ends {E : LinkError → Prop} (hl : Linked h n c p) :
    Ends E reset_command_position (fun _ h' =>
      Linked h' [] none (n.reverse ++ c.toList ++ p) ∧ Same h h') h := by
  refine (putBack_ends hl).seq ?_
  intro _ h₁ hh₁
  obtain ⟨hl₁, hs₁, -, -⟩ := hh₁
  refine ends_bind.mpr (ends_modify.mpr (ends_bind.mpr (ends_get.mpr ?_)))
  refine (resetLoop_ends n hl₁ (Nat.lt_succ_of_le hl₁.length_le)).mono (fun _ he => he) ?_
  intro _ h₂ hh₂
  rw [List.append_assoc]
  exact ⟨hh₂.1, hs₁.trans ⟨hh₂.2.1.file, hh₂.2.1.contents, hh₂.2.1.prev_end⟩⟩

lemma get_next_command_ends {E : LinkError → Prop} (z : Zipper ℕ)
    (hl : Linked h z.next z.curr z.prev) :
    Ends E get_next_command (fun r h' =>
      Linked h' z.newer.next z.newer.curr z.newer.prev ∧ Same h h' ∧
        r = z.next.head?.map h.content) h := by
  obtain ⟨n, c, p, hnil⟩ := z
  dsimp only at hl
  refine ends_bind.mpr (ends_get.mpr ?_)
  cases n with
  | nil =>
    rw [if_pos (show h.next = none from hl.next)]
    refine (putBack_ends hl).seq ?_
    intro _ h₁ hh₁
    exact ⟨hh₁.1, ⟨hh₁.2.1.file, hh₁.2.1.contents, hh₁.2.1.prev_end⟩, rfl⟩
  | cons a n =>
    have ha : a < h.heap.length := hl.lt (by simp)
    rw [if_neg (by rw [hl.next.1]; simp), hl.next.1]
    refine (putBack_ends hl).seq ?_
    intro _ h₁ hh₁
    obtain ⟨hl₁, hs₁, hnext₁, hchain₁⟩ := hh₁
    have ha₁ : a < h₁.heap.length := hs₁.length ▸ ha
    have hmem := hl.not_mem_next
    refine ends_bind.mpr (ends_deref ha₁ fun com hcom hcontent => ?_)
    refine ends_bind.mpr (ends_modify.mpr ?_)
    let h₂ : Links := { h₁ with curr := some a, next := com.next }
    refine ends_bind.mpr (ends_setNext (h := h₂) ha₁ ?_)
    have hs : Same h (h₂.setLink a none) :=
      hs₁.trans ⟨rfl, contents_setLink (h := h₂), rfl⟩
    refine ⟨hl.same hs (by simp [Zipper.newer]) ?_ ?_ ?_, hs, ?_⟩
    · show Chain (h₂.setLink a none).link com.next n
      rw [hcom]
      exact chain_setLink (h := h₂) ha₁ hchain₁.2 hmem.1
    · exact ⟨rfl, link_setLink_self (h := h₂) ha₁⟩
    · exact chain_setLink (h := h₂) ha₁ hl₁.prev hmem.2
    · rw [hcontent]
      show some (h₁.contents.getD a []) = _
      rw [hs₁.contents]
      rfl

/-! ## New nodes -/

/-- One more node, that is not in a list yet. -/
def grow (h : Links) (s : Str) : Links := { h with heap := h.heap ++ [⟨none, s⟩] }

@[simp] lemma length_grow {s : Str} : (h.grow s).heap.length = h.heap.length + 1 := by
  simp [grow]

@[simp] lemma contents_grow {s : Str} : (h.grow s).contents = h.contents ++ [s] := by
  simp [grow, contents]

/-- A new command leaves the links. -/
lemma link_grow {s : Str} (ha : a < h.heap.length) : (h.grow s).link a = h.link a := by
  simp [grow, link, List.getElem?_append_left ha]

lemma link_grow_self {s : Str} : (h.grow s).link h.heap.length = none := by
  simp [grow, link]

lemma ends_newCommand {E : LinkError → Prop} {Q : ℕ → Links → Prop} {s : Str} :
    Ends E (newCommand s) Q h ↔ Q h.heap.length (h.grow s) := Iff.rfl

lemma chain_grow {s : Str} {q : Option ℕ} (hl : Chain h.link q l) (hlt : ∀ b ∈ l, b < h.heap.length) :
    Chain (h.grow s).link q l :=
  hl.congr fun b hb => link_grow (hlt b hb)

/-- Every command is in the list, and the new one. -/
lemma perm_grow {s : Str} (hl : l.Perm (List.range h.heap.length)) :
    (l ++ [h.heap.length]).Perm (List.range (h.grow s).heap.length) := by
  rw [length_grow, List.range_succ]
  exact hl.append_right _

/-- `load_history_command` puts the new node behind the oldest. -/
lemma load_history_command_ends {E : LinkError → Prop} (s : Str) (hl : Linked h n c p) :
    Ends E (load_history_command s) (fun _ h' => Linked h' n c (p ++ [h.heap.length]) ∧
      h'.contents = h.contents ++ [s] ∧ h'.file = h.file) h := by
  have hlt : ∀ b ∈ n.reverse ++ c.toList ++ p, b < h.heap.length := fun b hb => hl.lt hb
  simp only [List.mem_append, List.mem_reverse] at hlt
  have hnext := chain_grow (s := s) hl.next fun b hb => hlt b (.inl (.inl hb))
  have hcurr := chain_grow (s := s) hl.curr fun b hb => hlt b (.inl (.inr hb))
  have hnodes : (n.reverse ++ c.toList ++ (p ++ [h.heap.length])).Perm
      (List.range (h.grow s).heap.length) := by
    rw [← List.append_assoc]
    exact perm_grow hl.nodes
  have hend : ∀ b ∈ (n.reverse ++ c.toList ++ (p ++ [h.heap.length])).getLast?,
      some h.heap.length = some b := by
    intro b hb
    rw [← List.append_assoc, List.getLast?_concat] at hb
    exact hb
  refine ends_bind.mpr (ends_newCommand.mpr (ends_bind.mpr (ends_get.mpr ?_)))
  rcases List.eq_nil_or_concat p with rfl | ⟨l, e, rfl⟩
  -- the first older command: `prev` itself points to it
  · rw [if_pos (show (h.grow s).prev = none from hl.prev)]
    refine ends_set.mpr ⟨⟨hnext, hcurr, ⟨rfl, link_grow_self⟩, hnodes, hend⟩, contents_grow, rfl⟩
  -- otherwise the last of the list, which `prev_end` names, gets it as successor
  · rw [List.concat_eq_append] at *
    have he : e < h.heap.length := hlt e (.inr (by simp))
    have hprev : h.prev ≠ none := by
      intro hnone
      have hnil := (hnone ▸ hl.prev).eq_nil
      simp at hnil
    have hprev_end : h.prev_end = some e := hl.prev_end e (by
      rw [← List.append_assoc, List.getLast?_concat]
      rfl)
    have hmem : e ∉ n ∧ e ∉ c.toList ∧ e ∉ l := by
      have hnodup := hl.nodup
      rw [← List.append_assoc] at hnodup
      have hmem := (not_mem_of_nodup (l := n.reverse ++ c.toList ++ l) (m := []) hnodup).1
      simp only [List.mem_append, List.mem_reverse, not_or] at hmem
      exact ⟨hmem.1.1, hmem.1.2, hmem.2⟩
    have hlen : e < (h.grow s).heap.length := by
      rw [length_grow]
      omega
    rw [if_neg (show (h.grow s).prev ≠ none from hprev), show (h.grow s).prev_end = some e from hprev_end]
    refine ends_bind.mpr (ends_setNext hlen (ends_modify.mpr ?_))
    have hself : ((h.grow s).setLink e (some h.heap.length)).link h.heap.length = none := by
      rw [link_setLink_of_ne hlen (by omega), link_grow_self]
    refine ⟨⟨chain_setLink hlen hnext hmem.1, chain_setLink hlen hcurr hmem.2.1, ?_, ?_, hend⟩,
      contents_setLink.trans contents_grow, rfl⟩
    · rw [List.append_assoc]
      refine hl.prev.append (fun b hb => ?_) ⟨link_setLink_self hlen, hself⟩
      show ((h.grow s).setLink e (some h.heap.length)).link b = h.link b
      rw [link_setLink_of_ne hlen (ne_of_mem_of_not_mem hb hmem.2.2),
        link_grow (hlt b (.inr (List.mem_append_left _ hb)))]
    · show List.Perm _ (List.range ((h.grow s).setLink e (some h.heap.length)).heap.length)
      rw [length_setLink]
      exact hnodes

/-- By induction on the commands of the chunk. -/
lemma loadCommands_ends {E : LinkError → Prop} (coms : List Str) : ∀ {h : Links} {p : List ℕ},
    Linked h n c p → Ends E (loadCommands coms) (fun _ h' =>
      Linked h' n c (p ++ List.range' h.heap.length coms.length) ∧
        h'.contents = h.contents ++ coms ∧ h'.file = h.file) h := by
  induction coms with
  | nil =>
    intro h p hl
    exact ⟨by simpa using hl, by simp, rfl⟩
  | cons s coms ih =>
    intro h p hl
    refine (load_history_command_ends s hl).seq ?_
    intro _ h₁ hh₁
    obtain ⟨hl₁, hcontents₁, hfile₁⟩ := hh₁
    have hlen : h₁.heap.length = h.heap.length + 1 := by
      have hlen := congrArg List.length hcontents₁
      simpa [contents] using hlen
    refine (ih hl₁).mono (fun _ he => he) fun _ h₂ hh₂ => ?_
    obtain ⟨hl₂, hcontents₂, hfile₂⟩ := hh₂
    refine ⟨?_, ?_, hfile₂.trans hfile₁⟩
    · rw [hlen, List.append_assoc] at hl₂
      exact hl₂
    · rw [hcontents₂, hcontents₁, List.append_assoc]
      rfl

/-- The commands of a chunk are the oldest. -/
lemma load_history_ends {E : LinkError → Prop} (hl : Linked h n c p) :
    Ends E load_history (fun _ h' =>
      Linked h' n c (p ++ List.range' h.heap.length (Sh.load_history h.file).2.length) ∧
        h'.contents = h.contents ++ (Sh.load_history h.file).2 ∧
        h'.file = (Sh.load_history h.file).1) h := by
  let h₁ : Links := { h with file := (Sh.load_history h.file).1 }
  have hl₁ : Linked h₁ n c p := ⟨hl.next, hl.curr, hl.prev, hl.nodes, hl.prev_end⟩
  exact ends_bind.mpr (ends_get.mpr (ends_bind.mpr (ends_set.mpr (loadCommands_ends _ hl₁))))

/-! ## The commands of the lists -/

/-- The history that the lists stand for. -/
def abs (h : Links) (z : Zipper ℕ) : History HistFile :=
  ⟨h.file, z.prev.map h.content, z.curr.map h.content, z.next.map h.content⟩

/-- The lists are the parts of the zipper. -/
abbrev Zips (h : Links) (z : Zipper ℕ) : Prop := Linked h z.next z.curr z.prev

/-- The old commands keep their text. -/
lemma content_of_append {coms : List Str} (hcontents : h'.contents = h.contents ++ coms)
    (ha : a < h.heap.length) : h'.content a = h.content a := by
  unfold content
  rw [hcontents, List.getD_append _ _ _ _ (by simpa [contents] using ha)]

lemma map_content_new {coms : List Str} (hcontents : h'.contents = h.contents ++ coms) :
    (List.range' h.heap.length coms.length).map h'.content = coms := by
  refine List.ext_getElem (by simp) fun i hi hi' => ?_
  have hlen : h.contents.length = h.heap.length := by simp [contents]
  simp only [List.getElem_map, List.getElem_range', content, hcontents, Nat.one_mul]
  rw [List.getD_append_right _ _ _ _ (by omega), hlen, Nat.add_sub_cancel_left,
    List.getD_eq_getElem _ _ hi']

lemma Linked.map_content {coms : List Str} (hl : Linked h n c p)
    (hcontents : h'.contents = h.contents ++ coms) :
    n.map h'.content = n.map h.content ∧ c.map h'.content = c.map h.content ∧
      p.map h'.content = p.map h.content := by
  have hlt : ∀ b ∈ n.reverse ++ c.toList ++ p, h'.content b = h.content b :=
    fun b hb => content_of_append hcontents (hl.lt hb)
  simp only [List.mem_append, List.mem_reverse, Option.mem_toList] at hlt
  refine ⟨List.map_congr_left fun b hb => hlt b (.inl (.inl hb)), ?_,
    List.map_congr_left fun b hb => hlt b (.inr hb)⟩
  cases c with
  | none => rfl
  | some b => exact congrArg some (hlt b (.inl (.inr rfl)))

/-- The current node goes to the front of the newer ones; it is still the current one. -/
theorem putAhead_ends {E : LinkError → Prop} {q : List ℕ} (hl : Linked h n c (a :: q)) :
    Ends E putAhead (fun _ h' => Same h h' ∧ Chain h'.link h'.next (c.toList ++ n) ∧
      Chain h'.link h'.prev (a :: q)) h := by
  refine ends_bind.mpr (ends_get.mpr ?_)
  cases c with
  | none =>
    rw [if_pos (show h.curr = none from hl.curr)]
    exact ⟨⟨rfl, rfl, rfl⟩, hl.next, hl.prev⟩
  | some b =>
    have hb : b < h.heap.length := hl.lt (by simp)
    have hmem := hl.not_mem_curr
    rw [if_neg (by rw [hl.curr.1]; simp), hl.curr.1]
    refine ends_bind.mpr (ends_setNext hb (ends_modify.mpr ?_))
    refine ⟨⟨rfl, contents_setLink, rfl⟩, ⟨hl.curr.1, ?_⟩, chain_setLink hb hl.prev hmem.2⟩
    show Chain (h.setLink b h.next).link ((h.setLink b h.next).link b) n
    rw [link_setLink_self hb]
    exact chain_setLink hb hl.next hmem.1

/-- One command back, when there is one in the list. -/
lemma get_prev_command_cons {E : LinkError → Prop} {z : Zipper ℕ} (hl : Zips h z) (fuel : ℕ)
    {q : List ℕ} (hprev : z.prev = a :: q) :
    Ends E (get_prev_command (fuel + 1)) (fun r h' =>
      Zips h' z.older ∧ Same h h' ∧ r = some (h.content a)) h := by
  obtain ⟨n, c, prev, hnil⟩ := z
  dsimp only at hprev
  subst hprev
  have hl : Linked h n c (a :: q) := hl
  have ha : a < h.heap.length := hl.lt (by simp)
  have hmem := hl.not_mem_prev
  refine ends_bind.mpr (ends_get.mpr ?_)
  rw [if_neg (by rw [hl.prev.1]; simp)]
  refine (putAhead_ends hl).seq ?_
  intro _ h₁ hh₁
  obtain ⟨hs₁, hnext₁, hchain₁⟩ := hh₁
  have ha₁ : a < h₁.heap.length := hs₁.length ▸ ha
  rw [hl.prev.1]
  refine ends_bind.mpr (ends_deref ha₁ fun com hcom hcontent => ends_bind.mpr (ends_modify.mpr ?_))
  let h₂ : Links := { h₁ with curr := some a, prev := com.next }
  refine ends_bind.mpr (ends_setNext (h := h₂) ha₁ ?_)
  have hs : Same h (h₂.setLink a none) := hs₁.trans ⟨rfl, contents_setLink (h := h₂), rfl⟩
  refine ⟨hl.same hs (by simp [Zipper.older]) ?_ ⟨rfl, link_setLink_self (h := h₂) ha₁⟩ ?_, hs, ?_⟩
  · exact chain_setLink (h := h₂) ha₁ hnext₁ hmem.1
  · show Chain (h₂.setLink a none).link com.next q
    rw [hcom]
    exact chain_setLink (h := h₂) ha₁ hchain₁.2 hmem.2
  · rw [hcontent]
    show some (h₁.contents.getD a []) = _
    rw [hs₁.contents]
    rfl

/-- The nodes that have been loaded between the two states. -/
def loaded (h h' : Links) : List ℕ :=
  List.range' h.heap.length (h'.heap.length - h.heap.length)

lemma loaded_eq {coms : List Str} (hcontents : h'.contents = h.contents ++ coms) :
    loaded h h' = List.range' h.heap.length coms.length := by
  have hlen := congrArg List.length hcontents
  simp only [contents, List.length_map, List.length_append] at hlen
  rw [loaded, hlen, Nat.add_sub_cancel_left]

lemma Same.loaded (hs : Same h h') : loaded h h' = [] := by
  rw [Links.loaded, hs.length, Nat.sub_self]
  rfl

lemma Same.map_content (hs : Same h h') : h'.content = h.content := by
  funext a
  unfold content
  rw [hs.contents]

/-- What `get_prev_command` does: it loads commands if there are none left, and goes to the next of them. It
is what the history of commands does. -/
structure GoesBack (h : Links) (z : Zipper ℕ) (fuel : ℕ) (r : Option Str) (h' : Links) : Prop where
  zips : Zips h' (z.extend (loaded h h')).older
  contents : h.contents <+: h'.contents
  loads : z.prev ≠ [] → loaded h h' = []
  ret : r = (z.extend (loaded h h')).prev.head?.map h'.content
  abs : History.get_prev_command load fuel (h.abs z) =
    some (h'.abs (z.extend (loaded h h')).older, r)

lemma loaded_append {h₁ h₂ : Links} (h₁₂ : h.contents <+: h₁.contents)
    (h₂₃ : h₁.contents <+: h₂.contents) : loaded h h₁ ++ loaded h₁ h₂ = loaded h h₂ := by
  have hle := h₁₂.length_le
  have hle' := h₂₃.length_le
  simp only [Links.contents, List.length_map] at hle hle'
  have happ := List.range'_append_1 (s := h.heap.length) (m := h₁.heap.length - h.heap.length)
    (n := h₂.heap.length - h₁.heap.length)
  rw [show h.heap.length + (h₁.heap.length - h.heap.length) = h₁.heap.length by omega,
    show h₁.heap.length - h.heap.length + (h₂.heap.length - h₁.heap.length) =
      h₂.heap.length - h.heap.length by omega] at happ
  exact happ

/-- It only fails to return where the history of commands does not return either. -/
theorem get_prev_command_ends (fuel : ℕ) : ∀ {h : Links} {z : Zipper ℕ}, Zips h z →
    Ends (fun e => e = .fuel ∧ History.get_prev_command load fuel (h.abs z) = none)
      (get_prev_command fuel) (GoesBack h z fuel) h := by
  induction fuel with
  | zero => exact fun _ => ends_throw.mpr ⟨rfl, rfl⟩
  | succ fuel ih =>
    intro h z hl
    -- either an older command is in the list, or the file is asked
    cases hprev : z.prev with
    | cons a q =>
      refine (get_prev_command_cons hl fuel hprev).mono (fun _ he => he) fun r h' hh' => ?_
      obtain ⟨hl', hs, hr⟩ := hh'
      have holder : z.extend (loaded h h') = z := by rw [hs.loaded, Zipper.extend_nil]
      refine ⟨by rw [holder]; exact hl', hs.contents ▸ List.prefix_refl _, fun _ => hs.loaded, ?_, ?_⟩
      · rw [holder, hprev, hs.map_content]
        exact hr
      · rw [holder, hr]
        obtain ⟨n, c, prev, hnil⟩ := z
        dsimp only at hprev
        subst hprev
        unfold Links.abs
        rw [hs.map_content, hs.file]
        cases c <;> rfl
    | nil =>
      have hnone : h.prev = none := (hprev ▸ hl.prev : Chain h.link h.prev [])
      refine ends_bind.mpr (ends_get.mpr ?_)
      rw [if_pos hnone]
      -- at the top there is nothing to load; else a chunk, and again
      by_cases htop : h.file.topped = true
      · rw [if_pos htop]
        have hloaded : loaded h h = [] := Same.loaded ⟨rfl, rfl, rfl⟩
        have hz : (z.extend (loaded h h)).older = z := by
          rw [hloaded, Zipper.extend_nil, Zipper.older, hprev]
        refine ends_pure.mpr ⟨by rw [hz]; exact hl, List.prefix_refl _, fun _ => hloaded, ?_, ?_⟩
        · rw [hloaded, Zipper.extend_nil, hprev]
          rfl
        · rw [hz]
          unfold History.get_prev_command
          rw [show (h.abs z).prev = [] by simp [Links.abs, hprev]]
          dsimp only
          rw [load, if_pos (show (h.abs z).file.topped = true from htop)]
      · rw [if_neg htop]
        refine (load_history_ends hl).seq ?_
        intro _ h₁ hh₁
        obtain ⟨hl₁, hcontents₁, hfile₁⟩ := hh₁
        have hloaded₁ := loaded_eq hcontents₁
        rw [← hloaded₁] at hl₁
        obtain ⟨hn, hc, -⟩ := Linked.map_content hl hcontents₁
        have habs : h₁.abs (z.extend (loaded h h₁)) =
            { h.abs z with file := (Sh.load_history h.file).1, prev := (Sh.load_history h.file).2 } := by
          unfold Links.abs
          dsimp only [Zipper.extend]
          rw [hprev, List.nil_append, hn, hc, hfile₁, hloaded₁, map_content_new hcontents₁]
        have hmodel : History.get_prev_command load (fuel + 1) (h.abs z) =
            History.get_prev_command load fuel (h₁.abs (z.extend (loaded h h₁))) := by
          rw [habs]
          conv_lhs => unfold History.get_prev_command
          rw [show (h.abs z).prev = [] by simp [Links.abs, hprev]]
          dsimp only
          rw [load, if_neg (show ¬ (h.abs z).file.topped = true from htop)]
          rfl
        refine (ih (z := z.extend (loaded h h₁)) hl₁).mono (fun _ he => ⟨he.1, hmodel.trans he.2⟩)
          fun r h' hh' => ?_
        have hpre : h.contents <+: h₁.contents := hcontents₁ ▸ List.prefix_append _ _
        -- what this load and the later ones have added
        have hall : z.extend (loaded h h') = (z.extend (loaded h h₁)).extend (loaded h₁ h') := by
          rw [Zipper.extend_extend, loaded_append hpre hh'.contents]
        refine ⟨hall ▸ hh'.zips, hpre.trans hh'.contents, fun hne => (hne hprev).elim,
          hall ▸ hh'.ret, ?_⟩
        rw [hall, hmodel, hh'.abs]

lemma abs_reset (z : Zipper ℕ) : (h.abs z).reset_command_position = h.abs z.reset := by
  unfold History.reset_command_position Links.abs Zipper.reset Zipper.seq
  cases hc : z.curr <;> simp

/-- The text of the next older command. -/
lemma prevContent_ends {E : LinkError → Prop} (hl : Linked h n c p) :
    Ends E prevContent (fun r h' => r = p.head?.map h.content ∧ h' = h) h := by
  refine ends_bind.mpr (ends_get.mpr ?_)
  cases p with
  | nil =>
    rw [if_pos (show h.prev = none from hl.prev)]
    exact ⟨rfl, rfl⟩
  | cons a q =>
    rw [if_neg (by rw [hl.prev.1]; simp), hl.prev.1]
    refine ends_bind.mpr (ends_deref (hl.lt (by simp)) fun com _ hcontent => ?_)
    exact ⟨congrArg some hcontent, rfl⟩

/-- What `log_command` does: it goes to the front of the list, and adds the new command if it is not the
newest already. -/
structure Logs (h : Links) (z : Zipper ℕ) (buf : Str) (h' : Links) (z' : Zipper ℕ) : Prop where
  zips : Zips h' z'
  change : z' = z.reset ∧ h'.contents = h.contents ∨
    z' = z.push h.heap.length ∧ h'.contents = h.contents ++ [buf.dropLast]
  abs : h'.abs z' = Sh.log_command buf (h.abs z)

/-- The new node goes to the front of the list. -/
lemma pushNew_ends {E : LinkError → Prop} {l : List ℕ} {content : Str} (hl : Linked h [] none l) :
    Ends E (do
      let com ← newCommand content
      let h ← get
      if h.prev = none then
        setNext (some com) none
        modify fun h => { h with prev := some com, prev_end := some com }
      else
        setNext (some com) h.prev
        modify fun h => { h with prev := some com })
      (fun _ h' => Linked h' [] none (h.heap.length :: l) ∧ h'.contents = h.contents ++ [content] ∧
        h'.file = h.file) h := by
  have hlt : ∀ b ∈ l, b < h.heap.length := fun b hb => hl.lt (by simpa using hb)
  have hself : h.heap.length < (h.grow content).heap.length := by simp
  have hnot : h.heap.length ∉ l := fun hmem => Nat.lt_irrefl _ (hlt _ hmem)
  have hnodes : (h.heap.length :: l).Perm (List.range (h.grow content).heap.length) :=
    (List.perm_append_singleton _ _).symm.trans (perm_grow hl.nodes)
  have hchain : Chain (h.grow content).link h.prev l := chain_grow hl.prev hlt
  refine ends_bind.mpr (ends_newCommand.mpr (ends_bind.mpr (ends_get.mpr ?_)))
  cases l with
  | nil =>
    rw [if_pos (show (h.grow content).prev = none from hl.prev)]
    refine ends_bind.mpr (ends_setNext hself (ends_modify.mpr ?_))
    refine ⟨⟨hl.next, hl.curr, ⟨rfl, link_setLink_self hself⟩, ?_, fun b hb => hb⟩,
      contents_setLink.trans contents_grow, rfl⟩
    show List.Perm _ (List.range ((h.grow content).setLink _ _).heap.length)
    rw [length_setLink]
    exact hnodes
  | cons a l =>
    rw [if_neg (show (h.grow content).prev ≠ none by rw [show (h.grow content).prev = _ from hl.prev.1]; simp)]
    refine ends_bind.mpr (ends_setNext hself (ends_modify.mpr ?_))
    refine ⟨⟨hl.next, hl.curr, ⟨rfl, ?_⟩, ?_, fun b hb => hl.prev_end b (by simpa using hb)⟩,
      contents_setLink.trans contents_grow, rfl⟩
    · show Chain ((h.grow content).setLink h.heap.length h.prev).link
        (((h.grow content).setLink h.heap.length h.prev).link h.heap.length) (a :: l)
      rw [link_setLink_self hself]
      exact chain_setLink hself hchain hnot
    · show List.Perm _ (List.range ((h.grow content).setLink _ _).heap.length)
      rw [length_setLink]
      exact hnodes

lemma log_command_ends {E : LinkError → Prop} {z : Zipper ℕ} (hl : Zips h z) (buf : Str) :
    Ends E (log_command buf) (fun _ h' => ∃ z', Logs h z buf h' z') h := by
  refine (reset_command_position_ends hl).seq ?_
  intro _ h₁ hh₁
  obtain ⟨hl₁, hs₁⟩ := hh₁
  have hl₁ : Zips h₁ z.reset := hl₁
  have habs : h₁.abs z.reset = (h.abs z).reset_command_position := by
    rw [abs_reset]
    unfold Links.abs
    rw [hs₁.map_content, hs₁.file]
  have hhead : (h₁.abs z.reset).prev.head? = z.reset.prev.head?.map h₁.content := List.head?_map
  refine (prevContent_ends hl₁).seq ?_
  rintro newest h₂ ⟨rfl, rfl⟩
  -- the newest command again: nothing is logged
  by_cases hdup : z.reset.prev.head?.map h₂.content = some buf.dropLast
  · rw [if_pos hdup]
    refine ends_pure.mpr ⟨z.reset, hl₁, .inl ⟨rfl, hs₁.contents⟩, ?_⟩
    unfold Sh.log_command
    dsimp only
    rw [← habs, if_pos (hhead.trans hdup)]
  · rw [if_neg hdup]
    let file : HistFile := { h₂.file with
      file := (h₂.file.file.fileseek 0 .eof).1.filewrite (buf.dropLast ++ [chr '\n']) }
    let h₃ : Links := { h₂ with file := file }
    have hl₃ : Linked h₃ [] none z.seq := ⟨hl₁.next, hl₁.curr, hl₁.prev, hl₁.nodes, hl₁.prev_end⟩
    refine ends_bind.mpr (ends_modify.mpr ((pushNew_ends hl₃).mono (fun _ he => he) ?_))
    intro _ h₄ hh₄
    obtain ⟨hl₄, hcontents₄, hfile₄⟩ := hh₄
    have hlen : h₃.heap.length = h.heap.length := hs₁.length
    have hcontents : h₄.contents = h.contents ++ [buf.dropLast] := by
      rw [hcontents₄, ← hs₁.contents]
      rfl
    refine ⟨z.push h.heap.length, hlen ▸ hl₄, .inr ⟨rfl, hcontents⟩, ?_⟩
    unfold Sh.log_command
    dsimp only
    rw [← habs, if_neg (hhead ▸ hdup)]
    obtain ⟨-, -, hmap⟩ := Linked.map_content hl₃ hcontents₄
    have hnew : h₄.content h.heap.length = buf.dropLast := by
      have hmap' := map_content_new hcontents₄
      rw [hlen] at hmap'
      exact (List.cons.inj hmap').1
    show (⟨h₄.file, (h.heap.length :: z.seq).map h₄.content, none, []⟩ : History HistFile) =
      ⟨file, buf.dropLast :: z.seq.map h₂.content, none, []⟩
    rw [hfile₄, List.map_cons, hnew, hmap]
    rfl

/-! ## All calls -/

/-- The node that another one is linked to is in the same list. -/
lemma Linked.list_of_link (hl : Linked h n c p) {e : ℕ} (ha : h.link a = some e) :
    ∃ l q, (l = n ∨ l = c.toList ∨ l = p) ∧ Chain h.link q l ∧ a ∈ l ∧ e ∈ l := by
  have hlt : a < h.heap.length := by
    by_contra hle
    rw [link, List.getElem?_eq_none (by omega)] at ha
    cases ha
  have hmem := hl.nodes.mem_iff.mpr (List.mem_range.mpr hlt)
  simp only [List.mem_append, List.mem_reverse] at hmem
  rcases hmem with (hmem | hmem) | hmem
  · exact ⟨n, _, .inl rfl, hl.next, hmem, hl.next.mem_of_next hmem ha⟩
  · exact ⟨c.toList, _, .inr (.inl rfl), hl.curr, hmem, hl.curr.mem_of_next hmem ha⟩
  · exact ⟨p, _, .inr (.inr rfl), hl.prev, hmem, hl.prev.mem_of_next hmem ha⟩

/-- A node of two of the lists is in the same one. -/
lemma Linked.list_unique (hl : Linked h n c p) {l l' : List ℕ} {e : ℕ}
    (h₁ : l = n ∨ l = c.toList ∨ l = p) (h₂ : l' = n ∨ l' = c.toList ∨ l' = p) (he : e ∈ l)
    (he' : e ∈ l') : l = l' := by
  have hnodup := hl.nodup
  rw [List.nodup_append', List.nodup_append'] at hnodup
  obtain ⟨⟨-, -, hnc⟩, -, hp⟩ := hnodup
  have hnp : ∀ e ∈ n, e ∉ p := fun e hn => hp (List.mem_append_left _ (List.mem_reverse.mpr hn))
  have hcp : ∀ e ∈ c.toList, e ∉ p := fun e hc => hp (List.mem_append_right _ hc)
  have hnc' : ∀ e ∈ n, e ∉ c.toList := fun e hn => hnc (List.mem_reverse.mpr hn)
  rcases h₁ with rfl | rfl | rfl <;> rcases h₂ with rfl | rfl | rfl
  · rfl
  · exact (hnc' e he he').elim
  · exact (hnp e he he').elim
  · exact (hnc' e he' he).elim
  · rfl
  · exact (hcp e he he').elim
  · exact (hnp e he' he).elim
  · exact (hcp e he' he).elim
  · rfl

/-- No part of the list has a command twice. -/
lemma Linked.list_nodup (hl : Linked h n c p) (hin : l = n ∨ l = c.toList ∨ l = p) : l.Nodup := by
  have hnodup := hl.nodup
  rw [List.nodup_append', List.nodup_append', List.nodup_reverse] at hnodup
  rcases hin with rfl | rfl | rfl
  · exact hnodup.1.1
  · exact hnodup.1.2.1
  · exact hnodup.2.1

/-- The three lists are a zipper of all nodes. There is one link to a node at most, and `prev_end` is the
last node of the older ones. -/
structure Kept (h : Links) (z : Zipper ℕ) : Prop where
  zips : Zips h z
  nodup : z.seq.Nodup
  all : ∀ a, a ∈ z.seq ↔ a < h.heap.length
  once : ∀ a b e, h.link a = some e → h.link b = some e → a = b
  head : ∀ a e, h.link a = some e → h.next ≠ some e ∧ h.curr ≠ some e ∧ h.prev ≠ some e
  prev_end : z.prev ≠ [] → h.prev_end = z.prev.getLast?

/-- A command that is linked to is no head. -/
lemma Linked.ne_head (hl : Linked h n c p) {l : List ℕ} {q : Option ℕ} {e : ℕ}
    (hin : l = n ∨ l = c.toList ∨ l = p) (hq : Chain h.link q l) (ha : h.link a = some e) :
    q ≠ some e := by
  intro heq
  subst heq
  obtain ⟨l', hl', -⟩ := hq.of_some
  have he : e ∈ l := hl' ▸ List.mem_cons_self
  obtain ⟨l₁, q₁, hin₁, -, hal₁, hel₁⟩ := hl.list_of_link ha
  obtain rfl := hl.list_unique hin hin₁ he hel₁
  exact hq.next_ne_head (hl.list_nodup hin) hal₁ rfl ha

lemma Linked.kept {z : Zipper ℕ} (hl : Zips h z) : Kept h z := by
  refine ⟨hl, hl.nodup, fun a => ?_, fun a b e ha hb => ?_, fun a e ha => ?_, fun hne => ?_⟩
  · rw [← List.mem_range]
    exact hl.nodes.mem_iff
  · obtain ⟨l, q, hin, hq, hal, hel⟩ := hl.list_of_link ha
    obtain ⟨l', q', hin', -, hbl, hel'⟩ := hl.list_of_link hb
    obtain rfl := hl.list_unique hin hin' hel hel'
    exact hq.next_inj (hl.list_nodup hin) hal hbl ha hb
  · exact ⟨hl.ne_head (.inl rfl) hl.next ha, hl.ne_head (.inr (.inl rfl)) hl.curr ha,
      hl.ne_head (.inr (.inr rfl)) hl.prev ha⟩
  · cases he : z.prev.getLast? with
    | none => exact (hne (List.getLast?_eq_none_iff.mp he)).elim
    | some e =>
      refine hl.prev_end e ?_
      rw [List.getLast?_append, he]
      rfl

end

end Links

end Sh
end OhMyXv6
