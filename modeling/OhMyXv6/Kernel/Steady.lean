import OhMyXv6.Kernel.Read
import OhMyXv6.Kernel.View

/-!
# The inode cache during a system call

A call that only looks at the files changes nothing but the inode cache: it takes references, locks
inodes and reads them from the disk, and it gives the references and the locks back. `Steady T k H L`
says that a call which began in `T` is in state `k`, holds the references `H` and has the entries `L`
locked. For each function there is one lemma that says what becomes of `H` and `L`.

No inode is freed on the way. `iput` frees an inode without links when the last reference to it goes,
and here somebody else still has one (`Kept`).
-/

namespace OhMyXv6
namespace Kernel

/-- What the tables of a state between two calls stand for. -/
def State.view (T : State) : View where
  tab := fun e => if e < NINODE then (T.icache e).ref else 0
  inum := fun e => (T.icache e).inum
  fresh := fun _ => False
  ftable := T.ftable
  proc := T.proc

/-- The inodes on the disk. -/
def State.inodes (T : State) : ℕ → Dinode := dinode T.sb T.disk

/-- A call that began in `T` is in state `k`, with the references `H` and the locks `L`. -/
structure Steady (T k : State) (H : List Held) (L : List ℕ) : Prop where
  frame : k = { T with icache := k.icache }
  cached : Cached k T.inodes T.view H
  holder : ∀ e ∈ L, ∃ a ∈ H, a.ip = e
  locked : ∀ e ∈ L, (k.icache e).lock.isSome ∧ (k.icache e).valid = true
  unlocked : ∀ e < NINODE, e ∉ L → (k.icache e).lock = none

/-- The state between two calls. -/
def Settled (T : State) : Prop := Steady T T [] []

/-- A reference to inode `i` that is not one of `H` keeps the inode, or it has links. -/
def Kept (T : State) (H : List Held) (ip i : ℕ) : Prop :=
  (T.inodes i).type ≠ 0 → (T.inodes i).nlink = 0 → 0 < T.view.tab ip + refsTo H ip

section
variable {T k t : State} {H H' : List Held} {L L' : List ℕ} {ip i : ℕ} {E : Panic → Prop}

namespace Steady

lemma sb (h : Steady T k H L) : k.sb = T.sb := by rw [h.frame]

lemma disk (h : Steady T k H L) : k.disk = T.disk := by rw [h.frame]

lemma ftable (h : Steady T k H L) : k.ftable = T.ftable := by rw [h.frame]

lemma proc (h : Steady T k H L) : k.proc = T.proc := by rw [h.frame]

lemma nodes (h : Steady T k H L) : k.nodes = T.nodes := by
  unfold State.nodes
  rw [h.sb, h.disk]

/-- The order of the references does not matter. -/
lemma perm (h : Steady T k H L) (hp : H.Perm H') : Steady T k H' L :=
  ⟨h.frame, h.cached.perm hp, fun e he => by
    obtain ⟨a, ha, hae⟩ := h.holder e he
    exact ⟨a, hp.subset ha, hae⟩, h.locked, h.unlocked⟩

/-- Two references in the other order. -/
lemma swap {a b : Held} (h : Steady T k (a :: b :: H) L) : Steady T k (b :: a :: H) L :=
  h.perm (.swap _ _ _)

/-- The references that are held are to entries of the cache, each with the inode it is for. -/
theorem held (h : Steady T k H L) {v : Bool} (ha : ⟨ip, i, v⟩ ∈ H) :
    ip < NINODE ∧ (k.icache ip).inum = i ∧ 0 < (k.icache ip).ref :=
  ⟨(h.cached.held _ ha).1, (h.cached.held _ ha).2.1, h.cached.pos ha⟩

/-- The count is that of the tables and of the call. -/
lemma ref_eq (h : Steady T k H L) (hip : ip < NINODE) :
    (k.icache ip).ref = T.view.tab ip + refsTo H ip := h.cached.refs ip hip

/-- An entry gets new fields. -/
lemma setInode (h : Steady T k H L) (hip : ip < NINODE) {x : Inode}
    (hother : ∀ e, e ≠ ip → refsTo H' e = refsTo H e)
    (href : x.ref = T.view.tab ip + refsTo H' ip)
    (hheld : ∀ a ∈ H', (a ∈ H ∧ a.ip ≠ ip) ∨
      a.ip = ip ∧ x.inum = a.inum ∧ (a.valid = true → x.valid = true))
    (hinum : 0 < x.ref → x.inum < T.sb.ninodes)
    (hdin : 0 < x.ref → x.valid = true → x.din = T.inodes x.inum ∧ (T.inodes x.inum).type ≠ 0)
    (hdistinct : 0 < x.ref → ∀ e < NINODE, e ≠ ip → 0 < (k.icache e).ref →
      (k.icache e).inum ≠ x.inum)
    (htab : 0 < T.view.tab ip → x.inum = T.view.inum ip)
    (hunlinked : 0 < (k.icache ip).ref → (k.icache ip).valid = true →
      (T.inodes (k.icache ip).inum).type ≠ 0 → (T.inodes (k.icache ip).inum).nlink = 0 →
      0 < x.ref ∧ x.inum = (k.icache ip).inum ∧ x.valid = true)
    (hholder : ∀ e ∈ L', ∃ a ∈ H', a.ip = e) (hlocks : ∀ e, e ≠ ip → (e ∈ L' ↔ e ∈ L))
    (hlock : ip ∈ L' → x.lock.isSome ∧ x.valid = true) (hunlock : ip ∉ L' → x.lock = none) :
    Steady T (k.setInode ip x) H' L' := by
  have hself : (k.setInode ip x).icache ip = x := Function.update_self _ _ _
  have hne : ∀ e, e ≠ ip → (k.setInode ip x).icache e = k.icache e := fun e he =>
    Function.update_of_ne he _ _
  have hsb : (k.setInode ip x).sb = T.sb := h.sb
  refine ⟨?_, ⟨?_, ?_, ?_, ?_, ?_, ?_, ?_, h.cached.ftable, h.cached.proc⟩, hholder, ?_, ?_⟩
  · have hframe := h.frame
    unfold State.setInode
    rw [hframe]
  · intro e he hpos
    rw [hsb]
    by_cases heq : e = ip
    · rw [heq, hself] at hpos ⊢
      exact hinum hpos
    · rw [hne e heq] at hpos ⊢
      exact h.sb ▸ h.cached.inum e he hpos
  · intro e he hpos hvalid
    by_cases heq : e = ip
    · rw [heq, hself] at hpos hvalid ⊢
      exact hdin hpos hvalid
    · rw [hne e heq] at hpos hvalid ⊢
      exact h.cached.din e he hpos hvalid
  · intro e he c hc hpe hpc hsame
    by_cases heq : e = ip
    · by_cases hcq : c = ip
      · rw [heq, hcq]
      · rw [heq, hself] at hpe
        rw [hne c hcq] at hpc
        rw [heq, hself, hne c hcq] at hsame
        exact absurd hsame.symm (hdistinct hpe c hc hcq hpc)
    · by_cases hcq : c = ip
      · rw [hcq, hself] at hpc
        rw [hne e heq] at hpe
        rw [hcq, hself, hne e heq] at hsame
        exact absurd hsame (hdistinct hpc e he heq hpe)
      · rw [hne e heq] at hpe
        rw [hne c hcq] at hpc
        rw [hne e heq, hne c hcq] at hsame
        exact h.cached.distinct e he c hc hpe hpc hsame
  · intro e he
    by_cases heq : e = ip
    · rw [heq, hself]
      exact href
    · rw [hne e heq, hother e heq]
      exact h.cached.refs e he
  · intro a ha
    rcases hheld a ha with ⟨hmem, hane⟩ | ⟨haip, hai, hav⟩
    · rw [hne _ hane]
      exact h.cached.held a hmem
    · rw [haip, hself]
      exact ⟨hip, hai, hav⟩
  · intro e hpos
    obtain ⟨hlt, heinum, htype⟩ := h.cached.tab e hpos
    refine ⟨hlt, ?_, htype⟩
    by_cases heq : e = ip
    · rw [heq, hself]
      rw [heq] at hpos
      exact htab hpos
    · rw [hne e heq]
      exact heinum
  · -- the entry of an inode without links stays
    intro j hj h0
    rcases h.cached.unlinked j hj h0 with hfresh | ⟨e, he, hpos, hej, hvalid⟩
    · exact .inl hfresh
    · right
      by_cases heq : e = ip
      · rw [heq] at hpos hej hvalid
        rw [← hej] at hj h0
        obtain ⟨hxpos, hxinum, hxvalid⟩ := hunlinked hpos hvalid hj.2 h0
        refine ⟨ip, hip, ?_, ?_, ?_⟩
        · rw [hself]
          exact hxpos
        · rw [hself, hxinum, hej]
        · rw [hself]
          exact hxvalid
      · refine ⟨e, he, ?_, ?_, ?_⟩
        · rw [hne e heq]
          exact hpos
        · rw [hne e heq]
          exact hej
        · rw [hne e heq]
          exact hvalid
  · intro e he
    by_cases heq : e = ip
    · rw [heq, hself]
      exact hlock (heq ▸ he)
    · rw [hne e heq]
      exact h.locked e ((hlocks e heq).mp he)
  · intro e he hmem
    by_cases heq : e = ip
    · rw [heq, hself]
      exact hunlock (heq ▸ hmem)
    · rw [hne e heq]
      exact h.unlocked e he fun hL => hmem ((hlocks e heq).mpr hL)

/-- The fields of an entry in use, other than its number, get new values. -/
theorem touch (h : Steady T k H L) (hip : ip < NINODE) (hpos : 0 < (k.icache ip).ref) {x : Inode}
    (hinum : x.inum = (k.icache ip).inum)
    (hvalid : (k.icache ip).valid = true → x.valid = true)
    (hdin : x.valid = true → x.din = T.inodes x.inum ∧ (T.inodes x.inum).type ≠ 0)
    (hother : ∀ e, e ≠ ip → refsTo H' e = refsTo H e)
    (href : x.ref = T.view.tab ip + refsTo H' ip)
    (hheld : ∀ a ∈ H', a ∈ H ∨ a.ip = ip ∧ x.inum = a.inum ∧ (a.valid = true → x.valid = true))
    (hkept : Kept T H' ip x.inum)
    (hholder : ∀ e ∈ L', ∃ a ∈ H', a.ip = e) (hlocks : ∀ e, e ≠ ip → (e ∈ L' ↔ e ∈ L))
    (hlock : ip ∈ L' → x.lock.isSome ∧ x.valid = true) (hunlock : ip ∉ L' → x.lock = none) :
    Steady T (k.setInode ip x) H' L' := by
  apply h.setInode hip hother href _ _ _ _ _ _ hholder hlocks hlock hunlock
  · intro a ha
    rcases hheld a ha with hmem | heq
    · by_cases haip : a.ip = ip
      · have hold := h.cached.held a hmem
        rw [haip] at hold
        exact .inr ⟨haip, hinum.trans hold.2.1, fun hv => hvalid (hold.2.2 hv)⟩
      · exact .inl ⟨hmem, haip⟩
    · exact .inr heq
  · intro _
    rw [hinum, ← h.sb]
    exact h.cached.inum ip hip hpos
  · exact fun _ => hdin
  · intro _ e he hne hpe hsame
    exact hne (h.cached.distinct e he ip hip hpe hpos (hsame.trans hinum))
  · intro htab
    exact hinum.trans (h.cached.tab ip htab).2.1
  · intro _ hv htype h0
    refine ⟨?_, hinum, hvalid hv⟩
    rw [href]
    rw [← hinum] at htype h0
    exact hkept htype h0

lemma refsTo_cons_of_ne {a : Held} {e : ℕ} (hne : e ≠ a.ip) : refsTo (a :: H) e = refsTo H e := by
  rw [refsTo_cons, if_neg (Ne.symm hne), Nat.add_zero]

lemma refsTo_cons_self (ip i : ℕ) (v : Bool) (H : List Held) :
    refsTo (⟨ip, i, v⟩ :: H) ip = refsTo H ip + 1 := by
  rw [refsTo_cons, if_pos rfl]

/-- What a valid entry of the cache says about its inode. -/
lemma din (h : Steady T k H L) {e : ℕ} (he : e < NINODE) (hpos : 0 < (k.icache e).ref)
    (hv : (k.icache e).valid = true) : (k.icache e).din = T.inodes (k.icache e).inum ∧
      (T.inodes (k.icache e).inum).type ≠ 0 := h.cached.din e he hpos hv

/-- One more reference to an entry in use. -/
lemma retake (h : Steady T k H L) (hip : ip < NINODE) (hpos : 0 < (k.icache ip).ref)
    (hi : (k.icache ip).inum = i) :
    Steady T (k.setInode ip { k.icache ip with ref := (k.icache ip).ref + 1 }) (⟨ip, i, false⟩ :: H) L := by
  have href := h.ref_eq hip
  apply h.touch hip hpos
  · rfl
  · exact fun hv => hv
  · exact h.din hip hpos
  · exact fun e he => refsTo_cons_of_ne he
  · show (k.icache ip).ref + 1 = _
    rw [refsTo_cons_self, href, Nat.add_assoc]
  · intro a ha
    rcases List.mem_cons.mp ha with rfl | hmem
    · exact .inr ⟨rfl, hi, nofun⟩
    · exact .inl hmem
  · intro _ _
    rw [refsTo_cons_self]
    omega
  · intro e he
    obtain ⟨a, ha, hae⟩ := h.holder e he
    exact ⟨a, .tail _ ha, hae⟩
  · exact fun _ _ => Iff.rfl
  · exact h.locked ip
  · exact h.unlocked ip hip

/-- A free entry is given to an inode that has none. -/
lemma take (h : Steady T k H L) (hip : ip < NINODE) (h0 : (k.icache ip).ref = 0)
    (hi : i < T.sb.ninodes) (hmiss : ∀ e < NINODE, 0 < (k.icache e).ref → (k.icache e).inum ≠ i) :
    Steady T (k.setInode ip { k.icache ip with inum := i, ref := 1, valid := false })
      (⟨ip, i, false⟩ :: H) L := by
  have href := h.ref_eq hip
  have hnot : ∀ a ∈ H, a.ip ≠ ip := by
    intro a ha hae
    have hpos := (h.held ha).2.2
    rw [hae] at hpos
    omega
  have hL : ip ∉ L := by
    intro hmem
    obtain ⟨a, ha, hae⟩ := h.holder ip hmem
    exact hnot a ha hae
  apply h.setInode hip
  · exact fun e he => refsTo_cons_of_ne he
  · show 1 = _
    rw [refsTo_cons_self]
    omega
  · intro a ha
    rcases List.mem_cons.mp ha with rfl | hmem
    · exact .inr ⟨rfl, rfl, nofun⟩
    · exact .inl ⟨hmem, hnot a hmem⟩
  · exact fun _ => hi
  · exact fun _ hv => nomatch hv
  · exact fun _ e he _ hpos => hmiss e he hpos
  · intro htab
    omega
  · intro hpos
    omega
  · intro e he
    obtain ⟨a, ha, hae⟩ := h.holder e he
    exact ⟨a, .tail _ ha, hae⟩
  · exact fun _ _ => Iff.rfl
  · exact fun hmem => absurd hmem hL
  · exact fun _ => h.unlocked ip hip hL

/-- `iget` takes a reference, or finds the cache full. -/
lemma iget_ends (h : Steady T k H L) (hi : i < T.sb.ninodes)
    (hfull : (∀ e < NINODE, 0 < T.view.tab e + refsTo H e) → E .igetNoInodes) :
    Prog.Ends E (iget i) (fun e t => Steady T t (⟨e, i, false⟩ :: H) L) k := by
  unfold iget
  rw [Prog.ends_act]
  rcases hhit : (List.range NINODE).find? fun e =>
      0 < (k.icache e).ref && (k.icache e).inum == i with _ | e
  · have hmiss : ∀ c < NINODE, 0 < (k.icache c).ref → (k.icache c).inum ≠ i := by
      intro c hc hpos heq
      have hnot := List.find?_eq_none.mp hhit c (List.mem_range.mpr hc)
      simp [hpos, heq] at hnot
    dsimp only
    rcases hempty : (List.range NINODE).find? fun e => (k.icache e).ref == 0 with _ | e
    · apply hfull
      intro e he
      have hnot := List.find?_eq_none.mp hempty e (List.mem_range.mpr he)
      rw [h.ref_eq he, beq_iff_eq] at hnot
      omega
    · have he : e < NINODE := List.mem_range.mp (List.mem_of_find?_eq_some hempty)
      have h0 := List.find?_some hempty
      exact h.take he (beq_iff_eq.mp h0) hi hmiss
  · have he : e < NINODE := List.mem_range.mp (List.mem_of_find?_eq_some hhit)
    have hfound := List.find?_some hhit
    rw [Bool.and_eq_true, decide_eq_true_eq, beq_iff_eq] at hfound
    exact h.retake he hfound.1 hfound.2

/-- `idup` takes a reference to an entry that has one. -/
lemma idup_ends (h : Steady T k H L) (hip : ip < NINODE) (hpos : 0 < (k.icache ip).ref)
    (hi : (k.icache ip).inum = i) :
    Prog.Ends E (idup ip) (fun e t => e = ip ∧ Steady T t (⟨ip, i, false⟩ :: H) L) k :=
  ⟨rfl, h.retake hip hpos hi⟩

/-! ## Locks -/

/-- `ilock` of an entry that is not locked. -/
lemma ilock_ends (h : Steady T k H L) {p : ℕ} {v : Bool} (ha : ⟨ip, i, v⟩ ∈ H) (hL : ip ∉ L)
    (htype : (T.inodes i).type = 0 → E .ilockNoType) :
    Prog.Ends E (ilock p ip) (fun _ t => Steady T t H (ip :: L)) k := by
  obtain ⟨hip, hi, hpos⟩ := h.held ha
  have href := h.ref_eq hip
  have hmem : 0 < refsTo H ip := refsTo_pos ha
  have hlocks : ∀ e, e ≠ ip → (e ∈ ip :: L ↔ e ∈ L) := fun e he =>
    ⟨fun hin => (List.mem_cons.mp hin).resolve_left he, .tail _⟩
  have hholder : ∀ e ∈ ip :: L, ∃ a ∈ H, a.ip = e := by
    intro e he
    rcases List.mem_cons.mp he with rfl | hin
    · exact ⟨_, ha, rfl⟩
    · exact h.holder e hin
  unfold ilock
  rw [Prog.ends_bind]
  unfold acquire
  rw [Prog.ends_act, if_neg (by omega), if_neg (by rw [h.unlocked ip hip hL]; exact nofun)]
  set x : Inode := { k.icache ip with lock := some p } with hx
  have hself : (k.setInode ip x).icache ip = x := Function.update_self _ _ _
  show Prog.Ends E (iload ip) _ (k.setInode ip x)
  unfold iload
  rw [Prog.ends_act]
  dsimp only
  rw [hself]
  by_cases hvalid : (k.icache ip).valid = true
  · rw [if_pos hvalid]
    apply h.touch hip hpos
    · rfl
    · exact fun hv => hv
    · exact h.din hip hpos
    · exact fun _ _ => rfl
    · exact href
    · exact fun a ha => .inl ha
    · intro _ _
      omega
    · exact hholder
    · exact hlocks
    · exact fun _ => ⟨rfl, hvalid⟩
    · exact fun hnot => absurd (.head _) hnot
  · rw [if_neg hvalid]
    -- the inode is read from the disk
    have hdin : dinode (k.setInode ip x).sb (k.setInode ip x).disk x.inum = T.inodes i := by
      show dinode k.sb k.disk (k.icache ip).inum = dinode T.sb T.disk i
      rw [h.sb, h.disk, hi]
    rw [hdin]
    split
    · next h0 => exact htype h0
    · next hne =>
      show Steady T ((k.setInode ip x).setInode ip { x with din := T.inodes i, valid := true }) H _
      unfold State.setInode
      rw [Function.update_idem]
      apply h.touch hip hpos
      · rfl
      · exact fun _ => rfl
      · intro _
        show T.inodes i = T.inodes (k.icache ip).inum ∧ (T.inodes (k.icache ip).inum).type ≠ 0
        rw [hi]
        exact ⟨rfl, hne⟩
      · exact fun _ _ => rfl
      · exact href
      · exact fun a ha => .inl ha
      · intro _ _
        omega
      · exact hholder
      · exact hlocks
      · exact fun _ => ⟨rfl, rfl⟩
      · exact fun hnot => absurd (.head _) hnot

/-- What is known of an entry that the call has locked. -/
lemma locked_din (h : Steady T k H L) {v : Bool} (ha : ⟨ip, i, v⟩ ∈ H) (hL : ip ∈ L) :
    (k.icache ip).din = T.inodes i ∧ (T.inodes i).type ≠ 0 := by
  obtain ⟨hip, hi, hpos⟩ := h.held ha
  have hdin := h.din hip hpos (h.locked ip hL).2
  rwa [hi] at hdin

/-- `iunlock` gives the lock back. -/
lemma iunlock_ends (h : Steady T k H (ip :: L)) {v : Bool} (ha : ⟨ip, i, v⟩ ∈ H) (hL : ip ∉ L) :
    Prog.Ends E (iunlock ip) (fun _ t => Steady T t H L) k := by
  obtain ⟨hip, hi, hpos⟩ := h.held ha
  have href := h.ref_eq hip
  have hmem : 0 < refsTo H ip := refsTo_pos ha
  have hlock := (h.locked ip (.head _)).1
  unfold iunlock
  rw [Prog.ends_act, if_neg (by
    rintro (hnone | hless)
    · rw [Option.isNone_iff_eq_none] at hnone
      rw [hnone] at hlock
      exact nomatch hlock
    · omega)]
  apply h.touch hip hpos
  · rfl
  · exact fun hv => hv
  · exact h.din hip hpos
  · exact fun _ _ => rfl
  · exact href
  · exact fun a ha => .inl ha
  · intro _ _
    omega
  · exact fun e he => h.holder e (.tail _ he)
  · exact fun e he => ⟨.tail _, fun hin => (List.mem_cons.mp hin).resolve_left he⟩
  · exact fun hin => absurd hin hL
  · exact fun _ => rfl

/-! ## `iput` -/

/-- `iput` gives the reference back, and nothing is freed. -/
lemma iput_ends (h : Steady T k (⟨ip, i, false⟩ :: H) L) (hkept : Kept T H ip i)
    (hholder : ∀ e ∈ L, ∃ a ∈ H, a.ip = e) :
    Prog.Ends E (iput ip) (fun _ t => Steady T t H L) k := by
  obtain ⟨hip, hi, hpos⟩ := h.held (.head _)
  have href := h.ref_eq hip
  rw [refsTo_cons_self] at href
  have hnot : ¬ ((k.icache ip).ref = 1 ∧ (k.icache ip).valid = true ∧ (k.icache ip).din.nlink = 0) := by
    rintro ⟨hone, hv, h0⟩
    obtain ⟨hdin, htype⟩ := h.din hip hpos hv
    rw [hi] at hdin htype
    have hpos' := hkept htype (hdin ▸ h0)
    omega
  unfold iput
  rw [Prog.ends_bind]
  unfold iputTest
  rw [Prog.ends_act]
  dsimp only
  rw [if_neg (Nat.not_lt.mpr hpos), if_neg hnot]
  show Steady T (k.setInode ip _) H L
  apply h.touch hip hpos
  · rfl
  · exact fun hv => hv
  · exact h.din hip hpos
  · exact fun e he => (refsTo_cons_of_ne he).symm
  · show (k.icache ip).ref - 1 = _
    omega
  · exact fun a ha => .inl (.tail _ ha)
  · rw [show (k.icache ip).inum = i from hi]
    exact hkept
  · exact hholder
  · exact fun _ _ => Iff.rfl
  · exact h.locked ip
  · exact h.unlocked ip hip

/-- Lock and reference are given back. -/
lemma iunlockput_ends (h : Steady T k (⟨ip, i, false⟩ :: H) (ip :: L)) (hkept : Kept T H ip i)
    (hL : ip ∉ L) (hholder : ∀ e ∈ L, ∃ a ∈ H, a.ip = e) :
    Prog.Ends E (iunlockput ip) (fun _ t => Steady T t H L) k := by
  unfold iunlockput
  rw [Prog.ends_bind]
  apply (h.iunlock_ends (.head _) hL).mono fun _ he => he
  intro _ t ht
  exact ht.iput_ends hkept hholder

end Steady

end

end Kernel
end OhMyXv6
