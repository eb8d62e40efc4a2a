import Mathlib.Data.Multiset.Count
import OhMyXv6.Kernel.Sysfile

/-!
# References and locks of the running call

`Refs s T tab H L` says what the counts of the inode cache are made of: `tab` is what the tables
refer to, `H` what the running system call has taken with `iget` or `idup` and not yet given back
with `iput`, and `L` the entries it has locked. A reference can be moved between `tab` and `H` at
any time, since only the sum is in the state.

`Spec` is a triple for these two lists. Whatever a function reads from the disk, each of its exits
must leave the same lists, so nothing has to be known of the file system here.
-/

namespace OhMyXv6
namespace Kernel

open Prog

/-- What the inode functions leave alone. -/
structure Tables where
  ftable : ℕ → File
  proc : ℕ → Proc
  pipe : ℕ → Option Pipe

/-- The tables of a state. -/
def State.tables (s : State) : Tables := ⟨s.ftable, s.proc, s.pipe⟩

/-- The counts and the locks of the inode cache are those of the tables `tab`, of the running call
`H` and of its locks `L`. -/
structure Refs (s : State) (T : Tables) (tab : ℕ → ℕ) (H L : Multiset ℕ) : Prop where
  tables : s.tables = T
  ref : ∀ k, (s.icache k).ref = tab k + H.count k
  lock : ∀ k, L.count k = if (s.icache k).lock.isSome then 1 else 0

/-- The panics other than those of the counts. -/
def Calm (e : Panic) : Prop :=
  e ≠ .filedup ∧ e ≠ .fileclose ∧ e ≠ .refBelowZero ∧ e ≠ .endReleased

instance : DecidablePred Calm := fun _ => inferInstanceAs (Decidable (_ ∧ _))

/-- Started with `H` and `L`, `x` ends with `H'` and `L'`, which may depend on its result. -/
def Spec (T : Tables) (tab : ℕ → ℕ) (H L : Multiset ℕ) {α : Type} (x : M α)
    (H' L' : α → Multiset ℕ) : Prop :=
  ∀ s, Refs s T tab H L → wp Calm x (fun a t => Refs t T tab (H' a) (L' a)) s

/-- The counts and the tables stay as they are. -/
def SameRefs (s t : State) : Prop :=
  t.tables = s.tables ∧ ∀ k, (t.icache k).ref = (s.icache k).ref ∧
    (t.icache k).lock = (s.icache k).lock

/-- Only the counts, the locks and the tables matter. -/
lemma Refs.same {s t : State} {T : Tables} {tab : ℕ → ℕ} {H L : Multiset ℕ}
    (h : Refs s T tab H L) (hst : SameRefs s t) : Refs t T tab H L := by
  constructor
  · rw [hst.1, h.tables]
  · intro k
    rw [(hst.2 k).1, h.ref k]
  · intro k
    rw [(hst.2 k).2, h.lock k]

/-- One cache entry is replaced. -/
lemma Refs.setInode {s : State} {T : Tables} {tab : ℕ → ℕ} {H H' L L' : Multiset ℕ}
    (h : Refs s T tab H L) {k : ℕ} {x : Inode}
    (hH : ∀ j, j ≠ k → H'.count j = H.count j) (hL : ∀ j, j ≠ k → L'.count j = L.count j)
    (href : x.ref = tab k + H'.count k) (hlock : L'.count k = if x.lock.isSome then 1 else 0) :
    Refs (s.setInode k x) T tab H' L' := by
  constructor
  · exact h.tables
  · intro j
    by_cases hj : j = k
    · subst hj
      simp only [State.setInode, Function.update_self]
      exact href
    · simp only [State.setInode, Function.update_of_ne hj, hH j hj]
      exact h.ref j
  · intro j
    by_cases hj : j = k
    · subst hj
      simp only [State.setInode, Function.update_self]
      exact hlock
    · simp only [State.setInode, Function.update_of_ne hj, hL j hj]
      exact h.lock j

/-! ## Rules -/

section
variable {T : Tables} {tab : ℕ → ℕ} {H L : Multiset ℕ} {α β : Type}

lemma Spec.bind {x : M α} {f : α → M β} {H₁ L₁ : α → Multiset ℕ} {H₂ L₂ : β → Multiset ℕ}
    (hx : Spec T tab H L x H₁ L₁) (hf : ∀ a, Spec T tab (H₁ a) (L₁ a) (f a) H₂ L₂) :
    Spec T tab H L (x >>= f) H₂ L₂ := fun s hs => wp_seq (hx s hs) fun a t ht => hf a t ht

/-- A value, with nothing taken or given back. -/
lemma spec_pure {a : α} {H' L' : α → Multiset ℕ} (hH : H' a = H) (hL : L' a = L) :
    Spec T tab H L (pure a : M α) H' L' := by
  intro s hs
  rw [wp_pure, hH, hL]
  exact hs

lemma spec_panic {e : Panic} (he : Calm e) {H' L' : α → Multiset ℕ} :
    Spec T tab H L (panic e : M α) H' L' := fun _ _ => he

/-- The function takes and leaves nothing. -/
def Keeps (x : M α) : Prop := ∀ T tab H L, Spec T tab H L x (fun _ => H) (fun _ => L)

lemma Keeps.bind {x : M α} {f : α → M β} (hx : Keeps x) (hf : ∀ a, Keeps (f a)) :
    Keeps (x >>= f) := fun T tab H L => (hx T tab H L).bind fun a => hf a T tab H L

lemma keeps_pure {a : α} : Keeps (pure a : M α) := fun _ _ _ _ => spec_pure rfl rfl

lemma keeps_panic {e : Panic} (he : Calm e) : Keeps (panic e : M α) :=
  fun _ _ _ _ => spec_panic he

/-- A step that leaves the counts alone. -/
lemma keeps_act {l : Label} {f : State → Out State Panic α}
    (h : ∀ s, (f s).Meets Calm fun _ t => SameRefs s t) : Keeps (.act l f : M α) := by
  intro T tab H L s hs
  rw [wp_act]
  have hf := h s
  rcases hx : f s with ⟨b, t⟩ | _ | e
  · rw [hx] at hf
    exact hs.same hf
  · trivial
  · rw [hx] at hf
    exact hf

lemma keeps_get {g : State → α} : Keeps (get g) :=
  keeps_act fun _ => ⟨rfl, fun _ => ⟨rfl, rfl⟩⟩

lemma keeps_modify {g : State → State} (h : ∀ s, SameRefs s (g s)) : Keeps (modify g) :=
  keeps_act h

/-! ## Functions that take nothing -/

lemma SameRefs.setBlock {s : State} {b : ℕ} {x : Block} : SameRefs s (s.setBlock b x) :=
  ⟨rfl, fun _ => ⟨rfl, rfl⟩⟩

/-- Two steps that leave the counts alone. -/
lemma SameRefs.trans {s t u : State} (h : SameRefs s t) (h' : SameRefs t u) : SameRefs s u :=
  ⟨h'.1.trans h.1, fun k => ⟨(h'.2 k).1.trans (h.2 k).1, (h'.2 k).2.trans (h.2 k).2⟩⟩

/-- An entry is replaced by one with the same count and lock. -/
lemma SameRefs.setInode {s : State} {k : ℕ} {x : Inode} (href : x.ref = (s.icache k).ref)
    (hlock : x.lock = (s.icache k).lock) : SameRefs s (s.setInode k x) := by
  refine ⟨rfl, fun j => ?_⟩
  by_cases hj : j = k
  · subst hj
    simp only [State.setInode, Function.update_self]
    exact ⟨href, hlock⟩
  · simp [State.setInode, Function.update_of_ne hj]

/-- `log_write` leaves the counts alone. -/
lemma meets_log_write {s t : State} {b : ℕ} (h : SameRefs s t) :
    (log_write b t).Meets Calm fun _ u => SameRefs s u := by
  unfold log_write
  split
  · exact (by decide : Calm .tooBigATransaction)
  · split
    · exact (by decide : Calm .logWriteOutsideOfTrans)
    · exact h.trans ⟨rfl, fun _ => ⟨rfl, rfl⟩⟩

/-- What is done next leaves them alone as well. -/
lemma meets_andThen {s : State} {o : Out State Panic α} {a : β}
    (h : o.Meets Calm fun _ t => SameRefs s t) :
    (o.andThen fun _ t => .done a t).Meets Calm fun _ t => SameRefs s t := by
  rcases o with ⟨b, t⟩ | _ | e <;> exact h

lemma keeps_begin_op {p : ℕ} : Keeps (begin_op p) := by
  apply keeps_act
  intro s
  split
  · trivial
  · exact ⟨rfl, fun _ => ⟨rfl, rfl⟩⟩

lemma keeps_end_op {p : ℕ} : Keeps (end_op p) :=
  keeps_act fun _ => ⟨rfl, fun _ => ⟨rfl, rfl⟩⟩

/-- A block is changed and logged. -/
lemma keeps_logBlock {b : State → ℕ} {g : State → Block} : Keeps (logBlock b g) :=
  keeps_act fun _ => meets_log_write .setBlock

/-- The inode in the cache is changed, but not its count. -/
lemma keeps_modifyDin {k : ℕ} {g : Dinode → Dinode} : Keeps (modifyDin k g) :=
  keeps_modify fun _ => .setInode rfl rfl

/-- By induction on the blocks of the free map. -/
lemma keeps_ballocLoop (n b : ℕ) : Keeps (ballocLoop n b) := by
  induction n generalizing b with
  | zero => exact keeps_panic (by decide)
  | succ n ih =>
    have hscan : Keeps (ballocScan b) := by
      apply keeps_act
      intro s
      dsimp only
      rcases (List.range (min BPB (s.sb.size - b))).find? fun bi =>
        !testBit (s.disk (BBLOCK s.sb b)) bi with _ | bi
      · exact ⟨rfl, fun _ => ⟨rfl, rfl⟩⟩
      · exact meets_andThen (meets_log_write .setBlock)
    apply hscan.bind
    intro r
    rcases r with _ | bi
    · exact ih (b + BPB)
    · exact Keeps.bind keeps_logBlock fun _ => keeps_pure

lemma keeps_balloc : Keeps balloc := Keeps.bind keeps_get fun n => keeps_ballocLoop n 0

lemma keeps_bfree {b : ℕ} : Keeps (bfree b) := by
  have hread : Keeps readsb := keeps_modify fun s => ⟨rfl, fun _ => ⟨rfl, rfl⟩⟩
  apply hread.bind
  intro _
  apply keeps_act
  intro s
  dsimp only
  split
  · exact meets_log_write .setBlock
  · exact (by decide : Calm .freeingFreeBlock)

lemma keeps_iupdate {ip : ℕ} : Keeps (iupdate ip) :=
  keeps_act fun _ => meets_log_write ⟨rfl, fun _ => ⟨rfl, rfl⟩⟩

/-- An inode on the disk is taken. -/
lemma keeps_iallocTry {type inum : ℕ} : Keeps (iallocTry type inum) := by
  apply keeps_act
  intro s
  split
  · exact meets_andThen (meets_log_write ⟨rfl, fun _ => ⟨rfl, rfl⟩⟩)
  · exact ⟨rfl, fun _ => ⟨rfl, rfl⟩⟩

lemma keeps_iload {ip : ℕ} : Keeps (iload ip) := by
  apply keeps_act
  intro s
  dsimp only
  split
  · exact ⟨rfl, fun _ => ⟨rfl, rfl⟩⟩
  · split
    · exact (by decide : Calm .ilockNoType)
    · exact .setInode rfl rfl

/-- By induction on the direct blocks. -/
lemma keeps_itruncDirect {ip : ℕ} (is : List ℕ) : Keeps (itruncDirect ip is) := by
  induction is with
  | nil => exact keeps_pure
  | cons i is ih =>
    apply Keeps.bind keeps_get
    intro addr
    split
    · exact ih
    · exact Keeps.bind keeps_bfree fun _ => Keeps.bind keeps_modifyDin fun _ => ih

lemma keeps_itruncEntries {a : Block} (js : List ℕ) : Keeps (itruncEntries a js) := by
  induction js with
  | nil => exact keeps_pure
  | cons j js ih =>
    unfold itruncEntries
    split
    · exact ih
    · exact Keeps.bind keeps_bfree fun _ => ih

/-- The blocks of a file are freed. -/
lemma keeps_itrunc {ip : ℕ} : Keeps (itrunc ip) := by
  have hindirect : Keeps (itruncIndirect ip) := by
    apply Keeps.bind keeps_get
    intro addr
    split
    · exact keeps_pure
    · exact Keeps.bind keeps_get fun a => (keeps_itruncEntries _).bind fun _ =>
        Keeps.bind keeps_bfree fun _ => keeps_modifyDin
  exact (keeps_itruncDirect _).bind fun _ => hindirect.bind fun _ =>
    Keeps.bind keeps_modifyDin fun _ => keeps_iupdate

/-- A block of a file is found, or taken. -/
lemma keeps_bmap {ip bn : ℕ} : Keeps (bmap ip bn) := by
  have haddr : ∀ i, Keeps (bmapAddr ip i) := by
    intro i
    refine Keeps.bind (keeps_act fun s => ⟨rfl, fun _ => ⟨rfl, rfl⟩⟩) fun addr => ?_
    split
    · exact Keeps.bind keeps_balloc fun b => Keeps.bind keeps_modifyDin fun _ => keeps_pure
    · exact keeps_pure
  have hentry : ∀ b i, Keeps (bmapEntry b i) := by
    intro b i
    refine Keeps.bind (keeps_act fun s => ⟨rfl, fun _ => ⟨rfl, rfl⟩⟩) fun addr => ?_
    split
    · exact Keeps.bind keeps_balloc fun c => Keeps.bind keeps_logBlock fun _ => keeps_pure
    · exact keeps_pure
  unfold bmap
  split
  · exact haddr bn
  · split
    · exact (haddr NDIRECT).bind fun b => hentry b _
    · exact keeps_panic (by decide)

lemma keeps_readi {ip off n : ℕ} : Keeps (readi ip off n) := by
  have hloop : ∀ fuel off n, Keeps (readiLoop ip fuel off n) := by
    intro fuel
    induction fuel with
    | zero => exact fun _ _ => keeps_pure
    | succ fuel ih =>
      intro off n
      unfold readiLoop
      split
      · exact keeps_pure
      · exact Keeps.bind keeps_bmap fun addr => Keeps.bind keeps_get fun head =>
          (ih _ _).bind fun tail => keeps_pure
  apply Keeps.bind keeps_get
  intro x
  split
  · exact keeps_pure
  · split
    · exact keeps_pure
    · exact (hloop _ _ _).bind fun data => keeps_pure

lemma keeps_writei {ip off : ℕ} {src : List UInt8} : Keeps (writei ip src off) := by
  have hloop : ∀ fuel off src, Keeps (writeiLoop ip fuel off src) := by
    intro fuel
    induction fuel with
    | zero => exact fun _ _ => keeps_pure
    | succ fuel ih =>
      intro off src
      unfold writeiLoop
      split
      · exact keeps_pure
      · exact Keeps.bind keeps_bmap fun addr => Keeps.bind keeps_logBlock fun _ => ih _ _
  have hsize : ∀ off n, Keeps (writeiSize ip off n) := by
    intro off n
    apply Keeps.bind keeps_get
    intro size
    split
    · exact Keeps.bind keeps_modifyDin fun _ => keeps_iupdate
    · exact keeps_pure
  apply Keeps.bind keeps_get
  intro x
  split
  · exact keeps_pure
  · split
    · exact keeps_pure
    · split
      · exact keeps_pure
      · exact (hloop _ _ _).bind fun _ => (hsize _ _).bind fun _ => keeps_pure

lemma keeps_readDirent {dp off : ℕ} {e : Panic} (he : Calm e) : Keeps (readDirent dp off e) := by
  apply Keeps.bind keeps_readi
  intro r
  rcases r with _ | de
  · exact keeps_panic he
  · dsimp only
    split
    · exact keeps_pure
    · exact keeps_panic he

/-- The count of links is changed. -/
lemma keeps_updateNlink {ip : ℕ} {g : ℕ → ℕ} : Keeps (updateNlink ip g) :=
  Keeps.bind keeps_modifyDin fun _ => keeps_iupdate

lemma keeps_isdirempty {dp : ℕ} : Keeps (isdirempty dp) := by
  have hloop : ∀ n off, Keeps (isdiremptyLoop dp n off) := by
    intro n
    induction n with
    | zero => exact fun _ => keeps_pure
    | succ n ih =>
      intro off
      apply (keeps_readDirent (by decide)).bind
      intro de
      split
      · exact keeps_pure
      · exact ih _
  exact Keeps.bind keeps_get fun size => hloop _ _

/-! ## References -/

variable {p ip : ℕ}

lemma spec_iget {inum : ℕ} : Spec T tab H L (iget inum) (fun k => k ::ₘ H) (fun _ => L) := by
  intro s hs
  unfold iget
  rw [wp_act]
  rcases (List.range NINODE).find? fun k =>
    0 < (s.icache k).ref && (s.icache k).inum == inum with _ | k
  · dsimp only
    rcases hfind : (List.range NINODE).find? fun k => (s.icache k).ref == 0 with _ | k
    · exact (by decide : Calm .igetNoInodes)
    · -- the entry was free, so nobody refers to it
      have h0 : (s.icache k).ref = 0 := by simpa using List.find?_some hfind
      have href := hs.ref k
      apply hs.setInode
      · exact fun j hj => Multiset.count_cons_of_ne hj H
      · exact fun j hj => rfl
      · rw [Multiset.count_cons_self]
        dsimp only
        omega
      · exact hs.lock k
  · apply hs.setInode
    · exact fun j hj => Multiset.count_cons_of_ne hj H
    · exact fun j hj => rfl
    · rw [Multiset.count_cons_self]
      dsimp only
      rw [hs.ref k]
      omega
    · exact hs.lock k

lemma spec_idup : Spec T tab H L (idup ip) (fun k => k ::ₘ H) (fun _ => L) := by
  have hup : Spec T tab H L
      (modify fun s => s.setInode ip { s.icache ip with ref := (s.icache ip).ref + 1 })
      (fun _ => ip ::ₘ H) (fun _ => L) := by
    intro s hs
    apply hs.setInode
    · exact fun j hj => Multiset.count_cons_of_ne hj H
    · exact fun j hj => rfl
    · rw [Multiset.count_cons_self]
      dsimp only
      rw [hs.ref ip]
      omega
    · exact hs.lock ip
  exact hup.bind fun _ => spec_pure rfl rfl

lemma spec_ilock : Spec T tab H L (ilock p ip) (fun _ => H) (fun _ => ip ::ₘ L) := by
  have hacquire : Spec T tab H L (acquire p ip) (fun _ => H) (fun _ => ip ::ₘ L) := by
    intro s hs
    unfold acquire
    rw [wp_act]
    split
    · exact (by decide : Calm .ilock)
    · split
      · trivial
      · next hfree =>
        have hlock := hs.lock ip
        rw [if_neg hfree] at hlock
        apply hs.setInode
        · exact fun j hj => rfl
        · exact fun j hj => Multiset.count_cons_of_ne hj L
        · exact hs.ref ip
        · rw [Multiset.count_cons_self, hlock]
          rfl
  exact hacquire.bind fun _ => keeps_iload _ _ _ _

/-- `iunlock` gives the lock back. -/
lemma spec_iunlock : Spec T tab H (ip ::ₘ L) (iunlock ip) (fun _ => H) (fun _ => L) := by
  intro s hs
  unfold iunlock
  rw [wp_act]
  split
  · exact (by decide : Calm .iunlock)
  · have hlock := hs.lock ip
    rw [Multiset.count_cons_self] at hlock
    apply hs.setInode
    · exact fun j hj => rfl
    · exact fun j hj => (Multiset.count_cons_of_ne hj L).symm
    · exact hs.ref ip
    · -- a lock is counted once, so none is left
      split at hlock
      · simp only [Option.isSome_none, Bool.false_eq_true, if_false]
        omega
      · omega

/-- The last step of `iput` on both of its paths. -/
lemma Refs.drop {s : State} (hs : Refs s T tab (ip ::ₘ H) L) {x : Inode}
    (href : x.ref = (s.icache ip).ref - 1) (hlock : x.lock = (s.icache ip).lock) :
    Refs (s.setInode ip x) T tab H L := by
  have hcount := hs.ref ip
  rw [Multiset.count_cons_self] at hcount
  apply hs.setInode
  · exact fun j hj => (Multiset.count_cons_of_ne hj H).symm
  · exact fun j hj => rfl
  · omega
  · rw [hlock]
    exact hs.lock ip

/-- An entry that is held has a reference. -/
lemma Refs.pos {s : State} (hs : Refs s T tab (ip ::ₘ H) L) : 0 < (s.icache ip).ref := by
  have hcount := hs.ref ip
  rw [Multiset.count_cons_self] at hcount
  omega

/-- `iput` gives a reference back. -/
lemma spec_iput : Spec T tab (ip ::ₘ H) L (iput ip) (fun _ => H) (fun _ => L) := by
  have htest : Spec T tab (ip ::ₘ H) L (iputTest ip) (fun b => if b then ip ::ₘ H else H)
      (fun _ => L) := by
    intro s hs
    unfold iputTest
    rw [wp_act]
    dsimp only
    rw [if_neg (Nat.not_lt.mpr hs.pos)]
    split
    · exact hs
    · exact hs.drop rfl rfl
  apply htest.bind
  intro b
  rcases b with _ | _
  · exact spec_pure rfl rfl
  · apply (keeps_itrunc _ _ _ _).bind
    intro _
    apply (keeps_modifyDin _ _ _ _).bind
    intro _
    apply (keeps_iupdate _ _ _ _).bind
    intro _ s hs
    rw [wp_act]
    dsimp only
    rw [if_neg (Nat.not_lt.mpr hs.pos)]
    exact hs.drop rfl rfl

/-- Lock and reference are given back. -/
lemma spec_iunlockput :
    Spec T tab (ip ::ₘ H) (ip ::ₘ L) (iunlockput ip) (fun _ => H) (fun _ => L) :=
  Spec.bind spec_iunlock fun _ => spec_iput

/-- `ialloc` takes a reference to the new inode. -/
lemma spec_ialloc {type : ℕ} : Spec T tab H L (ialloc type) (fun k => k ::ₘ H) (fun _ => L) := by
  have hloop : ∀ n inum,
      Spec T tab H L (iallocLoop type n inum) (fun k => k ::ₘ H) (fun _ => L) := by
    intro n
    induction n with
    | zero => exact fun _ => spec_panic (by decide)
    | succ n ih =>
      intro inum
      apply (keeps_iallocTry _ _ _ _).bind
      intro b
      split
      · exact spec_iget
      · exact ih _
  exact Spec.bind (keeps_get _ _ _ _) fun n => hloop _ _

end

end Kernel
end OhMyXv6
