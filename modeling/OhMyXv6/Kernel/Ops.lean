import OhMyXv6.Kernel.System

/-!
# The transactions of a function

A program is followed with one number, the transactions it is in. `Ops p n m x` says that `x`,
started in at least `n` of them, leaves `m - n` more behind, and that it never logs outside of
one. That much can be said of each function without knowing what the other processes do, but
for two tests: whether `iput` frees the inode, and whether `bmap` has to allocate. Outside of a
transaction both are assumed to come out negative; that is `Quiet`.
-/

namespace OhMyXv6
namespace Kernel

open Prog

/-- The test finds nothing to do: `iput` does not drop the last reference to an inode without
links, `bmap` finds the block allocated. -/
def Quiet (s : State) : Label → Prop
  | .iputTest ip => ¬ ((s.icache ip).ref = 1 ∧ (s.icache ip).valid ∧ (s.icache ip).din.nlink = 0)
  | .bmapAddr ip i => (s.icache ip).din.addr i ≠ 0
  | .bmapEntry b i => entry (s.disk b) i ≠ 0
  | _ => True

/-- What a step of process `p` does to the count of transactions. -/
def OpChange (p : ℕ) : Label → State → State → Prop
  | .beginOp, s, t => t.outstanding = s.outstanding + 1 ∧ t.inOp = p :: s.inOp
  | .endOp, s, t => t.outstanding = s.outstanding - 1 ∧ t.inOp = s.inOp.erase p
  | _, s, t => t.outstanding = s.outstanding ∧ t.inOp = s.inOp

/-- The discipline of process `p`; what is remembered is the number of transactions it is in. -/
def opProtocol (p : ℕ) : Protocol State Panic Label ℕ where
  allow g l := l = .logWrite ∨ l = .endOp → 0 < g
  assume g l s := g = 0 → Quiet s l
  next l g :=
    match l with
    | .beginOp => g + 1
    | .endOp => g - 1
    | _ => g
  change := OpChange p
  error l s e := e = .logWriteOutsideOfTrans → l = .logWrite ∧ s.outstanding = 0

/-- Started in `n` transactions or more, `x` leaves `m` instead of `n`, and keeps to the
discipline. -/
def Ops (p n m : ℕ) {α : Type} (x : M α) : Prop :=
  ∀ g, Guarded (opProtocol p) (g + n) x fun g' _ => g' = g + m

section
variable {p n m k : ℕ} {α β : Type}

lemma Ops.bind {x : M α} {f : α → M β} (hx : Ops p n m x) (hf : ∀ a, Ops p m k (f a)) :
    Ops p n k (x >>= f) := by
  intro g
  refine (hx g).bind fun g' a hg => ?_
  rw [hg]
  exact hf a g

lemma ops_pure {a : α} : Ops p n n (pure a : M α) := fun _ => rfl

/-- A step that neither logs nor tests. -/
lemma ops_act {f : State → Out State Panic α} (h : ∀ s, (f s).Meets
    (fun e => e ≠ .logWriteOutsideOfTrans)
    fun _ t => t.outstanding = s.outstanding ∧ t.inOp = s.inOp) :
    Ops p n n (.act .other f : M α) := by
  intro g
  refine guarded_act (by rintro (h | h) <;> cases h) fun s => ?_
  have hs := h s
  cases hf : f s with
  | done b t =>
    rw [hf] at hs
    exact ⟨hs, rfl⟩
  | wait => trivial
  | stop e =>
    rw [hf] at hs
    exact fun he => absurd he hs

/-- A step that logs. -/
lemma ops_log {f : State → Out State Panic α} (h : ∀ s, (f s).Meets
    (fun e => e = .logWriteOutsideOfTrans → s.outstanding = 0)
    fun _ t => t.outstanding = s.outstanding ∧ t.inOp = s.inOp) :
    Ops p (n + 1) (n + 1) (.act .logWrite f : M α) := by
  intro g
  refine guarded_act (fun _ => Nat.succ_pos _) fun s => ?_
  have hs := h s
  cases hf : f s with
  | done b t =>
    rw [hf] at hs
    exact ⟨hs, rfl⟩
  | wait => trivial
  | stop e =>
    rw [hf] at hs
    exact fun he => ⟨rfl, hs he⟩

/-- A test whose positive answer is only allowed inside a transaction. -/
theorem ops_test {l : Label} {f : State → Out State Panic α} {j : α → M β} (good : α → Prop)
    (hl : l ≠ .logWrite ∧ l ≠ .endOp ∧ l ≠ .beginOp) (h : ∀ s, (f s).Meets
      (fun e => e ≠ .logWriteOutsideOfTrans) fun a t =>
      t.outstanding = s.outstanding ∧ t.inOp = s.inOp ∧ (Quiet s l → good a))
    (hgood : ∀ a, good a → Ops p n n (j a))
    (hj : ∀ a m, Ops p (m + 1) (m + 1) (j a)) : Ops p n n (.act l f >>= j) := by
  intro g
  refine guarded_test ?_ fun s => ?_
  · rintro (rfl | rfl)
    · exact absurd rfl hl.1
    · exact absurd rfl hl.2.1
  have hfs := h s
  cases hf : f s with
  | wait => trivial
  | stop e =>
    rw [hf] at hfs
    exact fun he => absurd he hfs
  | done a t =>
    rw [hf] at hfs
    obtain ⟨hout, hin, hquiet⟩ := hfs
    have hchange : OpChange p l s t := by
      cases l <;> first | exact ⟨hout, hin⟩ | exact absurd rfl hl.2.1 | exact absurd rfl hl.2.2
    have hnext : (opProtocol p).next l (g + n) = g + n := by
      cases l <;> first | rfl | exact absurd rfl hl.2.1 | exact absurd rfl hl.2.2
    refine fun hs => ⟨hchange, ?_⟩
    rw [hnext]
    cases hg : g + n with
    | zero =>
      have := hgood a (hquiet (hs hg)) g
      rwa [hg] at this
    | succ d =>
      have := hj a 0 d
      rw [Nat.zero_add] at this
      exact this

/-- Looking at the state is not logging. -/
lemma ops_get {f : State → α} : Ops p n n (get f) := ops_act fun _ => ⟨rfl, rfl⟩

/-- A change that leaves the transactions alone. -/
lemma ops_modify {f : State → State} (h : ∀ s, (f s).outstanding = s.outstanding ∧
    (f s).inOp = s.inOp) : Ops p n n (modify f) := ops_act h

/-- A change of an inode in the cache. -/
lemma ops_modifyDin {ip : ℕ} {f : Dinode → Dinode} : Ops p n n (modifyDin ip f) :=
  ops_modify fun _ => ⟨rfl, rfl⟩

/-- Another panic than that of `log_write`. -/
lemma ops_panic {e : Panic} (he : e ≠ .logWriteOutsideOfTrans) : Ops p n m (panic e : M α) := by
  intro g
  exact guarded_act (by rintro (h | h) <;> cases h) fun s h => absurd h he

/-- The process is in one transaction more. -/
lemma ops_begin_op : Ops p n (n + 1) (begin_op p) := by
  intro g
  refine guarded_act (by rintro (h | h) <;> cases h) fun s => ?_
  split
  · trivial
  · exact ⟨⟨rfl, rfl⟩, rfl⟩

/-- The process is in one transaction less. -/
lemma ops_end_op : Ops p (n + 1) n (end_op p) := by
  intro g
  exact guarded_act (fun _ => Nat.succ_pos _) fun s => ⟨⟨rfl, rfl⟩, rfl⟩

end

/-! ## `log_write` -/

/-- `log_write` panics only if nobody is in a transaction. -/
lemma log_write_meets {b : ℕ} {s : State} : (log_write b s).Meets
    (fun e => e = .logWriteOutsideOfTrans → s.outstanding = 0)
    fun _ t => t.outstanding = s.outstanding ∧ t.inOp = s.inOp := by
  unfold log_write
  split
  · exact fun h => nomatch h
  · split
    · next h => exact fun _ => by omega
    · exact ⟨rfl, rfl⟩

/-- The same, with what is done next. -/
lemma log_write_andThen_meets {α : Type} {b : ℕ} {s : State} {a : α} :
    ((log_write b s).andThen fun _ t => .done a t).Meets
    (fun e => e = .logWriteOutsideOfTrans → s.outstanding = 0)
    fun _ t => t.outstanding = s.outstanding ∧ t.inOp = s.inOp := by
  have h := @log_write_meets b s
  cases hw : log_write b s with
  | done _ t =>
    rw [hw] at h
    exact h
  | wait => trivial
  | stop e =>
    rw [hw] at h
    exact h

/-! ## The functions of `fs.c` -/

section
variable {p n : ℕ}

/-- A block is changed and logged, inside of a transaction. -/
lemma ops_logBlock {b : State → ℕ} {g : State → Block} :
    Ops p (n + 1) (n + 1) (logBlock b g) := ops_log fun s => @log_write_meets _ (s.setBlock _ _)

/-- `balloc` logs the block of the free map. -/
lemma ops_ballocScan {b : ℕ} : Ops p (n + 1) (n + 1) (ballocScan b) := by
  refine ops_log fun s => ?_
  dsimp only
  split
  · exact ⟨rfl, rfl⟩
  · exact @log_write_andThen_meets _ _ (s.setBlock _ _) _

/-- By induction on the blocks of the free map. -/
lemma ops_ballocLoop {j b : ℕ} : Ops p (n + 1) (n + 1) (ballocLoop j b) := by
  induction j generalizing b with
  | zero => exact ops_panic (by decide)
  | succ j ih =>
    refine Ops.bind ops_ballocScan fun r => ?_
    cases r with
    | none => exact ih
    | some bi => exact Ops.bind ops_logBlock fun _ => ops_pure

/-- `balloc` is called inside of a transaction. -/
lemma ops_balloc : Ops p (n + 1) (n + 1) balloc := Ops.bind ops_get fun _ => ops_ballocLoop

/-- `bfree` is called inside of a transaction. -/
lemma ops_bfree {b : ℕ} : Ops p (n + 1) (n + 1) (bfree b) := by
  refine (ops_modify fun _ => ⟨rfl, rfl⟩).bind fun _ => ops_log fun s => ?_
  dsimp only
  split
  · exact @log_write_meets _ (s.setBlock _ _)
  · exact fun h => nomatch h

lemma ops_iget {inum : ℕ} : Ops p n n (iget inum) := by
  refine ops_act fun s => ?_
  split
  · exact ⟨rfl, rfl⟩
  · split
    · exact ⟨rfl, rfl⟩
    · exact fun h => nomatch h

/-- `ialloc` logs the block of the inode that it takes. -/
lemma ops_iallocTry {type inum : ℕ} : Ops p (n + 1) (n + 1) (iallocTry type inum) := by
  refine ops_log fun s => ?_
  split
  · exact @log_write_andThen_meets _ _ { s with disk := _ } _
  · exact ⟨rfl, rfl⟩

lemma ops_iallocLoop {type j inum : ℕ} :
    Ops p (n + 1) (n + 1) (iallocLoop type j inum) := by
  induction j generalizing inum with
  | zero => exact ops_panic (by decide)
  | succ j ih =>
    refine Ops.bind ops_iallocTry fun r => ?_
    split
    · exact ops_iget
    · exact ih

/-- `ialloc` is called inside of a transaction. -/
lemma ops_ialloc {type : ℕ} : Ops p (n + 1) (n + 1) (ialloc type) :=
  Ops.bind ops_get fun _ => ops_iallocLoop

/-- `iupdate` logs the block of the inode. -/
lemma ops_iupdate {ip : ℕ} : Ops p (n + 1) (n + 1) (iupdate ip) :=
  ops_log fun s => @log_write_meets _ { s with disk := _ }

lemma ops_idup {ip : ℕ} : Ops p n n (idup ip) :=
  (ops_modify fun _ => ⟨rfl, rfl⟩).bind fun _ => ops_pure

lemma ops_ilock {ip : ℕ} : Ops p n n (ilock p ip) := by
  have hacq : Ops p n n (acquire p ip) := by
    refine ops_act fun s => ?_
    split
    · exact fun h => nomatch h
    · split
      · trivial
      · exact ⟨rfl, rfl⟩
  refine hacq.bind fun _ => ops_act fun s => ?_
  dsimp only
  split
  · exact ⟨rfl, rfl⟩
  · split
    · exact fun h => nomatch h
    · exact ⟨rfl, rfl⟩

lemma ops_iunlock {ip : ℕ} : Ops p n n (iunlock ip) := by
  refine ops_act fun s => ?_
  split
  · exact fun h => nomatch h
  · exact ⟨rfl, rfl⟩

/-- The direct blocks are freed one by one. -/
lemma ops_itruncDirect {ip : ℕ} {is : List ℕ} :
    Ops p (n + 1) (n + 1) (itruncDirect ip is) := by
  induction is with
  | nil => exact ops_pure
  | cons i is ih =>
    refine Ops.bind ops_get fun addr => ?_
    split
    · exact ih
    · exact Ops.bind ops_bfree fun _ => Ops.bind ops_modifyDin fun _ => ih

/-- The entries of the indirect block are freed one by one. -/
lemma ops_itruncEntries {a : Block} {js : List ℕ} :
    Ops p (n + 1) (n + 1) (itruncEntries a js) := by
  induction js with
  | nil => exact ops_pure
  | cons j js ih =>
    unfold itruncEntries
    split
    · exact ih
    · exact Ops.bind ops_bfree fun _ => ih

/-- `itrunc` is called inside of a transaction. -/
lemma ops_itrunc {ip : ℕ} : Ops p (n + 1) (n + 1) (itrunc ip) := by
  refine Ops.bind ops_itruncDirect fun _ => Ops.bind ?_ fun _ => Ops.bind ops_modifyDin fun _ => ops_iupdate
  refine Ops.bind ops_get fun addr => ?_
  split
  · exact ops_pure
  · exact Ops.bind ops_get fun a => Ops.bind ops_itruncEntries fun _ => Ops.bind ops_bfree fun _ =>
      ops_modifyDin

/-- Outside of a transaction `iput` is assumed to find nothing to free. -/
theorem ops_iput {ip : ℕ} : Ops p n n (iput ip) := by
  refine ops_test (fun r => r = false) ⟨nofun, nofun, nofun⟩ (fun s => ?_) (fun r hr => ?_)
    fun r m => ?_
  · dsimp only
    split
    · exact Panic.noConfusion
    · split
      · next hfree => exact ⟨rfl, rfl, fun hq => absurd hfree hq⟩
      · exact ⟨rfl, rfl, fun _ => rfl⟩
  · rw [hr]
    exact ops_pure
  · split
    · refine Ops.bind ops_itrunc fun _ => Ops.bind ops_modifyDin fun _ => Ops.bind ops_iupdate fun _ =>
        ops_act fun s => ?_
      dsimp only
      split
      · exact Panic.noConfusion
      · exact ⟨rfl, rfl⟩
    · exact ops_pure

lemma ops_iunlockput {ip : ℕ} : Ops p n n (iunlockput ip) := Ops.bind ops_iunlock fun _ => ops_iput

/-- Outside of a transaction the address is assumed to be there. -/
lemma ops_bmapAddr {ip i : ℕ} : Ops p n n (bmapAddr ip i) := by
  refine ops_test (fun a => a ≠ 0) ⟨nofun, nofun, nofun⟩ (fun s => ?_) (fun a ha => ?_) fun a m => ?_
  · exact ⟨rfl, rfl, id⟩
  · rw [if_neg ha]
    exact ops_pure
  · split
    · exact Ops.bind ops_balloc fun _ => Ops.bind ops_modifyDin fun _ => ops_pure
    · exact ops_pure

/-- An entry that is there is not allocated; this is where `Quiet` is used. -/
lemma ops_bmapEntry {b i : ℕ} : Ops p n n (bmapEntry b i) := by
  refine ops_test (fun a => a ≠ 0) ⟨nofun, nofun, nofun⟩ (fun s => ?_) (fun a ha => ?_) fun a m => ?_
  · exact ⟨rfl, rfl, id⟩
  · rw [if_neg ha]
    exact ops_pure
  · split
    · exact Ops.bind ops_balloc fun _ => Ops.bind ops_logBlock fun _ => ops_pure
    · exact ops_pure

/-- A block that is there is not allocated. -/
lemma ops_bmap {ip bn : ℕ} : Ops p n n (bmap ip bn) := by
  unfold bmap
  split
  · exact ops_bmapAddr
  · split
    · exact Ops.bind ops_bmapAddr fun _ => ops_bmapEntry
    · exact ops_panic (by decide)

lemma ops_readiLoop {ip fuel off len : ℕ} : Ops p n n (readiLoop ip fuel off len) := by
  induction fuel generalizing off len with
  | zero => exact ops_pure
  | succ fuel ih =>
    unfold readiLoop
    split
    · exact ops_pure
    · exact Ops.bind ops_bmap fun _ => Ops.bind ops_get fun _ => ih.bind fun _ => ops_pure

/-- `readi` logs nothing if all blocks are there. -/
lemma ops_readi {ip off len : ℕ} : Ops p n n (readi ip off len) := by
  refine Ops.bind ops_get fun x => ?_
  split
  · exact ops_pure
  · split
    · exact ops_pure
    · exact Ops.bind ops_readiLoop fun _ => ops_pure

lemma ops_writeiLoop {ip fuel off : ℕ} {src : List UInt8} :
    Ops p (n + 1) (n + 1) (writeiLoop ip fuel off src) := by
  induction fuel generalizing off src with
  | zero => exact ops_pure
  | succ fuel ih =>
    unfold writeiLoop
    split
    · exact ops_pure
    · exact Ops.bind ops_bmap fun _ => Ops.bind ops_logBlock fun _ => ih

/-- `writei` is called inside of a transaction. -/
lemma ops_writei {ip off : ℕ} {src : List UInt8} : Ops p (n + 1) (n + 1) (writei ip src off) := by
  have hsize : ∀ len, Ops p (n + 1) (n + 1) (writeiSize ip (off + len) len) := by
    intro len
    refine Ops.bind ops_get fun size => ?_
    split
    · exact Ops.bind ops_modifyDin fun _ => ops_iupdate
    · exact ops_pure
  refine Ops.bind ops_get fun x => ?_
  split
  · exact ops_pure
  · split
    · exact ops_pure
    · split
      · exact ops_pure
      · exact Ops.bind ops_writeiLoop fun _ => (hsize _).bind fun _ => ops_pure

/-! ## Directories and paths -/

lemma ops_readDirent {dp off : ℕ} {e : Panic} (he : e ≠ .logWriteOutsideOfTrans) :
    Ops p n n (readDirent dp off e) := by
  refine Ops.bind ops_readi fun r => ?_
  cases r with
  | none => exact ops_panic he
  | some de =>
    show Ops p n n (if _ then _ else _)
    split
    · exact ops_pure
    · exact ops_panic he

lemma ops_dirlookup {dp : ℕ} {name : List UInt8} : Ops p n n (dirlookup dp name) := by
  have hloop : ∀ j off, Ops p n n (dirlookupLoop dp name j off) := by
    intro j
    induction j with
    | zero => exact fun _ => ops_pure
    | succ j ih =>
      refine fun off => (ops_readDirent (by decide)).bind fun de => ?_
      split
      · exact ih _
      · split
        · exact Ops.bind ops_iget fun _ => ops_pure
        · exact ih _
  refine Ops.bind ops_get fun x => ?_
  split
  · exact ops_panic (by decide)
  · exact hloop _ _

/-- `dirlink` is called inside of a transaction. -/
lemma ops_dirlink {dp inum : ℕ} {name : List UInt8} :
    Ops p (n + 1) (n + 1) (dirlink dp name inum) := by
  have hloop : ∀ j off, Ops p (n + 1) (n + 1) (dirlinkLoop dp j off) := by
    intro j
    induction j with
    | zero => exact fun _ => ops_pure
    | succ j ih =>
      refine fun off => (ops_readDirent (by decide)).bind fun de => ?_
      split
      · exact ops_pure
      · exact ih _
  refine Ops.bind ops_dirlookup fun r => ?_
  rcases r with _ | ⟨ip, off⟩
  · refine Ops.bind ops_get fun size => (hloop _ _).bind fun off => Ops.bind ops_writei fun r => ?_
    split
    · exact ops_pure
    · exact ops_panic (by decide)
  · exact Ops.bind ops_iput fun _ => ops_pure

/-- `namex` gives each directory back with `iput`, which may free it. -/
lemma ops_namex {path : List UInt8} {parent : Bool} : Ops p n n (namex p path parent) := by
  have hloop : ∀ fuel ip path, Ops p n n (namexLoop p parent fuel ip path) := by
    intro fuel
    induction fuel with
    | zero => exact fun _ _ => ops_pure
    | succ fuel ih =>
      intro ip path
      unfold namexLoop
      rcases skipelem path with _ | ⟨name, rest⟩
      · dsimp only
        split
        · exact Ops.bind ops_iput fun _ => ops_pure
        · exact ops_pure
      · refine Ops.bind ops_ilock fun _ => Ops.bind ops_get fun type => ?_
        split
        · exact Ops.bind ops_iunlockput fun _ => ops_pure
        · split
          · exact Ops.bind ops_iunlock fun _ => ops_pure
          · refine Ops.bind ops_dirlookup fun r => ?_
            rcases r with _ | ⟨a, b⟩
            · exact Ops.bind ops_iunlockput fun _ => ops_pure
            · exact Ops.bind ops_iunlockput fun _ => ih _ _
  have hstart : Ops p n n (namexStart p path) := by
    unfold namexStart
    split
    · exact ops_iget
    · exact Ops.bind ops_get fun _ => ops_idup
  exact hstart.bind fun _ => hloop _ _ _

/-- `namei` is as quiet as `namex`. -/
lemma ops_namei {path : List UInt8} : Ops p n n (namei p path) :=
  Ops.bind ops_namex fun _ => ops_pure

/-! ## Open files -/

lemma ops_filealloc : Ops p n n filealloc := by
  refine ops_act fun s => ?_
  split <;> exact ⟨rfl, rfl⟩

lemma ops_filedup {f : ℕ} : Ops p n n (filedup f) := by
  refine ops_act fun s => ?_
  split
  · exact fun h => nomatch h
  · exact ⟨rfl, rfl⟩

lemma ops_pipeclose {pg : ℕ} {writable : Bool} : Ops p n n (pipeclose pg writable) := by
  refine ops_act fun s => ?_
  split
  · exact Panic.noConfusion
  · split
    · exact ⟨rfl, rfl⟩
    · exact Panic.noConfusion

/-- `fileclose` has a transaction of its own around `iput`. -/
lemma ops_fileclose {f : ℕ} : Ops p n n (fileclose p f) := by
  have hdrop : Ops p n n (filedrop f) := by
    refine ops_act fun s => ?_
    dsimp only
    split
    · exact fun h => nomatch h
    · split <;> exact ⟨rfl, rfl⟩
  refine hdrop.bind fun ff => ?_
  rcases ff with _ | a
  · exact ops_pure
  · dsimp only
    cases a.type with
    | FD_NONE => exact ops_pure
    | FD_PIPE => exact ops_pipeclose
    | FD_INODE => exact Ops.bind ops_begin_op fun _ => Ops.bind ops_iput fun _ => ops_end_op

lemma ops_filestat {f : ℕ} : Ops p n n (filestat p f) := by
  refine Ops.bind ops_get fun x => ?_
  split
  · exact Ops.bind ops_ilock fun _ => Ops.bind ops_get fun _ => Ops.bind ops_iunlock fun _ => ops_pure
  · exact ops_pure

/-- The offset of a file is moved. -/
lemma ops_advance {f r : ℕ} : Ops p n n (advance f r) := ops_modify fun _ => ⟨rfl, rfl⟩

/-- `fileread` logs nothing if all blocks are there. -/
lemma ops_fileread {f len : ℕ} {ext : Ret} : Ops p n n (fileread p f len ext) := by
  have hinode : ∀ ip, Ops p n n (filereadInode f ip len) := by
    refine fun ip => Ops.bind ops_get fun off => Ops.bind ops_readi fun r => ?_
    rcases r with _ | a
    · exact Ops.bind ops_iunlock fun _ => ops_pure
    · exact Ops.bind ops_advance fun _ => Ops.bind ops_iunlock fun _ => ops_pure
  refine Ops.bind ops_get fun x => ?_
  split
  · exact ops_pure
  · cases x.type with
    | FD_NONE => exact ops_panic (by decide)
    | FD_PIPE => exact ops_pure
    | FD_INODE =>
      refine Ops.bind ops_get fun din => ?_
      split
      · exact ops_pure
      · exact Ops.bind ops_ilock fun _ => hinode _

/-- `filewrite` has a transaction around each `writei`. -/
lemma ops_filewrite {f : ℕ} {src : List UInt8} {ext : Ret} :
    Ops p n n (filewrite p f src ext) := by
  have hround : ∀ ip src, Ops p n n (filewriteRound p f ip src) := fun ip src =>
    Ops.bind ops_begin_op fun _ => Ops.bind ops_ilock fun _ => Ops.bind ops_get fun _ => Ops.bind ops_writei
      fun _ => Ops.bind ops_advance fun _ => Ops.bind ops_iunlock fun _ => Ops.bind ops_end_op fun _ => ops_pure
  have hloop : ∀ ip fuel src, Ops p n n (filewriteLoop p f ip fuel src) := by
    intro ip fuel
    induction fuel with
    | zero => exact fun _ => ops_pure
    | succ fuel ih =>
      intro src
      unfold filewriteLoop
      split
      · exact ops_pure
      · refine (hround _ _).bind fun r => ?_
        rcases r with _ | a
        · exact ops_pure
        · dsimp only
          split
          · exact ops_panic (by decide)
          · exact ih _
  refine Ops.bind ops_get fun x => ?_
  split
  · exact ops_pure
  · cases x.type with
    | FD_NONE => exact ops_panic (by decide)
    | FD_PIPE => exact ops_pure
    | FD_INODE =>
      refine Ops.bind ops_get fun din => ?_
      split
      · exact ops_pure
      · exact (hloop _ _ _).bind fun _ => ops_pure

lemma ops_fileseek {f : ℕ} {offset position : ℤ} :
    Ops p n n (fileseek p f offset position) := by
  refine Ops.bind ops_filestat fun st => ?_
  rcases st with _ | a
  · exact ops_pure
  · refine Ops.bind ops_get fun off => ?_
    rcases seekTarget off a.size offset position with _ | target
    · exact ops_pure
    · exact (ops_modify fun _ => ⟨rfl, rfl⟩).bind fun _ => ops_pure

end

end Kernel
end OhMyXv6
