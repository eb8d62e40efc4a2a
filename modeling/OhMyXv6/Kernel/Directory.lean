import OhMyXv6.Kernel.Entries
import OhMyXv6.Kernel.Readback

/-!
# A directory is a finite map

`dirlookup`, `dirlink` and the clearing of an entry in `sys_unlink`, on any directory that they have made
themselves: it maps names, told apart by their first `DIRSIZ` bytes, to inode numbers.
-/

namespace OhMyXv6
namespace Kernel

open Bytes Prog

/-- Cache entry `ip` has a directory and is referred to, and a transaction is open. -/
structure Dir (s : State) (ip : ℕ) : Prop where
  holds : ∃ X A, Holds s ip X A
  type : (s.icache ip).din.type = T_DIR
  ref : 0 < (s.icache ip).ref
  outstanding : 1 ≤ s.outstanding

/-- Directory contents that `dirlink` and `sys_unlink` make out of an empty directory. Between two of
their calls the file system may change in any way that leaves these contents as they are. -/
inductive Linked : Node → Prop
  | empty {x : Node} : x.size = 0 → Linked x
  | link {s t : State} {ip inum : ℕ} {name : List UInt8} {r : Bool} : Dir s ip →
      Linked (s.cached ip) → 0 ∉ name → inum ≠ 0 → inum < 2 ^ 16 →
      Prog.exec (dirlink ip name inum) s = .done r t → Linked (t.cached ip)
  | unlink {s u v t : State} {ip e off : ℕ} {name : List UInt8} {r : Option ℕ} : Dir s ip →
      Linked (s.cached ip) → 0 ∉ name →
      Prog.exec (dirlookup ip name) s = .done (some (e, off)) u → Dir v ip →
      v.cached ip = u.cached ip →
      Prog.exec (writei ip (List.replicate DIRENTSIZE 0) off) v = .done r t → Linked (t.cached ip)
  | other {x y : Node} : Linked x → y.size = x.size → y.data = x.data → Linked y

/-- Every entry of the inode cache is in use. -/
def CacheFull (s : State) : Prop := ∀ k < NINODE, 0 < (s.icache k).ref

/-- `dirlookup` answers as a map that has `o` for the name. It needs a cache entry for the inode it
finds. -/
def LooksUp (s : State) (ip : ℕ) (name : List UInt8) (o : Option ℕ) : Prop :=
  Ends (fun e => e = .igetNoInodes ∧ o ≠ none ∧ CacheFull s) (dirlookup ip name)
    (fun r t => r.map (fun a => (t.icache a.1).inum) = o ∧ t.cached ip = s.cached ip) s

/-- Nothing has changed but entries of the inode cache that are not in use. -/
def Unchanged (s t : State) : Prop := t = { s with icache := t.icache } ∧
  ∀ k, (t.icache k).ref = (s.icache k).ref ∧ (0 < (s.icache k).ref → t.icache k = s.icache k)

/-- Too few blocks are left on the disk for one more entry, or in the log. -/
def NoRoom (s : State) (e : Panic) : Prop :=
  e = .ballocOutOfBlocks ∧ freeCount s.sb s.disk < 2 ∨
    e = .tooBigATransaction ∧ s.logLimit ≤ s.lh.length + 7

/-- The directory in cache entry `ip` is a finite map. -/
structure FiniteMap (s : State) (ip : ℕ) : Prop where
  unique : ∀ j k, (s.cached ip).Has j → (s.cached ip).Has k →
    (s.cached ip).field j = (s.cached ip).field k → j = k
  live : ∀ name, 0 ∉ name → ((s.cached ip).binding name ≠ none ↔
    ∃ k, (s.cached ip).Has k ∧ (s.cached ip).field k = padded name)
  lookup : ∀ name, 0 ∉ name → LooksUp s ip name ((s.cached ip).binding name)
  present : ∀ name inum, 0 ∉ name → (s.cached ip).binding name ≠ none →
    Ends (fun e => e = .igetNoInodes ∧ CacheFull s) (dirlink ip name inum)
      (fun r t => r = false ∧ Unchanged s t) s
  absent : ∀ name inum, 0 ∉ name → inum ≠ 0 → inum < 2 ^ 16 → (s.cached ip).binding name = none →
    Ends (NoRoom s) (dirlink ip name inum) (fun r t => r = true ∧
      (∀ other, 0 ∉ other → LooksUp t ip other (if other.take DIRSIZ = name.take DIRSIZ then some inum
        else (s.cached ip).binding other)) ∧
      ((∃ k, DIRENTSIZE * (k + 1) ≤ (s.cached ip).size ∧ (s.cached ip).inum k = 0) →
        (t.cached ip).size = (s.cached ip).size)) s
  clear : ∀ name e off u v, 0 ∉ name → Prog.exec (dirlookup ip name) s = .done (some (e, off)) u →
    Dir v ip → v.cached ip = u.cached ip →
    Ends (fun e => e = .tooBigATransaction ∧ v.logLimit ≤ v.lh.length + 7)
      (writei ip (List.replicate DIRENTSIZE 0) off) (fun r t => r = some DIRENTSIZE ∧
        ∀ other, 0 ∉ other → LooksUp t ip other (if other.take DIRSIZ = name.take DIRSIZ then none
          else (s.cached ip).binding other)) v

section
variable {s t : State} {ip i : ℕ}

/-! ## The inode cache -/

/-- From `s` to `t`, entry `e` of the cache has got one more reference, and it is for inode `i`. -/
inductive Got (s t : State) (e i : ℕ) : Prop
  | hit : e < NINODE → 0 < (s.icache e).ref → (s.icache e).inum = i →
      t = s.setInode e { s.icache e with ref := (s.icache e).ref + 1 } → Got s t e i
  | miss : e < NINODE → (s.icache e).ref = 0 →
      t = s.setInode e { s.icache e with inum := i, ref := 1, valid := false } → Got s t e i

/-- `iget` holds the inode in an entry of the cache, or the cache is full. -/
lemma iget_got (s : State) (i : ℕ) :
    Ends (fun e => e = .igetNoInodes ∧ CacheFull s) (iget i) (fun e t => Got s t e i) s := by
  unfold iget
  rw [ends_act]
  rcases hhit : (List.range NINODE).find? fun k =>
      0 < (s.icache k).ref && (s.icache k).inum == i with _ | e
  · dsimp only
    rcases hfree : (List.range NINODE).find? fun k => (s.icache k).ref == 0 with _ | e
    · refine ⟨rfl, fun k hk => ?_⟩
      have hnot := List.find?_eq_none.mp hfree k (List.mem_range.mpr hk)
      rw [beq_iff_eq] at hnot
      omega
    · have h0 := List.find?_some hfree
      exact .miss (List.mem_range.mp (List.mem_of_find?_eq_some hfree)) (beq_iff_eq.mp h0) rfl
  · have hfound := List.find?_some hhit
    rw [Bool.and_eq_true, decide_eq_true_eq, beq_iff_eq] at hfound
    exact .hit (List.mem_range.mp (List.mem_of_find?_eq_some hhit)) hfound.1 hfound.2 rfl

lemma Got.inum_eq {e : ℕ} (h : Got s t e i) : (t.icache e).inum = i := by
  cases h with
  | hit _ _ hi ht =>
    rw [ht, State.setInode_self]
    exact hi
  | miss _ _ ht => rw [ht, State.setInode_self]

/-- A directory that is in use stays as it is when some inode gets one more reference. -/
theorem Got.dir {e : ℕ} (h : Got s t e i) (hdir : Dir s ip) : Dir t ip := by
  obtain ⟨⟨X, A, hh⟩, htype, href, hout⟩ := hdir
  obtain ⟨hkeep, hent⟩ : t = { s with icache := t.icache } ∧ (t.icache ip).din = (s.icache ip).din ∧
      (t.icache ip).inum = (s.icache ip).inum ∧ 0 < (t.icache ip).ref := by
    by_cases he : ip = e
    · cases h with
      | hit _ _ _ ht => rw [ht, he, State.setInode_self]; exact ⟨rfl, rfl, rfl, Nat.succ_pos _⟩
      | miss _ h0 ht =>
        rw [he] at href
        omega
    · cases h with
      | hit _ _ _ ht => rw [ht, State.setInode_of_ne he]; exact ⟨rfl, rfl, rfl, href⟩
      | miss _ _ ht => rw [ht, State.setInode_of_ne he]; exact ⟨rfl, rfl, rfl, href⟩
  obtain ⟨hdin, hinum, hpos⟩ := hent
  refine ⟨⟨X, A, ?_, ?_, by rw [hdin]; exact hh.type, ?_⟩, by rw [hdin]; exact htype, hpos, ?_⟩
  · rw [hdin, hinum, hkeep]
    exact hh.image
  · rw [hinum, hkeep]
    exact hh.inum
  · rw [hkeep]
    exact hh.nodup
  · rw [hkeep]
    exact hout

/-- The file in an entry that is in use is the same as before. -/
lemma Got.cached {e : ℕ} (h : Got s t e i) (href : 0 < (s.icache ip).ref) :
    t.cached ip = s.cached ip := by
  have hdisk : t.disk = s.disk := by
    cases h with
    | hit _ _ _ ht => rw [ht]; rfl
    | miss _ _ ht => rw [ht]; rfl
  have hdin : (t.icache ip).din = (s.icache ip).din := by
    by_cases he : ip = e
    · cases h with
      | hit _ _ _ ht => rw [ht, he, State.setInode_self]
      | miss _ h0 ht =>
        rw [he] at href
        omega
    · cases h with
      | hit _ _ _ ht => rw [ht, State.setInode_of_ne he]
      | miss _ _ ht => rw [ht, State.setInode_of_ne he]
  unfold State.cached
  rw [hdisk, hdin]

/-- `iput` that does not free only counts down. -/
lemma exec_iput {e : ℕ} (hpos : 0 < (s.icache e).ref) (hx : ¬ ((s.icache e).ref = 1 ∧ (s.icache e).valid = true ∧
    (s.icache e).din.nlink = 0)) : Prog.exec (iput e) s
      = .done () (s.setInode e { s.icache e with ref := (s.icache e).ref - 1 }) := by
  unfold iput iputTest
  rw [exec_bind, exec_act]
  dsimp only
  rw [if_neg (Nat.not_lt.mpr hpos), if_neg hx]
  rfl

/-- Giving the reference back at once frees no inode: somebody else has another one, or the inode has
not been read from the disk. -/
theorem Got.iput {e : ℕ} (h : Got s t e i) :
    ∃ u, Prog.exec (Kernel.iput e) t = .done () u ∧ Unchanged s u := by
  cases h with
  | hit _ hpos _ ht =>
    have hself : t.icache e = { s.icache e with ref := (s.icache e).ref + 1 } := by
      rw [ht, State.setInode_self]
    have hback : t.setInode e { t.icache e with ref := (t.icache e).ref - 1 } = s := by
      rw [hself, ht]
      unfold State.setInode
      rw [Function.update_idem, Nat.add_sub_cancel]
      exact congrArg (fun c => { s with icache := c }) (Function.update_eq_self _ _)
    refine ⟨s, ?_, rfl, fun k => ⟨rfl, fun _ => rfl⟩⟩
    rw [exec_iput (by rw [hself]; exact Nat.succ_pos _), hback]
    rw [hself]
    rintro ⟨hone, -⟩
    have hone' : (s.icache e).ref + 1 = 1 := hone
    omega
  | miss _ h0 ht =>
    have hself : t.icache e = { s.icache e with inum := i, ref := 1, valid := false } := by
      rw [ht, State.setInode_self]
    refine ⟨_, exec_iput (by rw [hself]; exact Nat.one_pos)
      (by rw [hself]; exact fun hx => nomatch hx.2.1), ?_, fun k => ?_⟩
    · rw [ht]
      rfl
    · by_cases hk : k = e
      · rw [hk, State.setInode_self, hself]
        exact ⟨h0.symm, fun hpos => by omega⟩
      · rw [State.setInode_of_ne hk, ht, State.setInode_of_ne hk]
        exact ⟨rfl, fun _ => rfl⟩

end

section
variable {s t : State} {ip i k m off inum : ℕ} {name other src : List UInt8}

/-! ## Looking for a name -/

/-- A directory is a file, so its size is bounded. -/
lemma Dir.size_le (h : Dir s ip) : (s.icache ip).din.size ≤ MAXFILE * BSIZE := by
  obtain ⟨X, A, hh⟩ := h.holds
  have hshort := hh.image.short _ hh.live
  rwa [Function.update_self] at hshort

/-- Offsets in a directory do not wrap around. -/
lemma Dir.size_lt (h : Dir s ip) : (s.icache ip).din.size < 2 ^ 32 := by
  have hM : MAXFILE * BSIZE = 71680 := rfl
  have hle := h.size_le
  omega

lemma Dir.ne_dev (h : Dir s ip) : (s.icache ip).din.type ≠ T_DEV := by
  rw [h.type]
  decide

/-- Every entry of a directory is in a block that is there. -/
lemma Dir.hasBlock (h : Dir s ip) (hlt : DIRENTSIZE * k < (s.icache ip).din.size) :
    s.HasBlock ip (DIRENTSIZE * k / BSIZE) := by
  obtain ⟨X, A, hh⟩ := h.holds
  exact hh.hasBlock (Nat.lt_of_le_of_lt (Nat.div_mul_le_self _ _) hlt)

/-- What `dirlookup` does with a name that is there. -/
lemma Dir.dirlookup_got (h : Dir s ip) (hx : (s.cached ip).Proper) (h0 : 0 ∉ name)
    (hfind : (s.cached ip).find name = some k) :
    Ends (fun e => e = .igetNoInodes ∧ CacheFull s) (dirlookup ip name)
      (fun r t => ∃ e, r = some (e, DIRENTSIZE * k) ∧ Got s t e ((s.cached ip).inum k)) s := by
  have hS : DIRENTSIZE = 16 := rfl
  have hk := ((hx.find_eq_some h0).mp hfind).1
  have hin : DIRENTSIZE * (k + 1) ≤ (s.icache ip).din.size := hk.1
  have hexec := exec_dirlookup h.type h.size_lt hfind hin (by
    intro j hj
    apply h.hasBlock
    rw [hS] at hin ⊢
    omega)
  have hget := iget_got s ((s.cached ip).inum k)
  unfold Ends at hget ⊢
  rw [hexec]
  cases hrun : Prog.exec (iget ((s.cached ip).inum k)) s with
  | done e t =>
    rw [hrun] at hget
    exact ⟨e, rfl, hget⟩
  | wait =>
    rw [hrun] at hget
    exact hget
  | stop e =>
    rw [hrun] at hget
    exact hget

/-- `dirlookup` of a name that is not there changes nothing. -/
lemma Dir.dirlookup_none (h : Dir s ip) (hal : DIRENTSIZE ∣ (s.cached ip).size)
    (hfind : (s.cached ip).find name = none) : Prog.exec (dirlookup ip name) s = .done none s :=
  exec_dirlookup_none h.type h.size_lt hal hfind fun _ hlt => h.hasBlock hlt

lemma binding_eq_none {x : Node} : x.binding name = none ↔ x.find name = none := by
  unfold Node.binding
  rw [Option.map_eq_none_iff]

/-- A name that is bound has an entry. -/
lemma exists_find {x : Node} (h : x.binding name ≠ none) : ∃ k, x.find name = some k := by
  rw [ne_eq, binding_eq_none] at h
  exact Option.ne_none_iff_exists'.mp h

/-- `dirlookup` is the lookup in the directory as a map from names to inodes. -/
lemma Dir.finds (h : Dir s ip) (hx : (s.cached ip).Proper) (h0 : 0 ∉ name) :
    LooksUp s ip name ((s.cached ip).binding name) := by
  unfold LooksUp Node.binding
  cases hfind : (s.cached ip).find name with
  | none =>
    unfold Ends
    rw [h.dirlookup_none hx.aligned hfind]
    exact ⟨rfl, rfl⟩
  | some k =>
    refine (h.dirlookup_got hx h0 hfind).mono (fun e he => ⟨he.1, nofun, he.2⟩) ?_
    rintro _ t ⟨e, rfl, hgot⟩
    exact ⟨congrArg some hgot.inum_eq, hgot.cached h.ref⟩

/-! ## The place for a new entry -/

/-- The loop of `dirlink` ends at the first entry that is not in use. -/
theorem Dir.exec_dirlinkLoop (h : Dir s ip) (hin : DIRENTSIZE * (i + m) ≤ (s.icache ip).din.size) :
    ∃ k, Prog.exec (dirlinkLoop ip m (DIRENTSIZE * i)) s = .done (DIRENTSIZE * k) s ∧
      k ≤ i + m ∧ (k < i + m → (s.cached ip).inum k = 0) ∧
      ∀ j, i ≤ j → j < k → (s.cached ip).inum j ≠ 0 := by
  have hS : DIRENTSIZE = 16 := rfl
  have hlt := h.size_lt
  induction m generalizing i with
  | zero => exact ⟨i, rfl, Nat.le_refl _, fun hlt => absurd hlt (Nat.lt_irrefl _), by omega⟩
  | succ m ih =>
    have hend : DIRENTSIZE * (i + 1) ≤ (s.icache ip).din.size := by
      rw [hS] at hin ⊢
      omega
    have hhere : DIRENTSIZE * i < (s.icache ip).din.size := by
      rw [hS] at hend ⊢
      omega
    have hread := exec_readDirent (e := .dirlinkRead) h.ne_dev hend (by omega) (h.hasBlock hhere)
    have hnext : DIRENTSIZE * i + DIRENTSIZE = DIRENTSIZE * (i + 1) := (Nat.mul_succ _ _).symm
    rw [dirlinkLoop, exec_seq hread, deInum_entryBytes, hnext]
    by_cases hinum : direntInum (s.cached ip).data i = 0
    · rw [if_pos hinum]
      exact ⟨i, rfl, by omega, fun _ => hinum, by omega⟩
    · rw [if_neg hinum]
      obtain ⟨k, hexec, hle, hfree, hused⟩ := ih (i := i + 1) (by
        rw [show i + 1 + m = i + (m + 1) by omega]
        exact hin)
      refine ⟨k, hexec, by omega, fun hk => hfree (by omega), fun j hij hjk => ?_⟩
      by_cases hj : j = i
      · exact hj ▸ hinum
      · exact hused j (by omega) hjk

/-! ## Writing an entry -/

lemma blocks_entry (k : ℕ) : blocks (DIRENTSIZE * k) DIRENTSIZE = {DIRENTSIZE * k / BSIZE} := by
  have hB : BSIZE = 512 := rfl
  have hS : DIRENTSIZE = 16 := rfl
  ext b
  rw [mem_blocks, Finset.mem_singleton, hB, hS]
  omega

/-- A write of an entry, in the directory as a node. -/
lemma Wrote.cached {X X' : ℕ → Dinode} {A : Nodes} (h : Holds s ip X A)
    (ht : Holds t ip X' (A.write (s.icache ip).inum off src)) (hw : Wrote s t ip off src)
    (hlen : src.length ≠ 0) : t.cached ip = (s.cached ip).store off src := by
  have hnode := ht.node
  rw [hw.inum, Nodes.write_self, h.node] at hnode
  unfold Node.store
  rw [if_neg hlen, ← hnode]

/-- An entry is written at its place in the directory, or behind the last one. -/
theorem Dir.writei_entry (h : Dir s ip) {X : ℕ → Dinode} {A : Nodes} (hh : Holds s ip X A)
    (hk : DIRENTSIZE * k ≤ (s.icache ip).din.size) (hsrc : src.length = DIRENTSIZE) :
    Ends (fun e => DIRENTSIZE * k + DIRENTSIZE ≤ MAXFILE * BSIZE ∧
        Fails s ip (slots (blocks (DIRENTSIZE * k) DIRENTSIZE)) 7 e) (writei ip src (DIRENTSIZE * k))
      (fun r t => if MAXFILE * BSIZE < DIRENTSIZE * k + DIRENTSIZE then r = none ∧ t = s
        else r = some DIRENTSIZE ∧ Dir t ip ∧ Wrote s t ip (DIRENTSIZE * k) src ∧
          t.cached ip = (s.cached ip).store (DIRENTSIZE * k) src ∧
          Holds t ip X (A.write (s.icache ip).inum (DIRENTSIZE * k) src)) s := by
  have hrefused : Refused (s.icache ip).din (DIRENTSIZE * k) src.length ↔
      MAXFILE * BSIZE < DIRENTSIZE * k + DIRENTSIZE := by
    unfold Refused
    rw [hsrc]
    omega
  refine (writei_wrote hh h.outstanding h.ne_dev).mono ?_ ?_
  · rintro e ⟨hroom, hfail⟩
    rw [hrefused] at hroom
    rw [hsrc, blocks_entry, Finset.card_singleton] at hfail
    rw [blocks_entry]
    exact ⟨Nat.not_lt.mp hroom, hfail⟩
  · intro r t hrt
    by_cases hbig : MAXFILE * BSIZE < DIRENTSIZE * k + DIRENTSIZE
    · rw [if_pos (hrefused.mpr hbig)] at hrt
      rwa [if_pos hbig]
    · rw [if_neg (mt hrefused.mp hbig)] at hrt
      rw [if_neg hbig]
      obtain ⟨hr, ht, hw⟩ := hrt
      have hentry : t.icache ip = { s.icache ip with din := { (s.icache ip).din with
          addrs := (t.icache ip).din.addrs, size := (t.icache ip).din.size } } := by
        rw [hw.frame]
        simp only [Function.update_self]
      refine ⟨hsrc ▸ hr, ⟨⟨X, _, ht⟩, ?_, ?_, ?_⟩, hw, hw.cached hh ht (by rw [hsrc]; decide), ht⟩
      · rw [hentry]
        exact h.type
      · rw [hentry]
        exact h.ref
      · rw [hw.frame]
        exact h.outstanding

/-- An entry that is there is cleared. -/
lemma Dir.clear_ends (h : Dir s ip) (hk : (s.cached ip).Has k) :
    Ends (fun e => e = .tooBigATransaction ∧ s.logLimit ≤ s.lh.length + 7)
      (writei ip (List.replicate DIRENTSIZE 0) (DIRENTSIZE * k))
      (fun r t => r = some DIRENTSIZE ∧ Dir t ip ∧ t.cached ip =
        (s.cached ip).store (DIRENTSIZE * k) (List.replicate DIRENTSIZE 0)) s := by
  obtain ⟨X, A, hh⟩ := h.holds
  have hend : DIRENTSIZE * k + DIRENTSIZE ≤ (s.icache ip).din.size := hk.1
  have hroom : ¬ MAXFILE * BSIZE < DIRENTSIZE * k + DIRENTSIZE := by
    have hsize := h.size_le
    omega
  -- the block of the entry is there
  have hnone := hh.missing_eq_empty hend
  have hwrite := h.writei_entry hh (k := k) (by omega)
    (List.length_replicate : (List.replicate DIRENTSIZE (0 : UInt8)).length = DIRENTSIZE)
  unfold Fails at hwrite
  rw [hnone, Finset.card_empty] at hwrite
  refine hwrite.mono ?_ ?_
  · rintro e ⟨-, ⟨-, hless⟩ | hfull⟩
    · exact absurd hless (Nat.not_lt_zero _)
    · exact hfull
  · intro r t hrt
    rw [if_neg hroom] at hrt
    exact ⟨hrt.1, hrt.2.1, hrt.2.2.2.1⟩

/-! ## `dirlink` -/

/-- `dirlink` of a name that is there fails and changes nothing. -/
lemma Dir.dirlink_present (h : Dir s ip) (hx : (s.cached ip).Proper) (h0 : 0 ∉ name)
    (hb : (s.cached ip).binding name ≠ none) :
    Ends (fun e => e = .igetNoInodes ∧ CacheFull s) (dirlink ip name inum)
      (fun r t => r = false ∧ Unchanged s t) s := by
  obtain ⟨k, hfind⟩ := exists_find hb
  unfold dirlink
  apply Ends.seq (h.dirlookup_got hx h0 hfind)
  rintro _ t ⟨e, rfl, hgot⟩
  obtain ⟨u, hput, hsame⟩ := hgot.iput
  exact Ends.after hput ⟨rfl, hsame⟩

/-- A new name goes to the first entry that is not in use, or behind the last one. -/
theorem Dir.dirlink_absent (h : Dir s ip) {X : ℕ → Dinode} {A : Nodes} (hh : Holds s ip X A)
    (hal : DIRENTSIZE ∣ (s.cached ip).size) (hfind : (s.cached ip).find name = none) :
    Ends (fun e => NoRoom s e ∨ e = .dirlink ∧ MAXFILE * BSIZE ≤ (s.cached ip).size)
      (dirlink ip name inum) (fun r t => r = true ∧ Dir t ip ∧
        ∃ k, DIRENTSIZE * k ≤ (s.cached ip).size ∧ ¬ (s.cached ip).Has k ∧
          ((∃ j, DIRENTSIZE * (j + 1) ≤ (s.cached ip).size ∧ (s.cached ip).inum j = 0) →
            DIRENTSIZE * (k + 1) ≤ (s.cached ip).size) ∧
          Wrote s t ip (DIRENTSIZE * k) (direntBytes inum name) ∧
          t.cached ip = (s.cached ip).store (DIRENTSIZE * k) (direntBytes inum name) ∧
          Holds t ip X (A.write (s.icache ip).inum (DIRENTSIZE * k) (direntBytes inum name))) s := by
  have hS : DIRENTSIZE = 16 := rfl
  have hM : MAXFILE * BSIZE = 71680 := rfl
  obtain ⟨n, hn⟩ := hal
  have hsize : (s.icache ip).din.size = DIRENTSIZE * n := hn
  have hle := h.size_le
  unfold dirlink
  refine Ends.after (h.dirlookup_none ⟨n, hn⟩ hfind) ?_
  dsimp only
  rw [ends_get, hsize, nentries_mul]
  obtain ⟨k, hloop, hkn, hfree, hused⟩ := h.exec_dirlinkLoop (i := 0) (m := n)
    (by rw [Nat.zero_add, hsize])
  rw [Nat.zero_add] at hkn hfree
  rw [Nat.mul_zero] at hloop
  refine Ends.after hloop ?_
  have hk : DIRENTSIZE * k ≤ (s.icache ip).din.size := by
    rw [hsize]
    exact Nat.mul_le_mul_left _ hkn
  refine Ends.seq ((h.writei_entry hh hk (length_direntBytes inum name)).mono ?_ fun _ _ hq => hq) ?_
  · rintro e ⟨-, ⟨rfl, hless⟩ | hfull⟩
    · have hmissing := card_missing_le s ip (slots (blocks (DIRENTSIZE * k) DIRENTSIZE))
      have hslots := card_slots_le (blocks (DIRENTSIZE * k) DIRENTSIZE)
      rw [blocks_entry, Finset.card_singleton] at hslots
      rw [blocks_entry] at hmissing hless
      exact .inl (.inl ⟨rfl, by omega⟩)
    · exact .inl (.inr hfull)
  · intro r t hrt
    by_cases hbig : MAXFILE * BSIZE < DIRENTSIZE * k + DIRENTSIZE
    · rw [if_pos hbig] at hrt
      obtain ⟨rfl, rfl⟩ := hrt
      rw [if_neg nofun]
      refine .inr ⟨rfl, ?_⟩
      rw [hn]
      rw [hM, hS] at hbig ⊢
      omega
    · rw [if_neg hbig] at hrt
      obtain ⟨rfl, hdir, hw, hstore, ht⟩ := hrt
      rw [if_pos rfl]
      refine ⟨rfl, hdir, k, hk, ?_, ?_, hw, hstore, ht⟩
      · intro hhas
        have hin : DIRENTSIZE * (k + 1) ≤ DIRENTSIZE * n := hn ▸ hhas.1
        exact hhas.2 (hfree (Nat.lt_of_mul_lt_mul_left (Nat.lt_of_lt_of_le (by rw [hS]; omega) hin)))
      · rintro ⟨j, hj, hj0⟩
        rw [hn] at hj ⊢
        -- the loop has not gone past entry `j`
        have hkj : k ≤ j := by
          by_contra hlt
          exact hused j (Nat.zero_le j) (by omega) hj0
        exact (Nat.mul_le_mul_left _ (by omega)).trans hj

/-- The directory is there after a new name has been added. -/
lemma Dir.linked (h : Dir s ip) (hx : (s.cached ip).Proper) (h0 : 0 ∉ name)
    (hrun : Prog.exec (dirlink ip name inum) s = .done true t) : Dir t ip := by
  by_cases hb : (s.cached ip).binding name = none
  · obtain ⟨X, A, hh⟩ := h.holds
    exact ((h.dirlink_absent hh hx.aligned (binding_eq_none.mp hb)).of_done hrun).2.1
  · exact nomatch ((h.dirlink_present hx h0 hb).of_done hrun).1

/-! ## Contents -/

/-- The node of an entry of the cache that is in use has not changed. -/
lemma Unchanged.cached (h : Unchanged s t) (href : 0 < (s.icache ip).ref) :
    t.cached ip = s.cached ip := by
  have hdisk : t.disk = s.disk := by rw [h.1]
  unfold State.cached
  rw [hdisk, (h.2 ip).2 href]

/-- The entry that `dirlookup` answers with has the name. -/
lemma Dir.of_dirlookup (h : Dir s ip) (hx : (s.cached ip).Proper) (h0 : 0 ∉ name) {e : ℕ}
    (hrun : Prog.exec (dirlookup ip name) s = .done (some (e, off)) t) :
    ∃ k, off = DIRENTSIZE * k ∧ (s.cached ip).find name = some k ∧ t.cached ip = s.cached ip := by
  cases hfind : (s.cached ip).find name with
  | none =>
    rw [h.dirlookup_none hx.aligned hfind] at hrun
    exact nomatch hrun
  | some k =>
    obtain ⟨e', heq, hgot⟩ := (h.dirlookup_got hx h0 hfind).of_done hrun
    obtain ⟨-, rfl⟩ := Prod.mk.inj (Option.some.inj heq)
    exact ⟨k, rfl, rfl, hgot.cached h.ref⟩

/-- An empty directory is well formed. -/
lemma Node.proper_of_size {x : Node} (h : x.size = 0) : x.Proper := by
  have hnot : ∀ k, ¬ x.Has k := by
    intro k hk
    have hS : DIRENTSIZE = 16 := rfl
    have hle := hk.1
    rw [h, hS] at hle
    omega
  refine ⟨by rw [h]; exact Nat.dvd_zero _, fun k hk => absurd hk (hnot k), ?_⟩
  intro j k a v w hj
  exact absurd (Node.slots_eq_some.mp hj).1 (hnot j)

/-- A directory that was made by `dirlink` and `sys_unlink` is well formed. -/
lemma Linked.proper {x : Node} (h : Linked x) : x.Proper := by
  induction h with
  | empty h => exact Node.proper_of_size h
  | @link s t ip inum name r hdir _ h0 hpos hlt hrun hx =>
    cases hb : (s.cached ip).binding name with
    | none =>
      obtain ⟨X, A, hh⟩ := hdir.holds
      obtain ⟨-, -, k, hk, -, -, -, hstore, -⟩ :=
        (hdir.dirlink_absent hh hx.aligned (binding_eq_none.mp hb)).of_done hrun
      rw [hstore]
      exact hx.link hk hpos hlt h0 hb
    | some i =>
      have hne : (s.cached ip).binding name ≠ none := by
        rw [hb]
        exact nofun
      obtain ⟨-, hsame⟩ := (hdir.dirlink_present hx h0 hne).of_done hrun
      rw [hsame.cached hdir.ref]
      exact hx
  | @unlink s u v t ip e off name r hdir _ h0 hlook hdir' hv hrun hx =>
    obtain ⟨k, rfl, hfind, hu⟩ := hdir.of_dirlookup hx h0 hlook
    have hk := ((hx.find_eq_some h0).mp hfind).1
    rw [← hu, ← hv] at hx hk
    obtain ⟨-, -, hstore⟩ := (hdir'.clear_ends hk).of_done hrun
    rw [hstore]
    exact hx.unlink hk
  | @other x y _ hsize hdata hx =>
    obtain ⟨yt, ymaj, ymin, yn, ys, yd⟩ := y
    obtain rfl : ys = x.size := hsize
    obtain rfl : yd = x.data := hdata
    exact ⟨hx.aligned, hx.field, hx.unique⟩

/-- **A directory is a finite map.** -/
theorem finiteMap_of_linked (h : Dir s ip) (hlinked : Linked (s.cached ip))
    (hbelow : (s.cached ip).size < MAXFILE * BSIZE) : FiniteMap s ip := by
  have hx := hlinked.proper
  refine ⟨fun j k hj hk heq => ?_, fun name h0 => ?_, fun name h0 => h.finds hx h0, ?_, ?_, ?_⟩
  · exact hx.unique j k _ _ _ (Node.slots_eq_some.mpr ⟨hj, heq, rfl⟩)
      (Node.slots_eq_some.mpr ⟨hk, rfl, rfl⟩)
  · rw [ne_eq, binding_eq_none, ← ne_eq, Option.ne_none_iff_exists']
    exact exists_congr fun k => hx.find_eq_some h0
  · exact fun name inum h0 hb => h.dirlink_present hx h0 hb
  · intro name inum h0 hpos hlt hb
    obtain ⟨X, A, hh⟩ := h.holds
    refine (h.dirlink_absent hh hx.aligned (binding_eq_none.mp hb)).mono
      (fun e he => he.resolve_right fun hfull => ?_) ?_
    · exact absurd hbelow (Nat.not_lt.mpr hfull.2)
    rintro r t ⟨hr, hdir, k, hk, hfree, hreuse, -, hstore, -⟩
    have hx' := hx.link hk hpos hlt h0 hb
    refine ⟨hr, fun other h0' => ?_, fun hroom => ?_⟩
    · rw [← hx.binding_link hk hfree hpos hlt h0 hb h0', ← hstore]
      rw [← hstore] at hx'
      exact hdir.finds hx' h0'
    · rw [hstore, Node.store_entry (length_direntBytes _ _)]
      exact Nat.max_eq_left (hreuse hroom)
  · intro name e off u v h0 hlook hdir hv
    obtain ⟨k, rfl, hfind, hu⟩ := h.of_dirlookup hx h0 hlook
    rw [hu] at hv
    have hk := ((hx.find_eq_some h0).mp hfind).1
    refine (hdir.clear_ends (hv ▸ hk)).mono (fun _ he => he) ?_
    rintro r t ⟨hr, hdir', hstore⟩
    rw [hv] at hstore
    refine ⟨hr, fun other h0' => ?_⟩
    rw [← hx.binding_unlink h0 hfind h0', ← hstore]
    exact hdir'.finds (hstore ▸ hx.unlink hk) h0'

end

/-! ### A new directory -/

/-- What `create` has before its first `dirlink`. -/
def newDirInode : Dinode := { Dinode.zero with type := T_DIR, nlink := 1 }

/-- The disk of `oneFile` with a directory in the place of the file, inside a transaction. -/
def newDir : State where
  sb := oneFileSb
  disk := twoDisk oneFileSb oneFileBase rootInode newDirInode
  icache := twoCache rootInode newDirInode
  ftable := fun _ => ⟨.FD_NONE, 0, false, false, 0, 0, 0⟩
  proc := fun _ => ⟨true, fun _ => none, 1⟩
  pipe := fun _ => none
  outstanding := 1
  lh := []
  inOp := [0]

/-- The small disk with an empty directory. -/
lemma twoFiles_newDir : TwoFiles oneFileSb oneFileBase rootInode newDirInode 0 := by
  have h := twoFiles_oneFile
  have hz := Dinode.fits_zero
  exact { h with
    addrs := ⟨h.addrs.1, (funext fun _ => (ite_self 0).symm)⟩
    type := ⟨h.type.1, by decide⟩
    nlink := ⟨h.nlink.1, by decide⟩
    size := ⟨h.size.1, by decide, fun _ => rfl⟩
    fits := ⟨h.fits.1, by decide, hz.major, hz.minor, by decide, hz.size, hz.addrs⟩ }

lemma dir_newDir : Dir newDir 0 := by
  refine ⟨⟨twoInodes rootInode newDirInode, twoNodes oneFileSb oneFileBase rootInode newDirInode, ?_,
    by decide, by decide, List.nodup_nil⟩, rfl, by decide, Nat.le_refl 1⟩
  have himage := twoFiles_newDir.image
  have hself : Function.update (twoInodes rootInode newDirInode) 2 newDirInode
      = twoInodes rootInode newDirInode := Function.update_eq_self 2 _
  show Image oneFileSb _ (Function.update (twoInodes rootInode newDirInode) 2 newDirInode) _
  rw [hself]
  exact himage

lemma linked_newDir : Linked (newDir.cached 0) := .empty rfl

-- the run below is evaluated by the kernel alone
attribute [irreducible] newDir

/-- Three names, one of them longer than `DIRSIZ`, and the second one is taken away again. -/
def linkAndUnlink : M (Bool × Bool × Bool × Option ℕ) := do
  let a ← dirlink 0 [97] 5
  let b ← dirlink 0 [98] 6
  let c ← dirlink 0 (List.replicate 15 99) 7
  match ← dirlookup 0 [98] with
  | none => return (a, b, c, none)
  | some (_, off) =>
    let r ← writei 0 (List.replicate DIRENTSIZE 0) off
    return (a, b, c, r)

lemma linkAndUnlink_ends : Prog.Ends (fun _ => False) linkAndUnlink (fun r t =>
    r = (true, true, true, some DIRENTSIZE) ∧ (t.cached 0).size = 3 * DIRENTSIZE ∧
    (t.cached 0).inum 1 = 0 ∧ (t.cached 0).binding [97] = some 5 ∧
    (t.cached 0).binding [98] = none ∧ (t.cached 0).binding (List.replicate 14 99) = some 7)
    newDir := by
  unfold Prog.Ends
  decide +kernel

/-- The directory that comes out of it has two names, and an entry that is not in use. -/
theorem finiteMap_linkAndUnlink : ∃ t, FiniteMap t 0 ∧ (t.cached 0).size = 3 * DIRENTSIZE ∧
    (t.cached 0).inum 1 = 0 ∧ (t.cached 0).binding [97] = some 5 ∧
    (t.cached 0).binding [98] = none ∧ (t.cached 0).binding (List.replicate 14 99) = some 7 := by
  obtain ⟨a, s₁, h₁, hrest⟩ := (Prog.ends_bind.mp linkAndUnlink_ends).returns fun _ => id
  obtain ⟨b, s₂, h₂, hrest⟩ := (Prog.ends_bind.mp hrest).returns fun _ => id
  obtain ⟨c, s₃, h₃, hrest⟩ := (Prog.ends_bind.mp hrest).returns fun _ => id
  obtain ⟨found, s₄, h₄, hrest⟩ := (Prog.ends_bind.mp hrest).returns fun _ => id
  rcases found with _ | ⟨e, off⟩
  · exact nomatch hrest.1
  obtain ⟨r, t, ht, heq, hsize, hmap⟩ := (Prog.ends_bind.mp hrest).returns fun _ => id
  simp only [Prod.mk.injEq] at heq
  obtain ⟨rfl, rfl, rfl, rfl⟩ := heq
  have hp₁ := linked_newDir.link dir_newDir (by decide) (by decide) (by decide) h₁
  have hd₁ := dir_newDir.linked linked_newDir.proper (by decide) h₁
  have hp₂ := hp₁.link hd₁ (by decide) (by decide) (by decide) h₂
  have hd₂ := hd₁.linked hp₁.proper (by decide) h₂
  have hp₃ := hp₂.link hd₂ (by decide) (by decide) (by decide) h₃
  have hd₃ := hd₂.linked hp₂.proper (by decide) h₃
  obtain ⟨k, rfl, hfind, hsame⟩ := hd₃.of_dirlookup hp₃.proper (by decide) h₄
  obtain ⟨e', -, hgot⟩ := (hd₃.dirlookup_got hp₃.proper (by decide) hfind).of_done h₄
  have hd₄ := hgot.dir hd₃
  have hp := hp₃.unlink hd₃ (by decide) h₄ hd₄ rfl ht
  have hk := ((hp₃.proper.find_eq_some (by decide)).mp hfind).1
  have hd := ((hd₄.clear_ends (hsame ▸ hk)).of_done ht).2.1
  exact ⟨t, finiteMap_of_linked hd hp (by rw [hsize]; decide), hsize, hmap⟩

end Kernel
end OhMyXv6
