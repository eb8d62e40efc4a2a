import OhMyXv6.Kernel.Image

/-!
# The inode cache as its users see it

`Cached s X v H` relates the inode cache of a state, inside a system call or between two, to a `View`:
the inodes `X` and the references to them. A reference is held by the tables (an open file, a current
directory) or by the system call that is running; `H` lists those of the running call. The reference
count of a cache entry is the number of both.
-/

namespace OhMyXv6
namespace Kernel

/-- A reference that the running system call holds: the cache entry, the inode, and whether the
entry is known to be valid. -/
structure Held where
  ip : ℕ
  inum : ℕ
  valid : Bool

/-- The number of references to cache entry `k` in a list. -/
def refsTo (H : List Held) (k : ℕ) : ℕ := H.countP fun h => h.ip == k

/-- What the tables refer to, and what the running call may not change. -/
structure View where
  /-- References to a cache entry from the tables. -/
  tab : ℕ → ℕ
  /-- The inode of a cache entry that the tables refer to. -/
  inum : ℕ → ℕ
  /-- Inodes that may be without links and without a valid cache entry. -/
  fresh : ℕ → Prop
  ftable : ℕ → File
  proc : ℕ → Proc

/-- The inode cache agrees with the inodes `X` and has the references of `v` and `H`. -/
structure Cached (s : State) (X : ℕ → Dinode) (v : View) (H : List Held) : Prop where
  inum : ∀ k < NINODE, 0 < (s.icache k).ref → (s.icache k).inum < s.sb.ninodes
  din : ∀ k < NINODE, 0 < (s.icache k).ref → (s.icache k).valid = true →
    (s.icache k).din = X (s.icache k).inum ∧ (X (s.icache k).inum).type ≠ 0
  distinct : ∀ k < NINODE, ∀ l < NINODE, 0 < (s.icache k).ref → 0 < (s.icache l).ref →
    (s.icache k).inum = (s.icache l).inum → k = l
  refs : ∀ k < NINODE, (s.icache k).ref = v.tab k + refsTo H k
  held : ∀ h ∈ H, h.ip < NINODE ∧ (s.icache h.ip).inum = h.inum ∧
    (h.valid = true → (s.icache h.ip).valid = true)
  tab : ∀ k, 0 < v.tab k → k < NINODE ∧ (s.icache k).inum = v.inum k ∧ (X (v.inum k)).type ≠ 0
  /-- An inode without links is in use, and `iput` will see it. -/
  unlinked : ∀ i, Live s.sb X i → (X i).nlink = 0 → v.fresh i ∨
    ∃ k < NINODE, 0 < (s.icache k).ref ∧ (s.icache k).inum = i ∧ (s.icache k).valid = true
  ftable : s.ftable = v.ftable
  proc : s.proc = v.proc

/-! ## Counting -/

lemma refsTo_cons (h : Held) (H : List Held) (k : ℕ) :
    refsTo (h :: H) k = refsTo H k + if h.ip = k then 1 else 0 := by
  unfold refsTo
  rw [List.countP_cons]
  simp only [beq_iff_eq]

/-- A reference in the list is counted. -/
lemma refsTo_pos {H : List Held} {h : Held} (hmem : h ∈ H) : 0 < refsTo H h.ip := by
  unfold refsTo
  rw [List.countP_pos_iff]
  exact ⟨h, hmem, by simp⟩

lemma refsTo_perm {H H' : List Held} (h : H.Perm H') (k : ℕ) : refsTo H k = refsTo H' k :=
  h.countP_eq _

/-- What is counted is in the list. -/
lemma mem_of_refsTo_pos {H : List Held} {k : ℕ} (h : 0 < refsTo H k) : ∃ e ∈ H, e.ip = k := by
  unfold refsTo at h
  rw [List.countP_pos_iff] at h
  obtain ⟨e, he, hk⟩ := h
  exact ⟨e, he, by simpa using hk⟩

/-! ## Changes that do not matter -/

section
variable {s t : State} {v : View} {H H' : List Held} {X : ℕ → Dinode}

/-- The log, the locks and the history are no part of the relation. -/
theorem Cached.congr (h : Cached s X v H) (hsb : t.sb = s.sb)
    (hcache : ∀ k, (t.icache k).inum = (s.icache k).inum ∧ (t.icache k).ref = (s.icache k).ref ∧
      (t.icache k).valid = (s.icache k).valid ∧ (t.icache k).din = (s.icache k).din)
    (hftable : t.ftable = s.ftable) (hproc : t.proc = s.proc) : Cached t X v H := by
  have hi := fun k => (hcache k).1
  have hr := fun k => (hcache k).2.1
  have hv := fun k => (hcache k).2.2.1
  have hd := fun k => (hcache k).2.2.2
  constructor
  · intro k hk
    rw [hi, hr, hsb]
    exact h.inum k hk
  · intro k hk
    rw [hi, hr, hv, hd]
    exact h.din k hk
  · intro k hk l hl
    rw [hi, hi, hr, hr]
    exact h.distinct k hk l hl
  · intro k hk
    rw [hr]
    exact h.refs k hk
  · intro e he
    rw [hi, hv]
    exact h.held e he
  · intro k hk
    rw [hi]
    exact h.tab k hk
  · intro i
    simp only [hi, hr, hv, hsb]
    exact h.unlinked i
  · rw [hftable, h.ftable]
  · rw [hproc, h.proc]

/-- The order of the references does not matter. -/
lemma Cached.perm (h : Cached s X v H) (hp : H.Perm H') : Cached s X v H' :=
  ⟨h.inum, h.din, h.distinct, fun k hk => by rw [h.refs k hk, refsTo_perm hp],
    fun e he => h.held e (hp.mem_iff.mpr he), h.tab, h.unlinked, h.ftable, h.proc⟩

/-! ## What is known of a held entry -/

/-- An entry that is held has a reference. -/
lemma Cached.pos (h : Cached s X v H) {e : Held} (he : e ∈ H) : 0 < (s.icache e.ip).ref := by
  have hpos := refsTo_pos he
  rw [h.refs _ (h.held e he).1]
  omega

/-- A held entry is one for an inode that there is. -/
lemma Cached.inum_lt (h : Cached s X v H) {e : Held} (he : e ∈ H) : e.inum < s.sb.ninodes := by
  have hk := h.held e he
  rw [← hk.2.1]
  exact h.inum _ hk.1 (h.pos he)

end

end Kernel
end OhMyXv6
