import OhMyXv6.Kernel.Filewrite
import OhMyXv6.Lib.Slots

/-!
# Entries of a directory as a map

The entries are a table of slots, whose keys are the fourteen bytes of the names. As long as no name is
there twice, `Node.find` reads this table as a map; storing an entry at a free place adds a name to the
map, and clearing one takes it away.
-/

namespace OhMyXv6
namespace Kernel

open Bytes

/-- The first `DIRSIZ` bytes of a name, with NULs behind it if it is shorter. -/
def padded (name : List UInt8) : List UInt8 := (List.range DIRSIZ).map fun j => name.getD j 0

namespace Node

/-- All bytes of the name in entry `k`. -/
def field (x : Node) (k : ℕ) : List UInt8 :=
  (List.range DIRSIZ).map fun j => x.data (DIRENTSIZE * k + 2 + j)

/-- The entries of a directory as a list of slots, each with a name and an inode or free. -/
def slots (x : Node) (k : ℕ) : Option (List UInt8 × ℕ) :=
  if x.Has k then some (x.field k, x.inum k) else none

/-- The inode that the directory has for a name. -/
def binding (x : Node) (name : List UInt8) : Option ℕ := (x.find name).map x.inum

/-- Whole entries, each padded with NULs behind its name, and no name twice. -/
structure Proper (x : Node) : Prop where
  aligned : DIRENTSIZE ∣ x.size
  field : ∀ k, x.Has k → x.field k = padded (x.name k)
  unique : Slots.Unique x.slots

end Node

section
variable {x : Node} {name other src : List UInt8} {i j k inum : ℕ}

/-! ## Names -/

/-- A name is padded after it is cut. -/
lemma padded_take (name : List UInt8) : padded (name.take DIRSIZ) = padded name := by
  apply List.map_congr_left
  intro j hj
  rw [List.mem_range] at hj
  rw [List.getD_eq_getElem?_getD, List.getD_eq_getElem?_getD, List.getElem?_take_of_lt hj]

/-- What is left of a name after the cut is a name. -/
lemma nameOk_take (h : 0 ∉ name) : NameOk (name.take DIRSIZ) :=
  ⟨List.length_take_le _ _, fun hmem => h (List.mem_of_mem_take hmem)⟩

/-- The name field gives back the name up to the cut. -/
lemma takeWhile_padded_take (h : 0 ∉ name) :
    (padded name).takeWhile (· ≠ 0) = name.take DIRSIZ := by
  rw [← padded_take]
  exact takeWhile_padded (nameOk_take h)

/-- Names are told apart by their first `DIRSIZ` bytes. -/
lemma padded_inj (h : 0 ∉ name) (h' : 0 ∉ other) :
    padded name = padded other ↔ name.take DIRSIZ = other.take DIRSIZ := by
  constructor
  · intro heq
    rw [← takeWhile_padded_take h, heq, takeWhile_padded_take h']
  · intro heq
    rw [← padded_take name, heq, padded_take]

/-- An entry is the same for a name and for what is left of it. -/
lemma direntBytes_take (inum : ℕ) (name : List UInt8) :
    direntBytes inum (name.take DIRSIZ) = direntBytes inum name := by
  unfold direntBytes
  rw [List.take_take, Nat.min_self, List.length_take]
  congr 2
  omega

/-! ## Looking for a name -/

namespace Node

lemma slots_eq_some {a : List UInt8} :
    x.slots k = some (a, i) ↔ x.Has k ∧ x.field k = a ∧ x.inum k = i := by
  unfold slots
  by_cases hk : x.Has k
  · rw [if_pos hk, Option.some.injEq, Prod.mk.injEq]
    exact (and_iff_right hk).symm
  · rw [if_neg hk]
    simp [hk]

lemma slots_eq_none : x.slots k = none ↔ ¬ x.Has k := by
  unfold slots
  by_cases hk : x.Has k
  · simp [hk]
  · simp [hk]

/-- An entry with an inode number is in use. -/
lemma Proper.has_of_lt (h : x.Proper) (hk : k < nentries x.size) (hinum : x.inum k ≠ 0) :
    x.Has k := by
  have hS : DIRENTSIZE = 16 := rfl
  obtain ⟨n, hn⟩ := h.aligned
  rw [hn, nentries_mul] at hk
  refine ⟨?_, hinum⟩
  rw [hn, hS]
  omega

/-- `strncmp` compares a name with the bytes of an entry. -/
lemma Proper.matches_iff (h : x.Proper) (h0 : 0 ∉ name) (hk : x.Has k) :
    x.Matches name k ↔ x.field k = padded name := by
  have hlen := length_name_le x k
  have hname : namecmp name (x.name k) = true ↔ name.take DIRSIZ = x.name k := by
    unfold namecmp
    rw [List.take_of_length_le hlen, beq_iff_eq]
  unfold Matches
  rw [hname, and_iff_right hk.2]
  constructor
  · intro heq
    rw [h.field k hk, ← heq, padded_take]
  · intro heq
    have hread : x.name k = (x.field k).takeWhile (· ≠ 0) := rfl
    rw [hread, heq, takeWhile_padded_take h0]

/-- `dirlookup` finds the entry with the padded name. -/
lemma Proper.find_eq_some (h : x.Proper) (h0 : 0 ∉ name) :
    x.find name = some k ↔ x.Has k ∧ x.field k = padded name := by
  constructor
  · intro hfind
    obtain ⟨-, hlt, hm⟩ := findFrom_some hfind
    rw [Nat.zero_add] at hlt
    have hk := h.has_of_lt hlt hm.1
    exact ⟨hk, (h.matches_iff h0 hk).mp hm⟩
  · rintro ⟨hk, hfield⟩
    have hlt := hk.lt_nentries
    apply findFrom_first (Nat.zero_le k)
    · rwa [Nat.zero_add]
    · exact (h.matches_iff h0 hk).mpr hfield
    · -- an earlier entry with this name would be a second one
      intro j hj hm
      have hjk : x.Has j := h.has_of_lt (by omega) hm.1
      have hfield' := (h.matches_iff h0 hjk).mp hm
      have heq := h.unique j k (padded name) _ _ (slots_eq_some.mpr ⟨hjk, hfield', rfl⟩)
        (slots_eq_some.mpr ⟨hk, hfield, rfl⟩)
      omega

/-- A name is bound to what its slot holds. -/
lemma Proper.binding_eq_some (h : x.Proper) (h0 : 0 ∉ name) :
    x.binding name = some i ↔ Slots.Binds x.slots (padded name) i := by
  unfold binding
  rw [Option.map_eq_some_iff]
  constructor
  · rintro ⟨k, hfind, hi⟩
    obtain ⟨hk, hfield⟩ := (h.find_eq_some h0).mp hfind
    exact ⟨k, slots_eq_some.mpr ⟨hk, hfield, hi⟩⟩
  · rintro ⟨k, hk⟩
    obtain ⟨hhas, hfield, hi⟩ := slots_eq_some.mp hk
    exact ⟨k, (h.find_eq_some h0).mpr ⟨hhas, hfield⟩, hi⟩

/-- A name that is not found is in no slot. -/
lemma Proper.not_binds (h : x.Proper) (h0 : 0 ∉ name) (hnone : x.binding name = none) :
    ¬ Slots.Binds x.slots (padded name) i := by
  intro hb
  rw [← h.binding_eq_some h0, hnone] at hb
  exact nomatch hb

/-! ## One entry stored -/

/-- A write of one entry, as bytes. -/
lemma store_entry (hsrc : src.length = DIRENTSIZE) : x.store (DIRENTSIZE * k) src =
    { x with
      data := blit x.data (DIRENTSIZE * k) DIRENTSIZE (ofList src)
      size := max x.size (DIRENTSIZE * k + DIRENTSIZE) } := by
  unfold store
  rw [if_neg (by rw [hsrc]; decide), hsrc]

/-- A directory with one entry more is a number of entries. -/
lemma aligned_store (hal : DIRENTSIZE ∣ x.size) (hsrc : src.length = DIRENTSIZE) :
    DIRENTSIZE ∣ (x.store (DIRENTSIZE * k) src).size := by
  have hS : DIRENTSIZE = 16 := rfl
  rw [store_entry hsrc]
  show DIRENTSIZE ∣ max x.size (DIRENTSIZE * k + DIRENTSIZE)
  rw [hS] at hal ⊢
  omega

/-- The other entries are as before. -/
lemma store_of_ne (hal : DIRENTSIZE ∣ x.size) (hk : DIRENTSIZE * k ≤ x.size)
    (hsrc : src.length = DIRENTSIZE) (hj : j ≠ k) :
    (x.store (DIRENTSIZE * k) src).inum j = x.inum j ∧
      (x.store (DIRENTSIZE * k) src).field j = x.field j ∧
      ((x.store (DIRENTSIZE * k) src).Has j ↔ x.Has j) := by
  have hS : DIRENTSIZE = 16 := rfl
  have hD : DIRSIZ = 14 := rfl
  obtain ⟨n, hn⟩ := hal
  rw [store_entry hsrc]
  have hinum : direntInum (blit x.data (DIRENTSIZE * k) DIRENTSIZE (ofList src)) j
      = direntInum x.data j := by
    apply le_blit_out
    rw [hS]
    omega
  refine ⟨hinum, ?_, ?_⟩
  · apply List.map_congr_left
    intro p hp
    rw [List.mem_range] at hp
    apply blit_out
    rw [hS]
    omega
  · -- the file ends behind entry `k` or where it ended before
    have hend : DIRENTSIZE * (j + 1) ≤ max x.size (DIRENTSIZE * k + DIRENTSIZE) ↔
        DIRENTSIZE * (j + 1) ≤ x.size := by
      rw [hn, hS] at hk ⊢
      omega
    have hused : ¬ direntInum (blit x.data (DIRENTSIZE * k) DIRENTSIZE (ofList src)) j = 0 ↔
        ¬ direntInum x.data j = 0 := by rw [hinum]
    exact and_congr hend hused

/-- A write of one entry changes its slot only. -/
lemma slots_store (hal : DIRENTSIZE ∣ x.size) (hk : DIRENTSIZE * k ≤ x.size)
    (hsrc : src.length = DIRENTSIZE) : (x.store (DIRENTSIZE * k) src).slots =
      Function.update x.slots k ((x.store (DIRENTSIZE * k) src).slots k) := by
  funext j
  by_cases hj : j = k
  · rw [hj, Function.update_self]
  · obtain ⟨hinum, hfield, hhas⟩ := store_of_ne hal hk hsrc hj
    rw [Function.update_of_ne hj]
    unfold slots
    rw [hinum, hfield]
    exact if_congr hhas rfl rfl

/-- What is stored at the place of entry `k` is read back from there. -/
theorem store_byte (hsrc : src.length = DIRENTSIZE) (hj : j < DIRENTSIZE) :
    (x.store (DIRENTSIZE * k) src).data (DIRENTSIZE * k + j) = ofList src j := by
  rw [store_entry hsrc]
  show blit _ _ _ _ _ = _
  rw [blit_in (by omega) (by omega), Nat.add_sub_cancel_left]

/-- The entry that `dirlink` writes is read back. -/
lemma store_direntBytes (hinum : inum < 2 ^ 16) (h0 : 0 ∉ name) :
    (x.store (DIRENTSIZE * k) (direntBytes inum name)).inum k = inum ∧
      (x.store (DIRENTSIZE * k) (direntBytes inum name)).name k = name.take DIRSIZ ∧
      (x.store (DIRENTSIZE * k) (direntBytes inum name)).field k = padded name := by
  have hS : DIRENTSIZE = 16 := rfl
  have hD : DIRSIZ = 14 := rfl
  have hlen := length_direntBytes inum name
  have hread := dirent_of_bytes (f := (x.store (DIRENTSIZE * k) (direntBytes inum name)).data)
    (k := k) hinum (nameOk_take h0) (by
      intro j hj
      rw [store_byte hlen hj, direntBytes_take])
  refine ⟨hread.1, hread.2, ?_⟩
  rw [← padded_take]
  apply List.map_congr_left
  intro j hj
  rw [List.mem_range] at hj
  rw [Nat.add_assoc, store_byte hlen (by omega), ← direntBytes_take,
    ofList_direntBytes_name (nameOk_take h0).1]

/-- The entry that `sys_unlink` clears is free. -/
lemma store_zeros : (x.store (DIRENTSIZE * k) (List.replicate DIRENTSIZE 0)).inum k = 0 := by
  have hS : DIRENTSIZE = 16 := rfl
  apply le_zero
  intro j hj
  rw [store_byte List.length_replicate (by omega)]
  exact List.getD_replicate _ (by omega)

/-! ## The map -/

lemma slots_link (hal : DIRENTSIZE ∣ x.size) (hk : DIRENTSIZE * k ≤ x.size) (hpos : inum ≠ 0)
    (hinum : inum < 2 ^ 16) (h0 : 0 ∉ name) :
    (x.store (DIRENTSIZE * k) (direntBytes inum name)).slots =
      Function.update x.slots k (some (padded name, inum)) := by
  have hlen := length_direntBytes inum name
  obtain ⟨hi, -, hfield⟩ := store_direntBytes (x := x) (k := k) hinum h0
  rw [slots_store hal hk hlen]
  congr 1
  rw [slots_eq_some]
  refine ⟨⟨?_, by rwa [hi]⟩, hfield, hi⟩
  rw [store_entry hlen, Nat.mul_succ]
  exact Nat.le_max_right _ _

lemma slots_unlink (hal : DIRENTSIZE ∣ x.size) (hk : DIRENTSIZE * k ≤ x.size) :
    (x.store (DIRENTSIZE * k) (List.replicate DIRENTSIZE 0)).slots =
      Function.update x.slots k none := by
  rw [slots_store hal hk List.length_replicate]
  congr 1
  rw [slots_eq_none]
  exact fun hhas => hhas.2 store_zeros

/-- A new name goes to a place that is not in use. -/
lemma Proper.link (h : x.Proper) (hk : DIRENTSIZE * k ≤ x.size) (hpos : inum ≠ 0)
    (hinum : inum < 2 ^ 16) (h0 : 0 ∉ name) (hnone : x.binding name = none) :
    (x.store (DIRENTSIZE * k) (direntBytes inum name)).Proper := by
  have hlen := length_direntBytes inum name
  refine ⟨aligned_store h.aligned hlen, fun j hj => ?_, ?_⟩
  · by_cases hjk : j = k
    · obtain ⟨-, hname, hfield⟩ := store_direntBytes (x := x) (k := k) hinum h0
      rw [hjk, hname, hfield, padded_take]
    · obtain ⟨-, hfield, hhas⟩ := store_of_ne h.aligned hk hlen hjk
      have hname : (x.store (DIRENTSIZE * k) (direntBytes inum name)).name j = x.name j :=
        congrArg (List.takeWhile _) hfield
      rw [hname, hfield]
      exact h.field j (hhas.mp hj)
  · rw [slots_link h.aligned hk hpos hinum h0]
    exact h.unique.insert fun _ => h.not_binds h0 hnone

/-- After `dirlink` the name is bound, and every other name as before. -/
lemma Proper.binding_link (h : x.Proper) (hk : DIRENTSIZE * k ≤ x.size) (hfree : ¬ x.Has k)
    (hpos : inum ≠ 0) (hinum : inum < 2 ^ 16) (h0 : 0 ∉ name) (hnone : x.binding name = none)
    (h0' : 0 ∉ other) : (x.store (DIRENTSIZE * k) (direntBytes inum name)).binding other =
      if other.take DIRSIZ = name.take DIRSIZ then some inum else x.binding other := by
  ext i
  rw [(h.link hk hpos hinum h0 hnone).binding_eq_some h0', slots_link h.aligned hk hpos hinum h0,
    Slots.binds_insert (slots_eq_none.mpr hfree) fun _ => h.not_binds h0 hnone,
    ne_eq, padded_inj h0' h0]
  by_cases hkey : other.take DIRSIZ = name.take DIRSIZ
  · simp [hkey]
  · simp [hkey, h.binding_eq_some h0']

/-- The entry that a name is found at is cleared. -/
lemma Proper.unlink (h : x.Proper) (hk : x.Has k) :
    (x.store (DIRENTSIZE * k) (List.replicate DIRENTSIZE 0)).Proper := by
  have hlen : (List.replicate DIRENTSIZE (0 : UInt8)).length = DIRENTSIZE := List.length_replicate
  have hle : DIRENTSIZE * k ≤ x.size := (Nat.mul_le_mul_left _ (Nat.le_succ k)).trans hk.1
  refine ⟨aligned_store h.aligned hlen, fun j hj => ?_, ?_⟩
  · by_cases hjk : j = k
    · rw [hjk] at hj
      exact absurd store_zeros hj.2
    · obtain ⟨-, hfield, hhas⟩ := store_of_ne h.aligned hle hlen hjk
      have hname : (x.store (DIRENTSIZE * k) (List.replicate DIRENTSIZE 0)).name j = x.name j :=
        congrArg (List.takeWhile _) hfield
      rw [hname, hfield]
      exact h.field j (hhas.mp hj)
  · rw [slots_unlink h.aligned hle]
    exact h.unique.remove

/-- After `sys_unlink` the name is free, and every other name as before. -/
lemma Proper.binding_unlink (h : x.Proper) (h0 : 0 ∉ name) (hfind : x.find name = some k)
    (h0' : 0 ∉ other) :
    (x.store (DIRENTSIZE * k) (List.replicate DIRENTSIZE 0)).binding other =
      if other.take DIRSIZ = name.take DIRSIZ then none else x.binding other := by
  obtain ⟨hk, hfield⟩ := (h.find_eq_some h0).mp hfind
  have hle : DIRENTSIZE * k ≤ x.size := (Nat.mul_le_mul_left _ (Nat.le_succ k)).trans hk.1
  ext i
  rw [(h.unlink hk).binding_eq_some h0', slots_unlink h.aligned hle,
    Slots.binds_remove h.unique (slots_eq_some.mpr ⟨hk, hfield, rfl⟩), ne_eq, padded_inj h0' h0]
  by_cases hkey : other.take DIRSIZ = name.take DIRSIZ
  · simp [hkey]
  · simp [hkey, h.binding_eq_some h0']

end Node

end

end Kernel
end OhMyXv6
