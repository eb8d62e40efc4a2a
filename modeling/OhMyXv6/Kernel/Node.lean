import OhMyXv6.Kernel.Sysfile

/-!
# Files without blocks

A `Node` is a file as its users see it: type, links, size and contents, with no block addresses.
The table of all nodes is the abstract state of the file system, and the functions of the kernel
are specified by what they do to it. Path lookup is a function of the table.
-/

namespace OhMyXv6
namespace Kernel

open Bytes

/-- A file without its blocks. -/
@[ext]
structure Node where
  type : ℕ
  major : ℕ
  minor : ℕ
  nlink : ℕ
  size : ℕ
  data : ℕ → UInt8

/-- The node of an inode that is not allocated. -/
def Node.free : Node := ⟨0, 0, 0, 0, 0, fun _ => 0⟩

/-- The file that an inode describes. -/
def nodeOf (d : Disk) (x : Dinode) : Node :=
  if x.type = 0 then .free
  else ⟨x.type, x.major, x.minor, x.nlink, x.size, fileByte d x⟩

/-- The files of a file system, by inode number. -/
abbrev Nodes := ℕ → Node

/-- The files on a disk. -/
def State.nodes (s : State) : Nodes := fun i =>
  if i < s.sb.ninodes then nodeOf s.disk (dinode s.sb s.disk i) else .free

namespace Nodes

/-- A new file of the given type, as `ialloc` leaves it. -/
def make (A : Nodes) (i type : ℕ) : Nodes :=
  Function.update A i ⟨type, 0, 0, 0, 0, fun _ => 0⟩

/-- Inode `i` has `n` links. -/
def relink (A : Nodes) (i n : ℕ) : Nodes := Function.update A i { A i with nlink := n }

/-- `src` is written to inode `i` at offset `off`. -/
def write (A : Nodes) (i off : ℕ) (src : List UInt8) : Nodes :=
  Function.update A i { A i with
    data := blit (A i).data off src.length (ofList src)
    size := max (A i).size (off + src.length) }

/-- Entry `k` of directory `d` becomes `(name, inum)`. -/
def link (A : Nodes) (d k inum : ℕ) (name : List UInt8) : Nodes :=
  A.write d (DIRENTSIZE * k) (direntBytes inum name)

section
variable {A : Nodes} {i j : ℕ}

@[simp] lemma relink_self {n : ℕ} : A.relink i n i = { A i with nlink := n } :=
  Function.update_self _ _ _

/-- The other files are left alone. -/
lemma make_of_ne {type : ℕ} (h : j ≠ i) : A.make i type j = A j := Function.update_of_ne h _ _

/-- The other files are left alone. -/
lemma relink_of_ne {n : ℕ} (h : j ≠ i) : A.relink i n j = A j := Function.update_of_ne h _ _

/-- The other files are left alone. -/
lemma write_of_ne {off : ℕ} {src : List UInt8} (h : j ≠ i) : A.write i off src j = A j :=
  Function.update_of_ne h _ _

lemma write_self {off : ℕ} {src : List UInt8} : A.write i off src i = { A i with
    data := blit (A i).data off src.length (ofList src)
    size := max (A i).size (off + src.length) } := Function.update_self _ _ _

lemma write_data {off : ℕ} {src : List UInt8} :
    (A.write i off src i).data = blit (A i).data off src.length (ofList src) := by
  rw [write_self]

/-- The file grows to the end of what was written. -/
lemma write_size {off : ℕ} {src : List UInt8} :
    (A.write i off src i).size = max (A i).size (off + src.length) := by
  rw [write_self]

/-- A write changes contents and size only. -/
lemma write_type {off : ℕ} {src : List UInt8} :
    (A.write i off src j).type = (A j).type ∧ (A.write i off src j).nlink = (A j).nlink := by
  by_cases h : j = i
  · subst h
    rw [write_self]
    exact ⟨rfl, rfl⟩
  · rw [write_of_ne h]
    exact ⟨rfl, rfl⟩

end

end Nodes

/-! ## Entries -/

namespace Node

variable (x : Node)

/-- The inode that entry `k` names; 0 if the entry is free. -/
def inum (k : ℕ) : ℕ := direntInum x.data k

/-- The name of entry `k`. -/
def name (k : ℕ) : List UInt8 := direntName x.data k

/-- Entry `k` is there and in use. -/
def Has (k : ℕ) : Prop := DIRENTSIZE * (k + 1) ≤ x.size ∧ x.inum k ≠ 0

instance (k : ℕ) : Decidable (x.Has k) := instDecidableAnd

/-- Entry `k` is in use and has the given name. -/
def Matches (name : List UInt8) (k : ℕ) : Prop := x.inum k ≠ 0 ∧ namecmp name (x.name k) = true

instance (name : List UInt8) (k : ℕ) : Decidable (x.Matches name k) := instDecidableAnd

/-- The first matching one of `n` entries from entry `k` on. -/
def findFrom (name : List UInt8) : ℕ → ℕ → Option ℕ
  | 0, _ => none
  | n + 1, k => if x.Matches name k then some k else findFrom name n (k + 1)

/-- The entry with the given name. -/
def find (name : List UInt8) : Option ℕ := x.findFrom name (nentries x.size) 0

variable {x}

lemma findFrom_some {name : List UInt8} {n k j : ℕ} (h : x.findFrom name n k = some j) :
    k ≤ j ∧ j < k + n ∧ x.Matches name j := by
  induction n generalizing k with
  | zero => cases h
  | succ n ih =>
    unfold findFrom at h
    by_cases hm : x.Matches name k
    · rw [if_pos hm] at h
      obtain rfl := Option.some.inj h
      exact ⟨Nat.le_refl _, by omega, hm⟩
    · rw [if_neg hm] at h
      obtain ⟨hle, hlt, hmatch⟩ := ih h
      exact ⟨by omega, by omega, hmatch⟩

/-- No entry before the one that is found matches. -/
lemma findFrom_least {name : List UInt8} {n k j e : ℕ} (h : x.findFrom name n k = some j) (hle : k ≤ e)
    (hlt : e < j) : ¬ x.Matches name e := by
  induction n generalizing k with
  | zero => cases h
  | succ n ih =>
    unfold findFrom at h
    by_cases hm : x.Matches name k
    · rw [if_pos hm] at h
      obtain rfl := Option.some.inj h
      omega
    · rw [if_neg hm] at h
      by_cases he : e = k
      · exact he ▸ hm
      · exact ih h (by omega)

/-- If nothing is found, nothing matches. -/
lemma findFrom_none {name : List UInt8} {n k : ℕ} (h : x.findFrom name n k = none) {j : ℕ}
    (hle : k ≤ j) (hlt : j < k + n) : ¬ x.Matches name j := by
  induction n generalizing k with
  | zero => omega
  | succ n ih =>
    unfold findFrom at h
    by_cases hm : x.Matches name k
    · rw [if_pos hm] at h
      cases h
    · rw [if_neg hm] at h
      by_cases hj : j = k
      · exact hj ▸ hm
      · exact ih h (by omega) (by omega)

/-- The first matching entry is found. -/
lemma findFrom_first {name : List UInt8} {n k j : ℕ} (hle : k ≤ j) (hlt : j < k + n)
    (hm : x.Matches name j) (hfirst : ∀ i, i < j → ¬ x.Matches name i) :
    x.findFrom name n k = some j := by
  induction n generalizing k with
  | zero => omega
  | succ n ih =>
    unfold findFrom
    by_cases hj : k = j
    · rw [hj, if_pos hm]
    · rw [if_neg (hfirst k (by omega))]
      exact ih (by omega) (by omega)

lemma Has.lt_nentries {k : ℕ} (h : x.Has k) : k < nentries x.size := by
  have hD : DIRENTSIZE = 16 := rfl
  have hle := h.1
  unfold nentries
  rw [hD] at hle ⊢
  omega

end Node

/-- Names that `skipelem` and the entries hold are short, and `namecmp` compares them whole. -/
theorem namecmp_iff {s t : List UInt8} (hs : s.length ≤ DIRSIZ) (ht : t.length ≤ DIRSIZ) :
    namecmp s t = true ↔ s = t := by
  unfold namecmp
  rw [List.take_of_length_le hs, List.take_of_length_le ht, beq_iff_eq]

/-- No entry has a longer name than its field. -/
lemma length_name_le (x : Node) (k : ℕ) : (x.name k).length ≤ DIRSIZ := by
  unfold Node.name direntName
  refine Nat.le_trans (List.takeWhile_sublist _).length_le ?_
  rw [List.length_map, List.length_range]

/-! ### One entry changed -/

namespace Nodes

variable {A : Nodes} {d k : ℕ}

/-- Sixteen bytes written at the place of entry `k` change no other entry. -/
theorem write_entry_of_ne {src : List UInt8} (hsrc : src.length = DIRENTSIZE) {j : ℕ} (h : j ≠ k) :
    (A.write d (DIRENTSIZE * k) src d).inum j = (A d).inum j ∧
      (A.write d (DIRENTSIZE * k) src d).name j = (A d).name j := by
  have hD : DIRENTSIZE = 16 := rfl
  have hS : DIRSIZ = 14 := rfl
  unfold Node.inum Node.name direntInum direntName
  rw [write_data]
  constructor
  · apply le_blit_out
    rw [hsrc, hD]
    omega
  · congr 1
    apply List.map_congr_left
    intro p hp
    rw [List.mem_range] at hp
    apply blit_out
    rw [hsrc, hD]
    omega

/-- The entry that was written is read back. -/
lemma link_entry {inum : ℕ} {name : List UInt8} (hinum : inum < 2 ^ 16) (hname : NameOk name) :
    (A.link d k inum name d).inum k = inum ∧ (A.link d k inum name d).name k = name := by
  apply dirent_of_bytes hinum hname
  intro j hj
  unfold link
  rw [write_data, length_direntBytes, blit_in (by omega) (by omega), Nat.add_sub_cancel_left]

/-- The other files are left alone. -/
lemma link_of_ne {inum : ℕ} {name : List UInt8} {i : ℕ} (h : i ≠ d) :
    A.link d k inum name i = A i := write_of_ne h

end Nodes

/-! ## Paths -/

namespace Nodes

/-- What `namex` finds from inode `i` on: the inode, or its parent and the last name. -/
def walk (A : Nodes) (parent : Bool) : ℕ → ℕ → List UInt8 → Option (ℕ × List UInt8)
  | 0, _, _ => none
  | fuel + 1, i, path =>
    match skipelem path with
    | none => if parent then none else some (i, [])
    | some (name, path) =>
      if (A i).type ≠ T_DIR then none
      -- stop one level early
      else if parent ∧ path = [] then some (i, name)
      else
        match (A i).find name with
        | none => none
        | some k => A.walk parent fuel ((A i).inum k) path

end Nodes

end Kernel
end OhMyXv6
