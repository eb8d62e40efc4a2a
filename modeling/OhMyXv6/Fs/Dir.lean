import OhMyXv6.Fs.Layout

/-!
# Directories

A directory is a file of `struct dirent`s. Here the entries are read from the contents of a file,
given as a function from offsets to bytes, and entries that were written as `direntBytes` are
shown to be read back.
-/

namespace OhMyXv6

open Bytes

/-- The `inum` of entry `k`; 0 when the entry is free. -/
def direntInum (f : ℕ → UInt8) (k : ℕ) : ℕ := le f (DIRENTSIZE * k) 2

/-- The name of entry `k`, up to its NUL if it has one. -/
def direntName (f : ℕ → UInt8) (k : ℕ) : List UInt8 :=
  ((List.range DIRSIZ).map fun j => f (DIRENTSIZE * k + 2 + j)).takeWhile (· ≠ 0)

/-- A name that an entry can hold. -/
def NameOk (name : List UInt8) : Prop := name.length ≤ DIRSIZ ∧ 0 ∉ name

@[simp] lemma length_direntBytes (inum : ℕ) (name : List UInt8) :
    (direntBytes inum name).length = DIRENTSIZE := by
  have hD : DIRSIZ = 14 := rfl
  have hS : DIRENTSIZE = 16 := rfl
  unfold direntBytes
  simp only [List.length_append, List.length_cons, List.length_nil, List.length_take,
    List.length_replicate]
  omega

/-- The first two bytes are the number. -/
lemma ofList_direntBytes_inum (inum : ℕ) (name : List UInt8) {j : ℕ} (hj : j < 2) :
    ofList (direntBytes inum name) j = leByte inum j := by
  have hj' : j = 0 ∨ j = 1 := by omega
  unfold ofList direntBytes
  rcases hj' with rfl | rfl <;> rfl

/-- The name follows, with zeros behind it. -/
lemma ofList_direntBytes_name {inum : ℕ} {name : List UInt8} (hname : name.length ≤ DIRSIZ)
    (j : ℕ) : ofList (direntBytes inum name) (2 + j) = name.getD j 0 := by
  unfold ofList direntBytes
  rw [List.take_of_length_le hname, List.append_assoc,
    List.getD_append_right _ _ _ _ (by simp), List.length_cons, List.length_cons, List.length_nil,
    Nat.add_sub_cancel_left]
  by_cases hlt : j < name.length
  · rw [List.getD_append _ _ _ _ hlt]
  · rw [List.getD_append_right _ _ _ _ (by omega), List.getD_eq_default name _ (by omega)]
    by_cases hlt' : j - name.length < DIRSIZ - name.length
    · rw [List.getD_replicate _ hlt']
    · rw [List.getD_eq_default _ _ (by rw [List.length_replicate]; omega)]

/-- A name padded with NULs is read back up to the first of them. -/
theorem takeWhile_padded {name : List UInt8} (h : NameOk name) :
    ((List.range DIRSIZ).map fun j => name.getD j 0).takeWhile (· ≠ 0) = name := by
  have hpad : (List.range DIRSIZ).map (fun j => name.getD j 0)
      = name ++ List.replicate (DIRSIZ - name.length) 0 := by
    have hlen := h.1
    apply List.ext_getElem
    · simp only [List.length_map, List.length_range, List.length_append, List.length_replicate]
      omega
    · intro j hj hj'
      rw [List.getElem_map, List.getElem_range]
      by_cases hlt : j < name.length
      · rw [List.getElem_append_left hlt, List.getD_eq_getElem _ _ hlt]
      · rw [List.getElem_append_right (by omega), List.getElem_replicate,
          List.getD_eq_default _ _ (by omega)]
  rw [hpad, List.takeWhile_append_of_pos]
  · cases DIRSIZ - name.length with
    | zero => simp
    | succ n => simp [List.replicate_succ]
  · intro b hb
    have hne : b ≠ 0 := fun h0 => h.2 (h0 ▸ hb)
    simpa using hne

/-- Sixteen bytes that are those of an entry read as that entry. -/
lemma dirent_of_bytes {f : ℕ → UInt8} {k inum : ℕ} {name : List UInt8} (hinum : inum < 2 ^ 16)
    (hname : NameOk name)
    (hf : ∀ j < DIRENTSIZE, f (DIRENTSIZE * k + j) = ofList (direntBytes inum name) j) :
    direntInum f k = inum ∧ direntName f k = name := by
  have hS : DIRENTSIZE = 16 := rfl
  have hD : DIRSIZ = 14 := rfl
  constructor
  · refine le_leByte (fun i hi => ?_) hinum
    rw [hf i (by omega), ofList_direntBytes_inum _ _ hi]
  · rw [direntName, ← takeWhile_padded hname]
    congr 1
    apply List.map_congr_left
    intro j hj
    rw [List.mem_range] at hj
    rw [Nat.add_assoc, hf (2 + j) (by omega), ofList_direntBytes_name hname.1]

/-- The contents of a directory with the given entries. -/
def dirBytes (entries : List (List UInt8 × ℕ)) : List UInt8 :=
  entries.flatMap fun e => direntBytes e.2 e.1

lemma length_dirBytes (entries : List (List UInt8 × ℕ)) :
    (dirBytes entries).length = DIRENTSIZE * entries.length := by
  induction entries with
  | nil => rfl
  | cons e entries ih =>
    have hcons : dirBytes (e :: entries) = direntBytes e.2 e.1 ++ dirBytes entries := rfl
    rw [hcons, List.length_append, length_direntBytes, ih, List.length_cons, Nat.mul_succ,
      Nat.add_comm]

/-- Entry `k` starts at byte `16 * k`. -/
lemma ofList_dirBytes {entries : List (List UInt8 × ℕ)} {k : ℕ} (hk : k < entries.length)
    {j : ℕ} (hj : j < DIRENTSIZE) : ofList (dirBytes entries) (DIRENTSIZE * k + j)
      = ofList (direntBytes entries[k].2 entries[k].1) j := by
  induction entries generalizing k with
  | nil => cases hk
  | cons e entries ih =>
    have hcons : dirBytes (e :: entries) = direntBytes e.2 e.1 ++ dirBytes entries := rfl
    unfold ofList
    rw [hcons]
    cases k with
    | zero =>
      rw [Nat.mul_zero, Nat.zero_add, List.getD_append _ _ _ _ (by rwa [length_direntBytes])]
      rfl
    | succ k =>
      rw [List.getD_append_right _ _ _ _ (by rw [length_direntBytes, Nat.mul_succ]; omega),
        length_direntBytes, Nat.mul_succ]
      have hih := ih (Nat.lt_of_succ_lt_succ hk)
      unfold ofList at hih
      rw [show DIRENTSIZE * k + DIRENTSIZE + j - DIRENTSIZE = DIRENTSIZE * k + j by omega, hih]
      rfl

/-- The entries that were written are read back. -/
lemma dirent_dirBytes {entries : List (List UInt8 × ℕ)} {k : ℕ} (hk : k < entries.length)
    (hinum : entries[k].2 < 2 ^ 16) (hname : NameOk entries[k].1) :
    direntInum (ofList (dirBytes entries)) k = entries[k].2 ∧
      direntName (ofList (dirBytes entries)) k = entries[k].1 :=
  dirent_of_bytes hinum hname fun _ hj => ofList_dirBytes hk hj

/-- Behind the last entry there are only free ones. -/
lemma direntInum_dirBytes_of_le {entries : List (List UInt8 × ℕ)} {k : ℕ}
    (hk : entries.length ≤ k) : direntInum (ofList (dirBytes entries)) k = 0 := by
  apply le_zero
  intro i _
  unfold ofList
  apply List.getD_eq_default
  rw [length_dirBytes]
  have := Nat.mul_le_mul_left DIRENTSIZE hk
  omega

end OhMyXv6
