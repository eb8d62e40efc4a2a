import OhMyXv6.Kernel.Lookup

/-!
# `fileseek`

The target of a seek is computed with unsigned sums and stored in an `int`. It is right as long as
the exact target is an `int`: one that is too large comes out negative, and a file that is not empty
is then left at its beginning instead of its end.
-/

namespace OhMyXv6
namespace Kernel

/-- `f` is an open file of an allocated inode that nobody has locked. -/
structure InodeFile (s : State) (f : ℕ) : Prop where
  type : (s.ftable f).type = .FD_INODE
  ref : 0 < (s.icache (s.ftable f).ip).ref
  unlocked : (s.icache (s.ftable f).ip).lock = none
  allocated : (s.icache (s.ftable f).ip).valid = true ∨
    (dinode s.sb s.disk (s.icache (s.ftable f).ip).inum).type ≠ 0

/-- The fields of the inode in a cache entry, wherever they are. -/
def State.fields (s : State) (ip : ℕ) : Dinode :=
  if (s.icache ip).valid then (s.icache ip).din else dinode s.sb s.disk (s.icache ip).inum

/-- The target that is asked for; `none` if the position is none of the three. -/
def exactTarget (off size : ℕ) (offset position : ℤ) : Option ℤ :=
  if position = 0 then some offset
  else if position = 1 then some (off + offset)
  else if position = 2 then some (size - offset)
  else none

/-- The target moved into `[0, size]`. -/
def clampTo (size : ℕ) (z : ℤ) : ℤ := max 0 (min z size)

/-- `fileseek` answers with the exact target moved into the file, and leaves the offset there. -/
def SeeksExactly (s : State) (p f : ℕ) (offset position : ℤ) : Prop :=
  ∃ r t, Prog.exec (fileseek p f offset position) s = .done r t ∧
    match exactTarget (s.ftable f).off (s.fields (s.ftable f).ip).size offset position with
    | none => r.1 = -1 ∧ (t.ftable f).off = (s.ftable f).off
    | some z => r.1 = clampTo (s.fields (s.ftable f).ip).size z ∧
        ((t.ftable f).off : ℤ) = clampTo (s.fields (s.ftable f).ip).size z

/-- The exact target fits into an `int`, or is so large that it comes out beyond the end of the file
again, or the file is empty. -/
def SeekFits (off size : ℕ) (offset position : ℤ) : Prop :=
  size = 0 ∨ ∀ z, exactTarget off size offset position = some z → z < 2 ^ 31 ∨ 2 ^ 32 + size ≤ z

section
variable {s : State} {p f : ℕ} {offset position : ℤ}

/-- What `toInt32` does to the sums of `seekTarget`. -/
lemma toInt32_eq {z : ℤ} (hlo : -2 ^ 31 ≤ z) (hhi : z < 3 * 2 ^ 31) :
    toInt32 z = if z < 2 ^ 31 then z else z - 2 ^ 32 := by
  unfold toInt32
  rw [Int.bmod_def]
  split
  · split
    · omega
    · omega
  · split
    · omega
    · omega

/-- The source's clamp is the one of the claim. -/
lemma seekClamp_eq (size : ℕ) (z : ℤ) : (seekClamp size z : ℤ) = clampTo size z := by
  unfold seekClamp clampTo
  omega

lemma State.setInode_eq_self {k : ℕ} {x : Inode} (h : s.icache k = x) : s.setInode k x = s := by
  unfold State.setInode
  rw [← h, Function.update_eq_self]

/-- The second change is the one that counts. -/
lemma State.setInode_setInode {k : ℕ} {x y : Inode} :
    (s.setInode k x).setInode k y = s.setInode k y := by
  unfold State.setInode
  dsimp only
  rw [Function.update_idem]

/-- The entry of an inode once `ilock` and `iunlock` have been there. -/
def State.loaded (s : State) (ip : ℕ) : State :=
  s.setInode ip { s.icache ip with din := s.fields ip, valid := true, lock := none }

/-- The inode is read unless it was. -/
lemma exec_iload {ip : ℕ} (h : (s.icache ip).valid = true ∨
      (dinode s.sb s.disk (s.icache ip).inum).type ≠ 0) :
    Prog.exec (iload ip) s
      = .done () (s.setInode ip { s.icache ip with din := s.fields ip, valid := true }) := by
  unfold iload State.fields
  rw [Prog.exec_act]
  dsimp only
  by_cases hv : (s.icache ip).valid = true
  · rw [if_pos hv, if_pos hv]
    congr 1
    symm
    apply State.setInode_eq_self
    rw [← hv]
  · rw [if_neg hv, if_neg hv, if_neg (h.resolve_left hv)]

/-- `filestat` of an inode file. -/
lemma exec_filestat (h : InodeFile s f) : Prog.exec (filestat p f) s
    = .done (some (stati ((s.loaded (s.ftable f).ip).icache (s.ftable f).ip)))
      (s.loaded (s.ftable f).ip) := by
  have href := h.ref
  set ip := (s.ftable f).ip with hip
  have hacquire : Prog.exec (acquire p ip) s
      = .done () (s.setInode ip { s.icache ip with lock := some p }) := by
    unfold acquire
    rw [Prog.exec_act, if_neg (by omega), h.unlocked, if_neg nofun]
  set s₁ := s.setInode ip { s.icache ip with lock := some p } with hs₁
  have hself : s₁.icache ip = { s.icache ip with lock := some p } := Function.update_self _ _ _
  have hfields : s₁.fields ip = s.fields ip := by
    unfold State.fields
    rw [hself]
    rfl
  -- whether the entry was valid or is read from the disk, it ends with the same fields
  have hload : Prog.exec (iload ip) s₁ = _ := exec_iload (by
    rw [hself]
    exact h.allocated)
  rw [hfields, hself, hs₁, State.setInode_setInode, ← hs₁] at hload
  set s₂ := s.setInode ip { s.icache ip with lock := some p, din := s.fields ip, valid := true }
    with hs₂
  have hself₂ : s₂.icache ip
      = { s.icache ip with lock := some p, din := s.fields ip, valid := true } :=
    Function.update_self _ _ _
  have hunlock : Prog.exec (iunlock ip) s₂ = .done () (s.loaded ip) := by
    unfold iunlock
    rw [Prog.exec_act, hself₂, if_neg (by simp; omega)]
    congr 1
    rw [hs₂, State.setInode_setInode]
    rfl
  have hilock : Prog.exec (ilock p ip) s = .done () s₂ := by
    unfold ilock
    rw [exec_seq hacquire]
    exact hload
  have hentry : stati (s₂.icache ip) = stati ((s.loaded ip).icache ip) := by
    unfold stati State.loaded State.setInode
    rw [hself₂]
    simp only [Function.update_self]
  unfold filestat
  rw [exec_get, if_pos h.type, exec_seq hilock, exec_get, ← hip, exec_seq hunlock, hentry]
  rfl

/-- `fileseek` of an inode file. -/
lemma exec_fileseek (h : InodeFile s f) (p : ℕ) (offset position : ℤ) : Prog.exec (fileseek p f offset position) s
    = match seekTarget (s.ftable f).off (s.fields (s.ftable f).ip).size offset position with
      | none => .done failed (s.loaded (s.ftable f).ip)
      | some z => .done (seekClamp (s.fields (s.ftable f).ip).size z, [])
          ((s.loaded (s.ftable f).ip).setFile f
            { s.ftable f with off := seekClamp (s.fields (s.ftable f).ip).size z }) := by
  have hsize : (stati ((s.loaded (s.ftable f).ip).icache (s.ftable f).ip)).size
      = (s.fields (s.ftable f).ip).size := by
    unfold stati State.loaded State.setInode
    simp only [Function.update_self]
  unfold fileseek
  rw [exec_seq (exec_filestat h)]
  dsimp only
  rw [exec_get, hsize]
  show Prog.exec (match seekTarget (s.ftable f).off (s.fields (s.ftable f).ip).size offset position
    with | none => _ | some target => _) _ = _
  cases seekTarget (s.ftable f).off (s.fields (s.ftable f).ip).size offset position with
  | none => rfl
  | some z => rfl

/-- The target that `fileseek` computes, next to the exact one. -/
lemma clampTo_seekTarget {off size : ℕ} (position : ℤ) (hoff : off < 2 ^ 32) (hsize : size ≤ MAXFILE * BSIZE)
    (hlo : -2 ^ 31 ≤ offset) (hhi : offset < 2 ^ 31) :
    match exactTarget off size offset position with
    | none => seekTarget off size offset position = none
    | some z => ∃ w, seekTarget off size offset position = some w ∧
        (clampTo size w = clampTo size z ↔ size = 0 ∨ z < 2 ^ 31 ∨ 2 ^ 32 + size ≤ z) := by
  have hB : BSIZE = 512 := rfl
  have hM : MAXFILE = 140 := rfl
  rw [hB, hM] at hsize
  unfold exactTarget seekTarget
  by_cases h0 : position = 0
  · rw [if_pos h0, if_pos h0]
    exact ⟨offset, rfl, ⟨fun _ => .inr (.inl hhi), fun _ => rfl⟩⟩
  by_cases h1 : position = 1
  · rw [if_neg h0, if_pos h1, if_neg h0, if_pos h1]
    refine ⟨_, rfl, ?_⟩
    rw [toInt32_eq (by omega) (by omega)]
    unfold clampTo
    split
    · omega
    · omega
  by_cases h2 : position = 2
  · rw [if_neg h0, if_neg h1, if_pos h2, if_neg h0, if_neg h1, if_pos h2]
    refine ⟨_, rfl, ?_⟩
    rw [toInt32_eq (by omega) (by omega)]
    unfold clampTo
    split
    · omega
    · omega
  · rw [if_neg h0, if_neg h1, if_neg h2, if_neg h0, if_neg h1, if_neg h2]

/-- **`fileseek` clamps exactly when the target is an `int`.** For every open inode file and every
offset that the call can be given. -/
theorem seek_exact_iff (h : InodeFile s f) (hoff : (s.ftable f).off < 2 ^ 32)
    (hsize : (s.fields (s.ftable f).ip).size ≤ MAXFILE * BSIZE) (hlo : -2 ^ 31 ≤ offset)
    (hhi : offset < 2 ^ 31) : SeeksExactly s p f offset position ↔
      SeekFits (s.ftable f).off (s.fields (s.ftable f).ip).size offset position := by
  have hexec := exec_fileseek h p offset position
  have hclamp := clampTo_seekTarget position hoff hsize hlo hhi
  unfold SeeksExactly SeekFits
  cases hz : exactTarget (s.ftable f).off (s.fields (s.ftable f).ip).size offset position with
  | none =>
    rw [hz] at hclamp
    rw [show seekTarget _ _ offset position = none from hclamp] at hexec
    exact ⟨fun _ => .inr nofun, fun _ => ⟨_, _, hexec, rfl, rfl⟩⟩
  | some z =>
    rw [hz] at hclamp
    obtain ⟨w, hw, hiff⟩ := hclamp
    rw [hw] at hexec
    have hoff' : ∀ t : State, (t.setFile f { s.ftable f with
        off := seekClamp (s.fields (s.ftable f).ip).size w }).ftable f
          = { s.ftable f with off := seekClamp (s.fields (s.ftable f).ip).size w } :=
      fun t => Function.update_self _ _ _
    constructor
    · rintro ⟨r, t, hrun, hr, -⟩
      rw [hexec] at hrun
      obtain ⟨rfl, rfl⟩ := Out.done.inj hrun
      rw [seekClamp_eq] at hr
      rcases hiff.mp hr with h0 | hfit
      · exact .inl h0
      · exact .inr fun _ heq => Option.some.inj heq ▸ hfit
    · intro hfits
      have hsame := hiff.mpr (hfits.imp_right fun hall => hall z rfl)
      refine ⟨_, _, hexec, ?_, ?_⟩
      · rw [seekClamp_eq, hsame]
      · rw [hoff', seekClamp_eq, hsame]

/-! ### A seek that goes wrong -/

/-- The small file system when process 0 has opened the root directory and read its first byte. -/
def Demo.openRoot : State :=
  { Demo.state with
    ftable := Function.update Demo.state.ftable 0 ⟨.FD_INODE, 1, true, false, 0, 0, 1⟩
    proc := Function.update Demo.state.proc 0
      ⟨true, fun fd => if fd = 0 then some 0 else none, 0⟩
    icache := Function.update Demo.icache 0 { Demo.icache 0 with ref := 2 } }

lemma inodeFile_openRoot : InodeFile Demo.openRoot 0 := ⟨rfl, by decide, rfl, .inl rfl⟩

/-- Five bytes in front of its end. -/
theorem seek_exact_openRoot : SeeksExactly Demo.openRoot 0 0 (-5) 2 :=
  (seek_exact_iff inodeFile_openRoot (by decide) (by decide) (by decide) (by decide)).mpr
    (.inr fun z hz => .inl (by
      have heq : (53 : ℤ) = z := Option.some.inj hz
      omega))

/-- Forward from offset 1 by the largest `int`: the file is left at its beginning. -/
theorem not_seeksExactly_openRoot : ¬ SeeksExactly Demo.openRoot 0 0 (2 ^ 31 - 1) 1 := by
  rintro ⟨r, t, hrun, hr, -⟩
  rw [exec_fileseek inodeFile_openRoot] at hrun
  obtain ⟨rfl, -⟩ := Out.done.inj hrun
  exact absurd hr (by decide)

end

end Kernel
end OhMyXv6
