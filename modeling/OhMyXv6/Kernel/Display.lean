import OhMyXv6.Kernel.Devsw
import OhMyXv6.Kernel.Seek
import OhMyXv6.Vm.Model

/-!
# `display.c`: writing to the screen

`displaywrite` copies to the place in video memory that the offset of the file says, and moves the
offset on. Nothing holds it back at the end of the window. Since the inode of a device has no size,
every seek goes to offset 0, so what counts is how many bytes were written since the last one.
-/

namespace OhMyXv6
namespace Kernel

/-- `P2V(a)`. -/
def P2V (a : ℕ) : ℕ := a + Vm.KERNBASE

/-- VGA memory. -/
def dispcrt : ℕ := P2V 0xa0000

/-- Number of bytes of the window at `dispcrt`. -/
def WINDOW : ℕ := 64 * 1024

/-- An address of the memory of the display. -/
def InWindow (a : ℕ) : Prop := dispcrt ≤ a ∧ a < dispcrt + WINDOW

/-- `displaywrite`: the bytes that are stored, each with its address. -/
def displaywrite (f : ℕ) (src : List UInt8) : Dispatch (List (ℕ × UInt8)) :=
  .act .other fun s =>
    let x := s.ftable f
    .done ((List.range src.length).map fun j => (dispcrt + x.off + j, src.getD j 0))
      (s.setFile f { x with off := (x.off + src.length) % 2 ^ 32 })

/-- `filewrite`, as far as it comes to the display. -/
def filewriteDisplay (mem : ℤ → Devsw) (f : ℕ) (src : List UInt8) :
    Dispatch (List (ℕ × UInt8)) := do
  match ← Dispatch.filewrite mem f with
  | .device major => if major = DISPLAY then displaywrite f src else return []
  | _ => return []

/-- A call on an open display. -/
inductive DisplayCall where
  | write (src : List UInt8)
  | fseek (offset position : ℤ)

/-- What a call on file `f` stores. -/
def DisplayCall.stores (mem : ℤ → Devsw) (f : ℕ) (s : State) : DisplayCall → List (ℕ × UInt8)
  | .write src =>
    match Prog.exec (filewriteDisplay mem f src) s with
    | .done bytes _ => bytes
    | _ => []
  | .fseek _ _ => []

/-- The state after a call of process `p` on file `f`. -/
def State.display (mem : ℤ → Devsw) (p f : ℕ) (s : State) : DisplayCall → Option State
  | .write src =>
    match Prog.exec (filewriteDisplay mem f src) s with
    | .done _ t => some t
    | _ => none
  | .fseek offset position =>
    match Prog.exec (fileseek p f offset position) s with
    | .done _ t => some t
    | _ => none

/-- File `f` is an open `/dev/display` that nobody has locked. -/
structure DisplayFile (s : State) (f : ℕ) : Prop extends InodeFile s f where
  valid : (s.icache (s.ftable f).ip).valid = true
  device : (s.icache (s.ftable f).ip).din.type = T_DEV
  major : (s.icache (s.ftable f).ip).din.major = 2
  size : (s.icache (s.ftable f).ip).din.size = 0

/-! ## The bytes since the last seek -/

/-- The bytes written since the last seek, after one more call. -/
def tally (n : ℕ) : DisplayCall → Option ℕ
  | .write src => some (n + src.length)
  | .fseek _ position => some (if position = 0 ∨ position = 1 ∨ position = 2 then 0 else n)

/-- There is nothing to write, or it fits into the window. -/
def Fits (n : ℕ) : DisplayCall → Prop
  | .write src => src = [] ∨ n + src.length ≤ WINDOW
  | .fseek _ _ => True

section
variable {mem : ℤ → Devsw} {s t : State} {p f : ℕ} {src : List UInt8}

lemma devsw_display (mem : ℤ → Devsw) : (devsw mem 2).write = true := rfl

/-- A write to a file of the display gets to the device. -/
lemma exec_filewrite_display (h : DisplayFile s f) :
    Prog.exec (Dispatch.filewrite mem f) s
      = .done (if (s.ftable f).writable then .device DISPLAY else .refused) s := by
  have hshort : short (s.icache (s.ftable f).ip).din.major = 2 := by
    rw [h.major]
    rfl
  unfold Dispatch.filewrite Dispatch.file
  rw [exec_dispatchGet]
  by_cases hw : (s.ftable f).writable = true
  · rw [if_neg (fun hn => hn hw), if_pos hw, h.type]
    dsimp only
    rw [exec_useIp, h.device, if_pos rfl]
    unfold Dispatch.device
    rw [exec_useIp, hshort, if_neg (by decide), exec_useDevsw, if_pos (devsw_display mem)]
    unfold Dispatch.callDevice
    rw [exec_useIp, exec_useDevsw, hshort]
    rfl
  · rw [if_pos hw, if_neg hw]
    rfl

/-- A write to an open display. -/
lemma exec_filewriteDisplay (h : DisplayFile s f) (hw : (s.ftable f).writable = true) :
    Prog.exec (filewriteDisplay mem f src) s
      = .done ((List.range src.length).map fun j => (dispcrt + (s.ftable f).off + j, src.getD j 0))
        (s.setFile f { s.ftable f with off := ((s.ftable f).off + src.length) % 2 ^ 32 }) := by
  unfold filewriteDisplay
  rw [Prog.exec_bind, exec_filewrite_display h, if_pos hw]
  rfl

/-- A write moves the offset only. -/
lemma DisplayFile.write (h : DisplayFile s f) (n : ℕ) :
    DisplayFile (s.setFile f { s.ftable f with off := n }) f := by
  have hself : (s.setFile f { s.ftable f with off := n }).ftable f = { s.ftable f with off := n } :=
    Function.update_self _ _ _
  refine ⟨⟨?_, ?_, ?_, ?_⟩, ?_, ?_, ?_, ?_⟩
  · rw [hself]
    exact h.type
  · rw [hself]
    exact h.ref
  · rw [hself]
    exact h.unlocked
  · rw [hself]
    exact h.allocated
  · rw [hself]
    exact h.valid
  · rw [hself]
    exact h.device
  · rw [hself]
    exact h.major
  · rw [hself]
    exact h.size

/-- The inode of the display is in the cache. -/
lemma DisplayFile.fields (h : DisplayFile s f) :
    s.fields (s.ftable f).ip = (s.icache (s.ftable f).ip).din := if_pos h.valid

/-- So `ilock` reads nothing from the disk. -/
lemma DisplayFile.loaded (h : DisplayFile s f) : s.loaded (s.ftable f).ip = s := by
  apply State.setInode_eq_self
  rw [h.fields, ← h.valid, ← h.unlocked]

/-- A seek goes to offset 0, or nowhere. -/
lemma exec_fileseek_display (h : DisplayFile s f) (p : ℕ) (offset position : ℤ) :
    ∃ r t, Prog.exec (fileseek p f offset position) s = .done r t ∧ DisplayFile t f ∧
      (t.ftable f).writable = (s.ftable f).writable ∧
      tally (s.ftable f).off (.fseek offset position) = some (t.ftable f).off := by
  have hsize : (s.fields (s.ftable f).ip).size = 0 := by rw [h.fields, h.size]
  rw [exec_fileseek h.toInodeFile, hsize, h.loaded]
  dsimp only [tally]
  by_cases hpos : position = 0 ∨ position = 1 ∨ position = 2
  · have hsome : ∃ z, seekTarget (s.ftable f).off 0 offset position = some z := by
      unfold seekTarget
      rcases hpos with rfl | rfl | rfl
      · exact ⟨_, rfl⟩
      · exact ⟨_, rfl⟩
      · exact ⟨_, rfl⟩
    obtain ⟨z, hz⟩ := hsome
    have hself : (s.setFile f { s.ftable f with off := seekClamp 0 z }).ftable f
        = { s.ftable f with off := seekClamp 0 z } := Function.update_self _ _ _
    rw [hz, if_pos hpos]
    refine ⟨_, _, rfl, h.write _, ?_, ?_⟩
    · rw [hself]
    · rw [hself]
      exact congrArg some (Nat.min_zero _).symm
  · have hnone : seekTarget (s.ftable f).off 0 offset position = none := by
      unfold seekTarget
      rw [if_neg fun h0 => hpos (.inl h0), if_neg fun h1 => hpos (.inr (.inl h1)),
        if_neg fun h2 => hpos (.inr (.inr h2))]
    rw [hnone, if_neg hpos]
    exact ⟨_, _, rfl, h, rfl, rfl⟩

/-- All that a call stores goes into the window. -/
def StoresInWindow (mem : ℤ → Devsw) (f : ℕ) (s : State) (c : DisplayCall) : Prop :=
  ∀ b ∈ c.stores mem f s, InWindow b.1

/-- A write stores in the window exactly when its bytes fit behind the offset. -/
lemma storesInWindow_write (h : DisplayFile s f) (hw : (s.ftable f).writable = true)
    (mem : ℤ → Devsw) (src : List UInt8) :
    StoresInWindow mem f s (.write src) ↔ Fits (s.ftable f).off (.write src) := by
  unfold StoresInWindow
  dsimp only [DisplayCall.stores, Fits]
  rw [exec_filewriteDisplay h hw]
  simp only [List.mem_map, List.mem_range, forall_exists_index, and_imp, forall_apply_eq_imp_iff₂]
  constructor
  · intro hall
    by_cases hsrc : src = []
    · exact .inl hsrc
    · have hpos := List.length_pos_iff.mpr hsrc
      have hlast := (hall (src.length - 1) (by omega)).2
      exact .inr (by omega)
  · rintro (rfl | hle) j hj
    · exact absurd hj (Nat.not_lt_zero _)
    · exact ⟨by omega, by omega⟩

/-- The next write, as long as what was written fits. -/
lemma display_write (h : DisplayFile s f) (hw : (s.ftable f).writable = true)
    (mem : ℤ → Devsw) (p : ℕ) (hoff : (s.ftable f).off < 2 ^ 32) (hfits : Fits (s.ftable f).off (.write src)) :
    ∃ t, s.display mem p f (.write src) = some t ∧ DisplayFile t f ∧
      (t.ftable f).writable = true ∧ (t.ftable f).off < 2 ^ 32 ∧
      (t.ftable f).off = (s.ftable f).off + src.length := by
  have hself : (s.setFile f { s.ftable f with
      off := ((s.ftable f).off + src.length) % 2 ^ 32 }).ftable f
        = { s.ftable f with off := ((s.ftable f).off + src.length) % 2 ^ 32 } :=
    Function.update_self _ _ _
  have hmod : ((s.ftable f).off + src.length) % 2 ^ 32 = (s.ftable f).off + src.length := by
    apply Nat.mod_eq_of_lt
    have hW : WINDOW = 65536 := rfl
    rcases hfits with hnil | hle
    · rw [hnil]
      exact hoff
    · omega
  refine ⟨_, ?_, h.write (((s.ftable f).off + src.length) % 2 ^ 32), ?_, ?_, ?_⟩
  · dsimp only [State.display]
    rw [exec_filewriteDisplay h hw]
  · rw [hself]
    exact hw
  · rw [hself]
    exact Nat.mod_lt _ (by omega)
  · rw [hself]
    exact hmod

/-- Nothing is written to a file that is not open for writing. -/
lemma exec_filewriteDisplay_refused (h : DisplayFile s f) (hw : (s.ftable f).writable = false) :
    Prog.exec (filewriteDisplay mem f src) s = .done [] s := by
  unfold filewriteDisplay
  rw [Prog.exec_bind, exec_filewrite_display h, hw]
  rfl

/-- A file that is not open for writing stores nothing. -/
lemma storesInWindow_refused (h : DisplayFile s f) (hw : (s.ftable f).writable = false)
    (cs : List DisplayCall) :
    Runs.Along (State.display mem p f) (StoresInWindow mem f) s cs := by
  induction cs generalizing s with
  | nil => trivial
  | cons c cs ih =>
    cases c with
    | write src =>
      have hexec : Prog.exec (filewriteDisplay mem f src) s = _ := exec_filewriteDisplay_refused h hw
      refine ⟨?_, fun t ht => ?_⟩
      · unfold StoresInWindow
        dsimp only [DisplayCall.stores]
        rw [hexec]
        exact nofun
      · dsimp only [State.display] at ht
        rw [hexec] at ht
        obtain rfl := Option.some.inj ht
        exact ih h hw
    | fseek offset position =>
      obtain ⟨r, t, hexec, ht, htw, -⟩ := exec_fileseek_display h p offset position
      refine ⟨nofun, fun u hu => ?_⟩
      dsimp only [State.display] at hu
      rw [hexec] at hu
      obtain rfl := Option.some.inj hu
      exact ih ht (by rw [htw, hw])

/-- By induction on the calls, with the offset between them. -/
lemma storesInWindow_run (h : DisplayFile s f) (hw : (s.ftable f).writable = true)
    (hoff : (s.ftable f).off < 2 ^ 32) (cs : List DisplayCall) :
    Runs.Along (State.display mem p f) (StoresInWindow mem f) s cs ↔
      Runs.Along tally Fits (s.ftable f).off cs := by
  induction cs generalizing s with
  | nil => exact Iff.rfl
  | cons c cs ih =>
    cases c with
    | write src =>
      have hstore := storesInWindow_write h hw mem src
      have htally : tally (s.ftable f).off (.write src)
          = some ((s.ftable f).off + src.length) := rfl
      rw [Runs.along_cons_of_some htally]
      by_cases hfits : Fits (s.ftable f).off (.write src)
      · obtain ⟨t, hstep, ht, htw, hlt, hto⟩ :=
          display_write h hw mem p hoff hfits
        rw [Runs.along_cons_of_some hstep, hstore, ← hto]
        exact and_congr_right fun _ => ih ht htw hlt
      · exact ⟨fun hall => absurd (hstore.mp hall.1) hfits, fun hall => absurd hall.1 hfits⟩
    | fseek offset position =>
      obtain ⟨r, t, hexec, ht, htw, hto⟩ := exec_fileseek_display h p
        offset position
      have hstep : s.display mem p f (.fseek offset position) = some t := by
        dsimp only [State.display]
        rw [hexec]
      rw [Runs.along_cons_of_some hto, Runs.along_cons_of_some hstep]
      refine and_congr ⟨fun _ => trivial, fun _ => nofun⟩ (ih ht ?_ ?_)
      · rw [htw, hw]
      · rw [← Option.some.inj hto]
        split
        · omega
        · exact hoff

/-- **Writes to the display.** Whatever is written and sought, all bytes go into the window exactly
if the bytes written since the last seek, and the offset that the file had if there was none, always
fit into it, or the file is not open for writing. -/
theorem display_window_iff (mem : ℤ → Devsw) (p : ℕ) (h : DisplayFile s f)
    (hoff : (s.ftable f).off < 2 ^ 32) (cs : List DisplayCall) :
    Runs.Along (State.display mem p f) (StoresInWindow mem f) s cs ↔
      (s.ftable f).writable = false ∨ Runs.Along tally Fits (s.ftable f).off cs := by
  cases hw : (s.ftable f).writable with
  | false => exact ⟨fun _ => .inl rfl, fun _ => storesInWindow_refused h hw cs⟩
  | true =>
    rw [storesInWindow_run h hw hoff cs]
    exact ⟨.inr, fun hor => hor.resolve_left nofun⟩

/-! ### A screen and a bit -/

/-- The small file system with a device for inode 4, which process 0 has open for reading and
writing. -/
def Demo.openDisplay : State :=
  { Demo.state with
    ftable := Function.update Demo.state.ftable 0 ⟨.FD_INODE, 1, true, true, 0, 3, 0⟩
    proc := Function.update Demo.state.proc 0
      ⟨true, fun fd => if fd = 0 then some 0 else none, 0⟩
    icache := Function.update Demo.icache 3
      ⟨4, 1, none, true, { Dinode.zero with type := T_DEV, major := 2, minor := 1, nlink := 1 }⟩ }

lemma displayFile_openDisplay : DisplayFile Demo.openDisplay 0 :=
  ⟨⟨rfl, by decide, rfl, .inl rfl⟩, rfl, rfl, rfl, rfl⟩

/-- What is written before and after a seek counts by itself. -/
lemma fits_twice {a b : List UInt8} (ha : a.length ≤ WINDOW) (hb : b.length ≤ WINDOW) :
    Runs.Along tally Fits 0 [.write a, .fseek 0 0, .write b] := by
  rw [Runs.along_cons_of_some (t := 0 + a.length) rfl, Runs.along_cons_of_some (t := 0) rfl,
    Runs.along_cons_of_some (t := 0 + b.length) rfl, Nat.zero_add]
  exact ⟨.inr (by rw [Nat.zero_add]; exact ha), trivial, .inr (by rw [Nat.zero_add]; exact hb),
    trivial⟩

/-- Two writes that are longer than the window together do not fit. -/
lemma not_fits_twice {a b : List UInt8} (hb : b ≠ []) (hlen : WINDOW < a.length + b.length) :
    ¬ Runs.Along tally Fits 0 [.write a, .write b] := by
  rw [Runs.along_cons_of_some (t := 0 + a.length) rfl, Nat.zero_add,
    Runs.along_cons_of_some (t := a.length + b.length) rfl]
  rintro ⟨-, hnil | hle, -⟩
  · exact hb hnil
  · omega

/-- A screen of 320 times 200 points is drawn twice. -/
theorem display_window_twice :
    Runs.Along (State.display Demo.mem 0 0) (StoresInWindow Demo.mem 0) Demo.openDisplay
      [.write (List.replicate 64000 0), .fseek 0 0, .write (List.replicate 64000 1)] := by
  refine (display_window_iff Demo.mem 0 displayFile_openDisplay (by decide) _).mpr (.inr ?_)
  exact fits_twice (by rw [List.length_replicate]; decide) (by rw [List.length_replicate]; decide)

/-- Without the seek, the second one goes beyond the window. -/
theorem not_display_window_twice :
    ¬ Runs.Along (State.display Demo.mem 0 0) (StoresInWindow Demo.mem 0) Demo.openDisplay
      [.write (List.replicate 64000 0), .write (List.replicate 64000 1)] := by
  rw [storesInWindow_run displayFile_openDisplay rfl (by decide)]
  refine not_fits_twice ?_ ?_
  · exact List.ne_nil_of_length_pos (by rw [List.length_replicate]; decide)
  · rw [List.length_replicate, List.length_replicate]
    decide

end

end Kernel
end OhMyXv6
