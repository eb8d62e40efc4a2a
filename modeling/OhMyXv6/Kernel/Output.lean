import OhMyXv6.Kernel.Rebase
import OhMyXv6.Kernel.Shared

/-!
# Output to a file

What a process writes to an open file stands there from the offset on, in one piece however many calls it
was written with, and between two calls all of it is on the disk.
-/

namespace OhMyXv6
namespace Kernel

open Bytes Prog

/-- An open regular file that can be written, between two calls. What the cache has of its inode `i` is on
the disk, and the offset is not behind the end. -/
structure Output (s : State) (f i : ℕ) : Prop where
  file : OpenFile s f s.inodes s.nodes
  inum : (s.icache (s.ftable f).ip).inum = i
  synced : s.inodes i = (s.icache (s.ftable f).ip).din
  writable : (s.ftable f).writable = true
  off : (s.ftable f).off ≤ (s.nodes i).size

/-- From `s` to `t`, the bytes have been written to open file `f` of inode `i`. -/
structure Put (s t : State) (f i : ℕ) (src : List UInt8) : Prop where
  nodes : t.nodes = s.nodes.write i (s.ftable f).off src
  ftable : t.ftable = Function.update s.ftable f
    { s.ftable f with off := (s.ftable f).off + src.length }
  proc : t.proc = s.proc
  inums : ∀ e, (t.icache e).inum = (s.icache e).inum

section
variable {s t u : State} {p f ip i off : ℕ} {X : ℕ → Dinode} {A : Nodes} {src a b : List UInt8}

/-! ## Bytes one after the other -/

lemma Nodes.write_nil (h : off ≤ (A i).size) : A.write i off [] = A := by
  have hdata : blit (A i).data off 0 (ofList []) = (A i).data := by
    funext k
    exact blit_out (by omega)
  unfold Nodes.write
  rw [List.length_nil, hdata, Nat.add_zero, Nat.max_eq_left h]
  exact Function.update_eq_self i A

/-- Two writes, one behind the other, are one. -/
lemma Nodes.write_append : (A.write i off a).write i (off + a.length) b = A.write i off (a ++ b) := by
  have hboth : _ = A.write i off (a ++ b) := Nodes.write_write (k := a.length)
  rwa [List.take_left, List.drop_left] at hboth

/-- The contents after a write inside of the file. -/
lemma Nodes.content_write (h : off ≤ (A i).size) : (A.write i off src i).content =
    (A i).content.take off ++ (src ++ (A i).content.drop (off + src.length)) :=
  Node.content_overwrite h write_size write_data

lemma Put.refl (h : Output s f i) : Put s s f i [] := by
  refine ⟨(Nodes.write_nil h.off).symm, ?_, rfl, fun _ => rfl⟩
  exact (Function.update_eq_self f s.ftable).symm

/-- What two writes have written is one behind the other. -/
lemma Put.trans (h : Put s t f i a) (h' : Put t u f i b) : Put s u f i (a ++ b) := by
  have htf : t.ftable f = { s.ftable f with off := (s.ftable f).off + a.length } := by
    rw [h.ftable, Function.update_self]
  refine ⟨?_, ?_, h'.proc.trans h.proc, fun e => (h'.inums e).trans (h.inums e)⟩
  · rw [h'.nodes, h.nodes, htf, Nodes.write_append]
  · rw [h'.ftable, htf, h.ftable, Function.update_idem, List.length_append]
    simp only [Nat.add_assoc]

/-! ## One transaction -/

/-- The inodes that are meant are those on the disk. -/
lemma OpenFile.onDisk (h : OpenFile s f X A) (hinum : (s.icache (s.ftable f).ip).inum = i)
    (hothers : ∀ j < s.sb.ninodes, j ≠ i → s.inodes j = X j)
    (hsync : s.inodes i = (s.icache (s.ftable f).ip).din) :
    s.nodes = A ∧ OpenFile s f s.inodes s.nodes := by
  have hholds := h.holds
  have himage : Image s.sb s.disk s.inodes A := by
    refine hholds.image.congr fun j hj => ?_
    rw [hinum]
    by_cases hji : j = i
    · rw [hji, Function.update_self, hsync]
    · rw [Function.update_of_ne hji, hothers j hj hji]
  have hnodes := nodes_of_image himage
  refine ⟨hnodes, ⟨⟨?_, hholds.inum, hholds.type, hholds.nodup⟩, h.type, h.regular, h.valid, h.ref,
    h.unlocked⟩, h.lh, h.outstanding, h.nlog⟩
  rw [hinum, ← hsync, Function.update_eq_self, hnodes]
  exact himage

/-- The part of a round under the lock, with what `writei` has done to the disk. -/
theorem filewriteSection_wrote (h : OpenFile s f X A) (hip : (s.ftable f).ip = ip) :
    Ends (fun _ => True) (filewriteSection p f ip src) (fun r t => r = none ∨ r = some src.length ∧
      ∃ w, Holds w ip X (A.write (s.icache ip).inum (s.ftable f).off src) ∧
        Wrote (s.entered p ip) w ip (s.ftable f).off src ∧ t = w.left f ip src.length) s := by
  have hholds := h.holds
  have hregular := h.regular
  have href := h.ref
  rw [hip] at hholds hregular href
  have hentered : (s.entered p ip).icache ip = { s.icache ip with lock := some p } :=
    Function.update_self _ _ _
  have hdev : ((s.entered p ip).icache ip).din.type ≠ T_DEV := by
    rw [hentered, hregular]
    decide
  have hw := @writei_wrote _ _ (s.ftable f).off _ _ src (hholds.entered (p := p))
    (Nat.le_add_left 1 s.outstanding) hdev
  rw [hentered] at hw
  refine filewriteSection_ends h hip (hw.mono (fun _ _ => trivial) fun r t hq => ?_)
  by_cases hr : Refused (s.icache ip).din (s.ftable f).off src.length
  · rw [if_pos hr] at hq
    obtain ⟨rfl, rfl⟩ := hq
    rw [hentered]
    exact ⟨rfl, href, .inl rfl⟩
  · rw [if_neg hr] at hq
    obtain ⟨rfl, ht, hwr⟩ := hq
    have htip : (t.icache ip).lock = some p ∧ 0 < (t.icache ip).ref := by
      rw [hwr.frame]
      simp only [Function.update_self, hentered]
      exact ⟨trivial, href⟩
    exact ⟨htip.1, htip.2, .inr ⟨rfl, t, ht, hwr, rfl⟩⟩

/-- What the round has written is on the disk when it is over. -/
lemma Output.wrote (h : Output s f i) (hip : (s.ftable f).ip = ip) {w : State}
    (hw : Holds w ip s.inodes (s.nodes.write (s.icache ip).inum (s.ftable f).off src))
    (hwr : Wrote (s.entered p ip) w ip (s.ftable f).off src) :
    Output ((w.left f ip src.length).ended p) f i ∧ Put s ((w.left f ip src.length).ended p) f i src := by
  subst hip
  obtain ⟨hopen, -, htable⟩ := h.file.written hw hwr.toWritten
  have hentered : (s.entered p (s.ftable f).ip).icache (s.ftable f).ip =
      { s.icache (s.ftable f).ip with lock := some p } := Function.update_self _ _ _
  set v := (w.left f (s.ftable f).ip src.length).ended p with hv
  have hvf : v.ftable f = { s.ftable f with off := (s.ftable f).off + src.length } := by
    rw [htable, Function.update_self]
  have hvip : (v.ftable f).ip = (s.ftable f).ip := by rw [hvf]
  have hentry : v.icache (s.ftable f).ip = { w.icache (s.ftable f).ip with lock := none } :=
    Function.update_self _ _ _
  have hsb : w.sb = s.sb := hwr.sb
  -- nobody's cache entry is exchanged
  have hinums : ∀ e, (v.icache e).inum = (s.icache e).inum := by
    intro e
    by_cases he : e = (s.ftable f).ip
    · rw [he, hentry]
      show (w.icache (s.ftable f).ip).inum = _
      rw [hwr.inum, hentered]
    · have hve : v.icache e = w.icache e := Function.update_of_ne he _ _
      have hwe : w.icache e = s.icache e := by
        rw [hwr.frame]
        dsimp only
        rw [Function.update_of_ne he]
        exact Function.update_of_ne he _ _
      rw [hve, hwe]
  have hinum : (v.icache (v.ftable f).ip).inum = i := by rw [hvip, hinums, h.inum]
  have hsync : v.inodes i = (v.icache (v.ftable f).ip).din := by
    have hsynced := hwr.synced
    rw [hentered] at hsynced
    rw [hvip, hentry]
    show dinode w.sb w.disk i = (w.icache (s.ftable f).ip).din
    rw [hsb, ← h.inum]
    exact hsynced (h.inum ▸ h.synced)
  -- the other inodes of the disk are those before
  have hothers : ∀ j < v.sb.ninodes, j ≠ i → v.inodes j = s.inodes j := by
    intro j hj hji
    have hother := hwr.others j (hsb ▸ hj)
    rw [hentered] at hother
    show dinode w.sb w.disk j = _
    rw [hsb]
    exact hother (h.inum.symm ▸ hji)
  obtain ⟨hnodes, hfile⟩ := hopen.onDisk hinum hothers hsync
  rw [h.inum] at hnodes
  refine ⟨⟨hfile, hinum, hsync, ?_, ?_⟩, ⟨hnodes, htable, ?_, hinums⟩⟩
  · rw [hvf]
    exact h.writable
  · rw [hvf, hnodes, Nodes.write_size]
    exact Nat.le_max_right _ _
  · show w.proc = s.proc
    rw [hwr.frame]
    rfl

/-- One transaction writes all of its bytes, or none. -/
lemma Output.filewriteRound_ends (h : Output s f i) :
    Ends (fun _ => True) (filewriteRound p f (s.ftable f).ip src)
      (fun r t => r = none ∨ r = some src.length ∧ Output t f i ∧ Put s t f i src) s := by
  rw [filewriteRound_eq]
  refine Ends.seq (filewriteSection_wrote h.file rfl) fun r t hq => Ends.after (t := t.ended p) rfl ?_
  rw [ends_pure]
  rcases hq with hr | ⟨hr, w, hw, hwr, ht⟩
  · exact .inl hr
  · rw [ht]
    exact .inr ⟨hr, h.wrote rfl hw hwr⟩

/-! ## The calls -/

/-- By induction on the rounds: each of them begins where the last one has ended. -/
theorem Output.filewriteLoop_ends (fuel : ℕ) : ∀ {s : State} {src : List UInt8}, Output s f i →
    src.length ≤ fuel → Ends (fun _ => True) (filewriteLoop p f (s.ftable f).ip fuel src)
      (fun all t => all = true → Output t f i ∧ Put s t f i src) s := by
  induction fuel with
  | zero =>
    intro s src h hlen _
    rw [List.eq_nil_of_length_eq_zero (Nat.le_zero.mp hlen)]
    exact ⟨h, .refl h⟩
  | succ fuel ih =>
    intro s src h hlen
    unfold filewriteLoop
    by_cases hnil : src.length = 0
    · rw [if_pos hnil, List.eq_nil_of_length_eq_zero hnil]
      exact fun _ => ⟨h, .refl h⟩
    rw [if_neg hnil]
    refine Ends.seq h.filewriteRound_ends fun r t hr => ?_
    rcases hr with rfl | ⟨rfl, ht, hput⟩
    · intro hall
      cases hall
    have hmax : filewriteMax = 6656 := rfl
    have hip : (t.ftable f).ip = (s.ftable f).ip := by
      rw [hput.ftable, Function.update_self]
    dsimp only
    rw [if_neg (not_not.mpr rfl), ← hip]
    refine (ih ht (by rw [List.length_drop]; omega)).mono (fun _ he => he) fun all u hu hall => ?_
    obtain ⟨hu', hput'⟩ := hu hall
    have hboth := hput.trans hput'
    rw [List.take_append_drop] at hboth
    exact ⟨hu', hboth⟩

/-- A write that reports all its bytes has written them at the offset. -/
lemma Output.filewrite_ends (h : Output s f i) {ext : Ret} :
    Ends (fun _ => True) (filewrite p f src ext)
      (fun r t => r.1 = src.length → Output t f i ∧ Put s t f i src) s := by
  have hdev : (s.icache (s.ftable f).ip).din.type ≠ T_DEV := by
    rw [h.file.regular]
    decide
  unfold filewrite
  refine Ends.after rfl ?_
  rw [if_neg (by rw [h.writable]; simp), h.file.type]
  refine Ends.after rfl ?_
  rw [if_neg hdev]
  refine Ends.seq (h.filewriteLoop_ends _ (Nat.le_refl _)) fun all t ht hr => ?_
  cases all with
  | true => exact ht rfl
  | false =>
    -- `-1` is not a number of bytes
    have hneg : (-1 : ℤ) = src.length := hr
    omega

lemma Output.sys_write_ends (h : Output s f i) {fd : ℕ} (hfd : fd < NOFILE)
    (hofile : (s.proc p).ofile fd = some f) {ext : Ret} :
    Ends (fun _ => True) (sys_write p fd (some src) ext)
      (fun r t => r.1 = src.length → Output t f i ∧ Put s t f i src) s := by
  have hargfd : Prog.exec (argfd p fd) s = .done (some f) s := by
    unfold argfd
    rw [← hofile]
    exact congrArg (fun x => Out.done x s) (if_neg (Nat.not_le.mpr hfd))
  unfold sys_write
  exact Ends.after hargfd h.filewrite_ends

end

end Kernel
end OhMyXv6
