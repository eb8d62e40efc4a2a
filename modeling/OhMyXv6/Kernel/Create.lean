import OhMyXv6.Kernel.Rebase

/-!
# A new file

What `create` does for a name that is not there, when it makes a regular file: the inode is allocated, it
gets its link, and the parent gets an entry for it.
-/

namespace OhMyXv6
namespace Kernel

open Prog

/-- What `ialloc` writes for a regular file. -/
def blankFile : Dinode := { Dinode.zero with type := T_FILE }

/-- What `create` makes of it. -/
def newFile : Dinode := { Dinode.zero with type := T_FILE, nlink := 1 }

/-- A blank inode fits the format of the disk. -/
lemma fits_blankFile : blankFile.Fits := by
  have hz := Dinode.fits_zero
  exact ⟨by decide, hz.major, hz.minor, hz.nlink, hz.size, hz.addrs⟩

lemma fits_newFile : newFile.Fits := by
  have hz := Dinode.fits_zero
  exact ⟨by decide, hz.major, hz.minor, by decide, hz.size, hz.addrs⟩

/-- The state with the new file in place of the free inode `i`. -/
def State.withFile (T : State) (i : ℕ) : State := (T.putInode i blankFile).putInode i newFile

/-- From `T` to `T'`, the free inode `i` has been allocated; what no call may lose is still there. -/
structure Grew (T T' : State) (i : ℕ) : Prop where
  written : ∃ d l, T' = T.written d l
  lt : i < T.sb.ninodes
  free : (T.inodes i).type = 0
  used : (T'.inodes i).type ≠ 0
  anchored : Anchored T' []

/-- The file that is made: nothing is in it. -/
def Node.new : Node := ⟨T_FILE, 0, 0, 1, 0, fun _ => 0⟩

/-- The new file has got an entry in directory `d`, which was free. -/
structure Made (T T' : State) (d i : ℕ) (name : List UInt8) : Prop extends Grew T T' i where
  pos : i ≠ 0
  image : Image T'.sb T'.disk T'.inodes T'.nodes
  nodup : T'.lh.Nodup
  entry : ∃ m, DIRENTSIZE * m ≤ (T.nodes d).size ∧ ¬ (T.nodes d).Has m ∧
    T'.nodes = Nodes.link (Function.update T.nodes i .new) d m i name

section
variable {T k t : State} {H : List Held} {L : List ℕ} {ip dp d i p : ℕ} {E : Panic → Prop}
  {name : List UInt8}

/-! ## The inode -/

lemma inodes_withFile : (T.withFile i).inodes = Function.update T.inodes i newFile := by
  unfold State.withFile
  rw [inodes_putInode_eq fits_newFile, inodes_putInode_eq fits_blankFile, Function.update_idem]

/-- The disk with one file more shows the tree with one file more. -/
lemma Sound.image_withFile (hs : Sound T) (hi : i < T.sb.ninodes) (h0 : (T.inodes i).type = 0) :
    Image T.sb (T.withFile i).disk (T.withFile i).inodes
      (Function.update T.nodes i .new) := by
  have hmake : Image T.sb T.disk (Function.update T.inodes i blankFile) (T.nodes.make i T_FILE) :=
    hs.image.make hi h0 (by decide) (by decide)
  have hself : Function.update T.inodes i blankFile i = blankFile := Function.update_self _ _ _
  have hlive : Live T.sb (Function.update T.inodes i blankFile) i :=
    ⟨hi, by rw [hself]; decide⟩
  have hmeta := hmake.setMeta (y := newFile) hlive (by rw [hself]; rfl) (by decide) fits_newFile
    (Nat.zero_le _) fun bn hbn => absurd hbn (Nat.not_lt_zero _)
  have himage := (hmeta.setDinode hi blankFile).setDinode hi newFile
  rw [inodes_withFile]
  unfold Nodes.make at himage
  rw [Function.update_idem, Function.update_idem, Function.update_self] at himage
  exact himage

/-- The tree has one node more, an empty file without a name. -/
lemma Sound.nodes_withFile (hs : Sound T) (hi : i < T.sb.ninodes) (h0 : (T.inodes i).type = 0) :
    (T.withFile i).nodes = Function.update T.nodes i .new := nodes_of_image (hs.image_withFile hi h0)

/-- The file system stays sound, and the other nodes are as they were. -/
lemma Sound.withFile (hs : Sound T) (hi : i < T.sb.ninodes) (h0 : (T.inodes i).type = 0) :
    Sound (T.withFile i) ∧ ∀ j, j ≠ i → (T.withFile i).nodes j = T.nodes j := by
  have himage := hs.image_withFile hi h0
  have hnodes := hs.nodes_withFile hi h0
  have hne : ∀ j, j ≠ i → (T.withFile i).nodes j = T.nodes j := by
    intro j hj
    rw [hnodes, Function.update_of_ne hj]
  have hdir : ∀ j, ((T.withFile i).nodes j).type = T_DIR → j ≠ i := by
    rintro j htype rfl
    rw [hnodes, Function.update_self] at htype
    exact absurd htype (show T_FILE ≠ T_DIR by decide)
  refine ⟨⟨by rw [hnodes]; exact himage, fun j htype => ?_, fun j htype => ?_⟩, hne⟩
  · have hj := hne j (hdir j htype)
    rw [hj] at htype ⊢
    exact hs.aligned j htype
  · have hj := hne j (hdir j htype)
    rw [hj] at htype ⊢
    exact hs.entries j htype

/-- What is anchored without holding anything is anchored. -/
lemma Anchored.cons (h : Anchored T []) (H : List Held) : Anchored T H := by
  intro j htype hlt h0
  rcases h j htype hlt h0 with htab | ⟨a, ha, -⟩
  · exact .inl htab
  · exact nomatch ha

/-- The inodes without links are among those that were without. -/
lemma Anchored.written (h : Anchored T H) {d : Disk} {l : List ℕ}
    (hle : ∀ j < T.sb.ninodes, (dinode T.sb d j).type ≠ 0 → (dinode T.sb d j).nlink = 0 →
      (T.inodes j).type ≠ 0 ∧ (T.inodes j).nlink = 0) : Anchored (T.written d l) H := by
  intro j htype hlt h0
  obtain ⟨htype', h0'⟩ := hle j hlt htype h0
  exact h j htype' hlt h0'

/-- No process is in the new file. -/
lemma Anchored.withFile (h : Anchored T []) : Anchored (T.withFile i) [] := by
  intro j htype hlt h0
  rw [inodes_withFile] at htype h0
  by_cases hj : j = i
  · rw [hj, Function.update_self] at h0
    exact absurd h0 (by decide)
  · rw [Function.update_of_ne hj] at htype h0
    exact h j htype hlt h0

/-- The search of `ialloc` for a free inode, with what comes after it. -/
theorem iallocLoop_ends {Q : ℕ → State → Prop} {type n inum : ℕ} (hout : 1 ≤ k.outstanding)
    (hfull : k.logLimit ≤ k.lh.length → E .tooBigATransaction)
    (hnone : (∀ j, inum ≤ j → j < inum + n → (dinode k.sb k.disk j).type ≠ 0) → E .iallocNoInodes)
    (hget : ∀ j, inum ≤ j → j < inum + n → (dinode k.sb k.disk j).type = 0 →
      Ends E (iget j) Q (k.putInode j { Dinode.zero with type := type })) :
    Ends E (iallocLoop type n inum) Q k := by
  induction n generalizing inum with
  | zero =>
    apply hnone
    intro j hle hlt
    omega
  | succ n ih =>
    unfold iallocLoop
    rw [ends_bind]
    unfold iallocTry
    rw [ends_act]
    split
    · next h0 =>
      have hwrite : (log_write (IBLOCK k.sb inum)
          { k with disk := setDinode k.sb k.disk inum { Dinode.zero with type := type } }).Ends E
          (fun _ t => Ends E (iget inum) Q t) :=
        log_write_ends hout hfull (hget inum (Nat.le_refl inum) (by omega) h0)
      revert hwrite
      cases log_write (IBLOCK k.sb inum)
          { k with disk := setDinode k.sb k.disk inum { Dinode.zero with type := type } } with
      | done a t => exact fun ht => ht
      | wait => exact fun ht => ht
      | stop e => exact fun ht => ht
    · next hne =>
      show Ends E (iallocLoop type n (inum + 1)) Q k
      apply ih
      · intro hall
        apply hnone
        intro j hle hlt
        by_cases hj : j = inum
        · rw [hj]
          exact hne
        · exact hall j (by omega) (by omega)
      · intro j hle hlt
        exact hget j (by omega) (by omega)

/-! ## Its entry in the cache -/

/-- A free entry of the cache is given to the new file, and locked. -/
theorem Steady.occupy (h : Steady T k H L) {e : ℕ} (he : e < NINODE) (hfree : (k.icache e).ref = 0)
    (hi : i < T.sb.ninodes) (hnew : T.inodes i = newFile)
    (hmiss : ∀ c < NINODE, 0 < (k.icache c).ref → (k.icache c).inum ≠ i) :
    Steady T (k.setInode e ⟨i, 1, some p, true, newFile⟩) (⟨e, i, false⟩ :: H) (e :: L) := by
  have href := h.ref_eq he
  have hnot : ∀ a ∈ H, a.ip ≠ e := by
    intro a ha hae
    have hpos := (h.held ha).2.2
    rw [hae] at hpos
    omega
  apply h.setInode he
  · exact fun c hc => Steady.refsTo_cons_of_ne hc
  · show 1 = _
    rw [Steady.refsTo_cons_self]
    omega
  · intro a ha
    rcases List.mem_cons.mp ha with rfl | hmem
    · exact .inr ⟨rfl, rfl, nofun⟩
    · exact .inl ⟨hmem, hnot a hmem⟩
  · exact fun _ => hi
  · intro _ _
    show newFile = T.inodes i ∧ (T.inodes i).type ≠ 0
    rw [hnew]
    exact ⟨rfl, by decide⟩
  · exact fun _ c hc _ hpos => hmiss c hc hpos
  · intro htab
    omega
  · intro hpos
    omega
  · intro c hc
    rcases List.mem_cons.mp hc with rfl | hmem
    · exact ⟨_, .head _, rfl⟩
    · obtain ⟨a, ha, hac⟩ := h.holder c hmem
      exact ⟨a, .tail _ ha, hac⟩
  · exact fun c hc => ⟨fun hin => (List.mem_cons.mp hin).resolve_left hc, .tail _⟩
  · exact fun _ => ⟨rfl, rfl⟩
  · exact fun hnmem => absurd (.head _) hnmem

/-- The entry that `iget` finds for a new inode: `ilock` reads it, and `create` gives it its link. -/
theorem newFile_ends {e : ℕ} (hout : 1 ≤ k.outstanding)
    (hfull : k.logLimit ≤ k.lh.length → E .tooBigATransaction)
    (hentry : k.icache e = ⟨i, 1, none, false, (k.icache e).din⟩)
    (hdisk : dinode k.sb k.disk i = blankFile) {α : Type} {f : M α} {Q : α → State → Prop}
    (hrest : Ends E f Q ((k.putInode i newFile).setInode e ⟨i, 1, some p, true, newFile⟩)) :
    Ends E (ilock p e >>= fun _ => (modifyDin e fun x => { x with major := 0, minor := 0, nlink := 1 })
      >>= fun _ => iupdate e >>= fun _ => f) Q k := by
  have hacquire : Prog.exec (acquire p e) k
      = .done () (k.setInode e ⟨i, 1, some p, false, (k.icache e).din⟩) := by
    unfold acquire
    rw [exec_act, hentry]
    rfl
  have hload : Prog.exec (iload e) (k.setInode e ⟨i, 1, some p, false, (k.icache e).din⟩)
      = .done () (k.setInode e ⟨i, 1, some p, true, blankFile⟩) := by
    unfold iload
    rw [exec_act]
    dsimp only
    rw [State.setInode_self]
    have hread : dinode (k.setInode e ⟨i, 1, some p, false, (k.icache e).din⟩).sb
        (k.setInode e ⟨i, 1, some p, false, (k.icache e).din⟩).disk i = blankFile := hdisk
    rw [if_neg Bool.false_ne_true, hread, if_neg (show ¬ blankFile.type = 0 by decide)]
    unfold State.setInode
    rw [Function.update_idem]
  have hlock : Prog.exec (ilock p e) k = .done () (k.setInode e ⟨i, 1, some p, true, blankFile⟩) := by
    unfold ilock
    rw [exec_seq hacquire, hload]
  have hmod : Prog.exec (modifyDin e fun x => { x with major := 0, minor := 0, nlink := 1 })
      (k.setInode e ⟨i, 1, some p, true, blankFile⟩)
      = .done () (k.setInode e ⟨i, 1, some p, true, newFile⟩) := by
    unfold modifyDin modify
    rw [exec_act]
    dsimp only
    rw [State.setInode_self]
    unfold State.setInode
    rw [Function.update_idem]
    rfl
  refine Ends.after hlock (Ends.after hmod ?_)
  rw [ends_bind]
  unfold iupdate
  rw [ends_act, State.setInode_self]
  exact log_write_ends hout hfull hrest

/-- No entry in use is for a free inode. -/
lemma Steady.not_used (h : Steady T k H L) (hH : ∀ a ∈ H, (T.inodes a.inum).type ≠ 0)
    (h0 : (T.inodes i).type = 0) {c : ℕ} (hc : c < NINODE) (hpos : 0 < (k.icache c).ref) :
    (k.icache c).inum ≠ i := by
  rintro rfl
  have href := h.ref_eq hc
  by_cases htab : 0 < T.view.tab c
  · obtain ⟨-, hinum, hne⟩ := h.cached.tab c htab
    rw [← hinum] at hne
    exact hne h0
  · obtain ⟨a, ha, rfl⟩ := mem_of_refsTo_pos (show 0 < refsTo H c by omega)
    rw [(h.held ha).2.1] at h0
    exact hH a ha h0

/-- What the calls hold stays the same beside the new file. -/
lemma Steady.withFile (h : Steady T k H L) (h0 : (T.inodes i).type = 0) :
    Steady (T.withFile i) (k.withFile i) H L := by
  have hlh : k.lh = T.lh := by rw [h.frame]
  have hself : (T.withFile i).inodes i = newFile := by
    rw [inodes_withFile, Function.update_self]
  have hstate : k.withFile i = k.written (T.withFile i).disk (T.withFile i).lh := by
    unfold State.withFile State.putInode State.written
    rw [h.sb, h.disk, hlh]
  rw [hstate]
  refine h.allot (i := i) h0 ?_ ?_ fun j _ hj => ?_
  · show ((T.withFile i).inodes i).type ≠ 0
    rw [hself]
    decide
  · show ((T.withFile i).inodes i).nlink ≠ 0
    rw [hself]
    decide
  · show (T.withFile i).inodes j = T.inodes j
    rw [inodes_withFile, Function.update_of_ne hj]

/-! ## The entry in the parent -/

/-- A locked entry of the cache agrees with the disk. -/
lemma Steady.holds (h : Steady T k H L) (himage : Image T.sb T.disk T.inodes T.nodes) {v : Bool}
    (ha : ⟨ip, i, v⟩ ∈ H) (hL : ip ∈ L) (hnodup : T.lh.Nodup) : Holds k ip T.inodes T.nodes := by
  obtain ⟨hdin, hne⟩ := h.locked_din ha hL
  obtain ⟨hip, hi, hpos⟩ := h.held ha
  refine ⟨?_, ?_, ?_, ?_⟩
  · rw [h.sb, h.disk, hi, hdin, Function.update_eq_self]
    exact himage
  · rw [hi, h.sb]
    exact h.inum_lt ha
  · rw [hdin]
    exact hne
  · rw [h.frame]
    exact hnodup

/-- A directory that is held and locked may be searched and written. -/
lemma Steady.dir (h : Steady T k H L) (hs : Sound T) {v : Bool} (ha : ⟨ip, i, v⟩ ∈ H) (hL : ip ∈ L)
    (htype : (T.nodes i).type = T_DIR) (hout : 1 ≤ T.outstanding) (hnodup : T.lh.Nodup) :
    Dir k ip := by
  have hout' : k.outstanding = T.outstanding := by rw [h.frame]
  refine ⟨⟨_, _, h.holds hs.image ha hL hnodup⟩, ?_, (h.held ha).2.2, hout'.symm ▸ hout⟩
  rw [(h.locked_din ha hL).1, ← hs.image.type (h.inum_lt ha)]
  exact htype

/-- A locked file has been written. -/
lemma Steady.wrote (h : Steady T k H L) {v : Bool} (ha : ⟨ip, i, v⟩ ∈ H) (hL : ip ∈ L) {off : ℕ}
    {src : List UInt8} (hw : Wrote k t ip off src) : Steady (T.written t.disk t.lh) t H L := by
  obtain ⟨hdin, hne⟩ := h.locked_din ha hL
  obtain ⟨hip, hi, hpos⟩ := h.held ha
  have hentry : t.icache ip = { k.icache ip with din := (t.icache ip).din } := by
    rw [hw.frame]
    simp only [Function.update_self]
  have htype : (t.icache ip).din.type = (k.icache ip).din.type := by
    rw [hw.frame]
    simp only [Function.update_self]
  have hframe : t = { k with
      disk := t.disk
      lh := t.lh
      icache := Function.update k.icache ip { k.icache ip with din := (t.icache ip).din } } := by
    conv_lhs => rw [hw.frame]
    conv_rhs => rw [hw.frame]
    simp only [Function.update_self]
  have hsync : dinode k.sb k.disk (k.icache ip).inum = (k.icache ip).din := by
    rw [h.sb, h.disk, hi, hdin]
    rfl
  rw [hframe]
  refine h.change ha hL ?_ ?_ fun j hj hji => ?_
  · rw [← h.sb, ← hi]
    exact hw.synced hsync
  · rw [htype, hdin]
    exact hne
  · rw [← h.sb] at hj ⊢
    rw [hw.others j hj (by rw [hi]; exact hji), h.sb, h.disk]
    rfl

/-- The locks in another order. -/
lemma Steady.relock (h : Steady T k H L) {L' : List ℕ} (hL : ∀ e, e ∈ L' ↔ e ∈ L) :
    Steady T k H L' :=
  ⟨h.frame, h.cached, fun e he => h.holder e ((hL e).mp he), fun e he => h.locked e ((hL e).mp he),
    fun e he hnot => h.unlocked e he fun hin => hnot ((hL e).mpr hin)⟩

/-! ## All together -/

/-- What making a file in directory `d` may stop with. -/
structure Obstacles (T : State) (d : ℕ) (E : Panic → Prop) : Prop where
  inodes : (∀ j, 1 ≤ j → j < T.sb.ninodes → (T.inodes j).type ≠ 0) → E .iallocNoInodes
  cache : T.freeEntries.card ≤ 1 → E .igetNoInodes
  log : T.logLimit ≤ T.lh.length + 9 → E .tooBigATransaction
  blocks : freeCount T.sb T.disk < 2 → E .ballocOutOfBlocks
  size : MAXFILE * BSIZE ≤ (T.nodes d).size → E .dirlink

/-- A new inode is logged with two blocks at most. -/
lemma length_withFile_le (T : State) (i : ℕ) : (T.withFile i).lh.length ≤ T.lh.length + 2 := by
  have h₁ := length_addLog_le T.lh (IBLOCK T.sb i)
  have h₂ := length_addLog_le (addLog T.lh (IBLOCK T.sb i)) (IBLOCK T.sb i)
  show (addLog (addLog T.lh (IBLOCK T.sb i)) (IBLOCK T.sb i)).length ≤ _
  omega

/-- A new inode takes no data block. -/
lemma freeCount_withFile (hgeo : Geometry T.sb) (hi : i < T.sb.ninodes) :
    freeCount T.sb (T.withFile i).disk = freeCount T.sb T.disk := by
  have hbit : ∀ b, bit T.sb (T.withFile i).disk b = bit T.sb T.disk b := fun b =>
    (bit_putInode (T := T.putInode i blankFile) hgeo hi b).trans (bit_putInode hgeo hi b)
  unfold freeCount
  simp only [hbit]

/-- The second half of `createNew`: the entry is written, and the parent is given back. -/
theorem link_ends (h : Steady (T.withFile i) k [⟨ip, i, false⟩, ⟨dp, d, false⟩] [ip, dp])
    (hs : Sound T) (hanch : Anchored T []) (htype : (T.nodes d).type = T_DIR)
    (hfind : (T.nodes d).find name = none) (hout : 1 ≤ T.outstanding) (hnodup : T.lh.Nodup)
    (hpos : i ≠ 0) (hi : i < T.sb.ninodes) (h0 : (T.inodes i).type = 0) (hobs : Obstacles T d E) :
    Ends E (dirlinkOr .createDirlink dp name i >>= fun _ => iunlockput dp >>= fun _ => pure ip)
      (fun e t => ∃ T', Made T T' d i name ∧ Steady T' t [⟨e, i, false⟩] [e]) k := by
  obtain ⟨hs₁, hnode⟩ := hs.withFile hi h0
  have hlt : d < T.sb.ninodes := h.inum_lt (.tail _ (.head _))
  have hdi : d ≠ i := by
    rintro rfl
    rw [hs.image.type hlt, h0] at htype
    exact absurd htype (by decide)
  have hd : (T.withFile i).nodes d = T.nodes d := hnode d hdi
  have hmem : (⟨dp, d, false⟩ : Held) ∈ [(⟨ip, i, false⟩ : Held), ⟨dp, d, false⟩] :=
    .tail _ (.head _)
  have hmemL : dp ∈ [ip, dp] := .tail _ (.head _)
  have hcached := h.cached_eq hmem hmemL
  rw [hd] at hcached
  have hlen := length_withFile_le T i
  have hlh : k.lh = (T.withFile i).lh := by rw [h.frame]
  have hdir : Dir k dp := h.dir hs₁ hmem hmemL (by rw [hd]; exact htype) hout
    (nodup_addLog (nodup_addLog hnodup))
  have hal : DIRENTSIZE ∣ (k.cached dp).size := by
    rw [hcached]
    exact hs.aligned d htype
  have hstop : ∀ e, NoRoom k e ∨ e = .dirlink ∧ MAXFILE * BSIZE ≤ (k.cached dp).size → E e := by
    rintro e ((⟨rfl, hfree⟩ | ⟨rfl, hfull⟩) | ⟨rfl, hbig⟩)
    · apply hobs.blocks
      have hsb : k.sb = T.sb := h.sb
      have hdisk : k.disk = (T.withFile i).disk := h.disk
      rw [← freeCount_withFile hs.image.geometry hi, ← hdisk, ← hsb]
      exact hfree
    · apply hobs.log
      have hlimit : k.logLimit = T.logLimit := by
        unfold State.logLimit
        rw [h.sb]
        rfl
      rw [hlimit, hlh] at hfull
      omega
    · apply hobs.size
      rw [← hcached]
      exact hbig
  have hholds := h.holds hs₁.image hmem hmemL (nodup_addLog (nodup_addLog hnodup))
  have hlinked : Ends E (dirlinkOr .createDirlink dp name i) (fun _ t => ∃ m,
      DIRENTSIZE * m ≤ (T.nodes d).size ∧ ¬ (T.nodes d).Has m ∧
      Wrote k t dp (DIRENTSIZE * m) (direntBytes i name) ∧
      Holds t dp (T.withFile i).inodes ((T.withFile i).nodes.link d m i name)) k := by
    unfold dirlinkOr
    refine Ends.seq ((hdir.dirlink_absent hholds hal (by rw [hcached]; exact hfind)).mono hstop
      fun _ _ hq => hq) ?_
    rintro r t ⟨rfl, -, m, hm, hfree, -, hw, -, ht⟩
    rw [hcached] at hm hfree
    rw [(h.held hmem).2.1] at ht
    exact ⟨m, hm, hfree, hw, ht⟩
  apply Ends.seq hlinked
  rintro _ t ⟨m, hm, hfree, hw, hth⟩
  -- the parent on the disk has its new size, and the same links
  have hwritten := h.wrote hmem hmemL hw
  have hlocks : ∀ e, e ∈ [dp, ip] ↔ e ∈ [ip, dp] := by simp [or_comm]
  have ht := hwritten.swap.relock hlocks
  have hinum : (k.icache dp).inum = d := (h.held hmem).2.1
  have hother : ∀ j < T.sb.ninodes, j ≠ d → dinode T.sb t.disk j = (T.withFile i).inodes j := by
    intro j hj hjd
    have hsb : k.sb = T.sb := h.sb
    have hsame := hw.others j (by rw [hsb]; exact hj) (by rw [hinum]; exact hjd)
    rw [hsb, h.disk] at hsame
    exact hsame
  have hself : (dinode T.sb t.disk d).nlink = ((T.withFile i).inodes d).nlink := by
    have hlock := hwritten.locked_din hmem hmemL
    have hkeep : (t.icache dp).din.nlink = (k.icache dp).din.nlink := by
      rw [hw.frame]
      simp only [Function.update_self]
    have hread : (t.icache dp).din = dinode T.sb t.disk d := hlock.1
    rw [← hread, hkeep, (h.locked_din hmem hmemL).1]
  have hanch₁ : Anchored (T.withFile i) [] := hanch.withFile
  have hanch' : Anchored ((T.withFile i).written t.disk t.lh) [] := by
    refine hanch₁.written fun j (hj : j < T.sb.ninodes) hne hzero => ?_
    by_cases hjd : j = d
    · rw [hjd] at hzero ⊢
      exact ⟨(h.locked_din hmem hmemL).2, hself.symm.trans hzero⟩
    · have hsame := hother j hj hjd
      exact ⟨hsame ▸ hne, hsame ▸ hzero⟩
  have hne : dp ∉ [ip] := by
    intro hin
    obtain rfl := List.mem_singleton.mp hin
    have hinum' := (h.held (.head _)).2.1
    exact hdi (hinum.symm.trans hinum')
  have hkept := (hanch'.cons [⟨ip, i, false⟩]).kept ht (List.Subset.refl _)
  refine Ends.seq (ht.iunlockput_ends hkept hne fun e he => ?_) fun _ u hu => ?_
  · exact ⟨_, .head _, (List.mem_singleton.mp he).symm⟩
  · -- the disk has the new entry, in the only inode that has changed
    have hsync : dinode T.sb t.disk d = (t.icache dp).din := (hwritten.locked_din hmem hmemL).1.symm
    have himage : Image T.sb t.disk (dinode T.sb t.disk) ((T.withFile i).nodes.link d m i name) := by
      have hsb : t.sb = T.sb := hwritten.sb
      have hinum' : (t.icache dp).inum = d := (hwritten.held hmem).2.1
      have himage := hth.image
      rw [hsb, hinum'] at himage
      refine himage.congr fun j hj => ?_
      by_cases hjd : j = d
      · rw [hjd, Function.update_self, hsync]
      · rw [Function.update_of_ne hjd, hother j hj hjd]
    have hnodes : (T.written t.disk t.lh).nodes = (T.withFile i).nodes.link d m i name :=
      nodes_of_image himage
    refine ⟨_, ⟨⟨⟨t.disk, t.lh, rfl⟩, hi, h0, ?_, hanch'⟩, hpos, ?_, hth.nodup, m, hm, hfree, ?_⟩, hu⟩
    · show (dinode T.sb t.disk i).type ≠ 0
      rw [hother i hi (Ne.symm hdi), inodes_withFile, Function.update_self]
      decide
    · rw [hnodes]
      exact himage
    · rw [← hs.nodes_withFile hi h0]
      exact hnodes

/-- `create` of a regular file in a directory that has no entry of the name. -/
theorem createNew_ends (h : Steady T k [⟨dp, d, false⟩] [dp]) (hs : Sound T) (hanch : Anchored T [])
    (htype : (T.nodes d).type = T_DIR) (hfind : (T.nodes d).find name = none)
    (hout : 1 ≤ T.outstanding) (hnodup : T.lh.Nodup) (hobs : Obstacles T d E) :
    Ends E (createNew p dp name T_FILE 0 0)
      (fun e t => ∃ i T', Made T T' d i name ∧ Steady T' t [⟨e, i, false⟩] [e]) k := by
  have hlh : k.lh = T.lh := by rw [h.frame]
  have hout' : 1 ≤ k.outstanding := by
    rw [h.frame]
    exact hout
  have hlimit : k.logLimit = T.logLimit := by
    unfold State.logLimit
    rw [h.sb]
  have hlt : d < T.sb.ninodes := h.inum_lt (.head _)
  have hread : ∀ j, dinode k.sb k.disk j = T.inodes j := by
    intro j
    rw [h.sb, h.disk]
    rfl
  have hdlive : (T.inodes d).type ≠ 0 := (h.locked_din (.head _) (.head _)).2
  unfold createNew ialloc
  rw [ends_bind, ends_get, h.sb]
  apply iallocLoop_ends hout'
  · intro hfull
    apply hobs.log
    rw [hlimit, hlh] at hfull
    omega
  · intro hall
    apply hobs.inodes
    intro j hle hj
    rw [← hread]
    exact hall j hle (by omega)
  -- a free inode has been found
  intro i hpos hi h0
  rw [hread] at h0
  have hi' : i < T.sb.ninodes := by omega
  have hget := iget_got (k.putInode i blankFile) i
  refine hget.mono (fun e he => ?_) fun e k₁ hgot => ?_
  · obtain ⟨rfl, hfull⟩ := he
    apply hobs.cache
    refine card_freeEntries_le (H := [⟨dp, d, false⟩]) fun c hc => ?_
    rw [← h.ref_eq hc]
    exact hfull c hc
  have hunused : ∀ c < NINODE, 0 < (k.icache c).ref → (k.icache c).inum ≠ i := by
    intro c hc
    refine h.not_used (fun a ha => ?_) h0 hc
    rw [List.mem_singleton.mp ha]
    exact hdlive
  cases hgot with
  | hit he hpos hinum _ => exact absurd hinum (hunused e he hpos)
  | miss he hzero hk₁ =>
    have hzero' : (k.icache e).ref = 0 := hzero
    have hne : e ≠ dp := by
      rintro rfl
      have hpos := (h.held (.head _)).2.2
      omega
    have hunlocked : (k.icache e).lock = none :=
      h.unlocked e he fun hin => hne (List.mem_singleton.mp hin)
    have hentry : k₁.icache e = ⟨i, 1, none, false, (k₁.icache e).din⟩ := by
      rw [hk₁, State.setInode_self]
      show (⟨i, 1, (k.icache e).lock, false, _⟩ : Inode) = _
      rw [hunlocked]
    have hdisk : dinode k₁.sb k₁.disk i = blankFile := by
      rw [hk₁]
      exact dinode_setDinode fits_blankFile k.disk i
    have hlog : k₁.logLimit ≤ k₁.lh.length → E .tooBigATransaction := by
      intro hfull
      apply hobs.log
      have hlen := length_addLog_le k.lh (IBLOCK k.sb i)
      have hfull' : k.logLimit ≤ (addLog k.lh (IBLOCK k.sb i)).length := by
        rw [hk₁] at hfull
        exact hfull
      rw [hlimit] at hfull'
      rw [hlh] at hfull' hlen
      omega
    have hstate : (k₁.putInode i newFile).setInode e ⟨i, 1, some p, true, newFile⟩
        = (k.withFile i).setInode e ⟨i, 1, some p, true, newFile⟩ := by
      rw [hk₁]
      unfold State.withFile State.putInode State.written State.setInode
      rw [Function.update_idem]
    refine newFile_ends (by rw [hk₁]; exact hout') hlog hentry hdisk ?_
    rw [hstate]
    have hnew : (T.withFile i).inodes i = newFile := by
      rw [inodes_withFile, Function.update_self]
    have h₁ := (h.withFile h0).occupy (p := p) he hzero' hi' hnew hunused
    have hinum : ((k.withFile i).setInode e ⟨i, 1, some p, true, newFile⟩).icache e
        = ⟨i, 1, some p, true, newFile⟩ := State.setInode_self _ _ _
    have hdots : createDots dp e T_FILE = pure () := if_neg (by decide)
    rw [hdots]
    show Ends E (get _ >>= _) _ _
    rw [ends_get, hinum]
    exact (link_ends h₁ hs hanch htype hfind hout hnodup (by omega) hi' h0 hobs).mono (fun _ he => he)
      fun e' t ⟨T', hmade, ht⟩ => ⟨i, T', hmade, ht⟩

end

end Kernel
end OhMyXv6
