import OhMyXv6.Kernel.Directory
import OhMyXv6.Kernel.Walk

/-!
# Calls that change an inode

A call that has changed the disk goes on as if it had begun with the new disk, as long as the entries of
the inode cache agree with it. So `Steady` is carried over a change of a locked inode, and over the making
of a new one, to a new beginning.
-/

namespace OhMyXv6
namespace Kernel

open Prog

/-- The state with another disk and another log. -/
def State.written (T : State) (d : Disk) (l : List ℕ) : State := { T with disk := d, lh := l }

section
variable {T k t : State} {H H' : List Held} {L L' : List ℕ} {ip i p : ℕ} {E : Panic → Prop}
  {d : Disk} {l : List ℕ}

/-- The disk and the copies of inodes in the cache change. -/
lemma Steady.rebase (h : Steady T k H L) {c : ℕ → Inode}
    (hsame : ∀ e, (c e).inum = (k.icache e).inum ∧ (c e).ref = (k.icache e).ref ∧
      (c e).valid = (k.icache e).valid ∧ (c e).lock = (k.icache e).lock)
    (hdin : ∀ e < NINODE, 0 < (k.icache e).ref → (k.icache e).valid = true →
      (c e).din = dinode T.sb d (k.icache e).inum)
    (htype : ∀ j < T.sb.ninodes, (T.inodes j).type ≠ 0 → (dinode T.sb d j).type ≠ 0)
    (hunlinked : ∀ j < T.sb.ninodes, (dinode T.sb d j).type ≠ 0 → (dinode T.sb d j).nlink = 0 →
      ((T.inodes j).type ≠ 0 ∧ (T.inodes j).nlink = 0) ∨
      ∃ e < NINODE, 0 < (k.icache e).ref ∧ (k.icache e).inum = j ∧ (k.icache e).valid = true) :
    Steady (T.written d l) { k with disk := d, lh := l, icache := c } H L := by
  have hi := fun e => (hsame e).1
  have hr := fun e => (hsame e).2.1
  have hv := fun e => (hsame e).2.2.1
  have hk := fun e => (hsame e).2.2.2
  have hlt : ∀ e < NINODE, 0 < (k.icache e).ref → (k.icache e).inum < T.sb.ninodes := by
    intro e he hpos
    rw [← h.sb]
    exact h.cached.inum e he hpos
  refine ⟨?_, ⟨?_, ?_, ?_, ?_, ?_, ?_, ?_, h.cached.ftable, h.cached.proc⟩, h.holder, ?_, ?_⟩
  · rw [h.frame]
    rfl
  · intro e he hpos
    show (c e).inum < k.sb.ninodes
    rw [hr] at hpos
    rw [hi, h.sb]
    exact hlt e he hpos
  · intro e he hpos hvalid
    rw [hr] at hpos
    rw [hv] at hvalid
    show (c e).din = dinode T.sb d (c e).inum ∧ (dinode T.sb d (c e).inum).type ≠ 0
    rw [hi]
    exact ⟨hdin e he hpos hvalid, htype _ (hlt e he hpos) (h.din he hpos hvalid).2⟩
  · intro e he b hb hpe hpb heq
    rw [hr] at hpe hpb
    rw [hi, hi] at heq
    exact h.cached.distinct e he b hb hpe hpb heq
  · intro e he
    rw [hr]
    exact h.cached.refs e he
  · intro a ha
    rw [hi, hv]
    exact h.cached.held a ha
  · intro e (hpos : 0 < T.view.tab e)
    obtain ⟨he, hinum, hne⟩ := h.cached.tab e hpos
    have href := h.ref_eq he
    have hlt' := hlt e he (by omega)
    rw [hinum] at hlt'
    exact ⟨he, (hi e).trans hinum, htype _ hlt' hne⟩
  · intro j hj h0
    obtain ⟨hjlt, hjtype⟩ := hj
    right
    have hjlt' : j < T.sb.ninodes := by
      rw [← h.sb]
      exact hjlt
    -- an inode without links is held by a valid entry
    have hentry : ∃ e < NINODE, 0 < (k.icache e).ref ∧ (k.icache e).inum = j ∧
        (k.icache e).valid = true := by
      rcases hunlinked j hjlt' hjtype h0 with ⟨htype', h0'⟩ | hentry
      · exact (h.cached.unlinked j ⟨hjlt, htype'⟩ h0').resolve_left fun hf => hf.elim
      · exact hentry
    obtain ⟨e, he, hpos, hinum, hvalid⟩ := hentry
    exact ⟨e, he, (hr e).symm ▸ hpos, (hi e).trans hinum, (hv e).trans hvalid⟩
  · intro e he
    rw [hk, hv]
    exact h.locked e he
  · intro e he hL
    rw [hk]
    exact h.unlocked e he hL

/-- The inode of a locked entry changes, in the cache and on the disk. -/
theorem Steady.change (h : Steady T k H L) {v : Bool} (ha : ⟨ip, i, v⟩ ∈ H) (hL : ip ∈ L) {y : Dinode}
    (hself : dinode T.sb d i = y) (htype : y.type ≠ 0)
    (hother : ∀ j < T.sb.ninodes, j ≠ i → dinode T.sb d j = T.inodes j) :
    Steady (T.written d l) { k with
      disk := d
      lh := l
      icache := Function.update k.icache ip { k.icache ip with din := y } } H L := by
  obtain ⟨hip, hi, hpos⟩ := h.held ha
  have hvalid := (h.locked ip hL).2
  apply h.rebase
  · intro e
    by_cases he : e = ip
    · rw [he, Function.update_self]
      exact ⟨rfl, rfl, rfl, rfl⟩
    · rw [Function.update_of_ne he]
      exact ⟨rfl, rfl, rfl, rfl⟩
  · intro e he hpe hve
    by_cases heq : e = ip
    · rw [heq, Function.update_self, hi, hself]
    · have hne : (k.icache e).inum ≠ i := fun hsame =>
        heq (h.cached.distinct e he ip hip hpe hpos (hsame.trans hi.symm))
      have hlt : (k.icache e).inum < T.sb.ninodes := by
        rw [← h.sb]
        exact h.cached.inum e he hpe
      rw [Function.update_of_ne heq, hother _ hlt hne]
      exact (h.din he hpe hve).1
  · intro j hj hne
    by_cases hji : j = i
    · rwa [hji, hself]
    · rwa [hother j hj hji]
  · intro j hj hne h0
    by_cases hji : j = i
    · exact .inr ⟨ip, hip, hpos, hi.trans hji.symm, hvalid⟩
    · rw [hother j hj hji] at hne h0
      exact .inl ⟨hne, h0⟩

/-- A free inode is allocated, with links. -/
lemma Steady.allot (h : Steady T k H L) (h0 : (T.inodes i).type = 0)
    (htype : (dinode T.sb d i).type ≠ 0) (hlinks : (dinode T.sb d i).nlink ≠ 0)
    (hother : ∀ j < T.sb.ninodes, j ≠ i → dinode T.sb d j = T.inodes j) :
    Steady (T.written d l) (k.written d l) H L := by
  apply h.rebase
  · exact fun e => ⟨rfl, rfl, rfl, rfl⟩
  · intro e he hpos hvalid
    obtain ⟨hdin, hne⟩ := h.din he hpos hvalid
    have hlt : (k.icache e).inum < T.sb.ninodes := by
      rw [← h.sb]
      exact h.cached.inum e he hpos
    rw [hdin, hother _ hlt (by rintro heq; exact hne (heq ▸ h0))]
  · intro j hj hne
    by_cases hji : j = i
    · rwa [hji]
    · rwa [hother j hj hji]
  · intro j hj hne hnlink
    by_cases hji : j = i
    · exact absurd (hji ▸ hnlink) hlinks
    · rw [hother j hj hji] at hne hnlink
      exact .inl ⟨hne, hnlink⟩

end

/-! ## One inode written -/

/-- Inode `i` is written to the disk. -/
def State.putInode (T : State) (i : ℕ) (y : Dinode) : State :=
  T.written (setDinode T.sb T.disk i y) (addLog T.lh (IBLOCK T.sb i))

section
variable {T k : State} {H : List Held} {L : List ℕ} {ip i j n : ℕ} {E : Panic → Prop} {y : Dinode}

/-- The inode that was written is read. -/
lemma inodes_putInode (hfits : y.Fits) : (T.putInode i y).inodes i = y :=
  dinode_setDinode hfits T.disk i

/-- The others are read as before. -/
lemma inodes_putInode_of_ne (h : j ≠ i) : (T.putInode i y).inodes j = T.inodes j :=
  dinode_setDinode_of_ne h T.disk y

lemma inodes_putInode_eq (hfits : y.Fits) :
    (T.putInode i y).inodes = Function.update T.inodes i y := by
  funext j
  by_cases hj : j = i
  · rw [hj, inodes_putInode hfits, Function.update_self]
  · rw [inodes_putInode_of_ne hj, Function.update_of_ne hj]

lemma bit_putInode (hgeo : Geometry T.sb) (hi : i < T.sb.ninodes) (b : ℕ) :
    bit T.sb (T.putInode i y).disk b = bit T.sb T.disk b := by
  have hlt := hgeo.inodes i hi
  have hle : T.sb.bmapstart ≤ BBLOCK T.sb b := Nat.le_add_left _ _
  exact bit_congr (setDinode_of_ne (by omega) _ _)

/-- The files of a state are those that its disk holds. -/
lemma nodes_of_image {A : Nodes} (h : Image T.sb T.disk T.inodes A) : T.nodes = A :=
  funext fun i => (h.node i).symm

/-- The links of a file are counted anew. -/
def State.relinked (T : State) (i n : ℕ) : State := T.putInode i { T.inodes i with nlink := n }

/-- The inode with another count of links can be stored. -/
lemma Sound.fits_relinked (hs : Sound T) (hi : i < T.sb.ninodes) (hn : n < 2 ^ 16) :
    ({ T.inodes i with nlink := n } : Dinode).Fits := by
  have hfits := hs.image.fits i hi
  exact ⟨hfits.type, hfits.major, hfits.minor, hn, hfits.size, hfits.addrs⟩

/-- The disk with another count of links. -/
lemma Sound.image_relinked (hs : Sound T) (hi : Live T.sb T.inodes i) (hn : n < 2 ^ 16) :
    Image T.sb (T.relinked i n).disk (T.relinked i n).inodes (T.nodes.relink i n) := by
  have hfits := hs.fits_relinked hi.1 hn
  have himage := (hs.image.setMeta (y := { T.inodes i with nlink := n }) hi rfl hi.2 hfits
    (hs.image.short i hi) fun bn hbn => hs.image.dense i bn hi hbn).setDinode hi.1
      { T.inodes i with nlink := n }
  have hnode := hs.image.node_live hi
  unfold State.relinked Nodes.relink
  rw [inodes_putInode_eq hfits]
  rw [hnode] at himage ⊢
  exact himage

/-- Its files are the same, but for the count. -/
lemma Sound.nodes_relinked (hs : Sound T) (hi : Live T.sb T.inodes i) (hn : n < 2 ^ 16) :
    (T.relinked i n).nodes = T.nodes.relink i n := nodes_of_image (hs.image_relinked hi hn)

lemma Sound.relinked (hs : Sound T) (hi : Live T.sb T.inodes i) (hn : n < 2 ^ 16) :
    Sound (T.relinked i n) := by
  have himage := hs.image_relinked hi hn
  have hnodes := hs.nodes_relinked hi hn
  -- a directory has the entries that it had
  have hsame : ∀ j, ((T.relinked i n).nodes j).type = (T.nodes j).type ∧
      ((T.relinked i n).nodes j).size = (T.nodes j).size ∧
      ((T.relinked i n).nodes j).data = (T.nodes j).data := by
    intro j
    rw [hnodes]
    by_cases hj : j = i
    · rw [hj, Nodes.relink_self]
      exact ⟨rfl, rfl, rfl⟩
    · rw [Nodes.relink_of_ne hj]
      exact ⟨rfl, rfl, rfl⟩
  refine ⟨by rw [hnodes]; exact himage, fun j htype => ?_, fun j htype m hm => ?_⟩
  · rw [(hsame j).1] at htype
    rw [(hsame j).2.1]
    exact hs.aligned j htype
  · rw [(hsame j).1] at htype
    have hinum : ((T.relinked i n).nodes j).inum m = (T.nodes j).inum m :=
      congrArg (fun f => direntInum f m) (hsame j).2.2
    have hhas : (T.nodes j).Has m := by
      refine ⟨?_, ?_⟩
      · rw [← (hsame j).2.1]
        exact hm.1
      · rw [← hinum]
        exact hm.2
    rw [hinum]
    exact hs.entries j htype m hhas

/-- Counting the links up and down again. -/
lemma Nodes.relink_relink {A : Nodes} : (A.relink i n).relink i (A i).nlink = A := by
  unfold Nodes.relink
  rw [Function.update_self, Function.update_idem]
  exact Function.update_eq_self i A

/-- A count of links is changed, and from then on the call has begun on the new disk. -/
lemma Steady.updateNlink_ends (h : Steady T k H L) {v : Bool} (ha : ⟨ip, i, v⟩ ∈ H) (hL : ip ∈ L)
    (hs : Sound T) (hout : 1 ≤ T.outstanding) {g : ℕ → ℕ} (hg : g (T.inodes i).nlink < 2 ^ 16)
    (hfull : T.logLimit ≤ T.lh.length → E .tooBigATransaction) :
    Ends E (updateNlink ip g)
      (fun _ t => Steady (T.relinked i (g (T.inodes i).nlink)) t H L) k := by
  obtain ⟨hip, hi, hpos⟩ := h.held ha
  obtain ⟨hdin, htype⟩ := h.locked_din ha hL
  have hlt := h.inum_lt ha
  have hfits := hs.fits_relinked hlt hg
  have hlh : k.lh = T.lh := by rw [h.frame]
  have hout' : k.outstanding = T.outstanding := by rw [h.frame]
  unfold updateNlink
  rw [ends_bind]
  unfold modifyDin modify
  rw [ends_act]
  show Ends E (iupdate ip) _ (k.setInode ip _)
  unfold iupdate
  rw [ends_act, State.setInode_self]
  apply log_write_ends
  · exact hout'.symm ▸ hout
  · intro hlog
    apply hfull
    have hsb := h.sb
    unfold State.logLimit at hlog ⊢
    rw [← hsb, ← hlh]
    exact hlog
  · -- the entry is written to where the inode is
    have hput : T.written (setDinode k.sb k.disk (k.icache ip).inum
        { (k.icache ip).din with nlink := g (k.icache ip).din.nlink })
        (addLog k.lh (IBLOCK k.sb (k.icache ip).inum)) = T.relinked i (g (T.inodes i).nlink) := by
      rw [hdin, hi, h.sb, h.disk, hlh]
      rfl
    have hself := congrArg (fun S : State => S.inodes i) hput
    have hother := fun j => congrArg (fun S : State => S.inodes j) hput
    rw [← hput]
    refine h.change ha hL (hself.trans ?_) ?_ fun j _ hj => (hother j).trans
      (inodes_putInode_of_ne hj)
    · rw [hdin]
      exact inodes_putInode hfits
    · rw [hdin]
      exact htype

end

end Kernel
end OhMyXv6
