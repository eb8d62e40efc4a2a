import OhMyXv6.Mkfs.Final

/-!
# What `mkfs` leaves alone

Every sector that changes after the superblock is written is in the history, as a write of `winode` or
of `iappend`, or it is the bitmap. The history of a run stays within the inode blocks and the data
blocks, so the kernel reads the superblock that `mkfs` has written.
-/

namespace OhMyXv6
namespace Mkfs

open Bytes

lemma wsect_of_ne {s : St} {sec b : ℕ} {buf : Block} (h : b ≠ sector sec) :
    (wsect s sec buf).img.disk b = s.img.disk b := Function.update_of_ne h _ _

/-- The sectors that differ are in the history. -/
structure Logged (s s' : St) : Prop where
  trace : ∀ e ∈ s.trace, e ∈ s'.trace
  disk : ∀ b, s'.img.disk b = s.img.disk b ∨ .winode b ∈ s'.trace ∨ .wdata b ∈ s'.trace

namespace Logged

lemma refl (s : St) : Logged s s := ⟨fun _ h => h, fun _ => .inl rfl⟩

lemma trans {s t u : St} (h : Logged s t) (h' : Logged t u) : Logged s u := by
  refine ⟨fun e he => h'.trace e (h.trace e he), fun b => ?_⟩
  rcases h'.disk b with heq | hlog
  · rcases h.disk b with heq' | hlog
    · exact .inl (heq.trans heq')
    · exact .inr (hlog.imp (h'.trace _) (h'.trace _))
  · exact .inr hlog

/-- A write that goes into the history. -/
lemma write (s : St) (sec : ℕ) (buf : Block) {e : Event}
    (he : e = .winode (sector sec) ∨ e = .wdata (sector sec)) :
    Logged s (log (wsect s sec buf) e) := by
  refine ⟨fun _ h => List.mem_append_left _ h, fun b => ?_⟩
  by_cases hb : b = sector sec
  · subst hb
    have hmem : e ∈ (log (wsect s sec buf) e).trace :=
      List.mem_append_right _ (List.mem_singleton.mpr rfl)
    rcases he with rfl | rfl
    · exact .inr (.inl hmem)
    · exact .inr (.inr hmem)
  · exact .inl (wsect_of_ne hb)

/-- Taking a block writes no sector. -/
lemma takeBlock (s : St) : Logged s (takeBlock s) :=
  ⟨fun _ h => List.mem_append_left _ h, fun _ => .inl rfl⟩

/-- An inode is written back, and the trace says so. -/
lemma winode {s s' : St} {inum : ℕ} {ip : Dinode} (h : winode s inum ip = .ok s') :
    Logged s s' := by
  obtain ⟨buf, -, h⟩ := bind_eq_ok.mp h
  cases h
  exact write _ _ _ (.inl rfl)

/-- An entry of the indirect block. -/
lemma entryFor {s s' : St} {din din' : Dinode} {fbn b : ℕ}
    (h : entryFor s din fbn = .ok (s', din', b)) : Logged s s' := by
  obtain ⟨buf, -, h⟩ := bind_eq_ok.mp h
  split at h
  · cases h
    exact (takeBlock s).trans (write _ _ _ (.inr rfl))
  · cases h
    exact refl s

lemma blockFor {s s' : St} {din din' : Dinode} {fbn b : ℕ}
    (h : blockFor s din fbn = .ok (s', din', b)) : Logged s s' := by
  unfold Mkfs.blockFor at h
  split at h
  · split at h
    · cases h
      exact takeBlock s
    · cases h
      exact refl s
  · split at h
    · exact (takeBlock s).trans (entryFor h)
    · exact entryFor h

/-- One round of `iappend`'s loop. -/
lemma appendRound {s s' : St} {din din' : Dinode} {off n1 : ℕ} {p : List UInt8}
    (h : appendRound s din off p = .ok (s', din', n1)) : Logged s s' := by
  unfold Mkfs.appendRound at h
  dsimp only at h
  split at h
  · obtain ⟨⟨t, din'', b⟩, hb, h⟩ := bind_eq_ok.mp h
    obtain ⟨buf, -, h⟩ := bind_eq_ok.mp h
    cases h
    exact (blockFor hb).trans (write _ _ _ (.inr rfl))
  · cases h

lemma appendLoop {s s' : St} {din din' : Dinode} {off off' : ℕ} {p : List UInt8}
    (h : appendLoop s din off p = .ok (s', din', off')) : Logged s s' := by
  induction s, din, off, p using appendLoop.induct with
  | case1 s din off =>
    rw [Mkfs.appendLoop, if_pos rfl] at h
    cases h
    exact refl _
  | case2 s din off p hp e hround =>
    rw [Mkfs.appendLoop, if_neg hp] at h
    split at h
    · cases h
    · next h' => rw [h'] at hround; cases hround
  | case3 s din off p hp t din'' n1 hround ih =>
    rw [Mkfs.appendLoop, if_neg hp] at h
    split at h
    · cases h
    · next h' =>
      rw [h'] at hround
      cases hround
      exact (appendRound h').trans (ih h)

lemma iappend {s s' : St} {inum : ℕ} {p : List UInt8} (h : iappend s inum p = .ok s') :
    Logged s s' := by
  obtain ⟨din, -, h⟩ := bind_eq_ok.mp h
  obtain ⟨⟨t, din', off⟩, hloop, h⟩ := bind_eq_ok.mp h
  exact (appendLoop hloop).trans (winode h)

lemma ialloc {s s' : St} {type inum : ℕ} (h : ialloc s type = .ok (inum, s')) :
    Logged s s' := by
  obtain ⟨t, hw, h⟩ := bind_eq_ok.mp h
  cases h
  have hcount : Logged s (log { s with freeinode := s.freeinode + 1 } (.inode s.freeinode)) :=
    ⟨fun _ h => List.mem_append_left _ h, fun _ => .inl rfl⟩
  exact hcount.trans (winode hw)

lemma dirlink {s s' : St} {parent child : ℕ} {name : Path}
    (h : dirlink s parent name child = .ok s') : Logged s s' := by
  unfold Mkfs.dirlink at h
  split at h
  · cases h
  · exact iappend h

/-- The directory table is no part of the image. -/
lemma setDirs (s : St) (dirs : List (Path × ℕ)) : Logged s { s with dirs := dirs } :=
  ⟨fun _ h => h, fun _ => .inl rfl⟩

lemma mkdir {s s' : St} {parent child : ℕ} {component path : Path}
    (h : mkdir s parent component path = .ok (child, s')) : Logged s s' := by
  obtain ⟨⟨c, s1⟩, h1, h⟩ := bind_eq_ok.mp h
  dsimp only at h
  split at h
  · cases h
  · obtain ⟨s2, h2, h⟩ := bind_eq_ok.mp h
    obtain ⟨s3, h3, h⟩ := bind_eq_ok.mp h
    obtain ⟨s4, h4, h⟩ := bind_eq_ok.mp h
    cases h
    exact (ialloc h1).trans ((dirlink h2).trans ((dirlink h3).trans
      ((dirlink h4).trans (setDirs _ _))))

/-- Into a directory that is there or is made. -/
lemma descend {s s' : St} {parent child : ℕ} {component path : Path}
    (h : descend s parent component path = .ok (child, s')) : Logged s s' := by
  unfold Mkfs.descend at h
  split at h
  · cases h
    exact refl _
  · exact mkdir h

/-- By induction on the components. -/
lemma mkdirpLoop {s s' : St} {path p : Path} {parent r : ℕ}
    (h : mkdirpLoop s path parent p = .ok (r, s')) : Logged s s' := by
  induction hlen : p.length using Nat.strong_induction_on generalizing s path parent p with
  | _ n ih =>
    rw [Mkfs.mkdirpLoop] at h
    split at h
    · cases h
      exact refl _
    · next hp =>
      dsimp only at h
      split at h
      · cases h
      · split at h
        · cases h
        · obtain ⟨⟨q, t⟩, hd, h⟩ := bind_eq_ok.mp h
          refine (descend hd).trans (ih _ ?_ h rfl)
          -- the rest of the path is shorter
          have hpos : 0 < p.length := List.length_pos_iff.mpr hp
          have hle := (List.dropWhile_sublist (· ≠ slash) (l := p)).length_le
          rw [List.length_tail]
          omega

lemma mkdirp {s s' : St} {path : Path} {r : ℕ} (h : mkdirp s path = .ok (r, s')) :
    Logged s s' := by
  unfold Mkfs.mkdirp at h
  split at h
  · cases h
    exact refl _
  · exact mkdirpLoop h

/-- By induction on what is read from the file. -/
lemma readLoop {s s' : St} {inum : ℕ} {data : List UInt8} (h : readLoop s inum data = .ok s') :
    Logged s s' := by
  induction hlen : data.length using Nat.strong_induction_on generalizing s data with
  | _ n ih =>
    rw [Mkfs.readLoop] at h
    split at h
    · cases h
      exact refl _
    · next hne =>
      obtain ⟨t, ht, h⟩ := bind_eq_ok.mp h
      refine (iappend ht).trans (ih _ ?_ h rfl)
      have hpos : 0 < data.length := List.length_pos_iff.mpr hne
      rw [List.length_drop, BSIZE]
      omega

lemma addFile {s s' : St} {arg : Arg} (h : addFile s arg = .ok s') : Logged s s' := by
  unfold Mkfs.addFile at h
  split at h
  · cases h
  split at h
  · cases h
  obtain ⟨⟨dirpath, fsname⟩, -, h⟩ := bind_eq_ok.mp h
  dsimp only at h
  split at h
  · cases h
  obtain ⟨⟨parent, s1⟩, h1, h⟩ := bind_eq_ok.mp h
  obtain ⟨⟨inum, s2⟩, h2, h⟩ := bind_eq_ok.mp h
  obtain ⟨s3, h3, h⟩ := bind_eq_ok.mp h
  exact (mkdirp h1).trans ((ialloc h2).trans ((iappend h3).trans (readLoop h)))

/-- A loop whose rounds write only what they log. -/
lemma foldlM {α : Type} {f : St → α → Except Stop St}
    (hf : ∀ s a s', f s a = .ok s' → Logged s s') {l : List α} {s s' : St}
    (h : l.foldlM f s = .ok s') : Logged s s' := by
  induction l generalizing s with
  | nil =>
    cases h
    exact refl _
  | cons a l ih =>
    rw [List.foldlM_cons] at h
    obtain ⟨t, ht, h⟩ := bind_eq_ok.mp h
    exact (hf s a t ht).trans (ih h)

lemma roundSize {s s' : St} {inum : ℕ} (h : roundSize s inum = .ok s') : Logged s s' := by
  obtain ⟨din, -, h⟩ := bind_eq_ok.mp h
  exact winode h

lemma makeRoot {s : St} (h : makeRoot = .ok s) : Logged format s := by
  obtain ⟨⟨rootino, s1⟩, h1, h⟩ := bind_eq_ok.mp h
  dsimp only at h
  split at h
  · cases h
  obtain ⟨s2, h2, h⟩ := bind_eq_ok.mp h
  obtain ⟨s3, h3, h⟩ := bind_eq_ok.mp h
  obtain ⟨⟨bin, s4⟩, h4, h⟩ := bind_eq_ok.mp h
  obtain ⟨s5, h5, h⟩ := bind_eq_ok.mp h
  obtain ⟨s6, h6, h⟩ := bind_eq_ok.mp h
  obtain ⟨s7, h7, h⟩ := bind_eq_ok.mp h
  cases h
  exact (ialloc h1).trans ((setDirs _ _).trans ((iappend h2).trans ((iappend h3).trans
    ((ialloc h4).trans ((iappend h5).trans ((iappend h6).trans ((iappend h7).trans
      (setDirs _ _))))))))

end Logged

/-- The superblock is read back as it was written. -/
lemma read_superblock : Superblock.read (blit zeroBlock 0 28 sb.byte) = sb := by
  decide +kernel

/-- The superblock of the finished image. -/
lemma main_superblock {files : List Arg} {s : St} (h : main files = .ok s)
    (hcount : (Tree.ofFiles files).count < inodeLimit) :
    Superblock.read (s.img.disk 1) = sb := by
  have hevents := (main_shows h hcount).events
  obtain ⟨s0, hroot, h⟩ := bind_eq_ok.mp h
  obtain ⟨s1, hfiles, h⟩ := bind_eq_ok.mp h
  obtain ⟨s2, hround, h⟩ := bind_eq_ok.mp h
  have hlogged : Logged format s2 :=
    (Logged.makeRoot hroot).trans ((Logged.foldlM (fun _ _ _ => Logged.addFile) hfiles).trans
      (Logged.foldlM (fun _ _ _ => Logged.roundSize) hround))
  unfold balloc at h
  split at h
  case isFalse => cases h
  cases h
  -- block 1 is neither the bitmap nor in the history
  have hbm : sector sb.bmapstart = 58 := rfl
  have hsame : (wsect s2 sb.bmapstart ((List.range s2.freeblock).foldl setBit zeroBlock)).img.disk 1
      = s2.img.disk 1 := by
    apply wsect_of_ne
    rw [hbm]
    omega
  rw [hsame]
  rcases hlogged.disk 1 with heq | hw | hw
  · rw [heq, format_eq]
    exact read_superblock
  · obtain ⟨i, -, hi⟩ := hevents _ hw
    have hst : sb.inodestart = 32 := rfl
    have hle : sb.inodestart ≤ IBLOCK sb i := Nat.le_add_left _ _
    omega
  · have hlo := (hevents _ hw).1
    have hm : nmeta = 59 := rfl
    omega

end Mkfs
end OhMyXv6
