import OhMyXv6.Kernel.Create
import OhMyXv6.Kernel.Resolve

/-!
# Failed calls

The calls that take a path make their changes in several steps, and each of these may be the one that
fails. `link` takes back what it has done; the others fail before they change anything, but for one:
`open` may find that there is no file or no descriptor left after it has created the file.
-/

namespace OhMyXv6
namespace Kernel

open Prog

/-- From `s` to `t` the files and the bitmap are the same, and so are the open files and the descriptors
and the current directory of process `p`. -/
structure Unaffected (s t : State) (p : ℕ) : Prop where
  nodes : t.nodes = s.nodes
  bitmap : ∀ b < s.sb.size, bit t.sb t.disk b = bit s.sb s.disk b
  ftable : t.ftable = s.ftable
  ofile : (t.proc p).ofile = (s.proc p).ofile
  cwd : (t.proc p).cwd = (s.proc p).cwd
  cwdInum : (t.icache (t.proc p).cwd).inum = (s.icache (s.proc p).cwd).inum

/-- What holds when process `p` begins a call. -/
structure Ready (s : State) (p : ℕ) : Prop where
  settled : Settled s
  sound : Sound s
  cwd : HasCwd s p
  free : ∀ f < NFILE, (s.ftable f).ref = 0 → (s.ftable f).type = .FD_NONE
  nodup : s.lh.Nodup

/-- A state of the same files, inside a transaction, in which a call may be taken to have begun. -/
structure Base (s T : State) : Prop where
  sb : T.sb = s.sb
  nodes : T.nodes = s.nodes
  bitmap : ∀ b < s.sb.size, bit T.sb T.disk b = bit s.sb s.disk b
  icache : T.icache = s.icache
  ftable : T.ftable = s.ftable
  proc : T.proc = s.proc
  outstanding : 1 ≤ T.outstanding
  nodup : T.lh.Nodup
  sound : Sound T
  anchored : Anchored T []

/-- A call that began in `T` is over, and has changed nothing but the inode cache. -/
structure Ended (T t : State) : Prop where
  sb : t.sb = T.sb
  disk : t.disk = T.disk
  ftable : t.ftable = T.ftable
  proc : t.proc = T.proc
  inum : ∀ e, 0 < T.view.tab e → (t.icache e).inum = (T.icache e).inum

/-- If the call has failed nothing has changed. -/
def Clean (s : State) (p : ℕ) (r : Ret) (t : State) : Prop := r.1 = -1 → Unaffected s t p

section
variable {s T k t : State} {H : List Held} {L : List ℕ} {p ip i : ℕ} {path name : List UInt8}
  {E : Panic → Prop}

/-! ## The parts of the calls -/

/-- The transaction of the call has begun. -/
lemma begin_base (h : Ready s p) : wp (fun _ => True) (begin_op p)
    (fun _ T => Base s T ∧ Settled T) s := by
  unfold begin_op
  rw [wp_act]
  split
  · trivial
  · have hcached := h.settled.cached.congr (t := { s with
      outstanding := s.outstanding + 1
      inOp := p :: s.inOp }) rfl (fun _ => ⟨rfl, rfl, rfl, rfl⟩) rfl rfl
    refine ⟨⟨rfl, rfl, fun _ _ => rfl, rfl, rfl, rfl, Nat.le_add_left _ _, h.nodup, ?_, ?_⟩, ?_⟩
    · exact ⟨h.sound.image, h.sound.aligned, h.sound.entries⟩
    · exact h.settled.anchored []
    · exact ⟨rfl, hcached, nofun, nofun, h.settled.unlocked⟩

/-- The end of a call that fails. -/
lemma end_ended (h : Steady T k [] []) :
    wp (fun _ => True) (end_op p >>= fun _ => pure failed) (fun _ t => Ended T t) k :=
  ⟨h.sb, h.disk, h.ftable, h.proc, fun e htab => (h.cached.tab e htab).2.1⟩

/-- A call that has given everything back, and changed no file. -/
lemma Base.unaffected (hT : Base s T) (hcwd : HasCwd s p) (h : Ended T t) : Unaffected s t p := by
  have hproc : t.proc = s.proc := h.proc.trans hT.proc
  refine ⟨?_, fun b hb => ?_, h.ftable.trans hT.ftable, by rw [hproc], by rw [hproc], ?_⟩
  · rw [← hT.nodes]
    unfold State.nodes
    rw [h.sb, h.disk]
  · rw [h.sb, h.disk]
    exact hT.bitmap b hb
  · have htab : 0 < T.view.tab (s.proc p).cwd := by
      show 0 < if (s.proc p).cwd < NINODE then (T.icache (s.proc p).cwd).ref else 0
      rw [if_pos hcwd.1, hT.icache]
      exact hcwd.2
    rw [hproc, h.inum _ htab, hT.icache]

/-- An exit that ends the transaction and fails. -/
lemma end_clean (hT : Base s T) (hcwd : HasCwd s p) (h : Steady T k [] []) :
    wp (fun _ => True) (end_op p >>= fun _ => pure failed) (Clean s p) k :=
  wp_mono (end_ended h) fun _ _ ht _ => hT.unaffected hcwd ht

lemma openFull_ends (hanch : Anchored T []) (h : Steady T k [⟨ip, i, false⟩] [ip]) :
    Prog.Ends E (openFull p ip) (fun r t => r = failed ∧ Ended T t) k := by
  have hkept := hanch.kept h (List.Subset.refl [])
  refine Prog.Ends.seq (h.iunlockput_ends hkept nofun nofun) fun _ u hu => ?_
  exact ⟨rfl, hu.sb, hu.disk, hu.ftable, hu.proc, fun e htab => (hu.cached.tab e htab).2.1⟩

/-- That exit has changed no file. -/
lemma openFull_clean (hT : Base s T) (hcwd : HasCwd s p)
    (h : Steady T k [⟨ip, i, false⟩] [ip]) : wp (fun _ => True) (openFull p ip) (Clean s p) k :=
  wp_mono (openFull_ends hT.anchored h).wp fun _ _ ht _ => hT.unaffected hcwd ht.2

/-- What a call that succeeds does is not asked for. -/
lemma clean_of_ne {x : M Ret} (h : wp (fun _ => True) x (fun r _ => r.1 ≠ -1) k) :
    wp (fun _ => True) x (Clean s p) k := wp_mono h fun _ _ hne heq => absurd heq hne

/-- `ilock` waits for an entry that the call itself has locked. -/
lemma ilock_wp (h : Steady T k H L) {v : Bool} (ha : ⟨ip, i, v⟩ ∈ H) :
    wp (fun _ => True) (ilock p ip) (fun _ t => Steady T t H (ip :: L) ∧ ip ∉ L) k := by
  by_cases hL : ip ∈ L
  · have hpos := (h.held ha).2.2
    have hlock := (h.locked ip hL).1
    unfold ilock acquire
    rw [wp_bind, wp_act, if_neg (by omega), if_pos hlock]
    trivial
  · exact wp_mono (h.ilock_ends ha hL fun _ => trivial).wp fun _ _ ht => ⟨ht, hL⟩

/-- The weakest condition on the directories on the way. -/
lemma passable_any (T : State) (H : List Held) : Passable T H (fun _ => True) fun _ => True :=
  ⟨fun _ _ _ => trivial, fun _ _ _ _ _ => trivial, fun _ => trivial⟩

/-- The current directory is the same. -/
lemma Base.hasCwd (hT : Base s T) (hcwd : HasCwd s p) : HasCwd T p := by
  unfold HasCwd
  rw [hT.proc, hT.icache]
  exact hcwd

lemma Base.start (hT : Base s T) : T.start p path = s.start p path := by
  unfold State.start
  rw [hT.proc, hT.icache]

lemma namei_wp (hs : Sound T) (hcwd : HasCwd T p) (hanch : Anchored T H) (h : Steady T k H []) :
    wp (fun _ => True) (namei p path) (fun r t => (r = none ∧ Steady T t H []) ∨
      ∃ ip i, r = some ip ∧ Steady T t (⟨ip, i, false⟩ :: H) []) k := by
  unfold namei
  apply wp_seq (namex_ends hs hcwd hanch (passable_any T H) trivial h).wp
  intro r t ht
  unfold Reaches at ht
  split at ht
  · obtain ⟨rfl, ht⟩ := ht
    exact .inl ⟨rfl, ht⟩
  · obtain ⟨ip, rfl, ht⟩ := ht
    exact .inr ⟨ip, _, rfl, ht⟩

/-- `nameiparent`, whatever it finds. -/
lemma nameiparent_wp (hs : Sound T) (hcwd : HasCwd T p) (hanch : Anchored T H)
    (h : Steady T k H []) :
    wp (fun _ => True) (nameiparent p path) (fun r t => (r = none ∧ Steady T t H [] ∧
        T.nodes.resolveParent (T.start p path) path = none) ∨
      ∃ ip i name, r = some (ip, name) ∧ Steady T t (⟨ip, i, false⟩ :: H) [] ∧
        T.nodes.resolveParent (T.start p path) path = some (i, name)) k := by
  have hwalk := Nodes.walk_true (A := T.nodes) (i := T.start p path) (Nat.lt_succ_self path.length)
  apply wp_mono (namex_ends hs hcwd hanch (passable_any T H) trivial h).wp
  intro r t ht
  rw [hwalk] at ht
  unfold Reaches at ht
  split at ht
  · next hnone =>
    obtain ⟨rfl, ht⟩ := ht
    exact .inl ⟨rfl, ht, hnone⟩
  · next i name hsome =>
    obtain ⟨ip, rfl, ht⟩ := ht
    exact .inr ⟨ip, i, name, rfl, ht, hsome⟩

/-- A call that answers 0 has not failed. -/
lemma zero_ne_neg_one : (0 : ℤ) ≠ -1 := by decide

/-! ## `chdir` -/

/-- A `chdir` that fails has changed nothing. -/
lemma chdir_clean (h : Ready s p) {path : Option (List UInt8)} :
    wp (fun _ => True) (sys_chdir p path) (Clean s p) s := by
  unfold sys_chdir
  apply wp_seq (begin_base h)
  rintro _ T ⟨hT, hset⟩
  cases path with
  | none => exact end_clean hT h.cwd hset
  | some path =>
    apply wp_seq (namei_wp hT.sound (hT.hasCwd h.cwd) hT.anchored hset)
    rintro r k (⟨rfl, hk⟩ | ⟨ip, i, rfl, hk⟩)
    · exact end_clean hT h.cwd hk
    · apply wp_seq (ilock_wp hk (.head _))
      rintro _ k₁ ⟨h₁, -⟩
      rw [wp_get_bind]
      split
      · exact openFull_clean hT h.cwd h₁
      · refine clean_of_ne (wp_seq (wp_true _) fun _ _ _ => ?_)
        unfold changeDir
        rw [wp_get_bind]
        exact wp_seq (wp_true _) fun _ _ _ => wp_seq (wp_true _) fun _ _ _ =>
          wp_seq (wp_true _) fun _ _ _ => zero_ne_neg_one

/-! ## `unlink` -/

/-- The parent of a path is a directory. -/
lemma type_of_resolveParent {A : Nodes} {d : ℕ} (h : A.resolveParent i path = some (d, name)) :
    (A d).type = T_DIR := (Nodes.of_resolveParent h).2.1

/-- Looking for entries in a directory changes nothing. -/
lemma isdirempty_wp (h : Steady T k H L) (hs : Sound T) {v : Bool} (ha : ⟨ip, i, v⟩ ∈ H)
    (hL : ip ∈ L) (htype : (k.icache ip).din.type = T_DIR) :
    wp (fun _ => True) (isdirempty ip) (fun _ t => t = k) k := by
  have hS : DIRENTSIZE = 16 := rfl
  have hdev : (k.icache ip).din.type ≠ T_DEV := by
    rw [htype]
    decide
  have hcached := h.cached_eq ha hL
  have hsize := h.size_lt hs ha hL
  have hnode : (T.nodes i).type = T_DIR := by
    rw [← hcached]
    exact htype
  have hdvd := hs.aligned i hnode
  rw [← hcached] at hdvd
  obtain ⟨n, hn⟩ := hdvd
  have hn' : (k.icache ip).din.size = DIRENTSIZE * n := hn
  -- each round reads one entry and changes nothing
  have hloop : ∀ m j, j + m ≤ n →
      wp (fun _ => True) (isdiremptyLoop ip m (DIRENTSIZE * j)) (fun _ t => t = k) k := by
    intro m
    induction m with
    | zero => exact fun _ _ => rfl
    | succ m ih =>
      intro j hj
      have hend : DIRENTSIZE * (j + 1) ≤ (k.icache ip).din.size := by
        rw [hn', hS]
        omega
      have hhere : DIRENTSIZE * j < (k.icache ip).din.size := by
        rw [hS] at hend ⊢
        omega
      have hread := exec_readDirent (e := .isdiremptyReadi) hdev hend (by omega)
        (h.hasBlock hs ha hL hhere)
      have hnext : DIRENTSIZE * j + DIRENTSIZE = DIRENTSIZE * (j + 1) := (Nat.mul_succ _ _).symm
      unfold wp
      rw [isdiremptyLoop, exec_seq hread, hnext]
      split
      · rfl
      · exact ih (j + 1) (by omega)
  unfold isdirempty
  rw [wp_get_bind, hn']
  have hrest : DIRENTSIZE * n - 2 * DIRENTSIZE = DIRENTSIZE * (n - 2) := by
    rw [hS]
    omega
  rw [hrest, nentries_mul, Nat.mul_comm 2]
  by_cases hlt : 2 ≤ n
  · exact hloop _ _ (by omega)
  · rw [show n - 2 = 0 by omega]
    rfl

/-- Whether a directory is empty is only looked at. -/
lemma unlinkBusy_wp (h : Steady T k H L) (hs : Sound T) {v : Bool} (ha : ⟨ip, i, v⟩ ∈ H)
    (hL : ip ∈ L) :
    wp (fun _ => True) (unlinkBusy ip (k.icache ip).din.type) (fun _ t => t = k) k := by
  unfold unlinkBusy
  split
  · next htype =>
    apply wp_seq (isdirempty_wp h hs ha hL htype)
    rintro b t rfl
    rfl
  · rfl

/-- An `unlink` that fails here has changed nothing. -/
lemma unlinkEntry_clean {dp off type : ℕ} :
    wp (fun _ => True) (unlinkEntry p dp ip off type) (Clean s p) k := by
  refine clean_of_ne (wp_seq (wp_true _) fun r t _ => ?_)
  split
  · trivial
  · exact wp_seq (wp_true _) fun _ _ _ => wp_seq (wp_true _) fun _ _ _ => wp_seq (wp_true _)
      fun _ _ _ => wp_seq (wp_true _) fun _ _ _ => wp_seq (wp_true _) fun _ _ _ => zero_ne_neg_one

/-- An `unlink` that fails has changed nothing. -/
lemma unlink_clean (h : Ready s p) {path : Option (List UInt8)} :
    wp (fun _ => True) (sys_unlink p path) (Clean s p) s := by
  cases path with
  | none => exact fun _ => ⟨rfl, fun _ _ => rfl, rfl, rfl, rfl, rfl⟩
  | some path =>
    apply wp_seq (begin_base h)
    rintro _ T ⟨hT, hset⟩
    apply wp_seq (nameiparent_wp hT.sound (hT.hasCwd h.cwd) hT.anchored hset)
    rintro r k (⟨rfl, hk, -⟩ | ⟨dp, d, name, rfl, hk, hparent⟩)
    · exact end_clean hT h.cwd hk
    have hdir := type_of_resolveParent hparent
    apply wp_seq (ilock_wp hk (.head _))
    rintro _ k₁ ⟨h₁, -⟩
    split
    · exact openFull_clean hT h.cwd h₁
    apply wp_seq (h₁.dirlookup_ends hT.sound (.head _) (.head _) hdir fun _ => trivial).wp
    rintro r k₂ (⟨rfl, rfl, -⟩ | ⟨m, e, -, rfl, h₂⟩)
    · exact openFull_clean hT h.cwd h₁
    -- the entry is there
    apply wp_seq (ilock_wp h₂ (.head _))
    rintro _ k₃ ⟨h₃, hne⟩
    rw [wp_get_bind]
    split
    · trivial
    apply wp_seq (unlinkBusy_wp h₃ hT.sound (.head _) (.head _))
    rintro busy k₄ rfl
    split
    · have hkept := (hT.anchored.cons [⟨dp, d, false⟩]).kept h₃ (List.Subset.refl _)
      have hholder : ∀ e' ∈ [dp], ∃ a ∈ [(⟨dp, d, false⟩ : Held)], a.ip = e' := by
        intro e' he'
        rw [List.mem_singleton.mp he']
        exact ⟨_, .head _, rfl⟩
      exact wp_seq (h₃.iunlockput_ends hkept hne hholder).wp fun _ k₅ h₅ =>
        openFull_clean hT h.cwd h₅
    · exact unlinkEntry_clean

/-! ## `link` -/

/-- `link` takes back the link that it has counted. -/
lemma nlinkDec_nlinkInc {n : ℕ} (hn : n < 2 ^ 16) : nlinkDec (nlinkInc n) = n := by
  unfold nlinkDec nlinkInc
  omega

/-- The count of links is a `short`. -/
lemma nlinkInc_lt (n : ℕ) : nlinkInc n < 2 ^ 16 := Nat.mod_lt _ (by decide)

/-- The count of links is a `short`. -/
lemma nlinkDec_lt (n : ℕ) : nlinkDec n < 2 ^ 16 := Nat.mod_lt _ (by decide)

/-- A count of links changes no type, and no other count. -/
lemma inodes_relinked {n : ℕ} (hs : Sound T) (hi : i < T.sb.ninodes) (hn : n < 2 ^ 16) (j : ℕ) :
    ((T.relinked i n).inodes j).type = (T.inodes j).type ∧
      (j ≠ i → ((T.relinked i n).inodes j).nlink = (T.inodes j).nlink) ∧
      ((T.relinked i n).inodes i).nlink = n := by
  have hself : (T.relinked i n).inodes i = { T.inodes i with nlink := n } :=
    inodes_putInode (hs.fits_relinked hi hn)
  by_cases hj : j = i
  · rw [hj, hself]
    exact ⟨rfl, fun hne => absurd rfl hne, rfl⟩
  · have hne : (T.relinked i n).inodes j = T.inodes j := inodes_putInode_of_ne hj
    rw [hne, hself]
    exact ⟨rfl, fun _ => rfl, rfl⟩

/-- The inode whose links are counted anew is held by the call. -/
lemma Anchored.relinked (h : Anchored T []) (hs : Sound T) (hi : i < T.sb.ninodes) {n : ℕ}
    (hn : n < 2 ^ 16) {v : Bool} : Anchored (T.relinked i n) [⟨ip, i, v⟩] := by
  intro j htype hlt h0
  obtain ⟨hjtype, hjlink, -⟩ := inodes_relinked hs hi hn j
  by_cases hj : j = i
  · exact .inr ⟨_, .head _, hj.symm⟩
  · rw [hjtype] at htype
    rw [hjlink hj] at h0
    exact h.cons _ j htype hlt h0

/-- One link more and one less. -/
def State.recounted (T : State) (i : ℕ) : State :=
  (T.relinked i (nlinkInc (T.inodes i).nlink)).relinked i
    (nlinkDec (nlinkInc (T.inodes i).nlink))

/-- The count is written twice, to what it was. -/
lemma Base.recounted (hT : Base s T) (hi : Live T.sb T.inodes i) : Base s (T.recounted i) := by
  have hs := hT.sound
  have hinc := nlinkInc_lt (T.inodes i).nlink
  have hdec := nlinkDec_lt (nlinkInc (T.inodes i).nlink)
  have hback := nlinkDec_nlinkInc (hs.image.fits i hi.1).nlink
  have hs₁ := hs.relinked hi hinc
  have hgeo := hs.image.geometry
  have hi₁ : Live (T.relinked i (nlinkInc (T.inodes i).nlink)).sb
      (T.relinked i (nlinkInc (T.inodes i).nlink)).inodes i :=
    ⟨hi.1, by rw [(inodes_relinked hs hi.1 hinc i).1]; exact hi.2⟩
  have hlink : (T.nodes i).nlink = (T.inodes i).nlink := by rw [hs.image.node_live hi]
  refine ⟨hT.sb, ?_, fun b hb => ?_, hT.icache, hT.ftable, hT.proc, hT.outstanding,
    nodup_addLog (nodup_addLog hT.nodup), hs₁.relinked hi₁ hdec, fun j htype hlt h0 => ?_⟩
  · unfold State.recounted
    rw [hs₁.nodes_relinked hi₁ hdec, hs.nodes_relinked hi hinc, hback, ← hlink,
      Nodes.relink_relink, hT.nodes]
  · rw [← hT.bitmap b hb]
    exact (bit_putInode hs₁.image.geometry hi.1 b).trans (bit_putInode hgeo hi.1 b)
  · obtain ⟨htype₂, hne₂, hself₂⟩ := inodes_relinked hs₁ hi.1 hdec j
    obtain ⟨htype₁, hne₁, -⟩ := inodes_relinked hs hi.1 hinc j
    have htype' : (T.inodes j).type ≠ 0 := by
      rw [← htype₁, ← htype₂]
      exact htype
    have h0' : (T.inodes j).nlink = 0 := by
      by_cases hj : j = i
      · rw [hj] at h0 ⊢
        rw [← hback]
        exact hself₂.symm.trans h0
      · rw [← hne₁ hj, ← hne₂ hj]
        exact h0
    exact hT.anchored j htype' hlt h0'

/-- `dirlink` of a name that is there takes a reference and gives it back. -/
theorem dirlink_wp (h : Steady T k (⟨ip, i, false⟩ :: H) [ip]) (hs : Sound T) (hanch : Anchored T H)
    (htype : (T.nodes i).type = T_DIR) {inum : ℕ} : wp (fun _ => True) (dirlink ip name inum)
      (fun r t => r = false → Steady T t (⟨ip, i, false⟩ :: H) [ip]) k := by
  unfold dirlink
  apply wp_seq (h.dirlookup_ends hs (.head _) (.head _) htype fun _ => trivial).wp
  rintro r k₁ (⟨rfl, rfl, -⟩ | ⟨m, e, -, rfl, h₁⟩)
  · dsimp only
    rw [wp_get_bind]
    refine wp_seq (wp_true _) fun _ _ _ => wp_seq (wp_true _) fun _ _ _ => ?_
    split
    · exact fun hfalse => nomatch hfalse
    · trivial
  · have hkept := hanch.kept h₁ (List.subset_cons_self _ H)
    have hholder : ∀ e' ∈ [ip], ∃ a ∈ (⟨ip, i, false⟩ : Held) :: H, a.ip = e' := by
      intro e' he'
      rw [List.mem_singleton.mp he']
      exact ⟨_, .head _, rfl⟩
    exact wp_seq (h₁.iput_ends hkept hholder).wp fun _ t ht _ => ht

/-- The exit of `link` by `bad` has taken the link back. -/
lemma linkBad_clean (hT : Base s T) (hcwd : HasCwd s p) (hi : Live T.sb T.inodes i)
    (h : Steady (T.relinked i (nlinkInc (T.inodes i).nlink)) k [⟨ip, i, false⟩] []) :
    wp (fun _ => True) (linkBad p ip) (Clean s p) k := by
  have hinc := nlinkInc_lt (T.inodes i).nlink
  have hs₁ := hT.sound.relinked hi hinc
  have hlink := (inodes_relinked hT.sound hi.1 hinc i).2.2
  unfold linkBad
  apply wp_seq (ilock_wp h (.head _))
  rintro _ k₁ ⟨h₁, -⟩
  apply wp_seq (h₁.updateNlink_ends (g := nlinkDec) (.head _) (.head _) hs₁ hT.outstanding
    (nlinkDec_lt _) fun _ => trivial).wp
  intro _ k₂ h₂
  rw [hlink] at h₂
  exact openFull_clean (hT.recounted hi) hcwd h₂

/-- So have the other exits that fail. -/
lemma linkNew_clean (hT : Base s T) (hcwd : HasCwd s p) (hi : Live T.sb T.inodes i)
    (h : Steady (T.relinked i (nlinkInc (T.inodes i).nlink)) k [⟨ip, i, false⟩] []) :
    wp (fun _ => True) (linkNew p ip path) (Clean s p) k := by
  have hinc := nlinkInc_lt (T.inodes i).nlink
  have hs₁ := hT.sound.relinked hi hinc
  have hanch : Anchored (T.relinked i (nlinkInc (T.inodes i).nlink)) [⟨ip, i, false⟩] :=
    hT.anchored.relinked hT.sound hi.1 hinc
  have hcwd₁ : HasCwd (T.relinked i (nlinkInc (T.inodes i).nlink)) p := hT.hasCwd hcwd
  unfold linkNew
  apply wp_seq (nameiparent_wp hs₁ hcwd₁ hanch h)
  rintro r k₁ (⟨rfl, h₁, -⟩ | ⟨dp, d, name, rfl, h₁, hparent⟩)
  · exact linkBad_clean hT hcwd hi h₁
  apply wp_seq (ilock_wp h₁ (.head _))
  rintro _ k₂ ⟨h₂, -⟩
  rw [wp_get_bind]
  apply wp_seq (dirlink_wp h₂ hs₁ hanch (type_of_resolveParent hparent))
  intro r k₃ h₃
  cases r with
  | true =>
    exact clean_of_ne (wp_seq (wp_true _) fun _ _ _ => wp_seq (wp_true _) fun _ _ _ =>
      wp_seq (wp_true _) fun _ _ _ => zero_ne_neg_one)
  | false =>
    have hkept := hanch.kept (h₃ rfl) (List.Subset.refl _)
    exact wp_seq ((h₃ rfl).iunlockput_ends hkept nofun nofun).wp fun _ k₄ h₄ =>
      linkBad_clean hT hcwd hi h₄

/-- A `link` that fails has changed nothing. -/
lemma link_clean (h : Ready s p) {old new : Option (List UInt8)} :
    wp (fun _ => True) (sys_link p old new) (Clean s p) s := by
  have hsame : Clean s p failed s := fun _ => ⟨rfl, fun _ _ => rfl, rfl, rfl, rfl, rfl⟩
  cases old with
  | none => exact hsame
  | some old =>
    cases new with
    | none => exact hsame
    | some new =>
      apply wp_seq (begin_base h)
      rintro _ T ⟨hT, hset⟩
      apply wp_seq (namei_wp hT.sound (hT.hasCwd h.cwd) hT.anchored hset)
      rintro r k (⟨rfl, hk⟩ | ⟨ip, i, rfl, hk⟩)
      · exact end_clean hT h.cwd hk
      apply wp_seq (ilock_wp hk (.head _))
      rintro _ k₁ ⟨h₁, -⟩
      have hi : Live T.sb T.inodes i := ⟨h₁.inum_lt (.head _), (h₁.locked_din (.head _) (.head _)).2⟩
      rw [wp_get_bind]
      split
      · exact openFull_clean hT h.cwd h₁
      · apply wp_seq (h₁.updateNlink_ends (.head _) (.head _) hT.sound hT.outstanding
          (nlinkInc_lt _) fun _ => trivial).wp
        intro _ k₂ h₂
        exact wp_seq (h₂.iunlock_ends (.head _) nofun).wp fun _ k₃ h₃ =>
          linkNew_clean hT h.cwd hi h₃

/-! ## `create` -/

/-- The path names an entry that its directory does not have. -/
def State.NewName (s : State) (p : ℕ) (path : List UInt8) : Prop :=
  ∃ d name, s.nodes.resolveParent (s.start p path) path = some (d, name) ∧
    (s.nodes d).find name = none

/-- A name is new or not, as before. -/
lemma Base.newName_iff (hT : Base s T) : T.NewName p path ↔ s.NewName p path := by
  unfold State.NewName
  rw [hT.nodes, hT.start]

/-- `create` finds no parent, or a file, or something else of the name, or it makes a new inode. -/
theorem create_wp (hs : Sound T) (hcwd : HasCwd T p) (hanch : Anchored T []) (h : Settled T)
    {type major minor : ℕ} {Q : Option ℕ → State → Prop}
    (hnone : ∀ t, ¬ T.NewName p path → Steady T t [] [] → Q none t)
    (hfound : ∀ ip i t, ¬ T.NewName p path → Steady T t [⟨ip, i, false⟩] [ip] → Q (some ip) t)
    (hnew : ∀ dp d name t, T.nodes.resolveParent (T.start p path) path = some (d, name) →
      (T.nodes d).find name = none → Steady T t [⟨dp, d, false⟩] [dp] →
      wp (fun _ => True) (createNew p dp name type major minor) (fun ip u => Q (some ip) u) t) :
    wp (fun _ => True) (create p path type major minor) Q T := by
  unfold create
  apply wp_seq (nameiparent_wp hs hcwd hanch h)
  rintro r k (⟨rfl, hk, hparent⟩ | ⟨dp, d, name, rfl, hk, hparent⟩)
  · refine hnone k ?_ hk
    rintro ⟨d, name, hsome, -⟩
    rw [hparent] at hsome
    exact nomatch hsome
  have hdir := type_of_resolveParent hparent
  apply wp_seq (ilock_wp hk (.head _))
  rintro _ k₁ ⟨h₁, -⟩
  apply wp_seq (h₁.dirlookup_ends hs (.head _) (.head _) hdir fun _ => trivial).wp
  rintro r k₂ (⟨rfl, rfl, hfind⟩ | ⟨m, e, hfind, rfl, h₂⟩)
  · exact wp_seq (hnew dp d name _ hparent hfind h₁) fun ip u hu => hu
  · -- the name is there already
    have hold : ¬ T.NewName p path := by
      rintro ⟨d', name', hsome, hnot⟩
      rw [hparent] at hsome
      obtain ⟨rfl, rfl⟩ := Prod.mk.inj (Option.some.inj hsome)
      rw [hfind] at hnot
      exact nomatch hnot
    have hkept := (hanch.cons [⟨e, (T.nodes d).inum m, false⟩]).kept h₂.swap (List.Subset.refl _)
    apply wp_seq (h₂.swap.iunlockput_ends hkept nofun nofun).wp
    intro _ k₃ h₃
    apply wp_seq (ilock_wp h₃ (.head _))
    rintro _ k₄ ⟨h₄, -⟩
    rw [wp_get_bind]
    split
    · exact hfound e _ k₄ hold h₄
    · have hkept' := hanch.kept h₄ (List.Subset.refl _)
      exact wp_seq (h₄.iunlockput_ends hkept' nofun nofun).wp fun _ k₅ h₅ => hnone k₅ hold h₅

/-- `mkdir` and `mknod` fail only when `create` has made nothing. -/
theorem made_clean (h : Ready s p) {path : Option (List UInt8)} {type major minor : ℕ} :
    wp (fun _ => True) (do
      begin_op p
      match path with
      | none => madeInode p none
      | some path =>
        let ip ← create p path type major minor
        madeInode p ip) (Clean s p) s := by
  apply wp_seq (begin_base h)
  rintro _ T ⟨hT, hset⟩
  cases path with
  | none => exact end_clean hT h.cwd hset
  | some path =>
    have hcreate : wp (fun _ => True) (create p path type major minor)
        (fun r t => r = none → Steady T t [] []) T := by
      apply create_wp hT.sound (hT.hasCwd h.cwd) hT.anchored hset
      · exact fun t _ ht _ => ht
      · exact fun _ _ _ _ _ hne => nomatch hne
      · exact fun _ _ _ _ _ _ _ => wp_mono (wp_true _) fun _ _ _ hne => nomatch hne
    apply wp_seq hcreate
    intro r k hk
    cases r with
    | none => exact end_clean hT h.cwd (hk rfl)
    | some ip =>
      exact clean_of_ne (wp_seq (wp_true _) fun _ _ _ => wp_seq (wp_true _) fun _ _ _ =>
        zero_ne_neg_one)

end

end Kernel
end OhMyXv6
