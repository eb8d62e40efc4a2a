import OhMyXv6.Kernel.Untouched

/-!
# Which failed calls change nothing

`open` is the one that may fail with a change made: `create` has made the file when `filealloc` or
`fdalloc` finds nothing, and what `sys_open` then gives back is the inode, not the entry.
-/

namespace OhMyXv6
namespace Kernel

open Prog

section
variable {s T k t : State} {ip i p omode : ℕ} {path : List UInt8} {E : Panic → Prop}

/-! ## The end of `sys_open` -/

/-- The file table is full, or the process has no descriptor left. -/
def Full (s : State) (p : ℕ) : Prop :=
  (∀ f < NFILE, (s.ftable f).ref ≠ 0) ∨ ∀ fd < NOFILE, (s.proc p).ofile fd ≠ none

/-- What `sys_open` does when it has the file and the descriptor. -/
def openDone (p ip omode f fd : ℕ) : M Ret := do
  iunlock ip
  end_op p
  modify fun s => s.setFile f (openFile (s.ftable f) ip omode)
  return (fd, [])

/-- The end of `sys_open`, when it has the inode. -/
def openRest (p ip omode : ℕ) : M Ret := do
  match ← filealloc with
  | none => openFull p ip
  | some f =>
    match ← fdalloc p f with
    | none =>
      -- no descriptor is free: the file goes back, the new inode stays
      fileclose p f
      openFull p ip
    | some fd => openDone p ip omode f fd

/-- `open` of a path that is there: a transaction around `openInode` and `openRest`. -/
lemma sys_open_some {omode : ℕ} : sys_open p (some path) omode = begin_op p >>= fun _ =>
    openInode p path omode >>= fun r =>
      match r with
      | none => end_op p >>= fun _ => pure failed
      | some ip => openRest p ip omode := rfl

/-- A file that was free a moment ago is closed. -/
lemma exec_fileclose_new {f : ℕ} (h0 : (k.ftable f).ref = 0) (htype : (k.ftable f).type = .FD_NONE) :
    Prog.exec (fileclose p f) (k.setFile f { k.ftable f with ref := 1 }) = .done () k := by
  have hself : (k.setFile f { k.ftable f with ref := 1 }).ftable f = { k.ftable f with ref := 1 } :=
    Function.update_self _ _ _
  have hback : (k.setFile f { k.ftable f with ref := 1 }).setFile f
      { k.ftable f with ref := 0, type := .FD_NONE } = k := by
    have hfile : ({ k.ftable f with ref := 0, type := .FD_NONE } : File) = k.ftable f := by
      rw [← h0, ← htype]
    rw [hfile]
    unfold State.setFile
    rw [Function.update_idem]
    exact congrArg (fun c => { k with ftable := c }) (Function.update_eq_self f _)
  have hdrop : Prog.exec (filedrop f) (k.setFile f { k.ftable f with ref := 1 })
      = .done (some { k.ftable f with ref := 1 }) k := by
    unfold filedrop
    rw [exec_act]
    dsimp only
    rw [hself, if_neg (Nat.lt_irrefl 1),
      if_neg (show ¬ 0 < ({ k.ftable f with ref := 1 } : File).ref - 1 from Nat.lt_irrefl 0)]
    exact congrArg (Out.done _) hback
  unfold fileclose
  rw [exec_seq hdrop]
  dsimp only
  rw [htype]
  rfl

/-- The file that has been taken is given back when there is no descriptor. -/
theorem exec_openRest_full (hfree : ∀ f < NFILE, (k.ftable f).ref = 0 → (k.ftable f).type = .FD_NONE)
    (hfull : Full k p) : Prog.exec (openRest p ip omode) k = Prog.exec (openFull p ip) k := by
  unfold openRest filealloc
  rw [exec_bind, exec_act]
  rcases hfile : (List.range NFILE).find? fun f => (k.ftable f).ref == 0 with _ | f
  · rfl
  have hf : f < NFILE := List.mem_range.mp (List.mem_of_find?_eq_some hfile)
  have hfound := List.find?_some hfile
  have h0 : (k.ftable f).ref = 0 := beq_iff_eq.mp hfound
  have hfds : ∀ fd < NOFILE, (k.proc p).ofile fd ≠ none :=
    hfull.resolve_left fun hall => hall f hf h0
  have hnone : ((List.range NOFILE).find? fun fd =>
      ((k.setFile f { k.ftable f with ref := 1 }).proc p).ofile fd == none) = none := by
    refine List.find?_eq_none.mpr fun fd hfd => ?_
    rw [beq_iff_eq]
    exact hfds fd (List.mem_range.mp hfd)
  have hfd : Prog.exec (fdalloc p f) (k.setFile f { k.ftable f with ref := 1 })
      = .done none (k.setFile f { k.ftable f with ref := 1 }) := by
    unfold fdalloc
    rw [exec_get, hnone]
    rfl
  show Prog.exec (fdalloc p f >>= _) (k.setFile f { k.ftable f with ref := 1 }) = _
  rw [exec_seq hfd]
  exact exec_seq (exec_fileclose_new h0 (hfree f hf h0))

/-- With a file and a descriptor to spare `open` succeeds from its inode on. -/
lemma openRest_room (hroom : ¬ Full k p) :
    wp (fun _ => True) (openRest p ip omode) (fun r _ => r.1 ≠ -1) k := by
  unfold openRest filealloc
  rw [wp_bind, wp_act]
  rcases hfile : (List.range NFILE).find? fun f => (k.ftable f).ref == 0 with _ | f
  · refine absurd (.inl fun f hf => ?_) hroom
    have hnot := List.find?_eq_none.mp hfile f (List.mem_range.mpr hf)
    rw [beq_iff_eq] at hnot
    exact hnot
  show wp _ (fdalloc p f >>= _) _ (k.setFile f { k.ftable f with ref := 1 })
  unfold fdalloc
  rw [wp_bind, wp_get_bind]
  rcases hfd : (List.range NOFILE).find? fun fd =>
      ((k.setFile f { k.ftable f with ref := 1 }).proc p).ofile fd == none with _ | fd
  · refine absurd (.inr fun fd hlt => ?_) hroom
    have hnot := List.find?_eq_none.mp hfd fd (List.mem_range.mpr hlt)
    rw [beq_iff_eq] at hnot
    exact hnot
  · show wp _ (openDone p ip omode f fd) _ _
    unfold openDone
    refine wp_seq (wp_true _) fun _ _ _ => wp_seq (wp_true _) fun _ _ _ =>
      wp_seq (wp_true _) fun _ _ _ hneg => ?_
    have hnonneg : (0 : ℤ) ≤ (fd : ℤ) := Int.natCast_nonneg fd
    have hneg' : (fd : ℤ) = -1 := hneg
    omega

/-- Whether the tables are full depends on them alone. -/
lemma Full.congr {s k : State} (h : Full s p) (hftable : k.ftable = s.ftable)
    (hproc : k.proc = s.proc) : Full k p := by
  unfold Full at h ⊢
  rw [hftable, hproc]
  exact h

/-- Without one of them it fails, and ends what was begun. -/
lemma openRest_full_ends (hanch : Anchored T []) (h : Steady T k [⟨ip, i, false⟩] [ip])
    (hfree : ∀ f < NFILE, (T.ftable f).ref = 0 → (T.ftable f).type = .FD_NONE) (hfull : Full T p) :
    Ends E (openRest p ip omode) (fun r t => r = failed ∧ Ended T t) k := by
  unfold Prog.Ends
  rw [exec_openRest_full (by rw [h.ftable]; exact hfree) (hfull.congr h.ftable h.proc)]
  exact openFull_ends hanch h

/-- `sys_open` fails at its end when there is no file or no descriptor left, and then takes back what
it has taken. -/
theorem openRest_wp (hanch : Anchored T []) (h : Steady T k [⟨ip, i, false⟩] [ip])
    (hfree : ∀ f < NFILE, (T.ftable f).ref = 0 → (T.ftable f).type = .FD_NONE) :
    wp (fun _ => True) (openRest p ip omode) (fun r t => r.1 = -1 → Full T p ∧ Ended T t) k := by
  by_cases hfull : Full T p
  · exact wp_mono (openRest_full_ends hanch h hfree hfull).wp fun _ t ht _ => ⟨hfull, ht.2⟩
  · have hroom : ¬ Full k p := fun hk => hfull (hk.congr h.ftable.symm h.proc.symm)
    exact wp_mono (openRest_room hroom) fun _ _ hne hneg => absurd hneg hne

/-! ## `open` -/

/-- `open` would make a file. -/
def State.Creates (s : State) (p : ℕ) (path : List UInt8) (omode : ℕ) : Prop :=
  omode &&& O_CREATE ≠ 0 ∧ s.NewName p path

/-- `open` up to its inode, which it has made exactly when it was to be made. -/
lemma openInode_wp (hT : Base s T) (hcwd : HasCwd s p) (hset : Settled T) :
    wp (fun _ => True) (openInode p path omode) (fun r k =>
      (r = none ∧ Steady T k [] [] ∧ ¬ T.Creates p path omode) ∨
      ∃ ip i T', r = some ip ∧ Steady T' k [⟨ip, i, false⟩] [ip] ∧
        (T' = T ∧ ¬ T.Creates p path omode ∨ Grew T T' i ∧ T.Creates p path omode)) T := by
  have hcwd' := hT.hasCwd hcwd
  unfold openInode
  split
  · next hcreate =>
    apply create_wp hT.sound hcwd' hT.anchored hset
    · exact fun t hold ht => .inl ⟨rfl, ht, fun hnew => hold hnew.2⟩
    · exact fun ip i t hold ht => .inr ⟨ip, i, T, rfl, ht, .inl ⟨rfl, fun hnew => hold hnew.2⟩⟩
    · intro dp d name t hparent hfind ht
      have hdir := type_of_resolveParent hparent
      have hobs : Obstacles T d fun _ => True :=
        ⟨fun _ => trivial, fun _ => trivial, fun _ => trivial, fun _ => trivial, fun _ => trivial⟩
      refine wp_mono (createNew_ends ht hT.sound hT.anchored hdir hfind hT.outstanding hT.nodup
        hobs).wp fun e u hu => ?_
      obtain ⟨i, T', hmade, hsteady⟩ := hu
      exact .inr ⟨e, i, T', rfl, hsteady, .inr ⟨hmade.toGrew, hcreate, d, name, hparent, hfind⟩⟩
  · next hcreate =>
    have hold : ¬ T.Creates p path omode := fun hnew => hcreate hnew.1
    apply wp_seq (namei_wp hT.sound hcwd' hT.anchored hset)
    rintro r k (⟨rfl, hk⟩ | ⟨ip, i, rfl, hk⟩)
    · exact .inl ⟨rfl, hk, hold⟩
    apply wp_seq (ilock_wp hk (.head _))
    rintro _ k₁ ⟨h₁, -⟩
    rw [wp_get_bind]
    split
    · have hkept := hT.anchored.kept h₁ (List.Subset.refl [])
      exact wp_seq (h₁.iunlockput_ends hkept nofun nofun).wp fun _ k₂ h₂ => .inl ⟨rfl, h₂, hold⟩
    · exact .inr ⟨ip, i, T, rfl, h₁, .inl ⟨rfl, hold⟩⟩

/-- The call leaves a file behind when it fails. -/
def LeavesFile (s : State) (p : ℕ) : Call → Prop
  | .open path omode => ∃ b, cstr path = some b ∧ s.Creates p b omode ∧ Full s p
  | _ => False

/-- The type of an inode, as the disk has it. -/
lemma State.type_nodes (s : State) (hi : i < s.sb.ninodes) :
    (s.nodes i).type = (s.inodes i).type := by
  unfold State.nodes
  rw [if_pos hi, nodeOf_type]
  rfl

/-- A file that has been made is there when the call has failed. -/
lemma Grew.affected {T' : State} (hT : Base s T) (h : Grew T T' i) (ht : Ended T' t) :
    ¬ Unaffected s t p := by
  intro hsame
  obtain ⟨d, l, hwritten⟩ := h.written
  have hsb : T'.sb = T.sb := by
    rw [hwritten]
    rfl
  have hbefore : (s.nodes i).type = 0 := by
    rw [← hT.nodes, T.type_nodes h.lt]
    exact h.free
  have hafter : (t.nodes i).type ≠ 0 := by
    have hnodes : t.nodes = T'.nodes := by
      unfold State.nodes
      rw [ht.sb, ht.disk]
    rw [hnodes, T'.type_nodes (hsb ▸ h.lt)]
    exact h.used
  rw [hsame.nodes] at hafter
  exact hafter hbefore

/-- A failing `open` has changed nothing exactly when it leaves no file behind. -/
lemma open_failed (h : Ready s p) {b : Option (List UInt8)} :
    wp (fun _ => True) (sys_open p (cstr b) omode)
      (fun r t => r.1 = -1 → (Unaffected s t p ↔ ¬ LeavesFile s p (.open b omode))) s := by
  rcases hb : cstr b with _ | path
  · intro _
    have hsame : Unaffected s s p := ⟨rfl, fun _ _ => rfl, rfl, rfl, rfl, rfl⟩
    refine iff_of_true hsame ?_
    rintro ⟨path, hpath, -⟩
    rw [hb] at hpath
    exact nomatch hpath
  have hleaves : LeavesFile s p (.open b omode) ↔ s.Creates p path omode ∧ Full s p := by
    constructor
    · rintro ⟨path', hpath, hcreates⟩
      obtain rfl := Option.some.inj (hb.symm.trans hpath)
      exact hcreates
    · exact fun hcreates => ⟨path, hb, hcreates⟩
  rw [hleaves, sys_open_some]
  apply wp_seq (begin_base h)
  rintro _ T ⟨hT, hset⟩
  have hcreates : T.Creates p path omode ↔ s.Creates p path omode := and_congr_right fun _ => hT.newName_iff
  apply wp_seq (openInode_wp hT h.cwd hset)
  rintro r k (⟨rfl, hk, hold⟩ | ⟨ip, i, T', rfl, hk, hcase⟩)
  -- no inode was found or made
  · refine wp_mono (end_ended hk) fun _ t ht _ => ?_
    exact iff_of_true (hT.unaffected h.cwd ht) fun hnew => hold (hcreates.mpr hnew.1)
  rcases hcase with ⟨rfl, hold⟩ | ⟨hgrew, hnew⟩
  · have hfree : ∀ f < NFILE, (T'.ftable f).ref = 0 → (T'.ftable f).type = .FD_NONE := by
      rw [hT.ftable]
      exact h.free
    refine wp_mono (openRest_wp hT.anchored hk hfree) fun _ t ht hfail => ?_
    exact iff_of_true (hT.unaffected h.cwd (ht hfail).2) fun hnew => hold (hcreates.mpr hnew.1)
  -- a file was made, and it stays when no descriptor is free
  · obtain ⟨d, l, hwritten⟩ := hgrew.written
    have hftable : T'.ftable = s.ftable := by
      rw [hwritten, ← hT.ftable]
      rfl
    have hproc : T'.proc = s.proc := by
      rw [hwritten, ← hT.proc]
      rfl
    have hfree : ∀ f < NFILE, (T'.ftable f).ref = 0 → (T'.ftable f).type = .FD_NONE := by
      rw [hftable]
      exact h.free
    refine wp_mono (openRest_wp hgrew.anchored hk hfree) fun _ t ht hfail => ?_
    obtain ⟨hfull, hended⟩ := ht hfail
    refine iff_of_false (hgrew.affected hT hended) fun hnot => ?_
    exact hnot ⟨hcreates.mp hnew, hfull.congr hftable.symm hproc.symm⟩

/-! ### A file that is left -/

/-- `create` makes the file when nothing stands in its way. -/
lemma create_ends {D : ℕ → Prop} {d : ℕ} {name : List UInt8} (hT : Base s T) (hcwd : HasCwd s p)
    (hset : Settled T) (hpass : Passable T [] D E) (hstart : D (T.start p path))
    (hobs : Obstacles T d E) (hparent : T.nodes.resolveParent (T.start p path) path = some (d, name))
    (hfind : (T.nodes d).find name = none) :
    Ends E (create p path T_FILE 0 0) (fun r t => ∃ e i T', r = some e ∧ Made T T' d i name ∧
      Steady T' t [⟨e, i, false⟩] [e]) T := by
  have hs := hT.sound
  have hdir := type_of_resolveParent hparent
  have hwalk := Nodes.walk_true (A := T.nodes) (i := T.start p path) (Nat.lt_succ_self path.length)
  rw [hparent] at hwalk
  have hnamex : Ends E (nameiparent p path)
      (Reaches T [] (T.nodes.walk true (path.length + 1) (T.start p path) path)) T :=
    namex_ends hs (hT.hasCwd hcwd) hT.anchored hpass hstart hset
  rw [hwalk] at hnamex
  unfold create
  apply Ends.seq hnamex
  rintro _ k ⟨dp, rfl, hk⟩
  apply Ends.seq (hk.ilock_ends (.head _) nofun fun h0 => ?_)
  · intro _ k₁ h₁
    have hfull : (∀ e < NINODE, 0 < T.view.tab e + refsTo [⟨dp, d, false⟩] e) → E .igetNoInodes :=
      fun hall => hobs.cache (card_freeEntries_le hall)
    apply Ends.seq (h₁.dirlookup_ends hs (.head _) (.head _) hdir hfull)
    rintro r k₂ (⟨rfl, rfl, -⟩ | ⟨m, e, hsome, -, -⟩)
    · have hnew := createNew_ends (p := p) h₁ hs hT.anchored hdir hfind hT.outstanding hT.nodup hobs
      apply Ends.seq hnew
      rintro e t ⟨i, T', hmade, ht⟩
      exact ⟨e, i, T', rfl, hmade, ht⟩
    · rw [hfind] at hsome
      exact nomatch hsome
  · rw [hs.image.type (hk.inum_lt (.head _)), h0] at hdir
    exact absurd hdir (by decide)

/-- When no file or no descriptor is left, `open` of a new name fails and leaves the file. -/
theorem open_leaves {D : ℕ → Prop} {d : ℕ} {name : List UInt8} (h : Ready s p)
    (hbegin : s.lh.length + (s.outstanding + 1) * MAXOPBLOCKS ≤ LOGSIZE)
    (hcreate : omode &&& O_CREATE ≠ 0)
    (hparent : s.nodes.resolveParent (s.start p path) path = some (d, name))
    (hfind : (s.nodes d).find name = none) (hfull : Full s p) (hpass : Passable s [] D E)
    (hstart : D (s.start p path)) (hobs : Obstacles s d E) :
    Ends E (sys_open p (some path) omode) (fun r t => r = failed ∧ ¬ Unaffected s t p) s := by
  have hbegun := exec_begin_op (p := p) hbegin
  obtain ⟨hT, hset⟩ := wp_done (begin_base h) hbegun
  set T : State := { s with outstanding := s.outstanding + 1, inOp := p :: s.inOp }
  have hpass' : Passable T [] D E := ⟨hpass.allocated, hpass.closed, hpass.room⟩
  have hobs' : Obstacles T d E := ⟨hobs.inodes, hobs.cache, hobs.log, hobs.blocks, hobs.size⟩
  rw [sys_open_some]
  refine Ends.after hbegun ?_
  have hinode : Ends E (openInode p path omode) (fun r t => ∃ e i T', r = some e ∧ Grew T T' i ∧
      Steady T' t [⟨e, i, false⟩] [e]) T := by
    unfold openInode
    rw [if_pos hcreate]
    refine (create_ends hT h.cwd hset hpass' hstart hobs' hparent hfind).mono (fun _ he => he) ?_
    rintro r t ⟨e, i, T', hr, hmade, ht⟩
    exact ⟨e, i, T', hr, hmade.toGrew, ht⟩
  apply Ends.seq hinode
  rintro _ k ⟨e, i, T', rfl, hgrew, hk⟩
  obtain ⟨d', l, hwritten⟩ := hgrew.written
  have hftable : T'.ftable = s.ftable := by
    rw [hwritten]
    rfl
  have hproc : T'.proc = s.proc := by
    rw [hwritten]
    rfl
  have hrest : Ends E (openRest p e omode) (fun r t => r = failed ∧ Ended T' t) k :=
    openRest_full_ends hgrew.anchored hk (by rw [hftable]; exact h.free) (hfull.congr hftable hproc)
  exact hrest.mono (fun _ he => he) fun r t ht => ⟨ht.1, hgrew.affected hT ht.2⟩

/-- The run that leaves a file behind. -/
lemma open_leaves_done {D : ℕ → Prop} {d : ℕ} {b : Option (List UInt8)} {name : List UInt8}
    (h : Ready s p) (hpath : cstr b = some path)
    (hbegin : s.lh.length + (s.outstanding + 1) * MAXOPBLOCKS ≤ LOGSIZE)
    (hcreate : omode &&& O_CREATE ≠ 0)
    (hparent : s.nodes.resolveParent (s.start p path) path = some (d, name))
    (hfind : (s.nodes d).find name = none) (hfull : Full s p)
    (hpass : Passable s [] D fun _ => False) (hstart : D (s.start p path))
    (hobs : Obstacles s d fun _ => False) :
    ∃ t, Prog.exec (syscall p (.open b omode)) s = .done failed t ∧ ¬ Unaffected s t p := by
  have hends := open_leaves h hbegin hcreate hparent hfind hfull hpass hstart hobs
  obtain ⟨r, t, hrun, rfl, haffected⟩ := hends.returns fun _ => id
  refine ⟨t, ?_, haffected⟩
  show Prog.exec (sys_open p (cstr b) omode) s = _
  rw [hpath, hrun]

/-- A run that shows that a call is not clean. -/
lemma not_clean_of_done {x : M Ret} (hrun : Prog.exec x s = .done failed t)
    (haffected : ¬ Unaffected s t p) : ¬ wp (fun _ => True) x (Clean s p) s :=
  fun hclean => haffected (wp_done hclean hrun rfl)

/-! ## All of them -/

/-- The calls that take a path and return whether they could do what was asked. -/
def PathCall : Call → Prop
  | .open .. | .mkdir .. | .mknod .. | .link .. | .unlink .. | .chdir .. => True
  | _ => False

/-- A call that has failed has changed nothing, but for the file that `open` has made. -/
theorem failed_call_iff {s : State} {p : ℕ} {c : Call} (h : Ready s p) (hc : PathCall c) :
    wp (fun _ => True) (syscall p c)
      (fun r t => r.1 = -1 → (Unaffected s t p ↔ ¬ LeavesFile s p c)) s := by
  have hclean : ∀ {x : M Ret}, wp (fun _ => True) x (Clean s p) s →
      wp (fun _ => True) x (fun r t => r.1 = -1 → (Unaffected s t p ↔ ¬ False)) s := by
    intro x hx
    exact wp_mono hx fun r t ht hfail => iff_of_true (ht hfail) id
  cases c with
  | link old new => exact hclean (link_clean h)
  | unlink path => exact hclean (unlink_clean h)
  | «open» path omode => exact open_failed h
  | mkdir path => exact hclean (made_clean h)
  | mknod path major minor => exact hclean (made_clean h)
  | chdir path => exact hclean (chdir_clean h)
  | _ => exact hc.elim

/-! ### A process without descriptors left -/

/-- The disk with one empty file, and a process that has the file open sixteen times. -/
def fullTable : State :=
  { oneFile with
    ftable := fun f => if f = 0 then ⟨.FD_INODE, 16, true, true, 0, 0, 0⟩
      else ⟨.FD_NONE, 0, false, false, 0, 0, 0⟩
    proc := fun p => if p = 1 then ⟨true, fun fd => if fd < NOFILE then some 0 else none, 1⟩
      else ⟨false, fun _ => none, 0⟩ }

/-- The second process has no descriptor left, and may make calls. -/
lemma ready_fullTable : Ready fullTable 1 := by
  have hsound := sound_oneFile
  refine ⟨twoFiles_oneFile.settled rfl rfl rfl, ?_, ⟨by decide, by decide⟩, fun f _ h0 => ?_,
    List.nodup_nil⟩
  · exact ⟨hsound.image, hsound.aligned, hsound.entries⟩
  · by_cases hf : f = 0
    · rw [hf] at h0
      exact absurd h0 (by decide)
    · show (if f = 0 then (⟨.FD_INODE, 16, true, true, 0, 0, 0⟩ : File)
        else ⟨.FD_NONE, 0, false, false, 0, 0, 0⟩).type = _
      rw [if_neg hf]

/-- `open` of `f`, which is there, fails and changes nothing. -/
theorem failed_call_fullTable : Ready fullTable 1 ∧ PathCall (.open (some [102]) O_CREATE) ∧
    wp (fun _ => True) (syscall 1 (.open (some [102]) O_CREATE)) (fun r t => r.1 = -1 →
      (Unaffected fullTable t 1 ↔ ¬ LeavesFile fullTable 1 (.open (some [102]) O_CREATE)))
      fullTable :=
  ⟨ready_fullTable, trivial, failed_call_iff ready_fullTable trivial⟩

lemma nodes_fullTable : fullTable.nodes = oneFileNodes := nodes_oneFile

/-- The root directory has no entry `g`. -/
lemma find_root : (oneFileNodes 1).find [103] = none := by
  cases hfind : (oneFileNodes 1).find [103] with
  | none => rfl
  | some m =>
    obtain ⟨-, -, hne, hname⟩ := Node.findFrom_some hfind
    rw [inum_root] at hne
    have hm : m < 3 := by
      by_contra hle
      rw [if_neg (by omega), if_neg (by omega)] at hne
      exact hne rfl
    rw [node_root] at hname
    interval_cases m
    · exact absurd hname (by decide)
    · exact absurd hname (by decide)
    · exact absurd hname (by decide)

/-- The name `g` is to be made in the root. -/
lemma parent_fullTable :
    fullTable.nodes.resolveParent (fullTable.start 1 [103]) [103] = some (1, [103]) := by
  rw [nodes_fullTable]
  rfl

/-- Two inodes fit into the cache beside those in use. -/
lemma room_fullTable : 1 < fullTable.freeEntries.card := room_twoCache rfl

/-- No directory on the way is locked or missing. -/
lemma passable_fullTable : Passable fullTable [] (fun i => i = 1 ∨ i = 2) fun _ => False := by
  have htree : Tree fullTable.nodes fun i => i = 1 ∨ i = 2 := nodes_fullTable ▸ tree_oneFile
  exact ⟨htree.allocated, htree.closed, Nat.not_le.mpr room_fullTable⟩

/-- Nothing is in the way of making the file. -/
lemma obstacles_fullTable : Obstacles fullTable 1 fun _ => False := by
  have hfree : 1940 ≤ freeCount fullTable.sb fullTable.disk := le_freeCount_oneFile
  have hthree : fullTable.inodes 3 = .zero := dinode_oneFile (show 3 < 200 by decide)
  refine ⟨fun hall => ?_, Nat.not_le.mpr room_fullTable, by decide, by omega, ?_⟩
  · exact hall 3 (by decide) (by decide) (congrArg Dinode.type hthree)
  · rw [nodes_fullTable, node_root]
    decide

/-- The second process has no descriptor left. -/
lemma full_fullTable : Full fullTable 1 := by
  refine .inr fun fd hfd => ?_
  show (if fd < NOFILE then some 0 else none) ≠ none
  rw [if_pos hfd]
  exact nofun

/-- So `open` fails and has made the file. -/
lemma opened_fullTable : ∃ t,
    Prog.exec (syscall 1 (.open (some [103]) O_CREATE)) fullTable = .done failed t ∧
      ¬ Unaffected fullTable t 1 := by
  have hpath : cstr (some [103]) = some [103] := by decide
  have hbegin : fullTable.lh.length + (fullTable.outstanding + 1) * MAXOPBLOCKS ≤ LOGSIZE := by decide
  have hstart : (fun i => i = 1 ∨ i = 2) (fullTable.start 1 [103]) := .inl rfl
  have hfind : (fullTable.nodes 1).find [103] = none := by
    rw [nodes_fullTable]
    exact find_root
  exact open_leaves_done ready_fullTable hpath hbegin (by decide) parent_fullTable hfind
    full_fullTable passable_fullTable hstart obstacles_fullTable

/-- `open` of `g` makes the file and fails. -/
theorem not_clean_fullTable : Ready fullTable 1 ∧ PathCall (.open (some [103]) O_CREATE) ∧
    ¬ wp (fun _ => True) (syscall 1 (.open (some [103]) O_CREATE)) (Clean fullTable 1) fullTable := by
  refine ⟨ready_fullTable, trivial, ?_⟩
  obtain ⟨t, hrun, haffected⟩ := opened_fullTable
  exact not_clean_of_done hrun haffected

end

end Kernel
end OhMyXv6
