import OhMyXv6.Kernel.Taken
import OhMyXv6.Kernel.System
import OhMyXv6.Lib.Count

/-!
# The counts of the tables

`Bal` says what the counts of the inode cache, of the file table and of the pipes are made of: of what the
tables of the processes refer to, and of what the running call has taken. Here is how the functions of the
file table, of the pipes and of the descriptors move a reference from one side to the other.
-/

namespace OhMyXv6
namespace Kernel

open Prog

/-! ## Counts of the tables -/

/-- The file is in use and refers to cache entry `k`. -/
def File.inodeRef (x : File) (k : ℕ) : ℕ :=
  if 0 < x.ref ∧ x.type = .FD_INODE ∧ x.ip = k then 1 else 0

/-- The file is in use and is an end of the pipe in page `pg`. -/
def File.pipeRef (x : File) (pg : ℕ) (writable : Bool) : ℕ :=
  if 0 < x.ref ∧ x.type = .FD_PIPE ∧ x.pipe = pg ∧ x.writable = writable then 1 else 0

/-- The current directory of the process is cache entry `k`. -/
def Proc.cwdRef (x : Proc) (k : ℕ) : ℕ := if x.live = true ∧ x.cwd = k then 1 else 0

/-- The number of descriptors of the process for file `f`. -/
def Proc.fds (x : Proc) (f : ℕ) : ℕ :=
  if x.live = true then ((Finset.range NOFILE).filter fun fd => x.ofile fd = some f).card else 0

/-- The number of open files that refer to cache entry `k`. -/
def inodeFiles (ftable : ℕ → File) (k : ℕ) : ℕ := ∑ f ∈ Finset.range NFILE, (ftable f).inodeRef k

/-- The number of open files that are one end of a pipe. -/
def pipeFiles (ftable : ℕ → File) (pg : ℕ) (writable : Bool) : ℕ :=
  ∑ f ∈ Finset.range NFILE, (ftable f).pipeRef pg writable

/-- The number of processes whose current directory is cache entry `k`. -/
def cwds (proc : ℕ → Proc) (k : ℕ) : ℕ := ∑ p ∈ Finset.range NPROC, (proc p).cwdRef k

/-- The number of descriptors for file `f`, over all processes. -/
def fds (proc : ℕ → Proc) (f : ℕ) : ℕ := ∑ p ∈ Finset.range NPROC, (proc p).fds f

/-- The counts of the file table. `F` and `E` are the files and the ends of pipes that the running
call has taken and not yet put into a table; `cnt` counts the descriptors. -/
structure Files (T : Tables) (cnt : ℕ → ℕ) (F : Multiset ℕ) (E : Multiset (ℕ × Bool)) : Prop where
  ref : ∀ f, (T.ftable f).ref = cnt f + F.count f
  free : ∀ f, (T.ftable f).ref = 0 → (T.ftable f).type = .FD_NONE
  range : ∀ f, 0 < (T.ftable f).ref → f < NFILE
  ends : ∀ pg w, pipeFiles T.ftable pg w + E.count (pg, w) = if isOpen T.pipe pg w then 1 else 0
  page : ∀ pg, T.pipe pg ≠ some ⟨false, false⟩

/-- All counts together; `cw` counts the current directories. -/
structure Bal (s : State) (cw cnt : ℕ → ℕ) (H L F : Multiset ℕ) (E : Multiset (ℕ × Bool)) :
    Prop where
  refs : Refs s s.tables (fun k => inodeFiles s.ftable k + cw k) H L
  files : Files s.tables cnt F E

/-- The counts in a state in which the running call has what the lists say. -/
def Rest (s : State) (H L F : Multiset ℕ) (E : Multiset (ℕ × Bool)) : Prop :=
  Bal s (cwds s.proc) (fds s.proc) H L F E

section
variable {s : State} {cw cnt : ℕ → ℕ} {H L F : Multiset ℕ} {E : Multiset (ℕ × Bool)} {p f : ℕ}

/-- What the inode functions do to their two lists they do here too. -/
theorem Bal.spec {α : Type} {x : M α} {H' L' : α → Multiset ℕ} (h : Bal s cw cnt H L F E)
    (hx : ∀ T tab, Spec T tab H L x H' L') :
    wp Calm x (fun a t => Bal t cw cnt (H' a) (L' a) F E ∧ t.tables = s.tables) s := by
  apply wp_mono (hx _ _ s h.refs)
  intro a t ht
  have htab := ht.tables
  refine ⟨⟨?_, ?_⟩, htab⟩
  · have hft : t.ftable = s.ftable := congrArg Tables.ftable htab
    rw [htab, hft]
    exact ht
  · rw [htab]
    exact h.files

/-- A file is replaced, and references move between it and the running call. -/
theorem Bal.setFile (h : Bal s cw cnt H L F E) {x : File} {H' F' : Multiset ℕ}
    {E' : Multiset (ℕ × Bool)} (hf : f < NFILE)
    (hinode : ∀ k, x.inodeRef k + H'.count k = (s.ftable f).inodeRef k + H.count k)
    (hpipe : ∀ pg w,
      x.pipeRef pg w + E'.count (pg, w) = (s.ftable f).pipeRef pg w + E.count (pg, w))
    (href : x.ref + F.count f = (s.ftable f).ref + F'.count f)
    (hF : ∀ g, g ≠ f → F'.count g = F.count g) (hfree : x.ref = 0 → x.type = .FD_NONE) :
    Bal (s.setFile f x) cw cnt H' L F' E' := by
  have hmem : f ∈ Finset.range NFILE := Finset.mem_range.mpr hf
  refine ⟨⟨rfl, fun k => ?_, h.refs.lock⟩, ⟨fun g => ?_, fun g => ?_, fun g => ?_, fun pg w => ?_,
    h.files.page⟩⟩
  -- the sum changes by what entry `f` contributed
  · have hsum := Count.sum_update (g := s.ftable) (x := x) (fun y => y.inodeRef k) hmem
    have hold : (s.icache k).ref = inodeFiles s.ftable k + cw k + H.count k := h.refs.ref k
    have hk := hinode k
    show (s.icache k).ref = inodeFiles (Function.update s.ftable f x) k + cw k + H'.count k
    unfold inodeFiles at hold ⊢
    omega
  · have hold : (s.ftable g).ref = cnt g + F.count g := h.files.ref g
    show (Function.update s.ftable f x g).ref = cnt g + F'.count g
    by_cases hg : g = f
    · subst hg
      rw [Function.update_self]
      omega
    · rw [Function.update_of_ne hg, hF g hg]
      exact hold
  · show (Function.update s.ftable f x g).ref = 0 → (Function.update s.ftable f x g).type = .FD_NONE
    by_cases hg : g = f
    · subst hg
      rw [Function.update_self]
      exact hfree
    · rw [Function.update_of_ne hg]
      exact h.files.free g
  · show 0 < (Function.update s.ftable f x g).ref → g < NFILE
    by_cases hg : g = f
    · intro _
      rw [hg]
      exact hf
    · rw [Function.update_of_ne hg]
      exact h.files.range g
  · have hsum := Count.sum_update (g := s.ftable) (x := x) (fun y => y.pipeRef pg w) hmem
    have hold : pipeFiles s.ftable pg w + E.count (pg, w) = if isOpen s.pipe pg w then 1 else 0 :=
      h.files.ends pg w
    have hw := hpipe pg w
    show pipeFiles (Function.update s.ftable f x) pg w + E'.count (pg, w) =
      if isOpen s.pipe pg w then 1 else 0
    unfold pipeFiles at hold ⊢
    omega

/-- A process is replaced. Its current directory and descriptors count elsewhere. -/
theorem Bal.setProc (h : Bal s cw cnt H L F E) {x : Proc} {cw' cnt' : ℕ → ℕ} {H' F' : Multiset ℕ}
    (hcw : ∀ k, cw' k + H'.count k = cw k + H.count k)
    (hcnt : ∀ g, cnt' g + F'.count g = cnt g + F.count g) :
    Bal (s.setProc p x) cw' cnt' H' L F' E := by
  refine ⟨⟨rfl, fun k => ?_, h.refs.lock⟩, ⟨fun g => ?_, h.files.free, h.files.range, h.files.ends,
    h.files.page⟩⟩
  · have hold : (s.icache k).ref = inodeFiles s.ftable k + cw k + H.count k := h.refs.ref k
    have hk := hcw k
    show (s.icache k).ref = inodeFiles s.ftable k + cw' k + H'.count k
    omega
  · have hold : (s.ftable g).ref = cnt g + F.count g := h.files.ref g
    have hg := hcnt g
    show (s.ftable g).ref = cnt' g + F'.count g
    omega

/-- References move between the tables and the running call, and the state stays as it is. -/
theorem Bal.move (h : Bal s cw cnt H L F E) {cw' cnt' : ℕ → ℕ} {H' F' : Multiset ℕ}
    (hcw : ∀ k, cw' k + H'.count k = cw k + H.count k)
    (hcnt : ∀ g, cnt' g + F'.count g = cnt g + F.count g) : Bal s cw' cnt' H' L F' E := by
  have hset : s.setProc 0 (s.proc 0) = s := by
    unfold State.setProc
    rw [Function.update_eq_self]
  have := h.setProc (p := 0) (x := s.proc 0) hcw hcnt
  rwa [hset] at this

/-- The working directories after one process has changed. -/
lemma cwds_update (proc : ℕ → Proc) {x : Proc} (hp : p < NPROC) (k : ℕ) :
    cwds (Function.update proc p x) k + (proc p).cwdRef k = cwds proc k + x.cwdRef k :=
  Count.sum_update (fun y : Proc => y.cwdRef k) (Finset.mem_range.mpr hp)

/-- The descriptors after one process has changed. -/
lemma fds_update (proc : ℕ → Proc) {x : Proc} (hp : p < NPROC) (g : ℕ) :
    fds (Function.update proc p x) g + (proc p).fds g = fds proc g + x.fds g :=
  Count.sum_update (fun y : Proc => y.fds g) (Finset.mem_range.mpr hp)

/-! ## The file table -/

/-- A file without a type refers to no inode. -/
lemma inodeRef_none {x : File} (h : x.type = .FD_NONE) (k : ℕ) : x.inodeRef k = 0 := by
  unfold File.inodeRef
  rw [if_neg]
  rw [h]
  exact fun hx => nomatch hx.2.1

/-- A file without a type refers to no pipe. -/
lemma pipeRef_none {x : File} (h : x.type = .FD_NONE) (pg : ℕ) (w : Bool) :
    x.pipeRef pg w = 0 := by
  unfold File.pipeRef
  rw [if_neg]
  rw [h]
  exact fun hx => nomatch hx.2.1

/-- A file in use refers to the same things whatever its count is. -/
theorem inodeRef_ref {x : File} {r : ℕ} (h : 0 < x.ref) (hr : 0 < r) (k : ℕ) :
    File.inodeRef { x with ref := r } k = x.inodeRef k := by
  unfold File.inodeRef
  simp only [h, hr, true_and]

/-- The end of a pipe does not depend on how many descriptors have it. -/
lemma pipeRef_ref {x : File} {r : ℕ} (h : 0 < x.ref) (hr : 0 < r) (pg : ℕ) (w : Bool) :
    File.pipeRef { x with ref := r } pg w = x.pipeRef pg w := by
  unfold File.pipeRef
  simp only [h, hr, true_and]

/-- A new file refers to nothing yet. -/
lemma Bal.filealloc (h : Bal s cw cnt H L F E) : wp Calm filealloc (fun r t => t.proc = s.proc ∧
    match r with
    | none => Bal t cw cnt H L F E
    | some f => Bal t cw cnt H L (f ::ₘ F) E ∧ f < NFILE ∧ (t.ftable f).type = .FD_NONE ∧
        (t.ftable f).ref = 1 ∧ ∀ g, g ≠ f → t.ftable g = s.ftable g) s := by
  unfold Kernel.filealloc
  rw [wp_act]
  rcases hfind : (List.range NFILE).find? fun f => (s.ftable f).ref == 0 with _ | f
  · exact ⟨rfl, h⟩
  · have hf : f < NFILE := List.mem_range.mp (List.mem_of_find?_eq_some hfind)
    have h0 : (s.ftable f).ref = 0 := by simpa using List.find?_some hfind
    have hnone : (s.ftable f).type = .FD_NONE := h.files.free f h0
    refine ⟨rfl, ?_, hf, ?_, ?_, ?_⟩
    · apply h.setFile hf
      · intro k
        rw [inodeRef_none hnone, inodeRef_none (x := { s.ftable f with ref := 1 }) hnone]
      · intro pg w
        rw [pipeRef_none hnone, pipeRef_none (x := { s.ftable f with ref := 1 }) hnone]
      · rw [Multiset.count_cons_self, h0]
        dsimp only
        omega
      · exact fun g hg => Multiset.count_cons_of_ne hg F
      · exact fun h1 => nomatch h1
    · simp [State.setFile, hnone]
    · simp [State.setFile]
    · intro g hg
      simp [State.setFile, hg]

/-- A file that someone refers to is not free. -/
lemma Bal.ref_pos (h : Bal s cw cnt H L F E) (hf : 0 < cnt f + F.count f) :
    0 < (s.ftable f).ref := by
  have hold : (s.ftable f).ref = cnt f + F.count f := h.files.ref f
  omega

/-- `filedup` is owed one descriptor more. -/
lemma Bal.filedup (h : Bal s cw cnt H L F E) (hf : 0 < cnt f) :
    wp Calm (filedup f) (fun _ t => Bal t cw cnt H L (f ::ₘ F) E ∧ t.proc = s.proc) s := by
  have hpos : 0 < (s.ftable f).ref := h.ref_pos (by omega)
  unfold Kernel.filedup
  rw [wp_act, if_neg (by omega)]
  refine ⟨?_, rfl⟩
  apply h.setFile (h.files.range f hpos)
  · intro k
    rw [inodeRef_ref hpos (Nat.succ_pos _)]
  · intro pg w
    rw [pipeRef_ref hpos (Nat.succ_pos _)]
  · rw [Multiset.count_cons_self]
    dsimp only
    omega
  · exact fun g hg => Multiset.count_cons_of_ne hg F
  · exact fun h1 => nomatch h1

/-- What the running call has when the last reference to a file is gone: its inode, or its end of
a pipe. -/
def File.inodes (x : File) : Multiset ℕ := if x.type = .FD_INODE then {x.ip} else 0

/-- The end of a pipe that a file is. -/
def File.pipes (x : File) : Multiset (ℕ × Bool) :=
  if x.type = .FD_PIPE then {(x.pipe, x.writable)} else 0

/-- A file with references has the inodes that it refers to. -/
lemma count_inodes {x : File} (h : 0 < x.ref) (k : ℕ) : x.inodes.count k = x.inodeRef k := by
  unfold File.inodes File.inodeRef
  by_cases ht : x.type = .FD_INODE
  · simp only [ht, if_true, h, true_and, Multiset.count_singleton]
    simp only [eq_comm]
  · simp [ht]

/-- A file with references has the ends of pipes that it refers to. -/
lemma count_pipes {x : File} (h : 0 < x.ref) (pg : ℕ) (w : Bool) :
    x.pipes.count (pg, w) = x.pipeRef pg w := by
  unfold File.pipes File.pipeRef
  by_cases ht : x.type = .FD_PIPE
  · simp only [ht, if_true, h, true_and, Multiset.count_singleton, Prod.mk.injEq]
    simp only [eq_comm]
  · simp [ht]

/-- The last reference to a file leaves its inode or its end of a pipe to be released. -/
lemma Bal.filedrop (h : Bal s cw cnt H L (f ::ₘ F) E) :
    wp Calm (filedrop f) (fun r t => t.proc = s.proc ∧
      match r with
      | none => Bal t cw cnt H L F E
      | some x => Bal t cw cnt (x.inodes + H) L F (x.pipes + E)) s := by
  have hpos : 0 < (s.ftable f).ref := h.ref_pos (by rw [Multiset.count_cons_self]; omega)
  have hrange := h.files.range f hpos
  unfold Kernel.filedrop
  rw [wp_act]
  dsimp only
  rw [if_neg (by omega)]
  split
  · next hmore =>
    refine ⟨rfl, ?_⟩
    apply h.setFile hrange
    · intro k
      rw [inodeRef_ref hpos hmore]
    · intro pg w
      rw [pipeRef_ref hpos hmore]
    · rw [Multiset.count_cons_self]
      dsimp only
      omega
    · exact fun g hg => (Multiset.count_cons_of_ne hg F).symm
    · exact fun h1 => absurd hmore (by dsimp only at h1; omega)
  · next hlast =>
    refine ⟨rfl, ?_⟩
    apply h.setFile hrange
    · intro k
      rw [inodeRef_none rfl, Multiset.count_add, count_inodes hpos]
      omega
    · intro pg w
      rw [pipeRef_none rfl, Multiset.count_add, count_pipes hpos]
      omega
    · rw [Multiset.count_cons_self]
      dsimp only
      omega
    · exact fun g hg => (Multiset.count_cons_of_ne hg F).symm
    · exact fun _ => rfl

/-! ## Pipes -/

/-- A page is given another pipe, or none. -/
lemma Bal.setPipe (h : Bal s cw cnt H L F E) {pg : ℕ} {y : Option Pipe}
    {E' : Multiset (ℕ × Bool)} (hother : ∀ pg' w, pg' ≠ pg → E'.count (pg', w) = E.count (pg', w))
    (hself : ∀ w, E'.count (pg, w) + (if isOpen s.pipe pg w then 1 else 0) =
      E.count (pg, w) + if isOpen (fun _ => y) pg w then 1 else 0)
    (hpage : y ≠ some ⟨false, false⟩) : Bal (s.setPipe pg y) cw cnt H L F E' := by
  have hpipe : (s.setPipe pg y).pipe = Function.update s.pipe pg y := rfl
  refine ⟨⟨rfl, h.refs.ref, h.refs.lock⟩, ⟨h.files.ref, h.files.free, h.files.range,
    fun pg' w => ?_, fun pg' => ?_⟩⟩
  · have hold : pipeFiles s.ftable pg' w + E.count (pg', w) =
        if isOpen s.pipe pg' w then 1 else 0 := h.files.ends pg' w
    show pipeFiles s.ftable pg' w + E'.count (pg', w) =
      if isOpen (Function.update s.pipe pg y) pg' w then 1 else 0
    by_cases hpg : pg' = pg
    · subst hpg
      have hnew : isOpen (Function.update s.pipe pg' y) pg' w = isOpen (fun _ => y) pg' w := by
        unfold isOpen
        rw [Function.update_self]
      have hw := hself w
      rw [hnew]
      omega
    · have hkeep : isOpen (Function.update s.pipe pg y) pg' w = isOpen s.pipe pg' w := by
        unfold isOpen
        rw [Function.update_of_ne hpg]
      rw [hkeep, hother pg' w hpg]
      exact hold
  · show Function.update s.pipe pg y pg' ≠ some ⟨false, false⟩
    by_cases hpg : pg' = pg
    · subst hpg
      rw [Function.update_self]
      exact hpage
    · rw [Function.update_of_ne hpg]
      exact h.files.page pg'

/-- The end that is closed was open, and the page goes with the second one. -/
theorem Bal.pipeclose {pg : ℕ} {w : Bool} (h : Bal s cw cnt H L F ((pg, w) ::ₘ E)) :
    wp Calm (pipeclose pg w) (fun _ t => Bal t cw cnt H L F E ∧ t.proc = s.proc) s := by
  have hends : pipeFiles s.ftable pg w + ((pg, w) ::ₘ E).count (pg, w) =
      if isOpen s.pipe pg w then 1 else 0 := h.files.ends pg w
  have hopen : isOpen s.pipe pg w = true := by
    by_contra hclosed
    rw [if_neg hclosed, Multiset.count_cons_self] at hends
    omega
  unfold Kernel.pipeclose
  rw [wp_act]
  rcases hpipe : s.pipe pg with _ | ⟨r, v⟩
  · unfold isOpen at hopen
    rw [hpipe] at hopen
    exact absurd hopen Bool.false_ne_true
  · -- one end is open before, and the other one stays as it is
    have hx : isOpen s.pipe pg = fun w => if w then v else r := by
      funext w'
      unfold isOpen
      rw [hpipe]
    dsimp only
    rw [if_pos hopen]
    refine ⟨?_, rfl⟩
    rw [hx] at hopen
    apply h.setPipe
    · intro pg' w' hne
      rw [Multiset.count_cons_of_ne]
      exact fun heq => hne (congrArg Prod.fst heq)
    · intro w'
      rw [hx, Multiset.count_cons]
      revert hopen
      rcases w with _ | _ <;> rcases w' with _ | _ <;> rcases r with _ | _ <;>
        rcases v with _ | _ <;> simp [Pipe.close, isOpen]
    · rcases w with _ | _ <;> rcases r with _ | _ <;> rcases v with _ | _ <;> simp [Pipe.close]

/-- A new pipe has two ends to be given out. -/
lemma Bal.pipePage {pg : ℕ} (h : Bal s cw cnt H L F E) :
    wp Calm (pipePage pg) (fun _ t => Bal t cw cnt H L F ((pg, false) ::ₘ (pg, true) ::ₘ E) ∧
      t.proc = s.proc ∧ t.ftable = s.ftable) s := by
  unfold Kernel.pipePage
  rw [wp_act]
  split
  · trivial
  · next hfree =>
    refine ⟨?_, rfl, rfl⟩
    have hnone : s.pipe pg = none := by simpa using hfree
    apply h.setPipe
    · intro pg' w hne
      rw [Multiset.count_cons_of_ne fun heq => hne (congrArg Prod.fst heq),
        Multiset.count_cons_of_ne fun heq => hne (congrArg Prod.fst heq)]
    · intro w
      rw [Multiset.count_cons, Multiset.count_cons]
      unfold isOpen
      rw [hnone]
      rcases w with _ | _ <;> simp
    · simp

/-- `fileclose` releases what the last reference leaves. -/
lemma Bal.fileclose (h : Bal s cw cnt H L (f ::ₘ F) E) :
    wp Calm (fileclose p f) (fun _ t => Bal t cw cnt H L F E ∧ t.proc = s.proc) s := by
  apply wp_seq h.filedrop
  intro r t ht
  rcases r with _ | x
  · exact ⟨ht.2, ht.1⟩
  · have hb := ht.2
    unfold File.inodes File.pipes at hb
    rcases hx : x.type with _ | _ | _
    · simp only [hx, reduceCtorEq, if_false, zero_add] at hb ⊢
      exact ⟨hb, ht.1⟩
    · simp only [hx, reduceCtorEq, if_false, if_true, zero_add, Multiset.singleton_add] at hb ⊢
      apply wp_mono hb.pipeclose
      intro _ u hu
      exact ⟨hu.1, hu.2.trans ht.1⟩
    · simp only [hx, reduceCtorEq, if_false, if_true, zero_add, Multiset.singleton_add] at hb ⊢
      have hput : ∀ T tab, Spec T tab (x.ip ::ₘ H) L (do begin_op p; iput x.ip; end_op p)
          (fun _ => H) (fun _ => L) := fun T tab =>
        Spec.bind (keeps_begin_op _ _ _ _) fun _ => Spec.bind spec_iput fun _ =>
          keeps_end_op _ _ _ _
      apply wp_mono (hb.spec hput)
      intro _ u hu
      exact ⟨hu.1, (congrArg Tables.proc hu.2).trans ht.1⟩

/-! ## Descriptors -/

lemma wp_get {α : Type} {e : Panic → Prop} {g : State → α} {Q : α → State → Prop} :
    wp e (get g) Q s ↔ Q (g s) s := Iff.rfl

/-- `proc->ofile[fd] = v`. -/
def State.setFd (s : State) (p fd : ℕ) (v : Option ℕ) : State :=
  s.setProc p ⟨(s.proc p).live, Function.update (s.proc p).ofile fd v, (s.proc p).cwd⟩

/-- Its descriptors do not end a process. -/
lemma live_setFd {fd : ℕ} {v : Option ℕ} (h : s.Live p) : (s.setFd p fd v).Live p := by
  refine ⟨h.1, ?_⟩
  simp only [State.setFd, State.setProc, Function.update_self]
  exact h.2

/-- Descriptors are no working directories. -/
lemma cwds_setFd {fd : ℕ} {v : Option ℕ} : cwds (s.setFd p fd v).proc = cwds s.proc := by
  funext k
  exact Count.sum_update_of_eq (fun y : Proc => y.cwdRef k) rfl

/-- A descriptor of a process is set. -/
lemma Proc.fds_setOfile (x : Proc) {fd : ℕ} {v : Option ℕ} (hlive : x.live = true)
    (hfd : fd < NOFILE) (g : ℕ) :
    Proc.fds ⟨x.live, Function.update x.ofile fd v, x.cwd⟩ g +
      (if x.ofile fd = some g then 1 else 0) = x.fds g + if v = some g then 1 else 0 := by
  have hrow := Count.card_update (g := x.ofile) (x := v) (some g) (Finset.mem_range.mpr hfd)
  unfold Proc.fds
  simp only [hlive, if_true]
  exact hrow

/-- How often a file is a descriptor after one descriptor is set. -/
lemma fds_setFd {fd : ℕ} {v : Option ℕ} (hp : s.Live p) (hfd : fd < NOFILE) (g : ℕ) :
    fds (s.setFd p fd v).proc g + (if (s.proc p).ofile fd = some g then 1 else 0) =
      fds s.proc g + if v = some g then 1 else 0 := by
  have hrow := Proc.fds_setOfile (s.proc p) (v := v) hp.2 hfd g
  have hall : fds (s.setFd p fd v).proc g + (s.proc p).fds g = fds s.proc g + _ :=
    fds_update _ hp.1 g
  omega

/-- A descriptor of a live process counts. -/
lemma fds_pos {fd : ℕ} (hp : s.Live p) (hfd : fd < NOFILE) (hf : (s.proc p).ofile fd = some f) :
    0 < fds s.proc f := by
  have hsum := fds_setFd (v := none) hp hfd f
  rw [if_pos hf] at hsum
  simp only [reduceCtorEq, if_false] at hsum
  omega

/-- A descriptor changes, and files move between it and the running call. -/
theorem Rest.setFd {fd : ℕ} {v : Option ℕ} {F' : Multiset ℕ} (h : Rest s H L F E) (hp : s.Live p)
    (hfd : fd < NOFILE) (hF : ∀ g, F'.count g + (if v = some g then 1 else 0) =
      F.count g + if (s.proc p).ofile fd = some g then 1 else 0) :
    Rest (s.setFd p fd v) H L F' E := by
  unfold Rest
  rw [cwds_setFd]
  apply Bal.setProc h
  · exact fun k => rfl
  · intro g
    have hsum := fds_setFd (v := v) hp hfd g
    have hg := hF g
    omega

/-- Put a file that the running call has into a free descriptor. -/
lemma Rest.setFd_some {fd : ℕ} (h : Rest s H L (f ::ₘ F) E) (hp : s.Live p) (hfd : fd < NOFILE)
    (hfree : (s.proc p).ofile fd = none) : Rest (s.setFd p fd (some f)) H L F E := by
  apply h.setFd hp hfd
  intro g
  rw [hfree, Multiset.count_cons]
  simp only [Option.some.injEq, reduceCtorEq, if_false, eq_comm, Nat.add_zero]

/-- Take a file out of its descriptor. -/
lemma Rest.setFd_none {fd : ℕ} (h : Rest s H L F E) (hp : s.Live p) (hfd : fd < NOFILE)
    (hf : (s.proc p).ofile fd = some f) : Rest (s.setFd p fd none) H L (f ::ₘ F) E := by
  apply h.setFd hp hfd
  intro g
  rw [hf, Multiset.count_cons]
  simp only [Option.some.injEq, reduceCtorEq, if_false, eq_comm, Nat.add_zero]

/-- `fdalloc` takes a descriptor that is free. -/
lemma wp_fdalloc : wp Calm (fdalloc p f) (fun r t =>
    match r with
    | none => t = s
    | some fd => fd < NOFILE ∧ (s.proc p).ofile fd = none ∧ t = s.setFd p fd (some f)) s := by
  unfold fdalloc
  rw [wp_bind, wp_get]
  rcases hfind : (List.range NOFILE).find? fun fd => (s.proc p).ofile fd == none with _ | fd
  · rfl
  · refine ⟨List.mem_range.mp (List.mem_of_find?_eq_some hfind), ?_, rfl⟩
    simpa using List.find?_some hfind

/-- A descriptor that `argfd` accepts. -/
lemma wp_argfd {fd : ℕ} : wp Calm (argfd p fd)
    (fun r t => t = s ∧ ∀ f, r = some f → fd < NOFILE ∧ (s.proc p).ofile fd = some f) s := by
  refine ⟨rfl, fun f hf => ?_⟩
  dsimp only at hf
  by_cases hfd : NOFILE ≤ fd
  · rw [if_pos hfd] at hf
    exact nomatch hf
  · rw [if_neg hfd] at hf
    exact ⟨by omega, hf⟩

end

end Kernel
end OhMyXv6
