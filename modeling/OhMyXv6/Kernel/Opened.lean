import OhMyXv6.Kernel.Failed
import OhMyXv6.Kernel.Output

/-!
# A file that is opened to be written

`open` with `O_CREATE` finds a regular file and leaves it as it is, or makes an empty one. The new descriptor
begins to write at the first byte in either case.
-/

namespace OhMyXv6
namespace Kernel

open Prog

/-- The bytes of the regular file that the path leads to. -/
def State.fileContent (s : State) (p : ℕ) (path : List UInt8) : Option (List UInt8) := do
  let i ← s.nodes.resolve (s.start p path) path
  if (s.nodes i).type = T_FILE then some (s.nodes i).content else none

/-- The path leads to a regular file with these bytes, or to nothing, and there are none. -/
def State.Contains (s : State) (p : ℕ) (path C : List UInt8) : Prop :=
  s.fileContent p path = some C ∨ s.nodes.resolve (s.start p path) path = none ∧ C = []

/-- Process `p` is about to make a system call, and no other call is running. -/
structure Alone (s : State) (p : ℕ) : Prop extends Ready s p where
  lh : s.lh = []
  outstanding : s.outstanding = 0
  nlog : s.sb.nlog = LOGSIZE

/-- The state inside a transaction in which the path leads to the regular file `i`. -/
structure TargetFile (s T : State) (p : ℕ) (path C : List UInt8) (i : ℕ) : Prop where
  sb : T.sb = s.sb
  ftable : T.ftable = s.ftable
  proc : T.proc = s.proc
  icache : T.icache = s.icache
  outstanding : T.outstanding = 1
  nodup : T.lh.Nodup
  image : Image T.sb T.disk T.inodes T.nodes
  anchored : Anchored T []
  resolve : T.nodes.resolve (s.start p path) path = some i
  type : (T.nodes i).type = T_FILE
  content : (T.nodes i).content = C

/-- Descriptor `fd` of process `p` writes from the first byte on to the file `i` that the path leads to,
which has the bytes `C`. -/
structure Writes (s : State) (p fd : ℕ) (path C : List UInt8) (f i : ℕ) : Prop where
  output : Output s f i
  off : (s.ftable f).off = 0
  ofile : (s.proc p).ofile fd = some f
  resolve : s.nodes.resolve (s.start p path) path = some i
  content : (s.nodes i).content = C

section
variable {s T T' k t : State} {p e fd ip d i j x f : ℕ} {path name other C : List UInt8} {omode : ℕ}
  {D : ℕ → Prop} {E : Panic → Prop}

/-! ## The new name -/

namespace Made

/-- The entries of the directory, of which one is new. -/
lemma entries (h : Made T T' d i name) (hs : Sound T) (hname : NameOk name) (hdi : d ≠ i) :
    ∃ m, DIRENTSIZE * m ≤ (T.nodes d).size ∧ (T'.nodes d).inum m = i ∧ (T'.nodes d).name m = name ∧
      ¬ (T.nodes d).Has m ∧
      m < nentries (T'.nodes d).size ∧ nentries (T.nodes d).size ≤ nentries (T'.nodes d).size ∧
      (T'.nodes d).type = (T.nodes d).type ∧
      ∀ n, n ≠ m → (T'.nodes d).inum n = (T.nodes d).inum n ∧
        (T'.nodes d).name n = (T.nodes d).name n := by
  have hS : DIRENTSIZE = 16 := rfl
  have hsixteen := hs.image.geometry.ninodes
  obtain ⟨m, hm, hfree, hnodes⟩ := h.entry
  have hd : Function.update T.nodes i Node.new d = T.nodes d := Function.update_of_ne hdi _ _
  have hentry := Nodes.link_entry (A := Function.update T.nodes i .new) (d := d) (k := m)
    (Nat.lt_of_lt_of_le h.lt hsixteen) hname
  have hsize : (T'.nodes d).size = max (T.nodes d).size (DIRENTSIZE * m + DIRENTSIZE) := by
    rw [hnodes, Nodes.link, Nodes.write_size, hd, length_direntBytes]
  refine ⟨m, hm, ?_, ?_, hfree, ?_, ?_, ?_, fun n hn => ?_⟩
  · rw [hnodes]
    exact hentry.1
  · rw [hnodes]
    exact hentry.2
  · unfold nentries
    rw [hsize, hS]
    omega
  · unfold nentries
    rw [hsize, hS]
    omega
  · rw [hnodes, Nodes.link, Nodes.write_type.1, hd]
  · have hkeep := Nodes.write_entry_of_ne (A := Function.update T.nodes i .new) (d := d)
      (length_direntBytes i name) hn
    rw [hd] at hkeep
    rw [hnodes]
    exact hkeep

/-- The new file is not the directory that it was made in. -/
lemma ne (h : Made T T' d i name) (hs : Sound T) (htype : (T.nodes d).type = T_DIR) : d ≠ i := by
  rintro rfl
  rw [hs.image.type h.lt, h.free] at htype
  exact absurd htype (by decide)

/-- The other files are as they were. -/
lemma nodes_of_ne (h : Made T T' d i name) (hjd : j ≠ d) (hji : j ≠ i) : T'.nodes j = T.nodes j := by
  obtain ⟨m, -, -, hnodes⟩ := h.entry
  rw [hnodes, Nodes.link_of_ne hjd, Function.update_of_ne hji]

lemma nodes_self (h : Made T T' d i name) (hdi : d ≠ i) : T'.nodes i = .new := by
  obtain ⟨m, -, -, hnodes⟩ := h.entry
  rw [hnodes, Nodes.link_of_ne (Ne.symm hdi), Function.update_self]

/-- The new name leads to the new file. -/
lemma lookup_new (h : Made T T' d i name) (hs : Sound T) (htype : (T.nodes d).type = T_DIR)
    (hname : NameOk name) (hfind : (T.nodes d).find name = none) :
    T'.nodes.lookup d name = some i := by
  have hS : DIRENTSIZE = 16 := rfl
  have hdi := h.ne hs htype
  obtain ⟨m, hsize, hinum, hmname, hfree, hm, hle, htype', hkeep⟩ := h.entries hs hname hdi
  have hfound : (T'.nodes d).find name = some m := by
    refine Node.findFrom_first (Nat.zero_le m) (by rw [Nat.zero_add]; exact hm)
      ⟨by rw [hinum]; exact h.pos, ?_⟩ fun e he hmatch => ?_
    · rw [hmname]
      exact (namecmp_iff hname.1 hname.1).mpr rfl
    · -- an entry in front of it is an old one
      obtain ⟨heinum, hename⟩ := hkeep e (by omega)
      rw [Node.Matches, heinum, hename] at hmatch
      have hlt : e < nentries (T.nodes d).size := by
        unfold nentries
        rw [hS] at hsize ⊢
        omega
      exact Node.findFrom_none hfind (Nat.zero_le e) (by omega) hmatch
  rw [Nodes.lookup_eq (htype'.trans htype), hfound, Option.map_some, hinum]

/-- The old names lead where they did. -/
lemma lookup_old (h : Made T T' d i name) (hs : Sound T) (htype : (T.nodes d).type = T_DIR)
    (hname : NameOk name) (hfind : (T.nodes d).find name = none) (hother : other.length ≤ DIRSIZ)
    (hlook : T.nodes.lookup j other = some x) : T'.nodes.lookup j other = some x := by
  have hdi := h.ne hs htype
  have hjdir : (T.nodes j).type = T_DIR := by
    by_contra hno
    rw [Nodes.lookup, if_neg hno] at hlook
    exact nomatch hlook
  have hji : j ≠ i := by
    rintro rfl
    rw [hs.image.type h.lt, h.free] at hjdir
    exact absurd hjdir (by decide)
  by_cases hjd : j = d
  · subst hjd
    obtain ⟨m, hsize, hinum, hmname, hfree, hm, hle, htype', hkeep⟩ := h.entries hs hname hdi
    rw [Nodes.lookup_eq hjdir, Option.map_eq_some_iff] at hlook
    obtain ⟨n, hn, rfl⟩ := hlook
    obtain ⟨-, hlt, hmatch⟩ := Node.findFrom_some hn
    -- the new entry has another name, and its place was free
    have hnm : n ≠ m := by
      rintro rfl
      refine hfree (hs.has_of_find hjdir hn)
    have hne : other ≠ name := by
      rintro rfl
      rw [hfind] at hn
      exact nomatch hn
    have hfound : (T'.nodes j).find other = some n := by
      refine Node.findFrom_first (Nat.zero_le n) (by omega) ?_ fun e he hme => ?_
      · rw [Node.Matches, (hkeep n hnm).1, (hkeep n hnm).2]
        exact hmatch
      · by_cases hem : e = m
        · rw [hem, Node.Matches, hmname, namecmp_iff hother hname.1] at hme
          exact hne hme.2
        · rw [Node.Matches, (hkeep e hem).1, (hkeep e hem).2] at hme
          exact Node.findFrom_least hn (Nat.zero_le e) he hme
    rw [Nodes.lookup_eq (htype'.trans hjdir), hfound, Option.map_some, (hkeep n hnm).1]
  · rw [Nodes.lookup, h.nodes_of_ne hjd hji]
    exact hlook

/-- A path that was there leads to where it has led. -/
lemma lookups_old (h : Made T T' d i name) (hs : Sound T) (htype : (T.nodes d).type = T_DIR)
    (hname : NameOk name) (hfind : (T.nodes d).find name = none) {names : List (List UInt8)} :
    ∀ {j}, (∀ n ∈ names, n.length ≤ DIRSIZ) → T.nodes.lookups j names = some x →
      T'.nodes.lookups j names = some x := by
  induction names with
  | nil => exact fun _ hlook => hlook
  | cons n names ih =>
    intro j hshort hlook
    rw [Nodes.lookups_cons, Option.bind_eq_some_iff] at hlook ⊢
    obtain ⟨y, hy, hrest⟩ := hlook
    exact ⟨y, h.lookup_old hs htype hname hfind (hshort n List.mem_cons_self) hy,
      ih (fun m hm => hshort m (List.mem_cons_of_mem n hm)) hrest⟩

/-- The path leads to the file that was made for it. -/
lemma resolve (h : Made T T' d i name) (hs : Sound T) (h0 : 0 ∉ path)
    (hparent : T.nodes.resolveParent j path = some (d, name)) (hfind : (T.nodes d).find name = none) :
    T'.nodes.resolve j path = some i := by
  obtain ⟨hd, htype, hcomp⟩ := Nodes.of_resolveParent hparent
  have hlast : name ∈ components path := by
    rw [hcomp]
    exact List.mem_append_right _ List.mem_cons_self
  obtain ⟨hlen, hbytes⟩ := of_mem_components hlast
  have hname : NameOk name := ⟨hlen, fun hmem => h0 (hbytes 0 hmem)⟩
  have hshort : ∀ n ∈ (components path).dropLast, n.length ≤ DIRSIZ := fun n hn =>
    (of_mem_components (List.dropLast_subset _ hn)).1
  unfold Nodes.resolve
  rw [hcomp, Nodes.lookups_append, h.lookups_old hs htype hname hfind hshort hd, Option.bind_some,
    Nodes.lookups_cons, h.lookup_new hs htype hname hfind]
  rfl

end Made

/-! ## `create` -/

/-- The state inside the transaction of a call. -/
def State.begun (s : State) (p : ℕ) : State :=
  { s with outstanding := s.outstanding + 1, inOp := p :: s.inOp }

/-- The begin of a transaction changes nothing that a call looks at. -/
lemma Alone.begun (h : Alone s p) : Base s (s.begun p) ∧ Settled (s.begun p) := by
  have hlog : s.lh.length + (s.outstanding + 1) * MAXOPBLOCKS ≤ LOGSIZE := by
    rw [h.lh, h.outstanding]
    decide
  obtain ⟨hT, hset⟩ := wp_done (begin_base h.toReady) (exec_begin_op (p := p) hlog)
  exact ⟨hT, hset⟩

/-- A regular file that is there. -/
lemma Alone.target_found (h : Alone s p) (hresolve : s.nodes.resolve (s.start p path) path = some i)
    (htype : (s.nodes i).type = T_FILE) (hC : s.Contains p path C) : TargetFile s (s.begun p) p path C i := by
  have hcontent : (s.nodes i).content = C := by
    rcases hC with hC | hC
    · unfold State.fileContent at hC
      rw [hresolve] at hC
      exact Option.some.inj ((if_pos htype).symm.trans hC)
    · rw [hresolve] at hC
      exact nomatch hC.1
  exact ⟨rfl, rfl, rfl, rfl, congrArg (· + 1) h.outstanding, h.nodup, h.begun.1.sound.image,
    h.begun.1.anchored, hresolve, htype, hcontent⟩

/-- A regular file that has been made. -/
lemma Alone.target_made (h : Alone s p) (hmade : Made (s.begun p) T' d i name) (h0 : 0 ∉ path)
    (hparent : s.nodes.resolveParent (s.start p path) path = some (d, name))
    (hfind : (s.nodes d).find name = none) (hC : s.Contains p path C) : TargetFile s T' p path C i := by
  have hs := h.begun.1.sound
  have hresolve := Nodes.resolve_of_parent hparent
  rw [hfind] at hresolve
  have hnil : C = [] := by
    rcases hC with hC | hC
    · unfold State.fileContent at hC
      rw [hresolve] at hC
      exact nomatch hC
    · exact hC.2
  have hnew := hmade.nodes_self (hmade.ne hs (type_of_resolveParent hparent))
  obtain ⟨disk, l, hT'⟩ := hmade.written
  refine ⟨?_, ?_, ?_, ?_, ?_, hmade.nodup, hmade.image, hmade.anchored,
    hmade.resolve hs h0 hparent hfind, ?_, ?_⟩
  · rw [hT']
    rfl
  · rw [hT']
    rfl
  · rw [hT']
    rfl
  · rw [hT']
    rfl
  · rw [hT']
    exact congrArg (· + 1) h.outstanding
  · rw [hnew]
    rfl
  · rw [hnew, hnil]
    rfl

/-- What `create` of a regular file may stop with: what a path lookup in the inodes `D` stops with, and
when the name is new, what making a file stops with. -/
structure Creatable (T : State) (p : ℕ) (path : List UInt8) (D : ℕ → Prop) (E : Panic → Prop) : Prop where
  passable : Passable T [] D E
  start : D (T.start p path)
  found : ∀ i, T.nodes.resolve (T.start p path) path = some i → (T.nodes i).type = 0 → E .ilockNoType
  obstacles : ∀ d name, T.nodes.resolveParent (T.start p path) path = some (d, name) →
    (T.nodes d).find name = none → Obstacles T d E

/-- The weakest condition under which a call may stop. -/
lemma Obstacles.any (T : State) (d : ℕ) : Obstacles T d fun _ => True :=
  ⟨fun _ => trivial, fun _ => trivial, fun _ => trivial, fun _ => trivial, fun _ => trivial⟩

/-- The weakest condition under which `create` may stop. -/
lemma Creatable.any (T : State) (p : ℕ) (path : List UInt8) :
    Creatable T p path (fun _ => True) fun _ => True :=
  ⟨passable_any T [], trivial, fun _ _ _ => trivial, fun d _ _ _ => .any T d⟩

/-- There is no directory for the file, or something that is no regular file has its name. -/
def State.Unwritable (s : State) (p : ℕ) (path : List UInt8) : Prop :=
  s.nodes.resolveParent (s.start p path) path = none ∨
    ∃ i, s.nodes.resolve (s.start p path) path = some i ∧ (s.nodes i).type ≠ T_FILE

/-- `create` finds the file or makes it, and no other file is changed. -/
lemma Alone.create_ends (h : Alone s p) (h0 : 0 ∉ path) (hC : s.Contains p path C)
    (hE : Creatable (s.begun p) p path D E) : Ends E (create p path T_FILE 0 0) (fun r t =>
      (r = none ∧ s.Unwritable p path) ∨
      ∃ e i T, r = some e ∧ Steady T t [⟨e, i, false⟩] [e] ∧ TargetFile s T p path C i) (s.begun p) := by
  obtain ⟨hT, hset⟩ := h.begun
  have hs := hT.sound
  have hcwd := hT.hasCwd h.cwd
  have hwalk := Nodes.walk_true (A := (s.begun p).nodes) (i := (s.begun p).start p path)
    (Nat.lt_succ_self path.length)
  have hnamex : Ends E (nameiparent p path) (Reaches (s.begun p) []
      ((s.begun p).nodes.walk true (path.length + 1) ((s.begun p).start p path) path)) (s.begun p) :=
    namex_ends hs hcwd hT.anchored hE.passable hE.start hset
  rw [hwalk] at hnamex
  unfold create
  refine Ends.seq hnamex fun r k hr => ?_
  unfold Reaches at hr
  split at hr
  · next hparent =>
    obtain ⟨rfl, -⟩ := hr
    exact .inl ⟨rfl, .inl hparent⟩
  next d name hparent =>
  obtain ⟨dp, rfl, hk⟩ := hr
  have hdir := type_of_resolveParent hparent
  refine Ends.seq (hk.ilock_ends (.head _) nofun fun h0 => ?_) fun _ k₁ h₁ => ?_
  · rw [hs.image.type (hk.inum_lt (.head _)), h0] at hdir
    exact absurd hdir (by decide)
  have hfull : (∀ e < NINODE, 0 < (s.begun p).view.tab e + refsTo [⟨dp, d, false⟩] e) →
      E .igetNoInodes := fun hall => hE.passable.room (card_freeEntries_le hall)
  refine Ends.seq (h₁.dirlookup_ends hs (.head _) (.head _) hdir hfull) fun r k₂ hr => ?_
  rcases hr with ⟨rfl, rfl, hfind⟩ | ⟨m, e, hfind, rfl, h₂⟩
  · refine Ends.seq (createNew_ends h₁ hs hT.anchored hdir hfind hT.outstanding hT.nodup
      (hE.obstacles d name hparent hfind)) fun e t ht => ?_
    obtain ⟨i, T', hmade, ht⟩ := ht
    exact .inr ⟨e, i, T', rfl, ht, h.target_made hmade h0 hparent hfind hC⟩
  · -- the name is there already
    have hresolve := Nodes.resolve_of_parent hparent
    rw [hfind] at hresolve
    have hkept := (hT.anchored.cons [⟨e, ((s.begun p).nodes d).inum m, false⟩]).kept h₂.swap
      (List.Subset.refl _)
    refine Ends.seq (h₂.swap.iunlockput_ends hkept nofun nofun) fun _ k₃ h₃ => ?_
    refine Ends.seq (h₃.ilock_ends (.head _) nofun fun h0 => ?_) fun _ k₄ h₄ => ?_
    · refine hE.found _ hresolve ?_
      rw [hs.image.type (h₃.inum_lt (.head _))]
      exact h0
    have htype : (k₄.icache e).din.type = ((s.begun p).nodes (((s.begun p).nodes d).inum m)).type := by
      rw [(h₄.locked_din (.head _) (.head _)).1, hs.image.type (h₄.inum_lt (.head _))]
    rw [ends_get, htype]
    split
    · next hfile => exact .inr ⟨e, _, s.begun p, rfl, h₄, h.target_found hresolve hfile.2 hC⟩
    · next hfile =>
      have hkept' := hT.anchored.kept h₄ (List.Subset.refl _)
      refine Ends.seq (h₄.iunlockput_ends hkept' nofun nofun) fun _ k₅ h₅ =>
        .inl ⟨rfl, .inr ⟨_, hresolve, ?_⟩⟩
      exact fun hregular => hfile ⟨rfl, hregular⟩

/-! ## The new descriptor -/

/-- The state in which `open` returns. -/
def State.opened (k : State) (p e omode f fd : ℕ) : State :=
  { k with
    icache := Function.update k.icache e { k.icache e with lock := none }
    ftable := Function.update k.ftable f (openFile { k.ftable f with ref := 1 } e omode)
    proc := Function.update k.proc p
      { k.proc p with ofile := Function.update (k.proc p).ofile fd (some f) }
    outstanding := k.outstanding - 1
    lh := if k.outstanding - 1 = 0 then [] else k.lh
    inOp := k.inOp.erase p }

/-- The descriptor of a file that was opened for writing. -/
lemma TargetFile.writes (hT : TargetFile s T p path C i) (hs : Alone s p)
    (hk : Steady T k [⟨e, i, false⟩] [e]) (hw : omode &&& O_WRONLY ≠ 0) :
    Writes (k.opened p e omode f fd) p fd path C f i := by
  obtain ⟨he, hinum, hpos⟩ := hk.held (.head _)
  obtain ⟨hdin, htype⟩ := hk.locked_din (.head _) (.head _)
  have hholds := hk.holds hT.image (.head _) (.head _) hT.nodup
  have hout : k.outstanding = 1 := by
    rw [hk.frame]
    exact hT.outstanding
  set t := k.opened p e omode f fd with ht
  have hfile : t.ftable f = openFile { k.ftable f with ref := 1 } e omode := Function.update_self _ _ _
  have hentry : t.icache e = { k.icache e with lock := none } := Function.update_self _ _ _
  have hproc : t.proc p = { k.proc p with ofile := Function.update (k.proc p).ofile fd (some f) } :=
    Function.update_self _ _ _
  have hip : (t.ftable f).ip = e := by rw [hfile]; rfl
  have hlh : t.lh = [] := by
    show (if k.outstanding - 1 = 0 then [] else k.lh) = []
    rw [hout]
    rfl
  have hnodes : t.nodes = T.nodes := hk.nodes
  have hinodes : t.inodes = T.inodes := by
    show dinode k.sb k.disk = dinode T.sb T.disk
    rw [hk.sb, hk.disk]
  have hregular : (k.icache e).din.type = T_FILE := by
    rw [hdin, ← hT.image.type (hk.inum_lt (.head _)), hT.type]
  -- the current directory is where it was
  have hstart : t.start p path = s.start p path := by
    unfold State.start
    have hcwd : (t.proc p).cwd = (s.proc p).cwd := by
      rw [hproc, hk.proc, hT.proc]
    have htab : 0 < T.view.tab (s.proc p).cwd := by
      show 0 < if (s.proc p).cwd < NINODE then (T.icache (s.proc p).cwd).ref else 0
      rw [if_pos hs.cwd.1, hT.icache]
      exact hs.cwd.2
    have hsame : ∀ c, (t.icache c).inum = (k.icache c).inum := by
      intro c
      by_cases hc : c = e
      · rw [hc, hentry]
      · exact congrArg Inode.inum (Function.update_of_ne hc _ _)
    rw [hcwd, hsame, (hk.cached.tab _ htab).2.1, ← hT.icache]
    rfl
  refine ⟨⟨⟨⟨⟨?_, ?_, ?_, ?_⟩, ?_, ?_, ?_, ?_, ?_⟩, hlh, ?_, ?_⟩, ?_, ?_, ?_, ?_⟩, ?_, ?_, ?_, ?_⟩
  · rw [hip, hentry, hnodes, hinodes]
    exact hholds.image
  · rw [hip, hentry]
    exact hholds.inum
  · rw [hip, hentry]
    exact hholds.type
  · rw [hlh]
    exact List.nodup_nil
  · rw [hfile]
    rfl
  · rw [hip, hentry]
    exact hregular
  · rw [hip, hentry]
    exact (hk.locked e (.head _)).2
  · rw [hip, hentry]
    exact hpos
  · rw [hip, hentry]
  · show k.outstanding - 1 = 0
    rw [hout]
  · show k.sb.nlog = LOGSIZE
    rw [hk.sb, hT.sb]
    exact hs.nlog
  · rw [hip, hentry]
    exact hinum
  · rw [hip, hentry, hinodes]
    exact hdin.symm
  · rw [hfile]
    exact decide_eq_true (.inl hw)
  · rw [hfile]
    exact Nat.zero_le _
  · rw [hfile]
    rfl
  · rw [hproc]
    exact Function.update_self _ _ _
  · rw [hnodes, hstart]
    exact hT.resolve
  · rw [hnodes]
    exact hT.content

/-- The first descriptor that is free is 1. -/
lemma find_descriptor {ofile : ℕ → Option ℕ} (h0 : ofile 0 ≠ none) (h1 : ofile 1 = none) :
    ((List.range NOFILE).find? fun fd => ofile fd == none) = some 1 := by
  rw [List.find?_range_eq_some]
  refine ⟨by rw [h1]; rfl, by decide, fun j hj => ?_⟩
  obtain rfl : j = 0 := by omega
  simpa [Option.isSome_iff_ne_none] using h0

lemma exec_openDone (hk : Steady T k [⟨e, i, false⟩] [e]) :
    Prog.exec (openDone p e omode f fd) ((k.setFile f { k.ftable f with ref := 1 }).setProc p
      { k.proc p with ofile := Function.update (k.proc p).ofile fd (some f) }) =
      .done (fd, []) (k.opened p e omode f fd) := by
  obtain ⟨q, hq⟩ := Option.isSome_iff_exists.mp (hk.locked e (.head _)).1
  have hunlock := exec_iunlock (s := (k.setFile f { k.ftable f with ref := 1 }).setProc p
    { k.proc p with ofile := Function.update (k.proc p).ofile fd (some f) }) (hk.held (.head _)).2.2 hq
  unfold openDone
  rw [exec_seq hunlock]
  refine congrArg (Out.done ((fd : ℤ), [])) ?_
  unfold State.setFile State.setProc State.setInode State.opened
  simp only [Function.update_self, Function.update_idem]

/-- `open` from the locked inode on: descriptor 1 is the one that is free. -/
lemma Alone.openRest_ends (h : Alone s p) (hT : TargetFile s T p path C i)
    (hk : Steady T k [⟨e, i, false⟩] [e]) (h0 : (s.proc p).ofile 0 ≠ none)
    (h1 : (s.proc p).ofile 1 = none) (hw : omode &&& O_WRONLY ≠ 0) :
    Ends E (openRest p e omode) (fun r t => r = failed ∧ (∀ f < NFILE, (s.ftable f).ref ≠ 0) ∨
      r = (1, []) ∧ ∃ f, Writes t p 1 path C f i) k := by
  have hproc : k.proc = s.proc := hk.proc.trans hT.proc
  unfold openRest filealloc
  rw [ends_bind, ends_act]
  rcases hfile : (List.range NFILE).find? fun f => (k.ftable f).ref == 0 with _ | f
  · refine (openFull_ends hT.anchored hk).mono (fun _ he => he) fun r t ht => .inl ⟨ht.1, fun f hf => ?_⟩
    have hnot := List.find?_eq_none.mp hfile f (List.mem_range.mpr hf)
    rwa [beq_iff_eq, hk.ftable, hT.ftable] at hnot
  have hfd : Prog.exec (fdalloc p f) (k.setFile f { k.ftable f with ref := 1 }) = .done (some 1)
      ((k.setFile f { k.ftable f with ref := 1 }).setProc p
        { k.proc p with ofile := Function.update (k.proc p).ofile 1 (some f) }) := by
    have hfind : ((List.range NOFILE).find? fun fd => (k.proc p).ofile fd == none) = some 1 := by
      rw [hproc]
      exact find_descriptor h0 h1
    unfold fdalloc
    rw [exec_get]
    dsimp only [State.setFile]
    rw [hfind]
    rfl
  refine Ends.after hfd ?_
  unfold Prog.Ends
  dsimp only
  rw [exec_openDone hk]
  exact .inr ⟨rfl, f, hT.writes h hk hw⟩

/-- The whole call, of a path that is there or can be made. -/
lemma Alone.sys_open_ends (h : Alone s p) (hpath : 0 ∉ path) (hC : s.Contains p path C)
    (h0 : (s.proc p).ofile 0 ≠ none) (h1 : (s.proc p).ofile 1 = none)
    (hcreate : omode &&& O_CREATE ≠ 0) (hw : omode &&& O_WRONLY ≠ 0) (hE : Creatable s p path D E) :
    Ends E (sys_open p (some path) omode)
      (fun r t => r = failed ∧ (s.Unwritable p path ∨ ∀ f < NFILE, (s.ftable f).ref ≠ 0) ∨
        r = (1, []) ∧ ∃ f i, Writes t p 1 path C f i) s := by
  have hlog : s.lh.length + (s.outstanding + 1) * MAXOPBLOCKS ≤ LOGSIZE := by
    rw [h.lh, h.outstanding]
    decide
  have hbegun : Creatable (s.begun p) p path D E := by
    refine ⟨⟨hE.passable.allocated, hE.passable.closed, hE.passable.room⟩, hE.start, hE.found, ?_⟩
    intro d name hparent hfind
    have hobs := hE.obstacles d name hparent hfind
    exact ⟨hobs.inodes, hobs.cache, hobs.log, hobs.blocks, hobs.size⟩
  have hopen : openInode p path omode = create p path T_FILE 0 0 := if_pos hcreate
  rw [sys_open_some, hopen]
  refine Ends.after (exec_begin_op hlog) (Ends.seq (h.create_ends hpath hC hbegun) fun r k hr => ?_)
  rcases hr with ⟨rfl, hno⟩ | ⟨e, i, T, rfl, hk, hT⟩
  · exact .inl ⟨rfl, .inl hno⟩
  · refine (h.openRest_ends hT hk h0 h1 hw).mono (fun _ he => he) fun r t ht => ?_
    rcases ht with ⟨hr, hfull⟩ | ⟨hr, f, hf⟩
    · exact .inl ⟨hr, .inr hfull⟩
    · exact .inr ⟨hr, f, i, hf⟩

/-! ## `close` -/

/-- A file that others have open as well loses one reference. -/
def State.closed (s : State) (p fd f : ℕ) : State :=
  (s.setProc p { s.proc p with ofile := Function.update (s.proc p).ofile fd none }).setFile f
    { s.ftable f with ref := (s.ftable f).ref - 1 }

/-- `close` of a descriptor whose file has others. -/
lemma exec_sys_close (hfd : fd < NOFILE) (hofile : (s.proc p).ofile fd = some f)
    (href : 1 < (s.ftable f).ref) :
    Prog.exec (sys_close p fd) s = .done (0, []) (s.closed p fd f) := by
  have hargfd : Prog.exec (argfd p fd) s = .done (some f) s := by
    unfold argfd
    rw [← hofile]
    exact congrArg (fun x => Out.done x s) (if_neg (Nat.not_le.mpr hfd))
  have hdrop : Prog.exec (filedrop f)
      (s.setProc p { s.proc p with ofile := Function.update (s.proc p).ofile fd none }) =
      .done none (s.closed p fd f) := by
    unfold filedrop
    rw [exec_act]
    show (if (s.ftable f).ref < 1 then _ else if 0 < (s.ftable f).ref - 1 then _ else _) = _
    rw [if_neg (by omega), if_pos (by omega)]
    rfl
  unfold sys_close
  rw [exec_seq hargfd]
  show Prog.exec (fileclose p f >>= _)
    (s.setProc p { s.proc p with ofile := Function.update (s.proc p).ofile fd none }) = _
  unfold fileclose
  rw [bind_bind, exec_seq hdrop]
  rfl

/-- The process is alone after the call as well. -/
lemma Alone.closed (h : Alone s p) (href : 1 < (s.ftable f).ref) : Alone (s.closed p fd f) p := by
  have hproc : (s.closed p fd f).proc p =
      { s.proc p with ofile := Function.update (s.proc p).ofile fd none } := Function.update_self _ _ _
  have hset := h.settled
  have hcached := hset.cached
  refine ⟨⟨⟨rfl, ⟨hcached.inum, hcached.din, hcached.distinct, hcached.refs, hcached.held, hcached.tab,
    hcached.unlinked, rfl, rfl⟩, hset.holder, hset.locked, hset.unlocked⟩, ⟨h.sound.image,
    h.sound.aligned, h.sound.entries⟩, ?_, fun g hg h0 => ?_, h.nodup⟩, h.lh, h.outstanding, h.nlog⟩
  · unfold HasCwd
    rw [hproc]
    exact h.cwd
  · by_cases hgf : g = f
    · have hself : (s.closed p fd f).ftable g = { s.ftable f with ref := (s.ftable f).ref - 1 } := by
        rw [hgf]
        exact Function.update_self _ _ _
      rw [hself] at h0
      dsimp only at h0
      omega
    · have hother : (s.closed p fd f).ftable g = s.ftable g := Function.update_of_ne hgf _ _
      rw [hother] at h0 ⊢
      exact h.free g hg h0

/-- Descriptor `fd` has been closed, and no file was given up with it. -/
structure Closed (s t : State) (p fd : ℕ) : Prop where
  alone : Alone t p
  frame : ∃ files procs, t = { s with ftable := files, proc := procs }
  ofile : (t.proc p).ofile = Function.update (s.proc p).ofile fd none
  cwd : (t.proc p).cwd = (s.proc p).cwd
  free : ∀ f, (s.ftable f).ref = 0 → (t.ftable f).ref = 0

/-- `close` ends, whether the descriptor is open or not. -/
lemma Alone.sys_close_done (h : Alone s p) (hfd : fd < NOFILE)
    (href : ∀ f, (s.proc p).ofile fd = some f → 1 < (s.ftable f).ref) :
    ∃ r t, Prog.exec (sys_close p fd) s = .done r t ∧ Closed s t p fd := by
  cases hofile : (s.proc p).ofile fd with
  | none =>
    have hargfd : Prog.exec (argfd p fd) s = .done none s := by
      unfold argfd
      rw [← hofile]
      exact congrArg (fun x => Out.done x s) (if_neg (Nat.not_le.mpr hfd))
    refine ⟨failed, s, ?_, h, ⟨_, _, rfl⟩, ?_, rfl, fun _ h0 => h0⟩
    · unfold sys_close
      rw [exec_seq hargfd]
      rfl
    · rw [← hofile, Function.update_eq_self]
  | some f =>
    have href' := href f hofile
    have hproc : (s.closed p fd f).proc p =
        { s.proc p with ofile := Function.update (s.proc p).ofile fd none } := Function.update_self _ _ _
    refine ⟨_, _, exec_sys_close hfd hofile href', h.closed href', ⟨_, _, rfl⟩, by rw [hproc],
      by rw [hproc], fun g h0 => ?_⟩
    have hgf : g ≠ f := by
      rintro rfl
      omega
    show (Function.update s.ftable f _ g).ref = 0
    rw [Function.update_of_ne hgf]
    exact h0

namespace Closed

/-- A path begins at the same directory as before. -/
lemma start (h : Closed s t p fd) : t.start p path = s.start p path := by
  obtain ⟨files, procs, ht⟩ := h.frame
  have hicache : t.icache = s.icache := by rw [ht]
  unfold State.start
  rw [h.cwd, hicache]

lemma nodes (h : Closed s t p fd) : t.nodes = s.nodes := by
  obtain ⟨files, procs, ht⟩ := h.frame
  rw [ht]
  rfl

/-- The path leads where it did. -/
lemma contains (h : Closed s t p fd) (hC : s.Contains p path C) : t.Contains p path C := by
  unfold State.Contains State.fileContent at hC ⊢
  rw [h.start, h.nodes]
  exact hC

/-- A path is as writable as before. -/
lemma unwritable (h : Closed s t p fd) : t.Unwritable p path ↔ s.Unwritable p path := by
  unfold State.Unwritable
  rw [h.start, h.nodes]

lemma creatable (h : Closed s t p fd) (hE : Creatable s p path D E) : Creatable t p path D E := by
  have hstart : t.start p path = s.start p path := h.start
  obtain ⟨files, procs, rfl⟩ := h.frame
  refine ⟨⟨hE.passable.allocated, hE.passable.closed, hE.passable.room⟩, ?_, ?_, ?_⟩
  · rw [hstart]
    exact hE.start
  · rw [hstart]
    exact hE.found
  · rw [hstart]
    intro d name hparent hfind
    have hobs := hE.obstacles d name hparent hfind
    exact ⟨hobs.inodes, hobs.cache, hobs.log, hobs.blocks, hobs.size⟩

end Closed

/-! ## What is written -/

/-- A file that is no directory may be written without a path leading elsewhere. -/
theorem Nodes.resolve_write {A : Nodes} {off : ℕ} {src : List UInt8} (htype : (A i).type ≠ T_DIR) :
    (A.write i off src).resolve j path = A.resolve j path := by
  have hlook : (A.write i off src).lookup = A.lookup := by
    funext k name
    unfold Nodes.lookup
    by_cases hk : k = i
    · rw [hk, Nodes.write_type.1, if_neg htype, if_neg htype]
    · rw [Nodes.write_of_ne hk]
  unfold Nodes.resolve Nodes.lookups
  rw [hlook]

end

end Kernel
end OhMyXv6
