import OhMyXv6.Kernel.Lookup
import OhMyXv6.Mkfs.Destination
import OhMyXv6.Mkfs.Image
import OhMyXv6.Mkfs.Writes

/-!
# What the kernel reads from the image

The kernel is started on the image that `mkfs` has written. Path lookup then goes through the tree that the
command line describes: `namei` of a path yields the node that the path leads to there, and nothing if it
leads nowhere. From this, `main_decodes_iff` says exactly when every file is found where it was to go, with
the bytes that were read from it.
-/

namespace OhMyXv6
namespace Mkfs

open Bytes

/-! ## Directories of the image -/

/-- The image of a tree, as the kernel takes it. -/
structure Seen (s : St) (t : Tree) : Prop where
  shows : Shows s t
  entries : t.EntriesOk
  super : Superblock.read (s.img.disk 1) = sb
  count : t.count < NINODES
  few : t.Few
  closed : t.Closed
  root : Live t.count ROOTINO

namespace Seen

variable {s : St} {t : Tree} {i j : ℕ} {es : List (Path × ℕ)} {c : Path}

/-- Every inode of the tree has its place in the inode blocks. -/
lemma lt (h : Seen s t) (hi : Live t.count i) : i < NINODES := Nat.lt_of_le_of_lt hi.2 h.count

/-- The kernel finds the inode that `mkfs` wrote. -/
lemma dinode_eq (h : Seen s t) (i : ℕ) :
    dinode (.read (s.img.disk 1)) s.img.disk i = inode s i := by
  rw [h.super]
  rfl

/-- The kernel reads the content that `mkfs` wrote. -/
lemma data_eq (h : Seen s t) (i : ℕ) : (Kernel.onDisk s.img.disk i).data = content s i := by
  unfold Kernel.onDisk
  rw [h.dinode_eq]
  rfl

/-- The type on disk is the node's. -/
lemma type_eq (h : Seen s t) (hi : Live t.count i) :
    (Kernel.onDisk s.img.disk i).type = (t.node i).type := by
  have htype := h.shows.type i hi (h.lt hi)
  unfold Kernel.onDisk
  rw [h.dinode_eq]
  exact htype

/-- A directory ends behind the block of its last entry. -/
lemma size_dir (h : Seen s t) (hi : Live t.count i) (hnode : t.node i = .dir es) :
    (Kernel.onDisk s.img.disk i).size = BSIZE * (DIRENTSIZE * es.length / BSIZE + 1) := by
  have hsize := h.shows.size i hi (h.lt hi)
  have hc : t.contents i = dirBytes es := by rw [Tree.contents, hnode]; rfl
  have htype : t.types i = T_DIR := by rw [Tree.types, hnode]; rfl
  rw [if_pos htype, hc, length_dirBytes, roundUp, Nat.mul_comm] at hsize
  unfold Kernel.onDisk
  rw [h.dinode_eq]
  exact hsize

/-- The blocks with a directory's entries are allocated. -/
lemma addr_dir (h : Seen s t) (hi : Live t.count i) (hnode : t.node i = .dir es) {m : ℕ}
    (hm : m < es.length) : dataAddr s.img.disk (dinode (.read (s.img.disk 1)) s.img.disk i)
      (DIRENTSIZE * m / BSIZE) ≠ 0 := by
  have hB : BSIZE = 512 := rfl
  have hS : DIRENTSIZE = 16 := rfl
  have hc : t.contents i = dirBytes es := by rw [Tree.contents, hnode]; rfl
  rw [h.dinode_eq, inode, h.shows.addr i hi (h.lt hi), hc, length_dirBytes]
  unfold blocks
  rw [hB, hS]
  omega

/-- Entry `k` of the directory has the name if that of the tree has it. -/
theorem matches_iff (h : Seen s t) (hi : Live t.count i) (hnode : t.node i = .dir es)
    (hc : c.length ≤ DIRSIZ) {k : ℕ} (hk : k < es.length) :
    (Kernel.onDisk s.img.disk i).Matches c k ↔ es[k].1 = c := by
  have hL : inodeLimit = 216 := rfl
  have hN : NINODES = 200 := rfl
  have hcount := h.count
  have hent := h.entries i hi es[k] (by rw [hnode]; exact List.getElem_mem hk)
  obtain ⟨hinum, hname⟩ := h.shows.dirent h.entries (by omega) hi (h.lt hi) hnode hk
  unfold Kernel.Node.Matches Kernel.Node.inum Kernel.Node.name Kernel.namecmp
  rw [h.data_eq, hinum, hname, List.take_of_length_le hc, List.take_of_length_le hent.1.1, beq_iff_eq]
  have hpos := hent.2.1
  constructor
  · exact fun hm => hm.2.symm
  · exact fun heq => ⟨by omega, heq.symm⟩

/-- What the tree has under a name, the kernel finds. -/
lemma finds (h : Seen s t) (hi : Live t.count i) (hc : c.length ≤ DIRSIZ)
    (hl : t.lookup i c = some j) : ∃ k, Kernel.Finds s.img.disk i c k ∧
      (Kernel.onDisk s.img.disk i).inum k = j := by
  have hB : BSIZE = 512 := rfl
  have hS : DIRENTSIZE = 16 := rfl
  have hL : inodeLimit = 216 := rfl
  have hN : NINODES = 200 := rfl
  have hcount := h.count
  obtain ⟨es, hnode⟩ : ∃ es, t.node i = .dir es := by
    rcases hnode : t.node i with es | data
    · exact ⟨es, rfl⟩
    · have hmem := Tree.mem_of_lookup hl
      rw [hnode] at hmem
      exact nomatch hmem
  have hlen : es.length ≤ 202 := by
    have hfew := h.few i hi
    rw [hnode] at hfew
    replace hfew : es.length ≤ t.count + 2 := hfew
    omega
  -- the first entry of the tree with the name
  obtain ⟨e, he, hj⟩ := Option.map_eq_some_iff.mp hl
  rw [hnode] at he
  replace he : es.find? (fun e => decide (e.1 = c)) = some e := he
  obtain ⟨hname, k, hk, hek, hfirst⟩ := List.find?_eq_some_iff_getElem.mp he
  rw [decide_eq_true_eq] at hname
  have hsize := h.size_dir hi hnode
  have hmatch : (Kernel.onDisk s.img.disk i).Matches c k := by
    rw [h.matches_iff hi hnode hc hk, hek, hname]
  have hfits : DIRENTSIZE * (k + 1) ≤ (Kernel.onDisk s.img.disk i).size := by
    rw [hsize, hB, hS]
    omega
  refine ⟨k, ⟨?_, ?_, ?_, ?_, hfits, ?_⟩, ?_⟩
  · rw [h.type_eq hi, hnode]
    rfl
  · have hnlink := h.shows.nlink i hi (h.lt hi)
    unfold Kernel.onDisk
    rw [h.dinode_eq]
    show (inode s i).nlink ≠ 0
    rw [inode, hnlink]
    decide
  · rw [hsize, hB, hS]
    omega
  · refine Kernel.Node.findFrom_first (Nat.zero_le _) ?_ hmatch ?_
    · have hhas : (Kernel.onDisk s.img.disk i).Has k := ⟨hfits, hmatch.1⟩
      have hlt := hhas.lt_nentries
      omega
    · intro m hm hmm
      have hm' := (h.matches_iff hi hnode hc (by omega)).mp hmm
      have hnot := hfirst m hm
      simp [hm'] at hnot
  · exact fun m hm => h.addr_dir hi hnode (by omega)
  · have hinum := (h.shows.dirent h.entries (by omega) hi (h.lt hi) hnode hk).1
    unfold Kernel.Node.inum
    rw [h.data_eq, hinum, hek, hj]

/-- What it does not have, the kernel does not find. -/
lemma misses (h : Seen s t) (hi : Live t.count i) (hnode : t.node i = .dir es)
    (hc : c.length ≤ DIRSIZ) (hl : t.lookup i c = none) :
    Kernel.Misses s.img.disk i c es.length (DIRENTSIZE * es.length / BSIZE) := by
  have hB : BSIZE = 512 := rfl
  have hS : DIRENTSIZE = 16 := rfl
  have hD : NDIRECT = 12 := rfl
  have hN : NINODES = 200 := rfl
  have hcount := h.count
  have hfew := h.few i hi
  rw [hnode] at hfew
  replace hfew : es.length ≤ t.count + 2 := hfew
  refine ⟨?_, h.size_dir hi hnode, ?_, ?_, ?_, fun m hm => h.addr_dir hi hnode hm, ?_, ?_⟩
  · rw [h.type_eq hi, hnode]
    rfl
  · rw [hB, hS, hD]
    omega
  · rw [hB, hS]
    omega
  · rw [hB, hS]
    omega
  · intro m hm hmatch
    have hname := (h.matches_iff hi hnode hc hm).mp hmatch
    have hnone := Option.map_eq_none_iff.mp hl
    rw [hnode] at hnone
    have hnot := List.find?_eq_none.mp hnone es[m] (List.getElem_mem hm)
    simp [hname] at hnot
  · intro off hoff
    rw [h.data_eq, h.shows.content_eq hi (h.lt hi) hnode]
    unfold ofList
    apply List.getD_eq_default
    rw [length_dirBytes]
    exact hoff

end Seen

/-! ## Cutting paths -/

/-- A name that `skipelem` can cut off. -/
def Cuttable (c : Path) : Prop := c ≠ [] ∧ slash ∉ c

section
variable {c : Path} {cs : List Path}

/-- No leading slash: no component is empty. -/
lemma head_joined (hc : ∀ c ∈ cs, Cuttable c) : (joined cs).head? ≠ some slash := by
  cases cs with
  | nil => exact nofun
  | cons c cs =>
    obtain ⟨hne, hslash⟩ := hc c List.mem_cons_self
    obtain ⟨b, c, rfl⟩ := List.exists_cons_of_ne_nil hne
    have hb : b ≠ slash := fun heq => hslash (heq ▸ List.mem_cons_self)
    by_cases hcs : cs = []
    · rw [hcs, joined_singleton]
      simpa using hb
    · rw [joined_cons _ hcs]
      simpa using hb

/-- `skipelem` skips nothing there. -/
lemma dropWhile_of_head {p : Path} (h : p.head? ≠ some slash) :
    p.dropWhile (· == Kernel.slash) = p := by
  cases p with
  | nil => rfl
  | cons b p =>
    have hb : (b == Kernel.slash) = false := by
      rw [beq_eq_false_iff_ne]
      exact fun heq => h (by rw [heq]; rfl)
    rw [List.dropWhile_cons_of_neg (by rw [hb]; exact Bool.false_ne_true)]

/-- The slash at the start of a path. -/
lemma dropWhile_slash_joined (hc : ∀ c ∈ cs, Cuttable c) :
    (slash :: joined cs).dropWhile (· == Kernel.slash) = joined cs := by
  rw [List.dropWhile_cons_of_pos (by rfl)]
  exact dropWhile_of_head (head_joined hc)

/-- One element of a path, with or without a slash in front. -/
lemma skipelem_joined {path : Path} (hc : ∀ b ∈ c :: cs, Cuttable b)
    (hpath : path.dropWhile (· == Kernel.slash) = joined (c :: cs)) :
    Kernel.skipelem path = some (c.take DIRSIZ, joined cs) := by
  obtain ⟨hne, hslash⟩ := hc c List.mem_cons_self
  have hrest : ∀ b ∈ cs, Cuttable b := fun b hb => hc b (List.mem_cons_of_mem _ hb)
  have hall : ∀ b ∈ c, (b != Kernel.slash) = true := by
    intro b hb
    rw [bne_iff_ne]
    intro heq
    have hb' : b = slash := heq
    exact hslash (hb' ▸ hb)
  have hcut : (joined (c :: cs)).takeWhile (· != Kernel.slash) = c ∧
      ((joined (c :: cs)).dropWhile (· != Kernel.slash)).dropWhile (· == Kernel.slash) = joined cs := by
    by_cases hcs : cs = []
    · rw [hcs, joined_singleton, List.takeWhile_eq_self_iff.mpr hall, List.dropWhile_eq_nil_iff.mpr hall]
      exact ⟨rfl, rfl⟩
    · rw [joined_cons _ hcs, List.takeWhile_append_of_pos hall, List.dropWhile_append_of_pos hall]
      have hstop : (slash :: joined cs).takeWhile (· != Kernel.slash) = [] ∧
          (slash :: joined cs).dropWhile (· != Kernel.slash) = slash :: joined cs := ⟨rfl, rfl⟩
      rw [hstop.1, hstop.2, List.append_nil]
      refine ⟨rfl, ?_⟩
      exact dropWhile_of_head (head_joined hrest)
  obtain ⟨b, rest, hcons⟩ := List.exists_cons_of_ne_nil
    (joined_ne_nil (fun b hb => (hc b hb).1) (List.cons_ne_nil c cs))
  unfold Kernel.skipelem
  rw [hpath, hcons]
  dsimp only
  rw [← hcons, hcut.1, hcut.2]

/-- Nothing but slashes is no element. -/
lemma skipelem_nil {path : Path} (hpath : path.dropWhile (· == Kernel.slash) = []) :
    Kernel.skipelem path = none := by
  unfold Kernel.skipelem
  rw [hpath]

/-- A path is at least as long as it has components. -/
lemma length_le_joined (hc : ∀ c ∈ cs, Cuttable c) : cs.length ≤ (joined cs).length := by
  induction cs with
  | nil => exact Nat.zero_le _
  | cons c cs ih =>
    have hpos := List.length_pos_iff.mpr (hc c List.mem_cons_self).1
    have hrec := ih fun b hb => hc b (List.mem_cons_of_mem _ hb)
    by_cases hcs : cs = []
    · rw [hcs, joined_singleton]
      exact hpos
    · rw [joined_cons _ hcs, List.length_append, List.length_cons, List.length_cons]
      omega

end

/-! ## Path lookup in the image -/

/-- The names as the kernel cuts them off. -/
def cut (cs : List Path) : List Path := cs.map fun c => c.take DIRSIZ

/-- The references when the kernel has started: the current directory of the first process. -/
def bootRefs : ℕ → ℕ := fun e => if e = 0 then 1 else 0

/-- One reference more leaves a cached inode unused. -/
lemma exists_unused (ip : ℕ) : ∃ e < NINODE, Kernel.plus bootRefs ip e = 0 := by
  by_cases hip : ip = 1
  · refine ⟨2, by decide, ?_⟩
    rw [Kernel.plus_of_ne (by omega)]
    rfl
  · refine ⟨1, by decide, ?_⟩
    rw [Kernel.plus_of_ne (by omega)]
    rfl

/-- The cache at boot and its references. -/
lemma tracks_boot (d : Disk) : Kernel.Tracks d (Kernel.boot d) bootRefs := by
  have hzero : ∀ e, 0 < bootRefs e → e = 0 := by
    intro e he
    unfold bootRefs at he
    split at he
    · assumption
    · omega
  refine ⟨rfl, rfl, fun e _ => rfl, ?_, fun e _ _ hvalid => nomatch hvalid⟩
  intro e _ c _ he hc _
  rw [hzero e he, hzero c hc]

namespace Seen

variable {s : St} {t : Tree} {i j p : ℕ} {cs : List Path}

/-- The loop of `namex` follows a path that the tree has. -/
lemma namexLoop_resolve (h : Seen s t) {k : Kernel.State} {ip fuel : ℕ} {path : Path}
    (hat : Kernel.At s.img.disk k bootRefs ip i) (hi : Live t.count i) (hc : ∀ c ∈ cs, Cuttable c)
    (hpath : path.dropWhile (· == Kernel.slash) = joined cs) (hfuel : cs.length < fuel)
    (hr : t.resolve i (cut cs) = some j) :
    ∃ ip' k', Kernel.At s.img.disk k' bootRefs ip' j ∧
      Prog.exec (Kernel.namexLoop p false fuel ip path) k = .done (some (ip', [])) k' := by
  induction cs generalizing k ip i fuel path with
  | nil =>
    obtain ⟨fuel, rfl⟩ : ∃ n, fuel = n + 1 := ⟨fuel - 1, by simp at hfuel; omega⟩
    obtain rfl := Option.some.inj hr
    refine ⟨ip, k, hat, ?_⟩
    rw [Kernel.namexLoop, skipelem_nil hpath]
    rfl
  | cons c cs ih =>
    rw [List.length_cons] at hfuel
    obtain ⟨fuel, rfl⟩ : ∃ n, fuel = n + 1 := ⟨fuel - 1, by omega⟩
    obtain ⟨m, hm, hr⟩ := Option.bind_eq_some_iff.mp hr
    have hlen : (c.take DIRSIZ).length ≤ DIRSIZ := List.length_take_le _ _
    obtain ⟨e, hfinds, hinum⟩ := h.finds hi hlen hm
    obtain ⟨next, k', hat', hexec⟩ := Kernel.exec_namexLoop_step hat (exists_unused ip) p fuel
      (skipelem_joined hc hpath) hfinds
    have hrest : ∀ b ∈ cs, Cuttable b := fun b hb => hc b (List.mem_cons_of_mem _ hb)
    rw [hinum] at hat'
    have hless : cs.length < fuel := by omega
    obtain ⟨ip', k'', hat'', hexec'⟩ := ih hat' (h.closed i hi _ (Tree.mem_of_lookup hm)) hrest
      (dropWhile_of_head (head_joined hrest)) hless hr
    exact ⟨ip', k'', hat'', hexec.trans hexec'⟩

/-- And no other. -/
lemma resolve_namexLoop (h : Seen s t) {k k' : Kernel.State} {ip fuel : ℕ} {path : Path}
    {r : ℕ × List UInt8} (hat : Kernel.At s.img.disk k bootRefs ip i) (hi : Live t.count i)
    (hc : ∀ c ∈ cs, Cuttable c) (hpath : path.dropWhile (· == Kernel.slash) = joined cs)
    (hexec : Prog.exec (Kernel.namexLoop p false fuel ip path) k = .done (some r) k') :
    ∃ j, t.resolve i (cut cs) = some j := by
  induction cs generalizing k ip i fuel path with
  | nil => exact ⟨i, rfl⟩
  | cons c cs ih =>
    cases fuel with
    | zero => exact nomatch hexec
    | succ fuel =>
      have hskip := skipelem_joined hc hpath
      have hlen : (c.take DIRSIZ).length ≤ DIRSIZ := List.length_take_le _ _
      rcases hl : t.lookup i (c.take DIRSIZ) with _ | m
      · -- the name is not there, or this is no directory
        rcases hnode : t.node i with es | data
        · have hnone := Prog.wp_done (Kernel.namexLoop_missing hat hskip
            (h.misses hi hnode hlen hl)) hexec
          exact nomatch hnone
        · have htype := h.type_eq hi
          rw [hnode] at htype
          replace htype : (Kernel.onDisk s.img.disk i).type = T_FILE := htype
          have hnone := Prog.wp_done (Kernel.namexLoop_notDir hat hskip
            (by rw [htype]; decide) (by rw [htype]; decide)) hexec
          exact nomatch hnone
      · obtain ⟨e, hfinds, hinum⟩ := h.finds hi hlen hl
        obtain ⟨next, k₁, hat₁, hstep⟩ := Kernel.exec_namexLoop_step hat (exists_unused ip) p fuel
          hskip hfinds
        have hrest : ∀ b ∈ cs, Cuttable b := fun b hb => hc b (List.mem_cons_of_mem _ hb)
        rw [hinum] at hat₁
        obtain ⟨j, hj⟩ := ih hat₁ (h.closed i hi _ (Tree.mem_of_lookup hl)) hrest
          (dropWhile_of_head (head_joined hrest)) (hstep.symm.trans hexec)
        refine ⟨j, ?_⟩
        show t.resolve i (c.take DIRSIZ :: cut cs) = some j
        rw [Tree.resolve, hl]
        exact hj

/-- `namei` starts at the root. -/
lemma exec_namei (s : St) (p : ℕ) (path : Path) :
    ∃ ip k, Kernel.At s.img.disk k bootRefs ip ROOTINO ∧
      Prog.exec (Kernel.namei p (slash :: path)) (Kernel.boot s.img.disk)
        = (Prog.exec (Kernel.namexLoop p false ((slash :: path).length + 1) ip (slash :: path)) k).andThen
          fun r k' => .done (r.map Prod.fst) k' := by
  obtain ⟨e, k, higet, htracks, hlt, hinum, hlocks, -⟩ :=
    (tracks_boot s.img.disk).iget ⟨1, by decide, rfl⟩ ROOTINO
  have hstart : Prog.exec (Kernel.namexStart p (slash :: path)) (Kernel.boot s.img.disk) = .done e k := by
    have hhead : (slash :: path).head? = some Kernel.slash := rfl
    unfold Kernel.namexStart
    rw [if_pos hhead, higet]
  refine ⟨e, k, ⟨htracks, hlt, hinum, fun c _ => hlocks c⟩, ?_⟩
  unfold Kernel.namei Kernel.namex
  rw [Prog.exec_bind, Kernel.exec_seq hstart]
  rfl

/-- What the tree resolves, `namei` finds. -/
lemma namei_resolve (h : Seen s t) (hc : ∀ c ∈ cs, Cuttable c)
    (hr : t.resolve ROOTINO (cut cs) = some j) (p : ℕ) :
    ∃ ip k, Prog.exec (Kernel.namei p (slash :: joined cs)) (Kernel.boot s.img.disk) = .done (some ip) k ∧
      Kernel.At s.img.disk k bootRefs ip j := by
  obtain ⟨ip, k, hat, hexec⟩ := exec_namei s p (joined cs)
  have hfuel : cs.length < (slash :: joined cs).length + 1 := by
    have hle := length_le_joined hc
    rw [List.length_cons]
    omega
  obtain ⟨ip', k', hat', hloop⟩ := h.namexLoop_resolve (p := p) hat h.root hc
    (dropWhile_slash_joined hc) hfuel hr
  refine ⟨ip', k', ?_, hat'⟩
  rw [hexec, hloop]
  rfl

/-- What `namei` finds, the tree resolves. -/
lemma resolve_namei (h : Seen s t) (hc : ∀ c ∈ cs, Cuttable c) {ip : ℕ} {k : Kernel.State}
    (hexec : Prog.exec (Kernel.namei p (slash :: joined cs)) (Kernel.boot s.img.disk) = .done (some ip) k) :
    ∃ j, t.resolve ROOTINO (cut cs) = some j := by
  obtain ⟨ip₀, k₀, hat, hstart⟩ := exec_namei s p (joined cs)
  rw [hstart] at hexec
  rcases hloop : Prog.exec (Kernel.namexLoop p false ((slash :: joined cs).length + 1) ip₀
      (slash :: joined cs)) k₀ with ⟨r, k'⟩ | _ | e
  · rw [hloop] at hexec
    replace hexec : Out.done (r.map Prod.fst) k' = Out.done (some ip) k := hexec
    cases r with
    | none => exact nomatch hexec
    | some r => exact h.resolve_namexLoop hat h.root hc (dropWhile_slash_joined hc) hloop
  · rw [hloop] at hexec
    exact nomatch hexec
  · rw [hloop] at hexec
    exact nomatch hexec

end Seen

/-! ## The files -/

/-- The kernel, started on the disk, finds a file with the given contents under a path. -/
def ReadsBack (d : Disk) (p : ℕ) (path : Path) (data : List UInt8) : Prop :=
  ∃ ip k k', Prog.exec (Kernel.namei p path) (Kernel.boot d) = .done (some ip) k ∧
    Prog.exec (Kernel.ilock p ip) k = .done () k' ∧
    (k'.icache ip).din.type = T_FILE ∧ (k'.icache ip).din.size = data.length ∧
    ∀ off n, off ≤ data.length → off + n < 2 ^ 32 →
      Prog.exec (Kernel.readi ip off n) k' = .done (some ((data.drop off).take n)) k'

/-- The kernel, started on the disk, comes to inode `i` along a path. -/
def Leads (d : Disk) (p : ℕ) (path : Path) (i : ℕ) : Prop :=
  ∃ ip k, Prog.exec (Kernel.namei p path) (Kernel.boot d) = .done (some ip) k ∧
    (k.icache ip).inum = i

/-- The bytes that `readi` collects are a part of the file. -/
lemma map_range_ofList (data : List UInt8) {off n : ℕ} (hoff : off ≤ data.length) :
    (List.range (Kernel.readiLen data.length off n)).map (fun j => ofList data (off + j))
      = (data.drop off).take n := by
  have hlen : Kernel.readiLen data.length off n = min n (data.length - off) := by
    unfold Kernel.readiLen
    split
    · omega
    · omega
  apply List.ext_getElem
  · rw [List.length_map, List.length_range, hlen, List.length_take, List.length_drop]
  · intro j hj _
    rw [List.length_map, List.length_range, hlen] at hj
    rw [List.getElem_map, List.getElem_range, List.getElem_take, List.getElem_drop]
    exact List.getD_eq_getElem _ _ (by omega)

namespace Seen

variable {s : St} {t : Tree} {i j p : ℕ} {cs : List Path} {data : List UInt8}

/-- A file of the tree is read back. -/
lemma readsBack (h : Seen s t) (hc : ∀ c ∈ cs, Cuttable c)
    (hr : t.resolve ROOTINO (cut cs) = some j) (hnode : t.node j = .file data) (p : ℕ) :
    ReadsBack s.img.disk p (slash :: joined cs) data := by
  have hB : BSIZE = 512 := rfl
  have hM : MAXFILE = 140 := rfl
  have hj := h.closed.live_resolve h.root hr
  have hcontents : t.contents j = data := by rw [Tree.contents, hnode]; rfl
  have hfile : t.types j = T_FILE := by rw [Tree.types, hnode]; rfl
  have htype := h.shows.type j hj (h.lt hj)
  rw [hfile] at htype
  have hsize := h.shows.size j hj (h.lt hj)
  rw [hfile, if_neg (by decide), hcontents] at hsize
  obtain ⟨ip, k, hnamei, hat⟩ := h.namei_resolve hc hr p
  have hdin := h.dinode_eq j
  obtain ⟨k', hilock, hlocked⟩ := hat.ilock p (by rw [hdin, inode, htype]; decide)
  have hlocked_din : (k'.icache ip).din = dinode sb s.img.disk j := by rw [hlocked.din, hdin, inode]
  refine ⟨ip, k, k', hnamei, hilock, by rw [hlocked_din, htype], by rw [hlocked_din, hsize], ?_⟩
  intro off n hoff hlt
  -- all blocks below the size are there
  have hall : ∀ bn, off / BSIZE ≤ bn →
      bn * BSIZE < off + Kernel.readiLen (k'.icache ip).din.size off n → k'.HasBlock ip bn := by
    intro bn _ hbn
    rw [hlocked_din, hsize] at hbn
    have hle := Kernel.readiLen_le (n := n) hoff
    unfold Kernel.State.HasBlock
    rw [hlocked_din, hlocked.tracks.disk, h.shows.addr j hj (h.lt hj), hcontents]
    unfold blocks
    rw [hB] at hbn ⊢
    omega
  have hread := Kernel.exec_readi (by rw [hlocked_din, htype]; decide)
    (by rw [hlocked_din, hsize]; exact hoff) hlt hall
  have hbytes := h.shows.byte j hj (h.lt hj)
  rw [hcontents] at hbytes
  have hcached : (k'.cached ip).data = ofList data := by
    show fileByte k'.disk (k'.icache ip).din = _
    rw [hlocked_din, hlocked.tracks.disk, hbytes]
  rw [hread, hlocked_din, hsize, hcached, map_range_ofList data hoff]

/-- The kernel comes to where the tree leads. -/
lemma leads_iff (h : Seen s t) (hc : ∀ c ∈ cs, Cuttable c) :
    Leads s.img.disk p (slash :: joined cs) j ↔ t.resolve ROOTINO (cut cs) = some j := by
  constructor
  · rintro ⟨ip, k, hexec, hinum⟩
    obtain ⟨j', hj'⟩ := h.resolve_namei hc hexec
    obtain ⟨ip', k', hexec', hat⟩ := h.namei_resolve hc hj' p
    rw [hexec] at hexec'
    obtain ⟨rfl, rfl⟩ : ip = ip' ∧ k = k' := by simpa using hexec'
    rw [hj', ← hinum, hat.inum]
  · intro hr
    obtain ⟨ip, k, hexec, hat⟩ := h.namei_resolve hc hr p
    exact ⟨ip, k, hexec, hat.inum⟩

/-- A file that is read back is one of the tree. -/
lemma resolve_readsBack (h : Seen s t) (hc : ∀ c ∈ cs, Cuttable c)
    (hback : ReadsBack s.img.disk p (slash :: joined cs) data) :
    ∃ j data', t.resolve ROOTINO (cut cs) = some j ∧ t.node j = .file data' := by
  obtain ⟨ip, k, k', hnamei, hilock, htype, -⟩ := hback
  obtain ⟨j, hr⟩ := h.resolve_namei hc hnamei
  have hj := h.closed.live_resolve h.root hr
  obtain ⟨ip', k₁, hnamei', hat⟩ := h.namei_resolve hc hr p
  rw [hnamei] at hnamei'
  obtain ⟨rfl, rfl⟩ : ip = ip' ∧ k = k₁ := by simpa using hnamei'
  have hshown := h.shows.type j hj (h.lt hj)
  have hdin := h.dinode_eq j
  rcases hnode : t.node j with es | data'
  · -- a directory has another type
    have hdir : t.types j = T_DIR := by rw [Tree.types, hnode]; rfl
    rw [hdir] at hshown
    obtain ⟨k₂, hilock', hlocked⟩ := hat.ilock p (by rw [hdin, inode, hshown]; decide)
    rw [hilock] at hilock'
    obtain rfl : k' = k₂ := by simpa using hilock'
    rw [hlocked.din, hdin, inode, hshown] at htype
    exact absurd htype (by decide)
  · exact ⟨j, data', hr, hnode⟩

end Seen

/-! ## The image of a command line -/

section
variable {files : List Arg} {s : St}

/-- The inodes are numbered in the order of the tree. -/
lemma main_freeinode (h : main files = .ok s) : s.freeinode = (Tree.ofFiles files).count + 1 := by
  obtain ⟨s1, s2, hsim, hround, rfl⟩ := main_eq_ok h
  exact (Kept.roundDirs hround).freeinode.trans hsim.next

/-- The image that `mkfs` leaves shows the tree of its arguments. -/
lemma main_seen (h : main files = .ok s) (hfit : s.freeinode ≤ NINODES) :
    Seen s (.ofFiles files) := by
  have hL : inodeLimit = 216 := rfl
  have hN : NINODES = 200 := rfl
  have hcount : (Tree.ofFiles files).count < NINODES := by
    rw [main_freeinode h] at hfit
    omega
  have hlim : (Tree.ofFiles files).count < inodeLimit := by omega
  exact ⟨main_shows h hlim, main_entriesOk h, main_superblock h hlim, hcount, Tree.Few.ofFiles files,
    fun i hi e he => (main_entriesOk h i hi e he).2, (Tree.wf_ofFiles files).root.1⟩

/-- `mkfs` has taken every file, and its name fits. -/
lemma addFiles_placed {s' : St} (h : files.foldlM addFile s = .ok s') {arg : Arg} (harg : arg ∈ files) :
    ∃ f, arg.placed = some f ∧ arg.data = some f.2.2 ∧ f.2.1.length ≤ DIRSIZ := by
  induction files generalizing s with
  | nil => exact nomatch harg
  | cons a files ih =>
    rw [List.foldlM_cons] at h
    obtain ⟨s1, hadd, h⟩ := bind_eq_ok.mp h
    rcases List.mem_cons.mp harg with rfl | harg
    · unfold addFile at hadd
      split at hadd
      · exact nomatch hadd
      next data hdata =>
      split at hadd
      · exact nomatch hadd
      obtain ⟨⟨dir, file⟩, hplace, hadd⟩ := bind_eq_ok.mp hadd
      dsimp only at hadd
      split at hadd
      · exact nomatch hadd
      next hlen =>
      refine ⟨(dir, file, data), ?_, hdata, Nat.le_of_not_lt hlen⟩
      unfold Arg.placed
      rw [hdata, hplace]
    · exact ih h harg

/-- Of a run with status 0 every argument has a place, a content and a name that fits. -/
lemma main_placed (h : main files = .ok s) {arg : Arg} (harg : arg ∈ files) :
    ∃ f, arg.placed = some f ∧ arg.data = some f.2.2 ∧ f.2.1.length ≤ DIRSIZ := by
  obtain ⟨s0, -, h⟩ := bind_eq_ok.mp h
  obtain ⟨s1, hfiles, -⟩ := bind_eq_ok.mp h
  exact addFiles_placed hfiles harg

end

/-- A proper component can be cut at 14 bytes. -/
lemma Proper.cuttable {c : Path} (h : Proper c) : Cuttable c := ⟨h.1, h.2.1⟩

/-- A proper component stays so when it is cut. -/
lemma Proper.take {c : Path} (h : Proper c) : Proper (c.take DIRSIZ) := by
  have hD : DIRSIZ = 14 := rfl
  have hpos := List.length_pos_iff.mpr h.1
  by_cases hlen : c.length ≤ DIRSIZ
  · rwa [List.take_of_length_le hlen]
  have hlong : (c.take DIRSIZ).length = DIRSIZ := by
    rw [List.length_take]
    omega
  refine ⟨?_, fun hmem => h.2.1 (List.mem_of_mem_take hmem), ?_, ?_⟩
  · intro heq
    rw [heq] at hlong
    exact absurd hlong (by decide)
  · intro heq
    rw [heq] at hlong
    exact absurd hlong (by decide)
  · intro heq
    rw [heq] at hlong
    exact absurd hlong (by decide)

/-- The names of entries are short enough not to be cut. -/
lemma cut_of_resolve {t : Tree} (hn : t.EntriesOk) {i j : ℕ} {cs : List Path} (hi : Live t.count i)
    (hr : t.resolve i cs = some j) : cut cs = cs := by
  induction cs generalizing i with
  | nil => rfl
  | cons c cs ih =>
    obtain ⟨m, hm, hr⟩ := Option.bind_eq_some_iff.mp hr
    obtain ⟨hname, hlive⟩ := hn i hi _ (Tree.mem_of_lookup hm)
    show c.take DIRSIZ :: cut cs = c :: cs
    rw [List.take_of_length_le hname.1, ih hlive hr]

/-- **Round trip.** What the kernel reads from the image: every file under the path it was to go to, with its
length and its bytes; and directories that all have a path, and whose `.` and `..` lead back to them and to
the directory above them. -/
structure Decodes (files : List Arg) (d : Disk) : Prop where
  files : ∀ p, ∀ a ∈ files, ∀ data, a.data = some data → ReadsBack d p (destination a.name) data
  named : ∀ p i, i < (Superblock.read (d 1)).ninodes → (Kernel.onDisk d i).type = T_DIR →
    ∃ ds, (∀ c ∈ ds, Proper c) ∧ Leads d p (slash :: joined ds) i
  dots : ∀ p ds i, (∀ c ∈ ds, Proper c) → Leads d p (slash :: joined ds) i →
    (Kernel.onDisk d i).type = T_DIR →
    Leads d p (slash :: joined (ds ++ [dotName])) i ∧ ∃ j, Leads d p (slash :: joined ds.dropLast) j ∧
      Leads d p (slash :: joined (ds ++ [dotdotName])) j

section
variable {files : List Arg} {s : St}

/-- The destination is the path of its components. -/
lemma destination_eq_joined {a : Arg} {f : Placed} (h : a.placed = some f) :
    destination a.name = slash :: joined (components a.name) := by
  unfold components
  rw [Arg.destination_placed h, List.tail_cons, joined_splitOn]

/-- A component is no longer than the path. -/
lemma length_le_of_mem_splitOn {p c : Path} (h : c ∈ p.splitOn slash) : c.length ≤ p.length := by
  induction p generalizing c with
  | nil =>
    rw [List.splitOn_nil, List.mem_singleton] at h
    rw [h]
  | cons b p ih =>
    rw [List.splitOn_cons_eq_if_modifyHead] at h
    rw [List.length_cons]
    split at h
    · rcases List.mem_cons.mp h with rfl | h
      · exact Nat.zero_le _
      · have hle := ih h
        omega
    · rcases hsplit : p.splitOn slash with _ | ⟨q, qs⟩
      · exact absurd hsplit (List.splitOn_ne_nil _ _)
      · rw [hsplit, List.modifyHead_cons] at h
        rw [hsplit] at ih
        rcases List.mem_cons.mp h with rfl | h
        · have hle := ih List.mem_cons_self
          rw [List.length_cons]
          omega
        · have hle := ih (List.mem_cons_of_mem _ h)
          omega

/-- A name with an underscore goes to `/bin` as it is. -/
lemma placed_underscore {a : Arg} {f : Placed} (h : a.placed = some f)
    (hhead : a.name.head? = some underscore) : f.1 = binName ∧ f.2.1 = a.name.tail := by
  unfold Arg.placed at h
  split at h
  · next data dir file hdata hplace =>
    cases h
    unfold place at hplace
    rw [if_pos hhead] at hplace
    cases hplace
    exact ⟨rfl, rfl⟩
  · exact nomatch h

/-- What is read back under the path of a file is a node of the tree. -/
theorem Decodes.resolve (h : main files = .ok s) (hfit : s.freeinode ≤ NINODES) (hnames : ProperNames files)
    (hd : Decodes files s.img.disk) {a : Arg} (ha : a ∈ files) :
    ∃ j data, (Tree.ofFiles files).resolve ROOTINO (cut (components a.name)) = some j ∧
      (Tree.ofFiles files).node j = .file data := by
  obtain ⟨f, hplaced, hdata, -⟩ := main_placed h ha
  have hback := hd.files 0 a ha _ hdata
  rw [destination_eq_joined hplaced] at hback
  have hcut : ∀ c ∈ components a.name, Cuttable c := fun c hc => (hnames a ha c hc).cuttable
  exact (main_seen h hfit).resolve_readsBack hcut hback

/-- A name with an underscore and a slash is not found. -/
lemma Decodes.no_slash (h : main files = .ok s) (hfit : s.freeinode ≤ NINODES)
    (hnodup : (files.map fun a => destination a.name).Nodup) (hnames : ProperNames files)
    (hd : Decodes files s.img.disk) {a : Arg} (ha : a ∈ files)
    (hhead : a.name.head? = some underscore) : slash ∉ a.name := by
  intro hslash
  obtain ⟨j, data, hr, hnode⟩ := hd.resolve h hfit hnames ha
  obtain ⟨f, hplaced, -, hlen⟩ := main_placed h ha
  obtain ⟨hdir, hfile⟩ := placed_underscore hplaced hhead
  have hcomp := Arg.components_placed hplaced
  have hbin : binName.splitOn slash = [binName] := by decide
  rw [hdir, hbin] at hcomp
  -- no component is cut
  have hcut : cut (components a.name) = components a.name := by
    unfold cut
    refine (List.map_congr_left ?_).trans (List.map_id _)
    intro c hc
    apply List.take_of_length_le
    rw [hcomp] at hc
    rcases List.mem_append.mp hc with hc | hc
    · rw [List.mem_singleton.mp hc]
      decide
    · exact Nat.le_trans (length_le_of_mem_splitOn hc) hlen
  rw [hcut] at hr
  rcases (sound_ofFiles hnames).resolve_cases (hnames a ha) hr with hrow | ⟨as, name, data', hsplit, hmem, -⟩
  · have hdirtype := ((Tree.wf_ofFiles files).isDir _ hrow).2
    rw [hnode] at hdirtype
    exact absurd hdirtype (show T_FILE ≠ T_DIR by decide)
  · -- the file that is found has the same path, so it is this one
    obtain ⟨b, hb, hplaced'⟩ := List.mem_filterMap.mp hmem
    have has : as ≠ [] := by
      rintro rfl
      have hone := congrArg List.length (hcomp.symm.trans hsplit)
      have hpos := List.length_pos_iff.mpr (List.splitOn_ne_nil slash f.2.1)
      simp at hone
    have hdest : destination b.name = destination a.name := by
      rw [Arg.destination_placed hplaced', destination_eq_joined hplaced, hsplit,
        joined_append has (by simp), joined_singleton]
      rfl
    obtain rfl := List.inj_on_of_nodup_map hnodup hb ha hdest
    rw [hplaced] at hplaced'
    have hname : f.2.1 = name := by rw [Option.some.inj hplaced']
    have hproper : Proper name := by
      apply hnames b ha
      rw [hsplit]
      simp
    apply hproper.2.1
    rw [← hname, hfile]
    rcases hcons : b.name with _ | ⟨c, rest⟩
    · rw [hcons] at hslash
      exact nomatch hslash
    · rw [hcons] at hslash hhead
      rcases List.mem_cons.mp hslash with rfl | hrest
      · exact absurd (Option.some.inj hhead) (by decide)
      · exact hrest

/-- Files in each other's way are not all read back. -/
lemma Decodes.noClash (h : main files = .ok s) (hfit : s.freeinode ≤ NINODES)
    (hnodup : (files.map fun a => destination a.name).Nodup) (hnames : ProperNames files)
    (hd : Decodes files s.img.disk) : NoClash files := by
  refine ⟨fun a ha hhead => hd.no_slash h hfit hnodup hnames ha hhead, ?_⟩
  intro a ha b hb hpre
  obtain ⟨j, data, hr, hnode⟩ := hd.resolve h hfit hnames ha
  obtain ⟨j', data', hr', -⟩ := hd.resolve h hfit hnames hb
  -- the path of `b` goes on behind that of `a`, which is a file
  obtain ⟨f, hplaced, -⟩ := main_placed h ha
  obtain ⟨g, hplaced', -⟩ := main_placed h hb
  obtain ⟨rest, hrest⟩ := hpre
  have hcomp : components b.name = components a.name ++ rest.splitOn slash := by
    have htail : (destination b.name).tail = (destination a.name).tail ++ slash :: rest := by
      rw [← hrest, Arg.destination_placed hplaced]
      simp
    unfold components
    rw [htail, splitOn_append_slash]
  rw [hcomp] at hr'
  unfold cut at hr hr'
  rw [List.map_append, Tree.resolve_append, hr] at hr'
  obtain ⟨c, cs, hcons⟩ := List.exists_cons_of_ne_nil (List.splitOn_ne_nil slash rest)
  rw [hcons, Option.bind_some, List.map_cons] at hr'
  obtain ⟨m, hm, -⟩ := Option.bind_eq_some_iff.mp hr'
  have hmem := Tree.mem_of_lookup hm
  rw [hnode] at hmem
  exact nomatch hmem

/-- The path of a directory has only proper names. -/
lemma proper_row (hnames : ProperNames files) {d : Path × ℕ} (hd : d ∈ (Tree.ofFiles files).dirs) :
    ∃ ds, d.1 = joined ds ∧ ∀ c ∈ ds, Proper c := by
  rcases (sound_ofFiles hnames).origin d hd with hnil | hbin | ⟨g, hg, horigin⟩
  · exact ⟨[], hnil, nofun⟩
  · refine ⟨[binName], by rw [hbin, joined_singleton], ?_⟩
    intro c hc
    rw [List.mem_singleton.mp hc]
    exact proper_binName
  · obtain ⟨f, hf, rfl⟩ := List.mem_map.mp hg
    obtain ⟨a, ha, hplaced⟩ := List.mem_filterMap.mp hf
    have hproper := Arg.placed_dir (hnames a ha) hplaced
    refine ⟨d.1.splitOn slash, (joined_splitOn _).symm, ?_⟩
    rcases horigin with heq | ⟨rest, hrest⟩
    · rw [heq]
      exact hproper
    · intro c hc
      apply hproper
      rw [← hrest, List.append_assoc]
      show c ∈ (d.1 ++ slash :: rest).splitOn slash
      rw [splitOn_append_slash]
      exact List.mem_append_left _ hc

/-- The two dots of a directory that a path leads to. -/
lemma resolve_dots (hnames : ProperNames files)
    (hfound : Found (.ofFiles files) (files.filterMap Arg.placed)) {ds : List Path} {i : ℕ}
    (hds : ∀ c ∈ ds, Proper c) (hr : (Tree.ofFiles files).resolve ROOTINO ds = some i)
    (hdir : ((Tree.ofFiles files).node i).type = T_DIR) :
    (Tree.ofFiles files).resolve ROOTINO (ds ++ [dotName]) = some i ∧
      ∃ j, (Tree.ofFiles files).resolve ROOTINO ds.dropLast = some j ∧
        (Tree.ofFiles files).resolve ROOTINO (ds ++ [dotdotName]) = some j := by
  have hsound := sound_ofFiles hnames
  rcases hsound.resolve_cases hds hr with hrow | ⟨-, -, data, -, -, hfile⟩
  · obtain ⟨hdot, par, hpar, hdotdot⟩ := hsound.dots hrow
    rw [Tree.resolve_append, Tree.resolve_append, hr]
    show Tree.resolve _ i [dotName] = _ ∧ ∃ j, _ ∧ Tree.resolve _ i [dotdotName] = _
    rw [Tree.resolve_singleton, Tree.resolve_singleton]
    refine ⟨hdot, par, ?_, hdotdot⟩
    rcases hpar with ⟨hroot, rfl⟩ | ⟨q, c, hc, hpath, hq⟩
    · -- the root is above itself
      have hnil : ds = [] := joined_inj hds nofun (congrArg Prod.fst hroot)
      rw [hnil]
      rfl
    · obtain ⟨qs, hqs, hproper⟩ := proper_row hnames hq
      dsimp only at hqs hpath
      rw [hqs, joinPath_joined fun b hb => (hproper b hb).1] at hpath
      have hsplit : ds = qs ++ [c] := by
        apply joined_inj hds _ hpath
        intro b hb
        rcases List.mem_append.mp hb with hb | hb
        · exact hproper b hb
        · rw [List.mem_singleton.mp hb]
          exact hc
      rw [hsplit, List.dropLast_concat]
      rw [hqs] at hq
      exact hfound.dirs qs hproper par hq
  · rw [hfile] at hdir
    exact absurd hdir (show T_FILE ≠ T_DIR by decide)

/-- Without clashes, everything is read back. -/
lemma NoClash.decodes (hno : NoClash files) (h : main files = .ok s) (hfit : s.freeinode ≤ NINODES)
    (hnodup : (files.map fun a => destination a.name).Nodup) (hnames : ProperNames files) :
    Decodes files s.img.disk := by
  have hseen := main_seen h hfit
  have hclear := hno.clear hnames hnodup
  have hfound := found_ofFiles hno hnames hnodup
  have hproper_cut : ∀ ds : List Path, (∀ c ∈ ds, Proper c) → ∀ c ∈ cut ds, Proper c := by
    intro ds hds c hc
    obtain ⟨b, hb, rfl⟩ := List.mem_map.mp hc
    exact (hds b hb).take
  refine ⟨?_, ?_, ?_⟩
  -- every file is read back
  · intro p a ha data hdata
    obtain ⟨f, hplaced, hdata', -⟩ := main_placed h ha
    obtain rfl : data = f.2.2 := Option.some.inj (hdata.symm.trans hdata')
    have hmem : f ∈ files.filterMap Arg.placed := List.mem_filterMap.mpr ⟨a, ha, hplaced⟩
    obtain ⟨ds, hne, hdir, hds, hname⟩ := hclear.fine f hmem
    have hcut : ∀ c ∈ ds ++ [f.2.1], Cuttable c := by
      intro c hc
      rcases List.mem_append.mp hc with hc | hc
      · exact (hds c hc).cuttable
      · rw [List.mem_singleton.mp hc]
        exact hname.cuttable
    obtain ⟨j, hr, hnode⟩ := hfound.files ds hds f.2.1 f.2.2 (by rw [← hdir]; exact hmem)
    have hpath : destination a.name = slash :: joined (ds ++ [f.2.1]) := by
      rw [Arg.destination_placed hplaced, joined_append hne (by simp), joined_singleton, ← hdir]
      rfl
    rw [hpath]
    apply hseen.readsBack hcut _ hnode
    rw [cut_of_resolve hseen.entries hseen.root hr]
    exact hr
  -- every directory of the image comes from an argument
  · intro p i hi htype
    rw [hseen.super] at hi
    have hlive : Live (Tree.ofFiles files).count i := by
      by_contra hnot
      have hfree := hseen.shows.free i hnot hi
      have heq : (Kernel.onDisk s.img.disk i).type = 0 := by
        unfold Kernel.onDisk
        rw [hseen.dinode_eq]
        exact hfree
      rw [heq] at htype
      exact absurd htype (by decide)
    rw [hseen.type_eq hlive] at htype
    obtain ⟨d, hd, rfl⟩ := List.mem_map.mp ((Tree.wf_ofFiles files).all i ⟨hlive, htype⟩)
    obtain ⟨ds, hpath, hds⟩ := proper_row hnames hd
    have hr := hfound.dirs ds hds d.2 (by rw [← hpath]; exact hd)
    refine ⟨ds, hds, (hseen.leads_iff fun c hc => (hds c hc).cuttable).mpr ?_⟩
    rw [cut_of_resolve hseen.entries hseen.root hr]
    exact hr
  -- and has its two entries
  · intro p ds i hds hleads htype
    have hcut : ∀ c ∈ ds, Cuttable c := fun c hc => (hds c hc).cuttable
    have hmore : ∀ name : Path, Cuttable name → ∀ c ∈ ds ++ [name], Cuttable c := by
      intro name hname c hc
      rcases List.mem_append.mp hc with hc | hc
      · exact hcut c hc
      · rw [List.mem_singleton.mp hc]
        exact hname
    have hr := (hseen.leads_iff hcut).mp hleads
    have hlive := hseen.closed.live_resolve hseen.root hr
    rw [hseen.type_eq hlive] at htype
    obtain ⟨hdot, j, hparent, hdotdot⟩ := resolve_dots hnames hfound (hproper_cut ds hds) hr htype
    have happend : ∀ name : Path, name.length ≤ DIRSIZ → cut (ds ++ [name]) = cut ds ++ [name] := by
      intro name hname
      unfold cut
      rw [List.map_append, List.map_singleton, List.take_of_length_le hname]
    refine ⟨?_, j, ?_, ?_⟩
    · rw [hseen.leads_iff (hmore dotName ⟨by decide, by decide⟩), happend _ (by decide)]
      exact hdot
    · rw [hseen.leads_iff fun c hc => hcut c (List.mem_of_mem_dropLast hc)]
      unfold cut at hparent ⊢
      rw [List.map_dropLast]
      exact hparent
    · rw [hseen.leads_iff (hmore dotdotName ⟨by decide, by decide⟩), happend _ (by decide)]
      exact hdotdot

/-- **Round trip.** For files whose paths are different, have only proper names and fit the inodes, the
kernel reads back what `mkfs` was given exactly when no name with an underscore has a slash and no file
has the path of a directory on the way to another. -/
theorem main_decodes_iff (h : main files = .ok s)
    (hnodup : (files.map fun a => destination a.name).Nodup)
    (hnames : ∀ a ∈ files, ∀ c ∈ components a.name, c ≠ [] ∧ c ≠ dotName ∧ c ≠ dotdotName)
    (hfit : s.freeinode ≤ NINODES) : Decodes files s.img.disk ↔ NoClash files := by
  have hproper : ProperNames files := by
    intro a ha c hc
    obtain ⟨hne, hdot, hdotdot⟩ := hnames a ha c hc
    exact ⟨hne, not_mem_of_mem_splitOn hc, hdot, hdotdot⟩
  constructor
  · exact fun hd => hd.noClash h hfit hnodup hproper
  · exact fun hno => hno.decodes h hfit hnodup hproper

end

/-- Two files in two directories are found again. -/
theorem main_decodes_twoDirs :
    ∃ s, main [binFile, libFile] = .ok s ∧ Decodes [binFile, libFile] s.img.disk := by
  obtain ⟨s, hs⟩ := main_twoDirs
  have hfit : s.freeinode ≤ NINODES := by
    rw [main_freeinode hs, ofFiles_twoDirs]
    decide
  refine ⟨s, hs, (main_decodes_iff hs (by decide) (by decide) hfit).mpr ?_⟩
  unfold NoClash
  decide

/-- A file `_a/b`, whose path is `/bin/a/b`. -/
def slashFile : Arg where
  name := [95, 97, 47, 98]
  noNul := by decide
  data := some [104, 105]

/-- It becomes an entry `a/b` of `/bin`, which no path leads to. -/
theorem main_slashFile_lost :
    ∃ s, main [slashFile] = .ok s ∧ ([slashFile].map fun a => destination a.name).Nodup ∧
      (∀ a ∈ [slashFile], ∀ c ∈ components a.name, c ≠ [] ∧ c ≠ dotName ∧ c ≠ dotdotName) ∧
      s.freeinode ≤ NINODES ∧ ¬ Decodes [slashFile] s.img.disk := by
  obtain ⟨⟨s, hs⟩, hcount⟩ := main_bin (show slashFile.data = some [104, 105] from rfl)
    (by decide) rfl ⟨by decide, by decide⟩ (by decide)
  have hfit : s.freeinode ≤ NINODES := by
    rw [main_freeinode hs, hcount]
    decide
  have hnodup : ([slashFile].map fun a => destination a.name).Nodup := by decide
  have hproper : ProperNames [slashFile] := by
    unfold ProperNames Proper
    decide
  refine ⟨s, hs, hnodup, by decide, hfit, ?_⟩
  intro hd
  have hno := hd.no_slash hs hfit hnodup hproper List.mem_cons_self rfl
  exact absurd hno (by decide)

end Mkfs
end OhMyXv6
