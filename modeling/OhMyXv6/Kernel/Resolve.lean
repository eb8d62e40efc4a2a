import Mathlib.Tactic.IntervalCases
import OhMyXv6.Kernel.Readback
import OhMyXv6.Kernel.Walk
import OhMyXv6.Lib.Words

/-!
# Path resolution

A path is a list of names: its words between slashes, each cut off after `DIRSIZ` bytes. `resolve` looks
these up one after the other, and `resolveParent` all but the last. `namex` finds the same inodes.
-/

namespace OhMyXv6
namespace Kernel

open Words

/-- The names in a path. -/
def components (path : List UInt8) : List (List UInt8) := (words slash path).map (·.take DIRSIZ)

namespace Nodes

/-- One name looked up in inode `i`. -/
def lookup (A : Nodes) (i : ℕ) (name : List UInt8) : Option ℕ :=
  if (A i).type = T_DIR then ((A i).find name).map (A i).inum else none

/-- Names looked up one after the other, from inode `i` on. -/
def lookups (A : Nodes) (i : ℕ) (names : List (List UInt8)) : Option ℕ := names.foldlM A.lookup i

/-- The inode that a path leads to from inode `i`. -/
def resolve (A : Nodes) (i : ℕ) (path : List UInt8) : Option ℕ := A.lookups i (components path)

/-- The directory that all names but the last lead to, and the last one. -/
def resolveParent (A : Nodes) (i : ℕ) (path : List UInt8) : Option (ℕ × List UInt8) := do
  let name ← (components path).getLast?
  let d ← A.lookups i (components path).dropLast
  if (A d).type = T_DIR then some (d, name) else none

end Nodes

/-- A path leads nowhere: one of its names is missing or looked up in a file that is no directory. -/
def LeadsNowhere (A : Nodes) (i : ℕ) (path : List UInt8) : Prop :=
  ∃ names name rest d, components path = names ++ name :: rest ∧ A.lookups i names = some d ∧
    ((A d).type ≠ T_DIR ∨ (A d).find name = none)

/-! ## The names in a path -/

section
variable {path rest name : List UInt8} {A : Nodes} {i j fuel : ℕ} {names : List (List UInt8)}

/-- A path without components is all slashes. -/
lemma components_eq_nil : components path = [] ↔ path.dropWhile (· == slash) = [] := by
  unfold components
  rw [List.map_eq_nil_iff, words_eq_nil_iff]

lemma skipelem_none (h : skipelem path = none) : components path = [] := by
  rw [components_eq_nil]
  unfold skipelem at h
  split at h
  · next hnil => exact hnil
  · cases h

/-- `skipelem` cuts off the first name. What is left begins with the next one, if there is one. -/
theorem skipelem_some (h : skipelem path = some (name, rest)) :
    components path = name :: components rest ∧ (rest = [] ↔ components rest = []) := by
  unfold skipelem at h
  split at h
  · cases h
  next c cs hpath =>
    obtain ⟨rfl, rfl⟩ := Prod.mk.inj (Option.some.inj h)
    have hc : c ≠ slash := by
      have hhead := List.head_dropWhile_not (fun b : UInt8 => b == slash) (l := path) (by
        rw [hpath]
        exact List.cons_ne_nil c cs)
      simp only [hpath, List.head_cons] at hhead
      simpa using hhead
    constructor
    · unfold components
      rw [← words_dropWhile path, hpath, words_cons hc, List.map_cons, words_dropWhile]
    · unfold components
      rw [words_dropWhile, List.map_eq_nil_iff, words_eq_nil_iff]

/-- The names are short, and there is no byte in them that is not in the path. -/
theorem of_mem_components (h : name ∈ components path) :
    name.length ≤ DIRSIZ ∧ ∀ c ∈ name, c ∈ path := by
  obtain ⟨w, hw, rfl⟩ := List.mem_map.mp h
  refine ⟨?_, fun c hc => mem_of_mem_words _ (Nat.le_refl _) hw (List.take_subset _ _ hc)⟩
  rw [List.length_take]
  exact Nat.min_le_left _ _

/-! ## The walk -/

/-- A name is looked up in a directory. -/
lemma Nodes.lookup_eq (hdir : (A i).type = T_DIR) :
    A.lookup i name = ((A i).find name).map (A i).inum := if_pos hdir

lemma Nodes.lookups_cons : A.lookups i (name :: names) =
    (A.lookup i name).bind fun j => A.lookups j names := rfl

/-- The walk along a path is the resolution of its names. -/
lemma Nodes.walk_false (hfuel : path.length < fuel) :
    A.walk false fuel i path = (A.resolve i path).map fun j => (j, []) := by
  induction fuel generalizing i path with
  | zero => omega
  | succ fuel ih =>
    unfold walk resolve
    cases hskip : skipelem path with
    | none =>
      rw [skipelem_none hskip]
      rfl
    | some pair =>
      obtain ⟨name, rest⟩ := pair
      have hlen := length_of_skipelem hskip
      rw [(skipelem_some hskip).1, lookups_cons]
      dsimp only
      by_cases hdir : (A i).type = T_DIR
      · rw [if_neg (not_not.mpr hdir), if_neg (fun h => Bool.noConfusion h.1), lookup_eq hdir]
        cases (A i).find name with
        | none => rfl
        | some m => exact ih (by omega)
      · rw [if_pos hdir]
        unfold lookup
        rw [if_neg hdir]
        rfl

/-- With enough fuel the walk finds the parent. -/
lemma Nodes.walk_true (hfuel : path.length < fuel) :
    A.walk true fuel i path = A.resolveParent i path := by
  induction fuel generalizing i path with
  | zero => omega
  | succ fuel ih =>
    unfold walk
    cases hskip : skipelem path with
    | none =>
      unfold resolveParent
      rw [skipelem_none hskip]
      rfl
    | some pair =>
      obtain ⟨name, rest⟩ := pair
      have hlen := length_of_skipelem hskip
      obtain ⟨hcomp, hnil⟩ := skipelem_some hskip
      dsimp only
      by_cases hrest : rest = []
      · -- the last name
        unfold resolveParent
        rw [hcomp, hnil.mp hrest]
        by_cases hdir : (A i).type = T_DIR
        · rw [if_neg (not_not.mpr hdir), if_pos ⟨rfl, hrest⟩]
          exact (if_pos hdir).symm
        · rw [if_pos hdir]
          exact (if_neg hdir).symm
      · have hne : components rest ≠ [] := fun h0 => hrest (hnil.mpr h0)
        have hparent : A.resolveParent i path =
            (A.lookup i name).bind fun j => A.resolveParent j rest := by
          unfold resolveParent
          rw [hcomp, List.getLast?_cons_of_ne_nil hne, List.dropLast_cons_of_ne_nil hne, lookups_cons]
          cases hlast : (components rest).getLast? with
          | none => exact absurd (List.getLast?_eq_none_iff.mp hlast) hne
          | some last =>
            cases A.lookup i name with
            | none => rfl
            | some j => rfl
        rw [hparent]
        by_cases hdir : (A i).type = T_DIR
        · rw [if_neg (not_not.mpr hdir), if_neg (fun h => hrest h.2), lookup_eq hdir]
          cases (A i).find name with
          | none => rfl
          | some m => exact ih (by omega)
        · rw [if_pos hdir]
          unfold lookup
          rw [if_neg hdir]
          rfl

/-- A path is looked up in two parts. -/
lemma Nodes.lookups_append {more : List (List UInt8)} : A.lookups i (names ++ more) =
    (A.lookups i names).bind fun j => A.lookups j more := List.foldlM_append

/-- The last name is looked up in the parent. -/
lemma Nodes.of_resolveParent {d : ℕ} (h : A.resolveParent i path = some (d, name)) :
    A.lookups i (components path).dropLast = some d ∧ (A d).type = T_DIR ∧
      components path = (components path).dropLast ++ [name] := by
  unfold resolveParent at h
  simp only [Option.bind_eq_bind, Option.bind_eq_some_iff] at h
  obtain ⟨last, hlast, d', hd', hd⟩ := h
  split at hd
  · next htype =>
    obtain ⟨rfl, rfl⟩ := Prod.mk.inj (Option.some.inj hd)
    exact ⟨hd', htype, (List.dropLast_append_getLast? _ hlast).symm⟩
  · exact nomatch hd

/-- A path leads where its last name leads from the parent. -/
lemma Nodes.resolve_of_parent {d : ℕ} (h : A.resolveParent i path = some (d, name)) :
    A.resolve i path = ((A d).find name).map (A d).inum := by
  obtain ⟨hd, htype, hcomp⟩ := of_resolveParent h
  unfold resolve
  rw [hcomp, lookups_append, hd, Option.bind_some, lookups_cons, lookup_eq htype]
  cases ((A d).find name).map (A d).inum with
  | none => rfl
  | some j => rfl

/-- A lookup fails at the first name that is not there. -/
lemma lookups_eq_none : A.lookups i names = none ↔ ∃ before name after d,
    names = before ++ name :: after ∧ A.lookups i before = some d ∧
      ((A d).type ≠ T_DIR ∨ (A d).find name = none) := by
  induction names generalizing i with
  | nil => simp [Nodes.lookups]
  | cons name names ih =>
    rw [Nodes.lookups_cons]
    cases hlook : A.lookup i name with
    | none =>
      rw [Option.bind_none]
      refine iff_of_true rfl ⟨[], name, names, i, rfl, rfl, ?_⟩
      by_cases hdir : (A i).type = T_DIR
      · rw [Nodes.lookup_eq hdir, Option.map_eq_none_iff] at hlook
        exact .inr hlook
      · exact .inl hdir
    | some j =>
      rw [Option.bind_some, ih]
      constructor
      · rintro ⟨before, last, after, d, rfl, hd, hmiss⟩
        refine ⟨name :: before, last, after, d, rfl, ?_, hmiss⟩
        rw [Nodes.lookups_cons, hlook]
        exact hd
      · rintro ⟨before, last, after, d, heq, hd, hmiss⟩
        cases before with
        | nil =>
          -- the first name is not the missing one
          obtain ⟨rfl, -⟩ := List.cons.inj heq
          obtain rfl := Option.some.inj hd
          unfold Nodes.lookup at hlook
          split at hlook
          · next hdir =>
            rcases hmiss with hno | hno
            · exact absurd hdir hno
            · rw [hno] at hlook
              exact nomatch hlook
          · exact nomatch hlook
        | cons first before =>
          obtain ⟨rfl, rfl⟩ := List.cons.inj heq
          rw [Nodes.lookups_cons, hlook] at hd
          exact ⟨before, last, after, d, rfl, hd, hmiss⟩

/-- A path leads nowhere exactly if one of its names is not there. -/
lemma resolve_eq_none : A.resolve i path = none ↔ LeadsNowhere A i path := lookups_eq_none

/-! ## `namex` -/

/-- Inodes that path lookup does not leave: all are allocated, and the directories among them name none
but these. -/
structure Tree (A : Nodes) (D : ℕ → Prop) : Prop where
  allocated : ∀ i, D i → (A i).type ≠ 0
  closed : ∀ i, D i → (A i).type = T_DIR → ∀ m, (A i).Has m → D ((A i).inum m)

/-- The inode cache has no two entries left. -/
def Crowded (T : State) (e : Panic) : Prop := e = .igetNoInodes ∧ T.freeEntries.card ≤ 1

/-- In state `s`, `namex` finds what the names in the path lead to. -/
structure Resolves (s : State) (p : ℕ) (path : List UInt8) : Prop where
  inode : Prog.Ends (Crowded s) (namex p path false)
    (Reaches s [] ((s.nodes.resolve (s.start p path) path).map fun i => (i, []))) s
  nowhere : s.nodes.resolve (s.start p path) path = none ↔
    LeadsNowhere s.nodes (s.start p path) path
  parent : Prog.Ends (Crowded s) (namex p path true)
    (Reaches s [] (s.nodes.resolveParent (s.start p path) path)) s

variable {s : State} {D : ℕ → Prop} {p : ℕ}

/-- A tree of directories can be walked through. -/
lemma Tree.passable (h : Tree s.nodes D) : Passable s [] D (Crowded s) :=
  ⟨fun i hD h0 => absurd h0 (h.allocated i hD), h.closed, fun hroom => ⟨rfl, hroom⟩⟩

theorem namex_resolves (h : Settled s) (hs : Sound s) (ht : Tree s.nodes D) (hcwd : HasCwd s p)
    (hstart : D (s.start p path)) : Resolves s p path := by
  have hends : ∀ parent, Prog.Ends (Crowded s) (namex p path parent) _ s := fun parent =>
    namex_ends hs hcwd (h.anchored []) ht.passable hstart h
  constructor
  · rw [← Nodes.walk_false (Nat.lt_succ_self _)]
    exact hends false
  · exact resolve_eq_none
  · rw [← Nodes.walk_true (Nat.lt_succ_self _)]
    exact hends true

/-! ### Disks with one file in the root directory -/

/-- The entries of the root directory. -/
def rootEntries : List (List UInt8 × ℕ) := [(dot, 1), (dotdot, 1), ([102], 2)]

/-- The file `f` is `y`, and there are no others. -/
structure Rooted (base : Disk) (y : Dinode) (b : ℕ) : Prop where
  two : TwoFiles oneFileSb base rootInode y b
  root : base 59 = rootBlock
  regular : y.type = T_FILE

namespace Rooted

variable {base : Disk} {y : Dinode} {b : ℕ}

/-- The root directory of the disk. -/
lemma node_root (h : Rooted base y b) : twoNodes oneFileSb base rootInode y 1 =
    ⟨T_DIR, 0, 0, 1, BSIZE, Bytes.ofList (dirBytes rootEntries)⟩ := by
  have hdata : fileByte (twoDisk oneFileSb base rootInode y) rootInode =
      Bytes.ofList (dirBytes rootEntries) := by
    apply fileByte_dirBytes h.two.addrs.1 (by decide)
    · exact (h.two.disk_of_ne (.inr (by decide))).trans h.root
    · decide
  rw [← hdata]
  rfl

/-- The root directory names itself and the file. -/
lemma inum_root (h : Rooted base y b) (m : ℕ) : (twoNodes oneFileSb base rootInode y 1).inum m =
    if m < 2 then 1 else if m = 2 then 2 else 0 := by
  rw [h.node_root]
  show direntInum (Bytes.ofList (dirBytes rootEntries)) m = _
  by_cases hm : m < 3
  · interval_cases m <;> decide
  · rw [if_neg (by omega), if_neg (by omega)]
    exact direntInum_dirBytes_of_le (by
      show 3 ≤ m
      omega)

lemma type_file (h : Rooted base y b) : (twoNodes oneFileSb base rootInode y 2).type = T_FILE := by
  unfold twoNodes
  rw [if_pos (by decide), nodeOf_type]
  exact h.regular

/-- The root is the only directory. -/
lemma eq_of_dir (h : Rooted base y b) {i : ℕ}
    (htype : (twoNodes oneFileSb base rootInode y i).type = T_DIR) : i = 1 := by
  have hlive := h.two.image.live_iff.mpr (show (twoNodes oneFileSb base rootInode y i).type ≠ 0 by
    rw [htype]
    decide)
  rcases TwoFiles.eq_of_live hlive.2 with h1 | rfl
  · exact h1
  · exact absurd (h.type_file.symm.trans htype) (by decide)

lemma sound (h : Rooted base y b) {s : State} (hsb : s.sb = oneFileSb)
    (hdisk : s.disk = twoDisk oneFileSb base rootInode y) : Sound s := by
  have hnodes : s.nodes = twoNodes oneFileSb base rootInode y := h.two.nodes hsb hdisk
  constructor
  · rw [hnodes, hsb, hdisk]
    refine h.two.image.congr fun i hi => ?_
    unfold State.inodes
    rw [hsb, hdisk]
    exact h.two.dinode hi
  · rw [hnodes]
    intro i htype
    rw [h.eq_of_dir htype, h.node_root]
    decide
  · rw [hnodes, hsb]
    intro i htype m _
    rw [h.eq_of_dir htype, h.inum_root]
    show _ < 200
    split
    · decide
    · split
      · decide
      · decide

lemma tree (h : Rooted base y b) : Tree (twoNodes oneFileSb base rootInode y) fun i => i = 1 ∨ i = 2 := by
  constructor
  · rintro i (rfl | rfl)
    · rw [h.node_root]
      decide
    · rw [h.type_file]
      decide
  · intro i _ htype m hm
    have hne := hm.2
    rw [h.eq_of_dir htype, h.inum_root] at hne ⊢
    by_cases h2 : m < 2
    · rw [if_pos h2]
      exact .inl rfl
    · rw [if_neg h2] at hne ⊢
      by_cases hm2 : m = 2
      · rw [if_pos hm2]
        exact .inr rfl
      · rw [if_neg hm2] at hne
        exact absurd rfl hne

/-- The entry `m` of the root directory is the first with its name. -/
theorem find_root (h : Rooted base y b) {name : List UInt8} {m : ℕ} (hm : m < 3)
    (hmatch : (twoNodes oneFileSb base rootInode y 1).Matches name m)
    (hbefore : ∀ e < m, ¬ (twoNodes oneFileSb base rootInode y 1).Matches name e) :
    (twoNodes oneFileSb base rootInode y 1).find name = some m := by
  refine Node.findFrom_first (Nat.zero_le m) ?_ hmatch hbefore
  have hentries : nentries (twoNodes oneFileSb base rootInode y 1).size = 32 := by
    rw [h.node_root]
    rfl
  omega

/-- The third entry of the root directory is the file. -/
lemma find_file (h : Rooted base y b) : (twoNodes oneFileSb base rootInode y 1).find [102] = some 2 := by
  refine h.find_root (by decide) ?_ ?_
  · rw [h.node_root]
    decide
  · rw [h.node_root]
    decide

lemma resolve_file (h : Rooted base y b) :
    (twoNodes oneFileSb base rootInode y).resolve 1 [102] = some 2 := by
  have hparent : (twoNodes oneFileSb base rootInode y).resolveParent 1 [102] = some (1, [102]) := rfl
  have hresolve := Nodes.resolve_of_parent hparent
  rwa [h.find_file, Option.map_some, h.inum_root] at hresolve

end Rooted

/-! ### The disk with a file of one block -/

/-- The file `f`, with `n` bytes. -/
def blockInode (n : ℕ) : Dinode :=
  { Dinode.zero with type := T_FILE, nlink := 1, size := n, addrs := fun k => if k = 0 then 60 else 0 }

/-- The blocks of the example, but for the inodes. -/
def blockBase (bytes : List UInt8) : Disk := fun b =>
  if b = 1 then oneFileSb.byte
  else if b = 58 then (List.range 61).foldl setBit zeroBlock
  else if b = 59 then rootBlock
  else if b = 60 then Bytes.ofList bytes
  else zeroBlock

/-- A disk with a file of one block. -/
lemma rooted_blockFile {bytes : List UInt8} (h : bytes.length ≤ BSIZE) :
    Rooted (blockBase bytes) (blockInode bytes.length) 60 := by
  have hB : BSIZE = 512 := rfl
  have hsuper : Superblock.read (blockBase bytes 1) = oneFileSb := by
    show Superblock.read oneFileSb.byte = oneFileSb
    decide +kernel
  refine ⟨⟨geometry_oneFile, by decide, hsuper, fun i hi => ?_, fun c hc => ?_, by decide,
    .inr ⟨by decide, by decide⟩, ⟨rfl, rfl⟩, ⟨by decide, nofun⟩, ⟨by decide, nofun⟩,
    ⟨by decide, h, nofun⟩, fits_rootInode, ?_⟩, rfl, rfl⟩
  · have hblock : IBLOCK oneFileSb i = i / 8 + 32 := rfl
    have hlt : i < 200 := hi
    unfold blockBase
    rw [hblock, if_neg (by omega), if_neg (by omega), if_neg (by omega), if_neg (by omega)]
  · have hlt : c < 2000 := hc
    have hblock : BBLOCK oneFileSb c = 58 := by
      show c / 4096 + 58 = 58
      omega
    unfold bit
    rw [hblock]
    show testBit ((List.range 61).foldl setBit zeroBlock) (c % 4096) = _
    rw [testBit_foldl_setBit, Nat.mod_eq_of_lt (by omega), decide_eq_decide]
    show c < 61 ↔ c ≤ 59 ∨ c = 60
    omega
  · have hz := Dinode.fits_zero
    have htype : T_FILE < 2 ^ 16 := by decide
    have hnlink : 1 < 2 ^ 16 := by decide
    refine ⟨htype, hz.major, hz.minor, hnlink, ?_, fun k => ?_⟩
    · show bytes.length < 2 ^ 32
      omega
    · show (if k = 0 then 60 else 0) < 2 ^ 32
      split
      · decide
      · decide

/-- The bytes of the file. -/
lemma data_blockFile {bytes : List UInt8} (h : bytes.length ≤ BSIZE) {off : ℕ} (hoff : off < bytes.length) :
    (twoNodes oneFileSb (blockBase bytes) rootInode (blockInode bytes.length) 2).data off = bytes[off] := by
  have hrooted := rooted_blockFile h
  have hblock : twoDisk oneFileSb (blockBase bytes) rootInode (blockInode bytes.length) 60 = Bytes.ofList bytes :=
    hrooted.two.disk_of_ne (c := 60) (.inr (by decide))
  show fileByte (twoDisk oneFileSb (blockBase bytes) rootInode (blockInode bytes.length))
    (blockInode bytes.length) off = _
  rw [fileByte_oneAddr hrooted.two.addrs.2 (by decide), if_pos (hoff.trans_le h), hblock, Bytes.ofList,
    List.getD_eq_getElem _ _ hoff]

/-! ### The disk with one empty file -/

lemma rooted_oneFile : Rooted oneFileBase emptyInode 0 := ⟨twoFiles_oneFile, rfl, rfl⟩

lemma nodes_oneFile : oneFile.nodes = oneFileNodes := twoFiles_oneFile.nodes rfl rfl

lemma node_root : oneFileNodes 1 = ⟨T_DIR, 0, 0, 1, BSIZE, Bytes.ofList (dirBytes rootEntries)⟩ :=
  rooted_oneFile.node_root

lemma inum_root (m : ℕ) : (oneFileNodes 1).inum m = if m < 2 then 1 else if m = 2 then 2 else 0 :=
  rooted_oneFile.inum_root m

lemma sound_oneFile : Sound oneFile := rooted_oneFile.sound rfl rfl

lemma settled_oneFile : Settled oneFile := twoFiles_oneFile.settled rfl rfl rfl

/-- The cache that has just two inodes has room for more. -/
lemma room_twoCache {s : State} {x y : Dinode} (h : s.icache = twoCache x y) :
    1 < s.freeEntries.card := by
  have hsub : Finset.Ico 2 NINODE ⊆ s.freeEntries := by
    intro e he
    rw [Finset.mem_Ico] at he
    refine Finset.mem_filter.mpr ⟨Finset.mem_range.mpr he.2, ?_⟩
    rw [h]
    unfold twoCache
    rw [if_neg (by omega), if_neg (by omega)]
  have hcard := Finset.card_le_card hsub
  rw [Nat.card_Ico] at hcard
  have hN : NINODE = 50 := rfl
  omega

lemma tree_oneFile : Tree oneFileNodes fun i => i = 1 ∨ i = 2 := rooted_oneFile.tree

/-- The path `//f`, from the root directory. -/
theorem namex_resolves_oneFile : Settled oneFile ∧ Sound oneFile ∧ HasCwd oneFile 1 ∧
    Resolves oneFile 1 [47, 47, 102] := by
  have hcwd : HasCwd oneFile 1 := ⟨by decide, by decide⟩
  refine ⟨settled_oneFile, sound_oneFile, hcwd, ?_⟩
  exact namex_resolves settled_oneFile sound_oneFile (nodes_oneFile ▸ tree_oneFile) hcwd (.inl rfl)

end

end Kernel
end OhMyXv6
