import OhMyXv6.Fs.Dir
import OhMyXv6.Kernel.Inode

/-!
# `fs.c`: directories and paths

A path or a name is the list of its bytes before the NUL. A name that `skipelem` cuts off after
`DIRSIZ` bytes has no NUL in the source's buffer; no function here reads more than those bytes.
-/

namespace OhMyXv6
namespace Kernel

/-! ## Directories -/

/-- `namecmp(s, t) == 0`. -/
def namecmp (s t : List UInt8) : Bool := s.take DIRSIZ == t.take DIRSIZ

/-- The `inum` of an entry that was read. -/
def deInum (de : List UInt8) : ℕ := direntInum (Bytes.ofList de) 0

/-- The `name` of an entry that was read. -/
def deName (de : List UInt8) : List UInt8 := direntName (Bytes.ofList de) 0

/-- `if (readi(dp, (char*)&de, off, sizeof(de)) != sizeof(de)) panic(..)`. -/
def readDirent (dp off : ℕ) (e : Panic) : M (List UInt8) := do
  match ← readi dp off DIRENTSIZE with
  | none => panic e
  | some de => if de.length = DIRENTSIZE then return de else panic e

/-- Rounds of `for (off = 0; off < size; off += sizeof(de))`. -/
def nentries (size : ℕ) : ℕ := (size + DIRENTSIZE - 1) / DIRENTSIZE

/-- The loop of `dirlookup` over the entries. -/
def dirlookupLoop (dp : ℕ) (name : List UInt8) : ℕ → ℕ → M (Option (ℕ × ℕ))
  | 0, _ => return none
  | n + 1, off => do
    let de ← readDirent dp off .dirlookupRead
    -- an empty entry
    if deInum de = 0 then dirlookupLoop dp name n (off + DIRENTSIZE)
    else if namecmp name (deName de) then
      let ip ← iget (deInum de)
      return some (ip, off)
    else dirlookupLoop dp name n (off + DIRENTSIZE)

/-- Look for a directory entry in a directory; the answer has its offset too. -/
def dirlookup (dp : ℕ) (name : List UInt8) : M (Option (ℕ × ℕ)) := do
  let x ← get fun s => (s.icache dp).din
  if x.type ≠ T_DIR then panic .dirlookupNotDir
  else dirlookupLoop dp name (nentries x.size) 0

/-- Look for an empty dirent: the offset at which the loop ends. -/
def dirlinkLoop (dp : ℕ) : ℕ → ℕ → M ℕ
  | 0, off => return off
  | n + 1, off => do
    let de ← readDirent dp off .dirlinkRead
    if deInum de = 0 then return off else dirlinkLoop dp n (off + DIRENTSIZE)

/-- Write a new directory entry; `false` is the answer `-1`. -/
def dirlink (dp : ℕ) (name : List UInt8) (inum : ℕ) : M Bool := do
  match ← dirlookup dp name with
  | some (ip, _) =>
    -- the name is taken
    iput ip
    return false
  | none =>
    let size ← get fun s => (s.icache dp).din.size
    -- the first empty entry, or the end of the directory
    let off ← dirlinkLoop dp (nentries size) 0
    let r ← writei dp (direntBytes inum name) off
    if r = some DIRENTSIZE then return true else panic .dirlink

/-! ## Paths -/

/-- The byte `/`. -/
def slash : UInt8 := 47

/-- `"."` -/
def dot : List UInt8 := [46]

/-- `".."` -/
def dotdot : List UInt8 := [46, 46]

/-- Copy the next path element: the element, cut off after `DIRSIZ` bytes, and the path behind
it with no leading slashes. -/
def skipelem (path : List UInt8) : Option (List UInt8 × List UInt8) :=
  match path.dropWhile (· == slash) with
  | [] => none
  | c :: cs => some (((c :: cs).takeWhile (· != slash)).take DIRSIZ,
      ((c :: cs).dropWhile (· != slash)).dropWhile (· == slash))

/-- A path element takes at least one byte. -/
lemma length_of_skipelem {path name rest : List UInt8} (h : skipelem path = some (name, rest)) :
    rest.length < path.length := by
  unfold skipelem at h
  have hle := (List.dropWhile_suffix (fun c : UInt8 => c == slash) (l := path)).length_le
  rcases hd : path.dropWhile (· == slash) with _ | ⟨c, cs⟩
  · rw [hd] at h
    exact absurd h (by simp)
  · rw [hd] at h hle
    -- the first byte of the element is not a slash, so it is dropped with the element
    have hc : (c == slash) = false := by
      have := List.head_dropWhile_not (fun c : UInt8 => c == slash) (l := path)
        (by rw [hd]; exact List.cons_ne_nil c cs)
      simpa [hd] using this
    have hrest : rest = (cs.dropWhile (· != slash)).dropWhile (· == slash) := by
      have hne : (c != slash) = true := by
        rw [bne, hc]
        rfl
      simp only [Option.some.injEq, Prod.mk.injEq, List.dropWhile_cons, hne, if_true] at h
      exact h.2.symm
    have h1 := (List.dropWhile_suffix (fun c : UInt8 => c != slash) (l := cs)).length_le
    have h2 := (List.dropWhile_suffix (fun c : UInt8 => c == slash)
      (l := cs.dropWhile (· != slash))).length_le
    simp only [List.length_cons] at hle
    rw [hrest]
    omega

/-- The loop of `namex`. Each element takes at least one byte of the path, so the length of the
path is enough fuel. The name is the last element that was cut off. -/
def namexLoop (p : ℕ) (parent : Bool) : ℕ → ℕ → List UInt8 → M (Option (ℕ × List UInt8))
  | 0, _, _ => return none
  | fuel + 1, ip, path => do
    match skipelem path with
    | none =>
      -- the path was used up before the parent was found
      if parent then
        iput ip
        return none
      else return some (ip, [])
    | some (name, path) =>
      ilock p ip
      let type ← get fun s => (s.icache ip).din.type
      if type ≠ T_DIR then
        iunlockput ip
        return none
      -- stop one level early
      else if parent ∧ path = [] then
        iunlock ip
        return some (ip, name)
      else
        match ← dirlookup ip name with
        | none =>
          iunlockput ip
          return none
        | some (next, _) =>
          iunlockput ip
          namexLoop p parent fuel next path

/-- `if (*path == '/') ip = iget(ROOTDEV, ROOTINO); else ip = idup(proc->cwd);`. -/
def namexStart (p : ℕ) (path : List UInt8) : M ℕ :=
  if path.head? = some slash then iget ROOTINO
  else do
    let cwd ← get fun s => (s.proc p).cwd
    idup cwd

/-- Look up the inode for a path name, or its parent and the final path element. -/
def namex (p : ℕ) (path : List UInt8) (parent : Bool) : M (Option (ℕ × List UInt8)) := do
  let ip ← namexStart p path
  namexLoop p parent (path.length + 1) ip path

/-- `namei`. -/
def namei (p : ℕ) (path : List UInt8) : M (Option ℕ) := do
  let r ← namex p path false
  return r.map Prod.fst

/-- `nameiparent`. -/
def nameiparent (p : ℕ) (path : List UInt8) : M (Option (ℕ × List UInt8)) := namex p path true

end Kernel
end OhMyXv6
