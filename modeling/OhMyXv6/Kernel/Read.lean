import OhMyXv6.Kernel.Node

/-!
# Reading files and directories

As long as the blocks that are read are there, `bmap` is a lookup, `readi` returns the bytes of the
file and leaves the state as it is, and `dirlookup` finds the first entry with the name. These are
equations for `exec`, so they say that the functions return, and not only what.
-/

namespace OhMyXv6
namespace Kernel

open Bytes

/-- The file in a cache entry. -/
def State.cached (s : State) (ip : ℕ) : Node :=
  let x := (s.icache ip).din
  ⟨x.type, x.major, x.minor, x.nlink, x.size, fileByte s.disk x⟩

/-- Block `bn` of the file in a cache entry is there. -/
def State.HasBlock (s : State) (ip bn : ℕ) : Prop := dataAddr s.disk (s.icache ip).din bn ≠ 0

section
variable {s : State} {ip bn off n : ℕ} {α β : Type}

/-- Looking at the state takes no step that matters. -/
lemma exec_get {g : State → α} {f : α → M β} :
    Prog.exec (get g >>= f) s = Prog.exec (f (g s)) s := rfl

lemma ends_get {E : Panic → Prop} {Q : β → State → Prop} {g : State → α} {f : α → M β} :
    Prog.Ends E (get g >>= f) Q s ↔ Prog.Ends E (f (g s)) Q s := Iff.rfl

lemma wp_get_bind {E : Panic → Prop} {Q : β → State → Prop} {g : State → α} {f : α → M β} :
    Prog.wp E (get g >>= f) Q s ↔ Prog.wp E (f (g s)) Q s := Iff.rfl

/-- A first part that is known to be done. -/
lemma exec_seq {x : M α} {f : α → M β} {a : α} {t : State} (h : Prog.exec x s = .done a t) :
    Prog.exec (x >>= f) s = Prog.exec (f a) t := by
  rw [Prog.exec_bind, h]
  rfl

/-- An address of the inode that is there. -/
lemma exec_bmapAddr {i : ℕ} (h : (s.icache ip).din.addr i ≠ 0) :
    Prog.exec (bmapAddr ip i) s = .done ((s.icache ip).din.addr i) s := by
  unfold bmapAddr
  rw [Prog.exec_bind]
  show Prog.exec (if (s.icache ip).din.addr i = 0 then _ else _) s = _
  rw [if_neg h]
  rfl

/-- An entry of the indirect block that is there. -/
lemma exec_bmapEntry {b i : ℕ} (h : entry (s.disk b) i ≠ 0) :
    Prog.exec (bmapEntry b i) s = .done (entry (s.disk b) i) s := by
  unfold bmapEntry
  rw [Prog.exec_bind]
  show Prog.exec (if entry (s.disk b) i = 0 then _ else _) s = _
  rw [if_neg h]
  rfl

/-- `bmap` of a block that is there. -/
lemma exec_bmap (h : s.HasBlock ip bn) :
    Prog.exec (bmap ip bn) s = .done (dataAddr s.disk (s.icache ip).din bn) s := by
  have hlt := lt_of_dataAddr_ne_zero h
  have hM : MAXFILE = NDIRECT + NINDIRECT := rfl
  unfold State.HasBlock dataAddr at h
  unfold bmap dataAddr
  by_cases hd : bn < NDIRECT
  · rw [if_pos hd] at h
    rw [if_pos hd, if_pos hd]
    exact exec_bmapAddr h
  · rw [if_neg hd] at h
    rw [if_neg hd, if_neg hd, if_pos (by omega)]
    by_cases hind : bn < MAXFILE ∧ (s.icache ip).din.addr NDIRECT ≠ 0
    · rw [if_pos hind] at h
      rw [if_pos hind, exec_seq (exec_bmapAddr hind.2)]
      exact exec_bmapEntry h
    · rw [if_neg hind] at h
      exact absurd rfl h

/-- The bytes of one chunk are in one block, one behind the other. -/
lemma div_add_chunk (hlt : off % BSIZE + n ≤ BSIZE) {j : ℕ} (hj : j < n) :
    (off + j) / BSIZE = off / BSIZE ∧ (off + j) % BSIZE = off % BSIZE + j := by
  have hB : BSIZE = 512 := rfl
  rw [hB] at hlt ⊢
  omega

/-- The loop of `readi`, when all blocks of the range are there. -/
lemma exec_readiLoop {fuel : ℕ} (hfuel : n ≤ fuel)
    (hall : ∀ bn, off / BSIZE ≤ bn → bn * BSIZE < off + n → s.HasBlock ip bn) :
    Prog.exec (readiLoop ip fuel off n) s
      = .done ((List.range n).map fun j => (s.cached ip).data (off + j)) s := by
  have hB : BSIZE = 512 := rfl
  induction fuel generalizing off n with
  | zero =>
    have hn : n = 0 := by omega
    rw [hn]
    rfl
  | succ fuel ih =>
    unfold readiLoop
    by_cases hn : n = 0
    · rw [if_pos hn, hn]
      rfl
    rw [if_neg hn]
    have hchunk : 0 < chunk off n ∧ chunk off n ≤ n ∧ off % BSIZE + chunk off n ≤ BSIZE := by
      unfold chunk
      rw [hB]
      omega
    have hblock : s.HasBlock ip (off / BSIZE) := by
      apply hall _ (Nat.le_refl _)
      rw [hB]
      omega
    -- the bytes of the first block
    have hhead : (List.range (chunk off n)).map
        (fun j => s.disk (dataAddr s.disk (s.icache ip).din (off / BSIZE)) (off % BSIZE + j))
        = (List.range (chunk off n)).map fun j => (s.cached ip).data (off + j) := by
      apply List.map_congr_left
      intro j hj
      rw [List.mem_range] at hj
      obtain ⟨hdiv, hmod⟩ := div_add_chunk hchunk.2.2 hj
      show _ = fileByte s.disk (s.icache ip).din (off + j)
      unfold fileByte
      rw [hdiv, hmod, if_neg hblock]
    have hfuel' : n - chunk off n ≤ fuel := by omega
    have hall' : ∀ bn, (off + chunk off n) / BSIZE ≤ bn →
        bn * BSIZE < off + chunk off n + (n - chunk off n) → s.HasBlock ip bn := by
      intro bn hle hlt
      apply hall bn
      · rw [hB] at hle ⊢
        omega
      · omega
    have htail := ih hfuel' hall'
    rw [exec_seq (exec_bmap hblock), exec_get, exec_seq htail, hhead]
    show Out.done _ s = _
    congr 1
    have hsplit : n = chunk off n + (n - chunk off n) := by omega
    conv_rhs => rw [hsplit, List.range_add, List.map_append, List.map_map]
    congr 1
    apply List.map_congr_left
    intro j _
    show (s.cached ip).data _ = (s.cached ip).data _
    rw [Nat.add_assoc]

/-- What is read lies below the size. -/
lemma readiLen_le {size : ℕ} (h : off ≤ size) : off + readiLen size off n ≤ size := by
  unfold readiLen
  split
  · omega
  · omega

/-- `readi` of a part of a file all of whose blocks are there. -/
lemma exec_readi (htype : (s.icache ip).din.type ≠ T_DEV) (hoff : off ≤ (s.icache ip).din.size)
    (hlt : off + n < 2 ^ 32)
    (hall : ∀ bn, off / BSIZE ≤ bn → bn * BSIZE < off + readiLen (s.icache ip).din.size off n →
      s.HasBlock ip bn) :
    Prog.exec (readi ip off n) s = .done (some ((List.range (readiLen (s.icache ip).din.size off n)).map
      fun j => (s.cached ip).data (off + j))) s := by
  unfold readi
  rw [exec_get, if_neg htype, if_neg (by omega), exec_seq (exec_readiLoop (Nat.le_refl _) hall)]
  rfl

/-! ## Directories -/

/-- An entry, as sixteen bytes. -/
def entryBytes (f : ℕ → UInt8) (k : ℕ) : List UInt8 :=
  (List.range DIRENTSIZE).map fun j => f (DIRENTSIZE * k + j)

lemma ofList_entryBytes (f : ℕ → UInt8) (k : ℕ) {j : ℕ} (hj : j < DIRENTSIZE) :
    ofList (entryBytes f k) j = f (DIRENTSIZE * k + j) := by
  unfold ofList entryBytes
  rw [List.getD_eq_getElem _ _ (by rwa [List.length_map, List.length_range]), List.getElem_map,
    List.getElem_range]

/-- The inode of an entry, from its bytes. -/
lemma deInum_entryBytes (f : ℕ → UInt8) (k : ℕ) : deInum (entryBytes f k) = direntInum f k := by
  have hS : DIRENTSIZE = 16 := rfl
  unfold deInum direntInum
  apply le_congr
  intro i hi
  have hbyte := ofList_entryBytes f k (j := i) (by omega)
  rw [Nat.mul_zero, Nat.zero_add, hbyte]

/-- The name of an entry, from its bytes. -/
lemma deName_entryBytes (f : ℕ → UInt8) (k : ℕ) : deName (entryBytes f k) = direntName f k := by
  have hS : DIRENTSIZE = 16 := rfl
  have hD : DIRSIZ = 14 := rfl
  have hbyte : ∀ j ∈ List.range DIRSIZ,
      ofList (entryBytes f k) (DIRENTSIZE * 0 + 2 + j) = f (DIRENTSIZE * k + 2 + j) := by
    intro j hj
    rw [List.mem_range] at hj
    rw [Nat.mul_zero, Nat.zero_add, ofList_entryBytes f k (by omega), Nat.add_assoc]
  exact congrArg (List.takeWhile _) (List.map_congr_left hbyte)

/-- `readi` of an entry. -/
lemma exec_readi_entry {k : ℕ} (htype : (s.icache ip).din.type ≠ T_DEV)
    (hsize : DIRENTSIZE * (k + 1) ≤ (s.icache ip).din.size) (hlt : DIRENTSIZE * (k + 1) < 2 ^ 32)
    (hblock : s.HasBlock ip (DIRENTSIZE * k / BSIZE)) :
    Prog.exec (readi ip (DIRENTSIZE * k) DIRENTSIZE) s
      = .done (some (entryBytes (s.cached ip).data k)) s := by
  have hB : BSIZE = 512 := rfl
  have hS : DIRENTSIZE = 16 := rfl
  rw [Nat.mul_succ] at hsize hlt
  have hlen : readiLen (s.icache ip).din.size (DIRENTSIZE * k) DIRENTSIZE = DIRENTSIZE := by
    unfold readiLen
    rw [if_neg (by omega)]
  have hoff : DIRENTSIZE * k ≤ (s.icache ip).din.size := by omega
  have hread := exec_readi htype hoff hlt (by
    intro bn hle hbn
    rw [hlen] at hbn
    have heq : bn = DIRENTSIZE * k / BSIZE := by
      rw [hB, hS] at hle hbn ⊢
      omega
    rwa [heq])
  rw [hlen] at hread
  exact hread

lemma length_entryBytes (f : ℕ → UInt8) (k : ℕ) : (entryBytes f k).length = DIRENTSIZE := by
  unfold entryBytes
  rw [List.length_map, List.length_range]

/-- An entry is read as it is in the directory. -/
lemma exec_readDirent {k : ℕ} {e : Panic} (htype : (s.icache ip).din.type ≠ T_DEV)
    (hsize : DIRENTSIZE * (k + 1) ≤ (s.icache ip).din.size) (hlt : DIRENTSIZE * (k + 1) < 2 ^ 32)
    (hblock : s.HasBlock ip (DIRENTSIZE * k / BSIZE)) :
    Prog.exec (readDirent ip (DIRENTSIZE * k) e) s = .done (entryBytes (s.cached ip).data k) s := by
  unfold readDirent
  rw [exec_seq (exec_readi_entry htype hsize hlt hblock)]
  dsimp only
  rw [if_pos (length_entryBytes _ _)]
  rfl

/-- The loop of `dirlookup` goes past an entry that does not have the name. -/
theorem exec_dirlookupLoop_next {name : List UInt8} {m k : ℕ}
    (htype : (s.icache ip).din.type ≠ T_DEV) (hsize : DIRENTSIZE * (k + 1) ≤ (s.icache ip).din.size)
    (hlt : (s.icache ip).din.size < 2 ^ 32) (hblock : s.HasBlock ip (DIRENTSIZE * k / BSIZE))
    (hnot : ¬ (s.cached ip).Matches name k) :
    Prog.exec (dirlookupLoop ip name (m + 1) (DIRENTSIZE * k)) s
      = Prog.exec (dirlookupLoop ip name m (DIRENTSIZE * (k + 1))) s := by
  have hread := exec_readDirent (e := .dirlookupRead) htype hsize (by omega) hblock
  have hnext : DIRENTSIZE * k + DIRENTSIZE = DIRENTSIZE * (k + 1) := (Nat.mul_succ _ _).symm
  rw [dirlookupLoop, exec_seq hread, deInum_entryBytes, deName_entryBytes, hnext]
  by_cases h0 : direntInum (s.cached ip).data k = 0
  · rw [if_pos h0]
  · have hname : ¬ namecmp name (direntName (s.cached ip).data k) = true :=
      fun hname => hnot ⟨h0, hname⟩
    rw [if_neg h0, if_neg hname]

/-- The loop of `dirlookup` up to the first entry with the name, if all entries up to it are there. -/
theorem exec_dirlookupLoop {name : List UInt8} {m k j : ℕ}
    (htype : (s.icache ip).din.type ≠ T_DEV) (hsize : (s.icache ip).din.size < 2 ^ 32)
    (hfind : (s.cached ip).findFrom name m k = some j)
    (hin : DIRENTSIZE * (j + 1) ≤ (s.icache ip).din.size)
    (hall : ∀ i, i ≤ j → s.HasBlock ip (DIRENTSIZE * i / BSIZE)) :
    Prog.exec (dirlookupLoop ip name m (DIRENTSIZE * k)) s
      = (Prog.exec (iget ((s.cached ip).inum j)) s).andThen fun next t =>
        .done (some (next, DIRENTSIZE * j)) t := by
  have hS : DIRENTSIZE = 16 := rfl
  induction m generalizing k with
  | zero => exact nomatch hfind
  | succ m ih =>
    obtain ⟨hkj, -, -⟩ := Node.findFrom_some hfind
    have hend : DIRENTSIZE * (k + 1) ≤ (s.icache ip).din.size := by
      rw [hS] at hin ⊢
      omega
    unfold Node.findFrom at hfind
    by_cases hm : (s.cached ip).Matches name k
    · rw [if_pos hm] at hfind
      obtain rfl := Option.some.inj hfind
      have hread := exec_readDirent (e := .dirlookupRead) htype hend (by omega) (hall k hkj)
      have hinum : direntInum (s.cached ip).data k ≠ 0 := hm.1
      have hname : namecmp name (direntName (s.cached ip).data k) = true := hm.2
      rw [dirlookupLoop, exec_seq hread, deInum_entryBytes, deName_entryBytes, if_neg hinum,
        if_pos hname, Prog.exec_bind]
      rfl
    · rw [if_neg hm] at hfind
      rw [exec_dirlookupLoop_next htype hend hsize (hall k hkj) hm]
      exact ih hfind

/-- The loop of `dirlookup` when no entry has the name. -/
lemma exec_dirlookupLoop_none {name : List UInt8} {m k : ℕ}
    (htype : (s.icache ip).din.type ≠ T_DEV) (hsize : (s.icache ip).din.size < 2 ^ 32)
    (hfind : (s.cached ip).findFrom name m k = none)
    (hin : DIRENTSIZE * (k + m) ≤ (s.icache ip).din.size)
    (hall : ∀ i, i < k + m → s.HasBlock ip (DIRENTSIZE * i / BSIZE)) :
    Prog.exec (dirlookupLoop ip name m (DIRENTSIZE * k)) s = .done none s := by
  have hS : DIRENTSIZE = 16 := rfl
  induction m generalizing k with
  | zero => rfl
  | succ m ih =>
    have hnot := Node.findFrom_none hfind (Nat.le_refl k) (by omega)
    have hend : DIRENTSIZE * (k + 1) ≤ (s.icache ip).din.size := by
      rw [hS] at hin ⊢
      omega
    rw [exec_dirlookupLoop_next htype hend hsize (hall k (by omega)) hnot]
    unfold Node.findFrom at hfind
    rw [if_neg hnot] at hfind
    apply ih hfind
    · rw [show k + 1 + m = k + (m + 1) by omega]
      exact hin
    · intro i hi
      exact hall i (by omega)

lemma nentries_mul (n : ℕ) : nentries (DIRENTSIZE * n) = n := by
  have hS : DIRENTSIZE = 16 := rfl
  unfold nentries
  rw [hS]
  omega

/-- `dirlookup` of a name that the directory has. -/
lemma exec_dirlookup {name : List UInt8} {j : ℕ} (htype : (s.icache ip).din.type = T_DIR)
    (hsize : (s.icache ip).din.size < 2 ^ 32) (hfind : (s.cached ip).find name = some j)
    (hin : DIRENTSIZE * (j + 1) ≤ (s.icache ip).din.size)
    (hall : ∀ i, i ≤ j → s.HasBlock ip (DIRENTSIZE * i / BSIZE)) :
    Prog.exec (dirlookup ip name) s
      = (Prog.exec (iget ((s.cached ip).inum j)) s).andThen fun next t =>
        .done (some (next, DIRENTSIZE * j)) t := by
  have hdev : (s.icache ip).din.type ≠ T_DEV := by
    rw [htype]
    decide
  unfold dirlookup
  rw [exec_get, if_neg (by rw [htype]; exact fun h => h rfl)]
  exact exec_dirlookupLoop hdev hsize hfind hin hall

/-- `dirlookup` of a name that it has not. -/
lemma exec_dirlookup_none {name : List UInt8} (htype : (s.icache ip).din.type = T_DIR)
    (hsize : (s.icache ip).din.size < 2 ^ 32) (hdvd : DIRENTSIZE ∣ (s.icache ip).din.size)
    (hfind : (s.cached ip).find name = none)
    (hall : ∀ i, DIRENTSIZE * i < (s.icache ip).din.size →
      s.HasBlock ip (DIRENTSIZE * i / BSIZE)) :
    Prog.exec (dirlookup ip name) s = .done none s := by
  have hdev : (s.icache ip).din.type ≠ T_DEV := by
    rw [htype]
    decide
  obtain ⟨n, hn⟩ := hdvd
  have hcount : nentries (s.cached ip).size = n := by
    show nentries (s.icache ip).din.size = n
    rw [hn]
    exact nentries_mul n
  unfold dirlookup
  rw [exec_get, if_neg (by rw [htype]; exact fun h => h rfl)]
  apply exec_dirlookupLoop_none hdev hsize hfind
  · rw [Nat.zero_add, hcount, hn]
  · intro i hi
    rw [Nat.zero_add, hcount] at hi
    apply hall
    rw [hn]
    exact Nat.mul_lt_mul_of_pos_left hi (by decide)

end

end Kernel
end OhMyXv6
