import OhMyXv6.Kernel.Filewrite
import OhMyXv6.Kernel.Transaction

/-!
# Processes that share an open file

After a `fork`, several processes read and write through one file structure, and so through one
offset. Here each of them runs `fileread` and `filewrite`, in any order of their steps, where the part
of the code that holds the inode's lock is one step. A history is kept of the chunks for which `writei`
succeeded. At every moment the file is the concatenation of these chunks, and the offset is its size.
-/

namespace OhMyXv6
namespace Kernel

open Bytes Prog

/-- The state of the kernel and the chunks written so far. -/
structure Shared where
  st : State
  chunks : List (List UInt8)

/-- A program over the state that all writers share. -/
abbrev SharedM := Prog Shared Panic Label

section
variable {α β : Type}

/-- A way to end in the kernel's state, with what becomes of the history. -/
def Shared.lift (o : Out State Panic α) (chunks : α → List (List UInt8)) : Out Shared Panic α :=
  match o with
  | .done a t => .done a ⟨t, chunks a⟩
  | .wait => .wait
  | .stop e => .stop e

/-- A program that runs as one step. -/
def whole (l : Label) (x : M α) : SharedM α :=
  .act l fun g => Shared.lift (Prog.exec x g.st) fun _ => g.chunks

/-- The locked part of a round of `filewrite`. -/
def writeStep (p f ip : ℕ) (src : List UInt8) : SharedM (Option ℕ) :=
  .act .logWrite fun g => Shared.lift (Prog.exec (writeSection p f ip src) g.st) fun r =>
    if r.isSome then g.chunks ++ [src] else g.chunks

/-- One round of the loop of `filewrite`. -/
def sharedRound (p f ip : ℕ) (src : List UInt8) : SharedM (Option ℕ) := do
  whole .beginOp (begin_op p)
  let r ← writeStep p f ip src
  whole .endOp (end_op p)
  return r

/-- The loop of `filewrite`. -/
def sharedLoop (p f ip : ℕ) : ℕ → List UInt8 → SharedM Bool
  | 0, _ => return true
  | fuel + 1, src =>
    if src.length = 0 then return true
    else do
      match ← sharedRound p f ip (src.take filewriteMax) with
      | none => return false
      | some r =>
        -- `panic("short filewrite")`
        if r ≠ (src.take filewriteMax).length then whole .other (panic .shortFilewrite)
        else sharedLoop p f ip fuel (src.drop filewriteMax)

/-- `filewrite`, with its locked parts as single steps. -/
def sharedWrite (p f : ℕ) (src : List UInt8) (ext : Ret) : SharedM Ret := do
  let x ← whole .other (get fun s => s.ftable f)
  if ¬ x.writable then return failed
  else
    match x.type with
    | .FD_NONE => whole .other (panic .filewrite)
    -- what a pipe takes is given with the call
    | .FD_PIPE => return ext
    | .FD_INODE =>
      let din ← whole .other (get fun s => (s.icache x.ip).din)
      if din.type = T_DEV then return devAnswer din.major ext
      else
        let all ← sharedLoop p f x.ip src.length src
        return if all then (src.length, []) else failed

/-- The locked part of `fileread`. -/
def readSection (p f ip n : ℕ) : M Ret := do
  ilock p ip
  filereadInode f ip n

/-- `fileread`, with its locked part as a single step. -/
def sharedRead (p f n : ℕ) (ext : Ret) : SharedM Ret := do
  let x ← whole .other (get fun s => s.ftable f)
  if ¬ x.readable then return failed
  else
    match x.type with
    | .FD_NONE => whole .other (panic .fileread)
    | .FD_PIPE => return ext
    | .FD_INODE =>
      let din ← whole .other (get fun s => (s.icache x.ip).din)
      -- a device's answer comes with the call
      if din.type = T_DEV then return devAnswer din.major ext
      else whole .other (readSection p f x.ip n)

/-! ## Run alone, these are `filewrite` and `fileread` -/

/-- The same way to end, without the history. -/
def Shared.forget : Out Shared Panic α → Out State Panic α
  | .done a g => .done a g.st
  | .wait => .wait
  | .stop e => .stop e

/-- The program with the history does what the one without does. -/
def Mirrors (X : SharedM α) (x : M α) : Prop :=
  ∀ g, Shared.forget (Prog.exec X g) = Prog.exec x g.st

lemma Mirrors.bind {X : SharedM α} {x : M α} {F : α → SharedM β} {f : α → M β}
    (hx : Mirrors X x) (hf : ∀ a, Mirrors (F a) (f a)) : Mirrors (X >>= F) (x >>= f) := by
  intro g
  have h := hx g
  rw [Prog.exec_bind, Prog.exec_bind, ← h]
  cases Prog.exec X g with
  | done a t => exact hf a t
  | wait => rfl
  | stop e => rfl

lemma Mirrors.pure (a : α) : Mirrors (Pure.pure a) (Pure.pure a) := fun _ => rfl

/-- One program of the kernel as one step. -/
lemma Mirrors.lift {l : Label} {x : M α} {c : Shared → α → List (List UInt8)} :
    Mirrors (.act l fun g => Shared.lift (Prog.exec x g.st) (c g)) x := by
  intro g
  rw [Prog.exec_act]
  cases Prog.exec x g.st with
  | done a t => rfl
  | wait => rfl
  | stop e => rfl

lemma Mirrors.whole (l : Label) (x : M α) : Mirrors (whole l x) x := Mirrors.lift

lemma mirrors_sharedRound (p f ip : ℕ) (src : List UInt8) :
    Mirrors (sharedRound p f ip src) (filewriteRound p f ip src) := by
  have hround : filewriteRound p f ip src = begin_op p >>= fun _ =>
      writeSection p f ip src >>= fun r => end_op p >>= fun _ => Pure.pure r := by
    rw [filewriteRound_eq, filewriteSection, bind_bind]
  rw [hround]
  exact (Mirrors.whole _ _).bind fun _ => Mirrors.lift.bind fun r =>
    (Mirrors.whole _ _).bind fun _ => Mirrors.pure r

lemma mirrors_sharedLoop (p f ip fuel : ℕ) (src : List UInt8) :
    Mirrors (sharedLoop p f ip fuel src) (filewriteLoop p f ip fuel src) := by
  induction fuel generalizing src with
  | zero => exact Mirrors.pure true
  | succ fuel ih =>
    unfold sharedLoop filewriteLoop
    by_cases hlen : src.length = 0
    · rw [if_pos hlen, if_pos hlen]
      exact Mirrors.pure true
    · rw [if_neg hlen, if_neg hlen]
      refine (mirrors_sharedRound _ _ _ _).bind fun r => ?_
      cases r with
      | none => exact Mirrors.pure false
      | some k =>
        by_cases hk : k ≠ (src.take filewriteMax).length
        · simp only [if_pos hk]
          exact Mirrors.whole _ _
        · simp only [if_neg hk]
          exact ih _

/-- The steps of `write` are those of the kernel's `filewrite`. -/
lemma mirrors_sharedWrite (p f : ℕ) (src : List UInt8) (ext : Ret) :
    Mirrors (sharedWrite p f src ext) (filewrite p f src ext) := by
  refine (Mirrors.whole _ _).bind fun x => ?_
  by_cases hw : ¬ x.writable
  · rw [if_pos hw, if_pos hw]
    exact Mirrors.pure failed
  rw [if_neg hw, if_neg hw]
  cases x.type with
  | FD_NONE => exact Mirrors.whole _ _
  | FD_PIPE => exact Mirrors.pure ext
  | FD_INODE =>
    refine (Mirrors.whole _ _).bind fun din => ?_
    by_cases hdev : din.type = T_DEV
    · rw [if_pos hdev, if_pos hdev]
      exact Mirrors.pure _
    · rw [if_neg hdev, if_neg hdev]
      exact (mirrors_sharedLoop _ _ _ _ _).bind fun all => Mirrors.pure _

/-- The steps of `read` are those of the kernel's `fileread`. -/
lemma mirrors_sharedRead (p f n : ℕ) (ext : Ret) :
    Mirrors (sharedRead p f n ext) (fileread p f n ext) := by
  refine (Mirrors.whole _ _).bind fun x => ?_
  by_cases hr : ¬ x.readable
  · rw [if_pos hr, if_pos hr]
    exact Mirrors.pure failed
  rw [if_neg hr, if_neg hr]
  cases x.type with
  | FD_NONE => exact Mirrors.whole _ _
  | FD_PIPE => exact Mirrors.pure ext
  | FD_INODE =>
    refine (Mirrors.whole _ _).bind fun din => ?_
    by_cases hdev : din.type = T_DEV
    · rw [if_pos hdev, if_pos hdev]
      exact Mirrors.pure _
    · rw [if_neg hdev, if_neg hdev]
      exact Mirrors.whole _ _

end

/-! ## The locked parts keep the file and the history together -/

/-- The bytes of a file. -/
def Node.content (x : Node) : List UInt8 := (List.range x.size).map x.data

/-- The contents are as long as the size says. -/
lemma Node.length_content (x : Node) : x.content.length = x.size := by
  rw [Node.content, List.length_map, List.length_range]

/-- The file after the bytes from `off` on have been written anew. -/
theorem Node.content_overwrite {x y : Node} {src : List UInt8} {off : ℕ} (hoff : off ≤ x.size)
    (hsize : y.size = max x.size (off + src.length))
    (hdata : y.data = blit x.data off src.length (ofList src)) :
    y.content = x.content.take off ++ (src ++ x.content.drop (off + src.length)) := by
  have hx := x.length_content
  have htake : (x.content.take off).length = off := by rw [List.length_take, hx, Nat.min_eq_left hoff]
  apply List.ext_getElem
  · rw [List.length_append, List.length_append, htake, List.length_drop, hx, y.length_content, hsize]
    omega
  intro k hk _
  have hyk : y.content[k] = y.data k := by
    simp only [Node.content, List.getElem_map, List.getElem_range]
  have hxk : ∀ j (hj : j < x.content.length), x.content[j] = x.data j := by
    intro j hj
    simp only [Node.content, List.getElem_map, List.getElem_range]
  rw [hyk, hdata]
  by_cases hlow : k < off
  · -- in front of the new bytes
    rw [List.getElem_append_left (by omega), List.getElem_take, hxk, blit_out (by omega)]
  rw [List.getElem_append_right (by omega)]
  simp only [htake]
  by_cases hlt : k < off + src.length
  · rw [List.getElem_append_left (by omega), blit_in (Nat.not_lt.mp hlow) hlt, ofList,
      List.getD_eq_getElem _ _ (by omega)]
  · rw [List.getElem_append_right (by omega), blit_out (by omega), List.getElem_drop, hxk]
    exact congrArg x.data (by omega)

lemma Node.content_write {x y : Node} {src : List UInt8} (hsize : y.size = x.size + src.length)
    (hdata : y.data = blit x.data x.size src.length (ofList src)) :
    y.content = x.content ++ src := by
  have hx := x.length_content
  rw [Node.content_overwrite le_rfl (by omega) hdata, List.take_of_length_le hx.le,
    List.drop_of_length_le (by omega), List.append_nil]

/-- The file is the concatenation of the chunks, and the offset is its size. -/
structure SharedInv (f ip : ℕ) (X : ℕ → Dinode) (g : Shared) : Prop where
  entry : (g.st.ftable f).ip = ip
  file : ∃ A, RegularFile g.st f X A
  content : (g.st.cached ip).content = g.chunks.flatten
  off : (g.st.ftable f).off = (g.st.cached ip).size

section
variable {s t : State} {p f ip : ℕ} {X : ℕ → Dinode} {A : Nodes} {src : List UInt8}

/-- The state in which the locked part has its lock. -/
def State.lockedBy (s : State) (p ip : ℕ) : State :=
  s.setInode ip { s.icache ip with lock := some p }

lemma icache_lockedBy : (s.lockedBy p ip).icache ip = { s.icache ip with lock := some p } :=
  Function.update_self _ _ _

/-- A lock changes nothing of the files. -/
lemma Holds.lockedBy (h : Holds s ip X A) : Holds (s.lockedBy p ip) ip X A := by
  refine ⟨?_, ?_, ?_, h.nodup⟩
  · rw [icache_lockedBy]
    exact h.image
  · rw [icache_lockedBy]
    exact h.inum
  · rw [icache_lockedBy]
    exact h.type

/-- The file after the lock is given back. -/
lemma cached_left (n : ℕ) : (s.left f ip n).cached ip = s.cached ip := by
  have hip : (s.left f ip n).icache ip = { s.icache ip with lock := none } :=
    Function.update_self _ _ _
  unfold State.cached
  rw [hip]
  rfl

/-- When the locked part has changed nothing, the state is as before. -/
theorem RegularFile.left_lockedBy (h : RegularFile s f X A) (hip : (s.ftable f).ip = ip) :
    (s.lockedBy p ip).left f ip 0 = s := by
  have hlock := h.unlocked
  rw [hip] at hlock
  unfold State.left State.lockedBy State.setInode
  simp only [Function.update_self, Function.update_idem, Nat.add_zero, Function.update_eq_self]
  rw [← hlock]
  simp only [Function.update_eq_self]

/-- A section that writes at the end of the file appends what it reports. -/
lemma writeSection_appends (h : RegularFile s f X A) (hip : (s.ftable f).ip = ip)
    (hoff : (s.ftable f).off = (s.cached ip).size) (hout : 1 ≤ s.outstanding) :
    Ends (fun _ => True) (writeSection p f ip src)
      (fun r t => (t.ftable f).ip = ip ∧ (∃ A', RegularFile t f X A') ∧
        t.outstanding = s.outstanding ∧ t.inOp = s.inOp ∧
        (t.cached ip).content = (s.cached ip).content ++ (if r.isSome then src else []) ∧
        (t.ftable f).off = (t.cached ip).size) s := by
  have hholds := h.holds
  have hregular := h.regular
  have hvalid := h.valid
  have href := h.ref
  have hunlocked := h.unlocked
  rw [hip] at hholds hregular hvalid href hunlocked
  have hdev : ((s.lockedBy p ip).icache ip).din.type ≠ T_DEV := by
    rw [icache_lockedBy, hregular]
    decide
  refine writeSection_ends href hunlocked hvalid
    ((writei_ends (hholds.lockedBy (p := p)) hout hdev).mono (fun _ _ => trivial) ?_)
  intro r t hq
  rw [icache_lockedBy] at hq
  by_cases hr : Refused (s.icache ip).din (s.ftable f).off src.length
  · rw [if_pos hr] at hq
    obtain ⟨rfl, rfl⟩ := hq
    have hzero : (none : Option ℕ).getD 0 = 0 := rfl
    rw [icache_lockedBy, hzero, h.left_lockedBy hip]
    exact ⟨rfl, href, hip, ⟨A, h⟩, rfl, rfl, (List.append_nil _).symm, hoff⟩
  · rw [if_neg hr] at hq
    obtain ⟨rfl, ht, hwr⟩ := hq
    obtain ⟨hfile, htable⟩ := h.left (b := s.lockedBy p ip) hip rfl icache_lockedBy ht hwr src.length
    have htip : (t.icache ip).lock = some p ∧ 0 < (t.icache ip).ref := by
      rw [hwr.frame]
      simp only [Function.update_self, icache_lockedBy]
      exact ⟨trivial, href⟩
    have htf : (t.left f ip src.length).ftable f
        = { s.ftable f with off := (s.ftable f).off + src.length } := by
      rw [htable, Function.update_self]
    -- the file is the old one with the bytes behind its end
    have hinum : (t.icache ip).inum = (s.icache ip).inum := by rw [hwr.inum, icache_lockedBy]
    have hnode : t.cached ip = { s.cached ip with
        data := blit (s.cached ip).data (s.cached ip).size src.length (ofList src)
        size := (s.cached ip).size + src.length } := by
      rw [← ht.node, hinum, Nodes.write_self, hholds.node, hoff, Nat.max_eq_right (by omega)]
    have hsize : (t.cached ip).size = (s.cached ip).size + src.length := by rw [hnode]
    refine ⟨htip.1, htip.2, ?_⟩
    show ((t.left f ip src.length).ftable f).ip = ip ∧ _
    refine ⟨by rw [htf, hip], ⟨_, hfile⟩, ?_, ?_, ?_, ?_⟩
    · show t.outstanding = _
      rw [hwr.frame]
      rfl
    · show t.inOp = _
      rw [hwr.frame]
      rfl
    · show ((t.left f ip src.length).cached ip).content = _
      rw [cached_left]
      exact Node.content_write hsize (congrArg Node.data hnode)
    · show ((t.left f ip src.length).ftable f).off = ((t.left f ip src.length).cached ip).size
      rw [cached_left, hsize, htf, ← hoff]

/-- At the end of the file there is nothing to read. -/
lemma exec_readSection (h : RegularFile s f X A) (hip : (s.ftable f).ip = ip)
    (hoff : (s.ftable f).off = (s.cached ip).size) (n : ℕ) :
    ∃ r, Prog.exec (readSection p f ip n) s = .done r s := by
  have hregular := h.regular
  have hvalid := h.valid
  have href := h.ref
  have hunlocked := h.unlocked
  rw [hip] at hregular hvalid href hunlocked
  have hsize : (s.cached ip).size = (s.icache ip).din.size := rfl
  have hlocked : 0 < ((s.lockedBy p ip).icache ip).ref ∧
      ((s.lockedBy p ip).icache ip).lock = some p := by
    rw [icache_lockedBy]
    exact ⟨href, rfl⟩
  -- an offset past the end is refused, and at the end `readi` returns no bytes
  have hread : ∃ r, Prog.exec (readi ip (s.ftable f).off n) (s.lockedBy p ip)
      = .done r (s.lockedBy p ip) ∧ (r = none ∨ r = some []) := by
    unfold readi
    rw [exec_get, icache_lockedBy, if_neg (by rw [hregular]; decide)]
    by_cases hbig : (s.icache ip).din.size < (s.ftable f).off ∨ 2 ^ 32 ≤ (s.ftable f).off + n
    · rw [if_pos hbig]
      exact ⟨none, rfl, .inl rfl⟩
    · have hlen : readiLen (s.icache ip).din.size (s.ftable f).off n = 0 := by
        unfold readiLen
        split
        · omega
        · omega
      rw [if_neg hbig, hlen]
      exact ⟨some [], rfl, .inr rfl⟩
  obtain ⟨r, hexec, hr⟩ := hread
  have hunlock : Prog.exec (iunlock ip) (s.lockedBy p ip) = .done () s := by
    rw [exec_iunlock hlocked.1 hlocked.2]
    unfold State.lockedBy State.setInode
    simp only [Function.update_self, Function.update_idem]
    rw [← hunlocked]
    simp only [Function.update_eq_self]
  have hadvance : Prog.exec (advance f 0) (s.lockedBy p ip) = .done () (s.lockedBy p ip) := by
    unfold advance modify State.setFile
    rw [exec_act]
    simp only [Nat.add_zero, Function.update_eq_self]
  unfold readSection filereadInode
  rw [exec_seq (exec_ilock href hunlocked hvalid), exec_get]
  show ∃ r, Prog.exec (readi ip (s.ftable f).off n >>= _) (s.lockedBy p ip) = .done r s
  rw [exec_seq hexec]
  rcases hr with rfl | rfl
  · exact ⟨failed, by rw [exec_seq hunlock]; rfl⟩
  · refine ⟨(0, []), ?_⟩
    show Prog.exec (advance f 0 >>= fun _ => iunlock ip >>= fun _ => pure (0, [])) _ = _
    rw [exec_seq hadvance, exec_seq hunlock]
    rfl

end

/-! ## Any order of steps -/

/-- The discipline of process `p`: its steps keep the file and the history together. What is
remembered is the number of transactions it is in. -/
def sharedProtocol (p f ip : ℕ) (X : ℕ → Dinode) : Protocol Shared Panic Label ℕ where
  allow n l := l = .logWrite ∨ l = .endOp → 0 < n
  assume n _ g := SharedInv f ip X g ∧ (0 < n → 1 ≤ g.st.outstanding)
  next := (opProtocol p).next
  change l g g' := SharedInv f ip X g' ∧ OpChange p l g.st g'.st
  error _ _ _ := True

section
variable {p f ip n : ℕ} {X : ℕ → Dinode} {α β : Type}

/-- A step that only reads the state: what follows may use what it has read. -/
theorem guarded_read {h : State → α} {k : α → SharedM β} {R : ℕ → β → Prop}
    (hk : ∀ g, SharedInv f ip X g → Guarded (sharedProtocol p f ip X) n (k (h g.st)) R) :
    Guarded (sharedProtocol p f ip X) n (whole .other (get h) >>= k) R := by
  refine guarded_test (by rintro (h | h) <;> cases h) fun g => ?_
  exact fun hg => ⟨⟨hg.1, rfl, rfl⟩, hk g hg.1⟩

/-- Only these parts of the state matter. -/
lemma SharedInv.congr {g g' : Shared} (h : SharedInv f ip X g) (hchunks : g'.chunks = g.chunks)
    (hftable : g'.st.ftable = g.st.ftable) (hcache : g'.st.icache = g.st.icache)
    (hdisk : g'.st.disk = g.st.disk) (hsb : g'.st.sb = g.st.sb) (hlh : g'.st.lh.Nodup) :
    SharedInv f ip X g' := by
  obtain ⟨A, hfile⟩ := h.file
  have hcached : g'.st.cached ip = g.st.cached ip := by
    unfold State.cached
    rw [hcache, hdisk]
  refine ⟨by rw [hftable, h.entry], ⟨A, ?_⟩, by rw [hcached, hchunks, h.content],
    by rw [hcached, hftable, h.off]⟩
  refine ⟨⟨?_, ?_, ?_, hlh⟩, ?_, ?_, ?_, ?_, ?_⟩
  · rw [hftable, hcache, hsb, hdisk]
    exact hfile.holds.image
  · rw [hftable, hcache, hsb]
    exact hfile.holds.inum
  · rw [hftable, hcache]
    exact hfile.holds.type
  · rw [hftable]
    exact hfile.type
  · rw [hftable, hcache]
    exact hfile.regular
  · rw [hftable, hcache]
    exact hfile.valid
  · rw [hftable, hcache]
    exact hfile.ref
  · rw [hftable, hcache]
    exact hfile.unlocked

/-- Other steps are always allowed. -/
lemma allow_of_ne {l : Label} (hl : l ≠ .logWrite) (hl' : l ≠ .endOp) :
    (sharedProtocol p f ip X).allow n l := by
  rintro (h | h)
  · exact absurd h hl
  · exact absurd h hl'

/-- The rule for a program that runs as one step. -/
lemma guarded_lift {l : Label} {x : M α} {c : Shared → α → List (List UInt8)} {R : ℕ → α → Prop}
    (hallow : (sharedProtocol p f ip X).allow n l)
    (hx : ∀ g r t, Prog.exec x g.st = .done r t → SharedInv f ip X g →
      (0 < n → 1 ≤ g.st.outstanding) → SharedInv f ip X ⟨t, c g r⟩ ∧ OpChange p l g.st t ∧
        R ((opProtocol p).next l n) r) :
    Guarded (sharedProtocol p f ip X) n
      (.act l fun g => Shared.lift (Prog.exec x g.st) (c g)) R := by
  refine ⟨hallow, fun g => ?_⟩
  dsimp only
  cases he : Prog.exec x g.st with
  | wait => trivial
  | stop e => trivial
  | done r t =>
    rintro ⟨hg, hop⟩
    obtain ⟨hinv, hchange, hR⟩ := hx g r t he hg hop
    exact ⟨⟨hinv, hchange⟩, hR⟩

lemma guarded_begin_op : Guarded (sharedProtocol p f ip X) n (whole .beginOp (begin_op p))
    (fun m _ => m = n + 1) := by
  refine guarded_lift (allow_of_ne (by decide) (by decide)) fun g r t he hg _ => ?_
  unfold begin_op at he
  rw [Prog.exec_act] at he
  split at he
  · cases he
  · obtain ⟨A, hfile⟩ := hg.file
    injection he with _ ht
    subst ht
    exact ⟨hg.congr rfl rfl rfl rfl rfl hfile.holds.nodup, ⟨rfl, rfl⟩, rfl⟩

lemma guarded_end_op (hn : 0 < n) : Guarded (sharedProtocol p f ip X) n
    (whole .endOp (end_op p)) (fun m _ => m = n - 1) := by
  refine guarded_lift (fun _ => hn) fun g r t he hg _ => ?_
  obtain ⟨A, hfile⟩ := hg.file
  have hend : Prog.exec (end_op p) g.st = .done () (g.st.ended p) := rfl
  rw [hend] at he
  injection he with _ ht
  subst ht
  exact ⟨hg.congr rfl rfl rfl rfl rfl (hfile.ended (p := p)).holds.nodup, ⟨rfl, rfl⟩, rfl⟩

/-- The section of a write, inside of a transaction. -/
lemma guarded_writeStep {src : List UInt8} (hn : 0 < n) : Guarded (sharedProtocol p f ip X) n
    (writeStep p f ip src) (fun m _ => m = n) := by
  refine guarded_lift (fun _ => hn) fun g r t he hg hop => ?_
  obtain ⟨A, hfile⟩ := hg.file
  obtain ⟨hip, hfile', hout, hin, hcontent, hoff⟩ :=
    (writeSection_appends hfile hg.entry hg.off (hop hn)).of_done he
  refine ⟨⟨hip, hfile', ?_, hoff⟩, ⟨hout, hin⟩, rfl⟩
  show (t.cached ip).content = (if r.isSome then g.chunks ++ [src] else g.chunks).flatten
  rw [hcontent, hg.content]
  cases r with
  | none => simp
  | some m => simp

lemma guarded_readStep (m : ℕ) : Guarded (sharedProtocol p f ip X) n
    (whole .other (readSection p f ip m)) (fun m _ => m = n) := by
  refine guarded_lift (allow_of_ne (by decide) (by decide)) fun g r t he hg _ => ?_
  obtain ⟨A, hfile⟩ := hg.file
  obtain ⟨r', hr'⟩ := exec_readSection (p := p) hfile hg.entry hg.off m
  rw [he] at hr'
  injection hr' with _ ht
  subst ht
  exact ⟨hg, ⟨rfl, rfl⟩, rfl⟩

lemma guarded_panic (e : Panic) {R : ℕ → α → Prop} : Guarded (sharedProtocol p f ip X) n
    (whole .other (panic e)) R :=
  guarded_lift (allow_of_ne (by decide) (by decide)) fun _ _ _ he => by cases he

lemma guarded_sharedRound {src : List UInt8} : Guarded (sharedProtocol p f ip X) 0
    (sharedRound p f ip src) (fun m _ => m = 0) := by
  refine guarded_begin_op.bind fun m _ hm => ?_
  subst hm
  refine (guarded_writeStep (by omega)).bind fun m r hm => ?_
  subst hm
  exact (guarded_end_op (by omega)).bind fun m _ hm => hm

lemma guarded_sharedLoop {fuel : ℕ} {src : List UInt8} : Guarded (sharedProtocol p f ip X) 0
    (sharedLoop p f ip fuel src) (fun m _ => m = 0) := by
  induction fuel generalizing src with
  | zero => rfl
  | succ fuel ih =>
    unfold sharedLoop
    by_cases hlen : src.length = 0
    · rw [if_pos hlen]
      rfl
    rw [if_neg hlen]
    refine guarded_sharedRound.bind fun m r hm => ?_
    subst hm
    cases r with
    | none => rfl
    | some k =>
      by_cases hk : k ≠ (src.take filewriteMax).length
      · simp only [if_pos hk]
        exact guarded_panic _
      · simp only [if_neg hk]
        exact ih

/-- A write keeps to the protocol. -/
lemma guarded_sharedWrite (src : List UInt8) (ext : Ret) : Guarded (sharedProtocol p f ip X) 0
    (sharedWrite p f src ext) (fun m _ => m = 0) := by
  refine guarded_read fun g hg => ?_
  obtain ⟨A, hfile⟩ := hg.file
  by_cases hw : ¬ (g.st.ftable f).writable
  · rw [if_pos hw]
    rfl
  rw [if_neg hw, hfile.type]
  refine guarded_read fun g' _ => ?_
  by_cases hdev : (g'.st.icache (g.st.ftable f).ip).din.type = T_DEV
  · rw [if_pos hdev]
    rfl
  rw [if_neg hdev, hg.entry]
  exact guarded_sharedLoop.bind fun m _ hm => hm

lemma guarded_sharedRead (m : ℕ) (ext : Ret) : Guarded (sharedProtocol p f ip X) 0
    (sharedRead p f m ext) (fun m _ => m = 0) := by
  refine guarded_read fun g hg => ?_
  obtain ⟨A, hfile⟩ := hg.file
  by_cases hr : ¬ (g.st.ftable f).readable
  · rw [if_pos hr]
    rfl
  rw [if_neg hr, hfile.type]
  refine guarded_read fun g' _ => ?_
  by_cases hdev : (g'.st.icache (g.st.ftable f).ip).din.type = T_DEV
  · rw [if_pos hdev]
    rfl
  rw [if_neg hdev, hg.entry]
  exact guarded_readStep m

end

/-- The kernel with the history, and for each process what is left of its call. -/
structure SharedSys where
  g : Shared
  prog : ℕ → Option (SharedM Ret)

/-- What may happen next: a call by one of the processes, or a step of a call. -/
inductive SharedAct where
  /-- A process calls `read` for `n` bytes. -/
  | read (p n : ℕ)
  /-- A process calls `write`. -/
  | write (p : ℕ) (src : List UInt8)
  /-- A process takes its next step, or returns from its call. -/
  | step (p : ℕ)

namespace SharedSys

/-- Process `p` goes on with another program. -/
def setProg (S : SharedSys) (p : ℕ) (x : Option (SharedM Ret)) : SharedSys :=
  { S with prog := Function.update S.prog p x }

/-- A process that is in no call starts one. -/
def enter (S : SharedSys) (p : ℕ) (x : SharedM Ret) : Option SharedSys :=
  match S.prog p with
  | some _ => none
  | none => some (S.setProg p (some x))

/-- One action on the shared file `f`; `none` when the process cannot take it. A process that panics
takes no step. -/
def next (f : ℕ) (S : SharedSys) : SharedAct → Option SharedSys
  | .read p n => S.enter p (sharedRead p f n failed)
  | .write p src => S.enter p (sharedWrite p f src failed)
  | .step p =>
    match S.prog p with
    | none => none
    | some (.ret _) => some (S.setProg p none)
    | some (.step _ h k) =>
      match h S.g with
      | .done b g => some ({ S with g := g }.setProg p (some (k b)))
      -- a process that waits does not move
      | .wait => none
      | .stop _ => none

/-- File `f` is open and empty, no other file structure refers to its inode, and nothing is running. -/
structure Fresh (S : SharedSys) (f : ℕ) (X : ℕ → Dinode) (A : Nodes) : Prop where
  file : OpenFile S.g.st f X A
  size : (S.g.st.icache (S.g.st.ftable f).ip).din.size = 0
  off : (S.g.st.ftable f).off = 0
  alone : ∀ f', f' ≠ f → (S.g.st.ftable f').type = .FD_INODE →
    (S.g.st.ftable f').ip ≠ (S.g.st.ftable f).ip
  inOp : S.g.st.inOp = []
  chunks : S.g.chunks = []
  prog : ∀ p, S.prog p = none

end SharedSys

/-- What is left of a process's call keeps to its discipline. -/
def SharedDisciplined (f ip : ℕ) (X : ℕ → Dinode) (S : SharedSys) (p : ℕ) : Prop :=
  match S.prog p with
  | none => p ∉ S.g.st.inOp
  | some x => Guarded (sharedProtocol p f ip X) (S.g.st.inOp.count p) x fun n _ => n = 0

/-- What holds between any two steps of the processes. -/
structure SharedOk (f ip : ℕ) (X : ℕ → Dinode) (S : SharedSys) : Prop where
  inv : SharedInv f ip X S.g
  count : S.g.st.outstanding = S.g.st.inOp.length
  prog : ∀ p, SharedDisciplined f ip X S p

section
variable {f ip : ℕ} {X : ℕ → Dinode} {A : Nodes} {S T : SharedSys}

/-- The other processes are left alone. -/
lemma sharedDisciplined_setProg_of_ne {p q : ℕ} {g : Shared} {x : Option (SharedM Ret)}
    (hne : q ≠ p) (hcount : g.st.inOp.count q = S.g.st.inOp.count q)
    (h : SharedDisciplined f ip X S q) :
    SharedDisciplined f ip X ({ S with g := g }.setProg p x) q := by
  have hprog : ({ S with g := g }.setProg p x).prog q = S.prog q := Function.update_of_ne hne _ _
  have hst : ({ S with g := g }.setProg p x).g = g := rfl
  unfold SharedDisciplined at h ⊢
  rw [hprog, hst]
  cases hq : S.prog q with
  | none =>
    rw [hq] at h
    exact List.count_eq_zero.mp (hcount.trans (List.count_eq_zero.mpr h))
  | some y =>
    rw [hq] at h
    rw [hcount]
    exact h

lemma SharedOk.enter {p : ℕ} {x : SharedM Ret} (h : SharedOk f ip X S)
    (hx : Guarded (sharedProtocol p f ip X) 0 x fun n _ => n = 0) (hS : S.enter p x = some T) :
    SharedOk f ip X T := by
  unfold SharedSys.enter at hS
  cases hp : S.prog p with
  | some y =>
    rw [hp] at hS
    cases hS
  | none =>
    rw [hp] at hS
    obtain rfl := Option.some.inj hS
    refine ⟨h.inv, h.count, fun q => ?_⟩
    by_cases hq : q = p
    · subst hq
      have hnot := h.prog q
      unfold SharedDisciplined at hnot ⊢
      rw [hp] at hnot
      have hprog : (S.setProg q (some x)).prog q = some x := Function.update_self _ _ _
      have hst : (S.setProg q (some x)).g = S.g := rfl
      have hcount : S.g.st.inOp.count q = 0 := List.count_eq_zero.mpr hnot
      rw [hprog, hst, hcount]
      exact hx
    · exact sharedDisciplined_setProg_of_ne hq rfl (h.prog q)

lemma SharedOk.step {p : ℕ} (h : SharedOk f ip X S) (hS : S.next f (.step p) = some T) :
    SharedOk f ip X T := by
  have hg := h.prog p
  have hnext : S.next f (.step p) = match S.prog p with
    | none => none
    | some (.ret _) => some (S.setProg p none)
    | some (.step _ h k) =>
      match h S.g with
      | .done b g => some ({ S with g := g }.setProg p (some (k b)))
      | .wait => none
      | .stop _ => none := rfl
  rw [hnext] at hS
  unfold SharedDisciplined at hg
  cases hp : S.prog p with
  | none =>
    rw [hp] at hS
    cases hS
  | some x =>
    rw [hp] at hS hg
    cases x with
    | ret r =>
      obtain rfl := Option.some.inj hS
      refine ⟨h.inv, h.count, fun q => ?_⟩
      by_cases hq : q = p
      · subst hq
        have hprog : (S.setProg q none).prog q = none := Function.update_self _ _ _
        unfold SharedDisciplined
        rw [hprog]
        exact List.count_eq_zero.mp hg
      · exact sharedDisciplined_setProg_of_ne hq rfl (h.prog q)
    | step l e k =>
      dsimp only at hS
      have hmeets := hg.2 S.g
      cases he : e S.g with
      | wait =>
        rw [he] at hS
        cases hS
      | stop err =>
        rw [he] at hS
        cases hS
      | done b g =>
        rw [he] at hS hmeets
        obtain rfl := Option.some.inj hS
        -- who is in an operation keeps the count above zero
        have hop : 0 < S.g.st.inOp.count p → 1 ≤ S.g.st.outstanding := by
          intro hpos
          have hle := List.count_le_length (a := p) (l := S.g.st.inOp)
          rw [h.count]
          omega
        obtain ⟨⟨hinv, hchange⟩, hk⟩ := hmeets ⟨h.inv, hop⟩
        -- only this process may have begun or ended an operation
        obtain ⟨hlen, hself, hother⟩ := hchange.counts
          (fun hl => List.count_pos_iff.mp (hg.1 (.inr hl))) h.count
        refine ⟨hinv, hlen, fun q => ?_⟩
        by_cases hqp : q = p
        · subst hqp
          have hprog : ({ S with g := g }.setProg q (some (k b))).prog q = some (k b) :=
            Function.update_self _ _ _
          have hst : ({ S with g := g }.setProg q (some (k b))).g = g := rfl
          unfold SharedDisciplined
          rw [hprog, hst, hself]
          exact hk
        · exact sharedDisciplined_setProg_of_ne hqp (hother q hqp) (h.prog q)

/-- What holds of the system is kept. -/
lemma SharedOk.next {a : SharedAct} (h : SharedOk f ip X S) (hS : S.next f a = some T) :
    SharedOk f ip X T := by
  cases a with
  | read p n => exact h.enter (guarded_sharedRead n failed) hS
  | write p src => exact h.enter (guarded_sharedWrite src failed) hS
  | step p => exact h.step hS

lemma SharedSys.Fresh.ok (h : S.Fresh f X A) : SharedOk f (S.g.st.ftable f).ip X S := by
  have hsize : (S.g.st.cached (S.g.st.ftable f).ip).size = 0 := h.size
  refine ⟨⟨rfl, ⟨A, h.file.toRegularFile⟩, ?_, ?_⟩, ?_, fun p => ?_⟩
  · unfold Node.content
    rw [hsize, h.chunks]
    rfl
  · rw [hsize, h.off]
  · rw [h.file.outstanding, h.inOp]
    rfl
  · unfold SharedDisciplined
    rw [h.prog p, h.inOp]
    exact List.not_mem_nil

/-- However the reads and writes of any number of processes on one open file interleave, the file is
at every moment the concatenation of the chunks that were written, in the order of their locked parts,
and the offset is its size. -/
theorem content_eq_chunks (h : S.Fresh f X A) {as : List SharedAct}
    (hrun : Runs.run (SharedSys.next f) S as = some T) :
    (T.g.st.cached (T.g.st.ftable f).ip).content = T.g.chunks.flatten ∧
      (T.g.st.ftable f).off = (T.g.st.cached (T.g.st.ftable f).ip).size := by
  have hok : SharedOk f (S.g.st.ftable f).ip X T :=
    Runs.invariant (fun _ _ _ hs hstep => SharedOk.next hs hstep) h.ok hrun
  rw [hok.inv.entry]
  exact ⟨hok.inv.content, hok.inv.off⟩

/-- The empty file of `oneFile`, shared. -/
def oneFileShared : SharedSys := ⟨⟨oneFile, []⟩, fun _ => none⟩

lemma fresh_oneFileShared : oneFileShared.Fresh 0 oneFileInodes oneFileNodes := by
  refine ⟨openFile_oneFile, rfl, rfl, fun f' hf' htype => ?_, rfl, rfl, fun _ => rfl⟩
  have hnone : (oneFile.ftable f').type = .FD_NONE := by
    show (if f' = 0 then (⟨.FD_INODE, 1, true, true, 0, 0, 0⟩ : File)
      else ⟨.FD_NONE, 0, false, false, 0, 0, 0⟩).type = _
    rw [if_neg hf']
  have heq : (oneFile.ftable f').type = .FD_INODE := htype
  rw [hnone] at heq
  cases heq

/-- Two processes write; the second one gets the lock first. -/
def twoWriters : List SharedAct :=
  [.write 1 [104, 105], .write 2 [33], .step 1, .step 2, .step 1, .step 2, .step 1, .step 2, .step 2,
    .step 1]

/-- The two writers come in this order. -/
lemma twoWriters_chunks : (Runs.run (SharedSys.next 0) oneFileShared twoWriters).map
    (fun T => T.g.chunks) = some [[33], [104, 105]] := by decide +kernel

/-- The file has what they have written, one behind the other. -/
theorem content_eq_chunks_twoWriters : oneFileShared.Fresh 0 oneFileInodes oneFileNodes ∧
    ∃ T, Runs.run (SharedSys.next 0) oneFileShared twoWriters = some T ∧
      (T.g.st.cached (T.g.st.ftable 0).ip).content = [33, 104, 105] ∧
      (T.g.st.ftable 0).off = (T.g.st.cached (T.g.st.ftable 0).ip).size := by
  obtain ⟨T, hrun, hchunks⟩ := Option.map_eq_some_iff.mp twoWriters_chunks
  have h := content_eq_chunks fresh_oneFileShared hrun
  rw [hchunks] at h
  exact ⟨fresh_oneFileShared, T, hrun, h⟩

end

end Kernel
end OhMyXv6
