import OhMyXv6.Mkfs.Model

/-!
# What `iappend` does

`Holding` is the invariant of the image while inodes are in hand: every file has its contents,
the blocks in use are exactly the first ones of each file, no block is used twice, and the
blocks from `freeblock` on are untouched. `appendRound_spec` says what one round of the loop
does to it and `appendLoop_spec`, by induction on what is left to append, what the loop does.

`Rep` is the same invariant between calls, when the inodes are the ones on the image.
-/

namespace OhMyXv6
namespace Mkfs

open Bytes

/-- A sequence ends well if both its parts do. -/
lemma bind_eq_ok {α β : Type} {m : Except Stop α} {f : α → Except Stop β} {b : β} :
    m >>= f = .ok b ↔ ∃ a, m = .ok a ∧ f a = .ok b := by
  cases m with
  | error e => simp [bind, Except.bind]
  | ok a => simp [bind, Except.bind]

lemma ok_bind {α β : Type} (a : α) (f : α → Except Stop β) :
    (Except.ok a : Except Stop α) >>= f = f a := rfl

/-- What stops in the first part stops. -/
lemma error_bind {α β : Type} (e : Stop) (f : α → Except Stop β) :
    (Except.error e : Except Stop α) >>= f = .error e := rfl

/-- Sector numbers up to the end of the image are not truncated. -/
lemma sector_of_le {b : ℕ} (h : b ≤ FSSIZE + 2) : sector b = b := by
  have hF : FSSIZE = 2000 := rfl
  exact Nat.mod_eq_of_lt (by omega)

/-- A sector inside the image is read as it is. -/
lemma rsect_of_lt {s : St} {b : ℕ} (hlen : s.img.len = FSSIZE) (hb : b < FSSIZE) :
    rsect s b = .ok (s.img.disk b) := by
  rw [rsect, sector_of_le (by omega), if_pos (by omega)]

/-- Behind the image `read` returns too little and `mkfs` exits. -/
lemma rsect_of_le {s : St} {b : ℕ} (hlen : s.img.len = FSSIZE) (hb : FSSIZE ≤ b)
    (hb' : b ≤ FSSIZE + 2) : rsect s b = .error (.exit .read) := by
  rw [rsect, sector_of_le hb', if_neg (by omega)]

/-! ## Counters and tables

`iappend` changes neither the inode counter nor the directory table, whatever the image
holds. -/

/-- Nothing but the image, the block counter and the history has changed. -/
structure Kept (s s' : St) : Prop where
  freeinode : s'.freeinode = s.freeinode
  dirs : s'.dirs = s.dirs
  trace : ∀ e ∈ s.trace, e ∈ s'.trace

namespace Kept

lemma refl (s : St) : Kept s s := ⟨rfl, rfl, fun _ h => h⟩

lemma trans {s t u : St} (h : Kept s t) (h' : Kept t u) : Kept s u :=
  ⟨h'.freeinode.trans h.freeinode, h'.dirs.trans h.dirs, fun e he => h'.trace e (h.trace e he)⟩

lemma wsect (s : St) (sec : ℕ) (buf : Block) : Kept s (wsect s sec buf) :=
  ⟨rfl, rfl, fun _ h => h⟩

lemma log (s : St) (e : Event) : Kept s (log s e) :=
  ⟨rfl, rfl, fun _ h => List.mem_append_left _ h⟩

lemma takeBlock (s : St) : Kept s (takeBlock s) :=
  ⟨rfl, rfl, fun _ h => List.mem_append_left _ h⟩

lemma winode {s s' : St} {inum : ℕ} {ip : Dinode} (h : winode s inum ip = .ok s') :
    Kept s s' := by
  obtain ⟨buf, -, h⟩ := bind_eq_ok.mp h
  cases h
  exact (wsect _ _ _).trans (log _ _)

/-- An entry of the indirect block. -/
lemma entryFor {s s' : St} {din din' : Dinode} {fbn b : ℕ}
    (h : entryFor s din fbn = .ok (s', din', b)) : Kept s s' := by
  obtain ⟨buf, -, h⟩ := bind_eq_ok.mp h
  split at h
  · cases h
    exact (takeBlock _).trans ((wsect _ _ _).trans (log _ _))
  · cases h
    exact refl s

/-- The block of a file block, allocated where it is missing. -/
lemma blockFor {s s' : St} {din din' : Dinode} {fbn b : ℕ}
    (h : blockFor s din fbn = .ok (s', din', b)) : Kept s s' := by
  unfold Mkfs.blockFor at h
  split at h
  · split at h
    · cases h
      exact takeBlock s
    · cases h
      exact refl s
  · split at h
    · exact (takeBlock s).trans (entryFor h)
    · exact entryFor h

/-- One round of `iappend`'s loop. -/
lemma appendRound {s s' : St} {din din' : Dinode} {off n1 : ℕ} {p : List UInt8}
    (h : appendRound s din off p = .ok (s', din', n1)) : Kept s s' := by
  unfold Mkfs.appendRound at h
  dsimp only at h
  split at h
  · obtain ⟨⟨t, din'', b⟩, hb, h⟩ := bind_eq_ok.mp h
    obtain ⟨buf, -, h⟩ := bind_eq_ok.mp h
    cases h
    exact (blockFor hb).trans ((wsect _ _ _).trans (log _ _))
  · cases h

lemma appendLoop {s s' : St} {din din' : Dinode} {off off' : ℕ} {p : List UInt8}
    (h : appendLoop s din off p = .ok (s', din', off')) : Kept s s' := by
  induction s, din, off, p using appendLoop.induct with
  | case1 s din off =>
    rw [Mkfs.appendLoop, if_pos rfl] at h
    cases h
    exact refl _
  | case2 s din off p hp e hround =>
    rw [Mkfs.appendLoop, if_neg hp] at h
    split at h
    · cases h
    · next h' => rw [h'] at hround; cases hround
  | case3 s din off p hp t din'' n1 hround ih =>
    rw [Mkfs.appendLoop, if_neg hp] at h
    split at h
    · cases h
    · next h' =>
      rw [h'] at hround
      cases hround
      exact (appendRound h').trans (ih h)

lemma iappend {s s' : St} {inum : ℕ} {p : List UInt8} (h : iappend s inum p = .ok s') :
    Kept s s' := by
  obtain ⟨din, -, h⟩ := bind_eq_ok.mp h
  obtain ⟨⟨t, din', off⟩, hloop, h⟩ := bind_eq_ok.mp h
  exact (appendLoop hloop).trans (winode h)

end Kept

/-! ## The invariant -/

/-- The inodes in use. -/
def Live (n i : ℕ) : Prop := 1 ≤ i ∧ i ≤ n

/-- An event stayed within what has been handed out. -/
def Event.Within (n fb : ℕ) : Event → Prop
  | .inode i => i < n
  | .block b => b < fb
  | .winode sec => ∃ i < n, sec = IBLOCK sb i
  | .wdata sec => nmeta ≤ sec ∧ sec < fb

/-- An event stays within larger bounds. -/
lemma Event.Within.mono {n n' fb fb' : ℕ} {e : Event} (h : e.Within n fb) (hn : n ≤ n')
    (hfb : fb ≤ fb') : e.Within n' fb' := by
  cases e with
  | inode i => exact Nat.lt_of_lt_of_le h hn
  | block b => exact Nat.lt_of_lt_of_le h hfb
  | winode sec =>
    obtain ⟨i, hi, heq⟩ := h
    exact ⟨i, Nat.lt_of_lt_of_le hi hn, heq⟩
  | wdata sec => exact ⟨h.1, Nat.lt_of_lt_of_le h.2 hfb⟩

/-- The slots in use of a file with `nb` blocks. -/
def slots (nb t : ℕ) : Prop := t < nb ∧ t < MAXFILE ∨ t = MAXFILE ∧ NDIRECT < nb

/-- The image holds `n` files: file `i` has inode `x i`, contents `c i`, and uses the slots
`U i`. -/
structure Holding (s : St) (n : ℕ) (x : ℕ → Dinode) (c : ℕ → List UInt8) (U : ℕ → ℕ → Prop) :
    Prop where
  len : s.img.len = FSSIZE
  lo : nmeta ≤ s.freeblock
  stores : Stores s.img.disk (Live n) x (fun i => ofList (c i)) nmeta s.freeblock
  used : ∀ i t, Live n i → (ref s.img.disk (x i) t ≠ 0 ↔ U i t)
  fresh : ∀ b, s.freeblock ≤ b → s.img.disk b = zeroBlock
  events : ∀ e ∈ s.trace, e.Within s.freeinode s.freeblock

namespace Holding

variable {s s' : St} {n i : ℕ} {x : ℕ → Dinode} {c : ℕ → List UInt8} {U U' : ℕ → ℕ → Prop}

/-- Only the use of the blocks of live inodes counts. -/
lemma congr (h : Holding s n x c U) (heq : ∀ j t, Live n j → (U j t ↔ U' j t)) :
    Holding s n x c U' :=
  ⟨h.len, h.lo, h.stores, fun j t hj => (h.used j t hj).trans (heq j t hj), h.fresh, h.events⟩

/-- The blocks of an inode lie between the metadata and the next free block. -/
lemma addr_lt (h : Holding s n x c U) (hi : Live n i) {t : ℕ} (hne : ref s.img.disk (x i) t ≠ 0) :
    nmeta ≤ ref s.img.disk (x i) t ∧ ref s.img.disk (x i) t < s.freeblock :=
  h.stores.owned.range i t hi hne

/-- Slot `t` of file `i` is given the next free block. Only that block and the indirect block
of the file may have been written. -/
theorem take (h : Holding s n x c U) (hi : Live n i) {t : ℕ} (h0 : ¬ U i t) {xi : Dinode}
    (hlen : s'.img.len = s.img.len) (hfb : s'.freeblock = s.freeblock + 1)
    (href : ∀ u, ref s'.img.disk xi u = if u = t then s.freeblock else ref s.img.disk (x i) u)
    (hframe : ∀ b, (x i).addr NDIRECT = 0 ∨ b ≠ (x i).addr NDIRECT →
      s'.img.disk b = s.img.disk b)
    (hevents : ∀ e ∈ s'.trace, e.Within s'.freeinode s'.freeblock) :
    Holding s' n (Function.update x i xi) c (Function.update U i fun u => u = t ∨ U i u) := by
  have hmeta : nmeta = 59 := rfl
  have hlo := h.lo
  have hfresh := h.stores.owned.ne_of_le (by omega) (Nat.le_refl s.freeblock)
  -- the indirect block of the file is not among the untouched blocks
  have hind : ∀ b, s.freeblock ≤ b → (x i).addr NDIRECT = 0 ∨ b ≠ (x i).addr NDIRECT := by
    intro b hb
    by_cases hz : (x i).addr NDIRECT = 0
    · exact .inl hz
    · have hr := h.addr_lt hi (t := MAXFILE) (by rw [ref_maxfile]; exact hz)
      rw [ref_maxfile] at hr
      exact .inr (by omega)
  have hunused : ref s.img.disk (x i) t = 0 := by
    by_contra hne
    exact h0 ((h.used i t hi).mp hne)
  refine ⟨hlen.trans h.len, by omega, ?_, ?_, ?_, hevents⟩
  · refine h.stores.alloc hi hlo (by omega) (by omega) (by omega) hfresh hunused href
      (fun b _ _ hb => hframe b hb) fun k => ?_
    rw [hframe _ (hind _ (Nat.le_refl _)), h.fresh _ (Nat.le_refl _)]
    rfl
  · intro j u hj
    by_cases hji : j = i
    · subst hji
      rw [Function.update_self, Function.update_self, href]
      split
      · next hu => simp only [hu, true_or, iff_true]; omega
      · next hu => simp only [hu, false_or]; exact h.used j u hj
    · rw [Function.update_of_ne hji, Function.update_of_ne hji, ← h.used j u hj]
      rw [ref_congr]
      intro hz
      exact hframe _ (by
        by_cases hzi : (x i).addr NDIRECT = 0
        · exact .inl hzi
        · exact .inr (h.stores.indirect_inj hi hj (Ne.symm hji) hz))
  · intro b hb
    rw [hframe b (hind b (by omega)), h.fresh b (by omega)]

end Holding

/-! ## One round of the loop -/

section
variable {s : St} {n i : ℕ} {x : ℕ → Dinode} {c : ℕ → List UInt8} {U : ℕ → ℕ → Prop}

/-- Taking a block is an event within the new bounds. -/
lemma Holding.events_takeBlock (h : Holding s n x c U) :
    ∀ e ∈ (takeBlock s).trace, e.Within (takeBlock s).freeinode (takeBlock s).freeblock := by
  intro e he
  rcases List.mem_append.mp he with he | he
  · exact (h.events e he).mono (Nat.le_refl _) (Nat.le_succ _)
  · rw [List.mem_singleton.mp he]
    exact Nat.lt_succ_self _

/-- A direct address is given the next free block. -/
lemma Holding.takeDirect (h : Holding s n x c U) (hi : Live n i) {k : ℕ} (hk : k < NDIRECT)
    (h0 : ¬ U i k) :
    Holding (takeBlock s) n (Function.update x i ((x i).setAddr k s.freeblock)) c
      (Function.update U i fun u => u = k ∨ U i u) :=
  h.take hi h0 rfl rfl (fun _ => ref_setAddr_direct hk) (fun _ _ => rfl) h.events_takeBlock

/-- The pointer to the indirect block is given the next free block. -/
theorem Holding.takeIndirect (h : Holding s n x c U) (hi : Live n i)
    (h0 : (x i).addr NDIRECT = 0) :
    Holding (takeBlock s) n (Function.update x i ((x i).setAddr NDIRECT s.freeblock)) c
      (Function.update U i fun u => u = MAXFILE ∨ U i u) := by
  refine h.take hi (fun hU => ?_) rfl rfl (fun u => ?_) (fun _ _ => rfl) h.events_takeBlock
  · have := (h.used i MAXFILE hi).mpr hU
    rw [ref_maxfile] at this
    exact this h0
  · refine ref_setAddr_indirect h0 fun k => ?_
    show entry (s.img.disk s.freeblock) k = 0
    rw [h.fresh _ (Nat.le_refl _), entry_zeroBlock]

/-- An entry of the indirect block is given the next free block. -/
lemma Holding.takeEntry (h : Holding s n x c U) (hi : Live n i) {k : ℕ} (hk : k < NINDIRECT)
    (hind : (x i).addr NDIRECT ≠ 0) (hlt : (x i).addr NDIRECT < FSSIZE)
    (hfb : s.freeblock ≤ FSSIZE + 2) (h0 : ¬ U i (NDIRECT + k)) :
    Holding (log (wsect (takeBlock s) ((x i).addr NDIRECT)
        (setEntry (s.img.disk ((x i).addr NDIRECT)) k s.freeblock))
        (.wdata (sector ((x i).addr NDIRECT)))) n x c
      (Function.update U i fun u => u = NDIRECT + k ∨ U i u) := by
  have hF : FSSIZE = 2000 := rfl
  have hsec : sector ((x i).addr NDIRECT) = (x i).addr NDIRECT := sector_of_le (by omega)
  have hlen := h.len
  have hdisk : (wsect (takeBlock s) ((x i).addr NDIRECT)
      (setEntry (s.img.disk ((x i).addr NDIRECT)) k s.freeblock)).img.disk
      = Function.update s.img.disk ((x i).addr NDIRECT)
        (setEntry (s.img.disk ((x i).addr NDIRECT)) k s.freeblock) := by
    unfold wsect
    rw [hsec]
    rfl
  have hrange := h.addr_lt hi (t := MAXFILE) (by rw [ref_maxfile]; exact hind)
  rw [ref_maxfile] at hrange
  have htake : Holding (log (wsect (takeBlock s) ((x i).addr NDIRECT)
        (setEntry (s.img.disk ((x i).addr NDIRECT)) k s.freeblock))
        (.wdata (sector ((x i).addr NDIRECT)))) n (Function.update x i (x i)) c
      (Function.update U i fun u => u = NDIRECT + k ∨ U i u) := by
    refine h.take hi h0 ?_ rfl (fun u => ?_) (fun b hb => ?_) fun e he => ?_
    · show max s.img.len (sector ((x i).addr NDIRECT) + 1) = s.img.len
      omega
    · show ref (wsect (takeBlock s) _ _).img.disk (x i) u = _
      rw [hdisk, ref_setEntry hk (by omega) hind]
    · show (wsect (takeBlock s) _ _).img.disk b = _
      rw [hdisk]
      exact Function.update_of_ne (hb.resolve_left hind) _ _
    · rcases List.mem_append.mp he with he | he
      · exact h.events_takeBlock e he
      · rw [List.mem_singleton.mp he, hsec]
        exact ⟨hrange.1, Nat.lt_succ_of_lt hrange.2⟩
  rwa [Function.update_eq_self] at htake

/-- What appending leaves alone: everything before the data blocks and every field of the
inode but the addresses. At most `k` blocks are taken. -/
structure Took (k : ℕ) (s s' : St) (y y' : Dinode) : Prop where
  below : ∀ b < nmeta, s'.img.disk b = s.img.disk b
  le : s.freeblock ≤ s'.freeblock
  le' : s'.freeblock ≤ s.freeblock + k
  same : y' = { y with addrs := y'.addrs }

end

section
variable {s : St} {n i nb fbn : ℕ} {x : ℕ → Dinode} {c : ℕ → List UInt8} {U : ℕ → ℕ → Prop}

lemma Took.refl (k : ℕ) (s : St) (y : Dinode) : Took k s s y y :=
  ⟨fun _ _ => rfl, Nat.le_refl _, Nat.le_add_right _ _, rfl⟩

lemma Took.trans {k l : ℕ} {s t u : St} {y z w : Dinode} (h : Took k s t y z)
    (h' : Took l t u z w) : Took (k + l) s u y w := by
  have h1 := h.le
  have h2 := h'.le
  have h3 := h.le'
  have h4 := h'.le'
  refine ⟨fun b hb => (h'.below b hb).trans (h.below b hb), by omega, by omega, ?_⟩
  rw [h'.same, h.same]

/-- The outcome of `blockFor`: it gives the block an address and keeps the invariant, or the
image is full. -/
def BlockForOk (s : St) (n i : ℕ) (x : ℕ → Dinode) (c : ℕ → List UInt8) (U : ℕ → ℕ → Prop)
    (nb fbn : ℕ) : Prop :=
  (∃ s' y, blockFor s (x i) fbn = .ok (s', y, dataAddr s'.img.disk y fbn) ∧
    Holding s' n (Function.update x i y) c (Function.update U i (slots (max nb (fbn + 1)))) ∧
    Took 2 s s' (x i) y ∧
    (s'.freeblock = s.freeblock ∨ s'.freeblock = dataAddr s'.img.disk y fbn + 1)) ∨
  ((∃ e, blockFor s (x i) fbn = .error e) ∧ FSSIZE ≤ s.freeblock)

/-- A direct block: there already, or the next free one. -/
lemma blockFor_direct (h : Holding s n x c U) (hi : Live n i) (hU : ∀ t, U i t ↔ slots nb t)
    (hfbn : fbn < NDIRECT) (hnb : fbn ≤ nb) : BlockForOk s n i x c U nb fbn := by
  have hND : NDIRECT = 12 := rfl
  have hMAX : MAXFILE = 140 := rfl
  have haddr : ∀ y d, dataAddr d y fbn = y.addr fbn := fun y d => if_pos hfbn
  have hused : (x i).addr fbn ≠ 0 ↔ slots nb fbn := by
    rw [← hU, ← h.used i fbn hi, ref_of_lt (by omega), haddr]
  left
  by_cases h0 : (x i).addr fbn = 0
  · have hnot : ¬ slots nb fbn := fun hs => hused.mpr hs h0
    have heq : fbn = nb := by
      unfold slots at hnot
      omega
    refine ⟨takeBlock s, (x i).setAddr fbn s.freeblock, ?_, ?_, ?_, .inr ?_⟩
    · rw [blockFor, if_pos hfbn, if_pos h0, haddr, Dinode.addr_setAddr (by omega)]
    · refine (h.takeDirect hi hfbn (by rwa [hU])).congr fun j t _ => ?_
      by_cases hji : j = i
      · subst hji
        rw [Function.update_self, Function.update_self, hU]
        unfold slots
        omega
      · rw [Function.update_of_ne hji, Function.update_of_ne hji]
    · exact ⟨fun _ _ => rfl, Nat.le_succ _, Nat.le_succ _, rfl⟩
    · rw [haddr, Dinode.addr_setAddr (by omega)]
      rfl
  · have hlt : fbn < nb := by
      have := hused.mp h0
      unfold slots at this
      omega
    refine ⟨s, x i, ?_, ?_, Took.refl 2 s _, .inl rfl⟩
    · rw [blockFor, if_pos hfbn, if_neg h0, haddr]
    · rw [Function.update_eq_self]
      refine h.congr fun j t _ => ?_
      by_cases hji : j = i
      · subst hji
        rw [Function.update_self, hU, Nat.max_eq_left hlt]
      · rw [Function.update_of_ne hji]

/-- An entry of the indirect block: there already, or the next free block, written back. -/
lemma entryFor_spec (h : Holding s n x c U) (hi : Live n i) (hlo : NDIRECT ≤ fbn)
    (hhi : fbn < MAXFILE) (hind : (x i).addr NDIRECT ≠ 0) (hlt : (x i).addr NDIRECT < FSSIZE)
    (hfb : s.freeblock ≤ FSSIZE + 1) :
    ∃ s', entryFor s (x i) fbn = .ok (s', x i, dataAddr s'.img.disk (x i) fbn) ∧
      Holding s' n x c (Function.update U i fun u => u = fbn ∨ U i u) ∧
      (∀ b < nmeta, s'.img.disk b = s.img.disk b) ∧
      s.freeblock ≤ s'.freeblock ∧ s'.freeblock ≤ s.freeblock + 1 ∧
      (s'.freeblock = s.freeblock ∧ U i fbn ∨
        s'.freeblock = dataAddr s'.img.disk (x i) fbn + 1) := by
  have hND : NDIRECT = 12 := rfl
  have hMAX : MAXFILE = 140 := rfl
  have hNI : NINDIRECT = 128 := rfl
  have hF : FSSIZE = 2000 := rfl
  have haddr : ∀ d, dataAddr d (x i) fbn = entry (d ((x i).addr NDIRECT)) (fbn - NDIRECT) := by
    intro d
    rw [dataAddr, if_neg (by omega), if_pos ⟨hhi, hind⟩]
  have hused := h.used i fbn hi
  rw [ref_of_lt hhi, haddr] at hused
  unfold entryFor
  rw [rsect_of_lt h.len hlt, ok_bind]
  have hsec : sector ((x i).addr NDIRECT) = (x i).addr NDIRECT := sector_of_le (by omega)
  -- a new block is written into the entry, or it has one already
  by_cases h0 : entry (s.img.disk ((x i).addr NDIRECT)) (fbn - NDIRECT) = 0
  · have hnot : ¬ U i (NDIRECT + (fbn - NDIRECT)) := by
      rw [Nat.add_sub_cancel' hlo]
      exact fun hU => hused.mpr hU h0
    have htake := h.takeEntry hi (by omega) hind hlt (by omega) hnot
    rw [Nat.add_sub_cancel' hlo] at htake
    have hval : dataAddr (log (wsect (takeBlock s) ((x i).addr NDIRECT)
        (setEntry (s.img.disk ((x i).addr NDIRECT)) (fbn - NDIRECT) s.freeblock))
        (.wdata (sector ((x i).addr NDIRECT)))).img.disk (x i) fbn = s.freeblock := by
      rw [haddr]
      show entry (Function.update s.img.disk (sector ((x i).addr NDIRECT)) _
        ((x i).addr NDIRECT)) (fbn - NDIRECT) = s.freeblock
      rw [hsec, Function.update_self, entry_setEntry (by omega)]
    rw [if_pos h0]
    refine ⟨_, by rw [hval]; rfl, htake, fun b hb => ?_, Nat.le_succ _, Nat.le_refl _,
      .inr (by rw [hval]; rfl)⟩
    have hrange := h.addr_lt hi (t := MAXFILE) (by rw [ref_maxfile]; exact hind)
    rw [ref_maxfile] at hrange
    show Function.update s.img.disk (sector ((x i).addr NDIRECT)) _ b = _
    rw [hsec, Function.update_of_ne (by omega)]
  · rw [if_neg h0]
    refine ⟨s, by rw [haddr]; rfl, h.congr fun j t _ => ?_, fun _ _ => rfl, Nat.le_refl _,
      Nat.le_succ _, .inl ⟨rfl, hused.mp h0⟩⟩
    by_cases hji : j = i
    · subst hji
      rw [Function.update_self]
      constructor
      · exact .inr
      · rintro (rfl | hU)
        · exact hused.mp h0
        · exact hU
    · rw [Function.update_of_ne hji]

/-- A block behind the direct ones; the indirect block may be new as well. -/
lemma blockFor_indirect (h : Holding s n x c U) (hi : Live n i) (hU : ∀ t, U i t ↔ slots nb t)
    (hfb : s.freeblock ≤ FSSIZE) (hlo : NDIRECT ≤ fbn) (hhi : fbn < MAXFILE) (hnb : fbn ≤ nb) :
    BlockForOk s n i x c U nb fbn := by
  have hND : NDIRECT = 12 := rfl
  have hMAX : MAXFILE = 140 := rfl
  have hused := h.used i MAXFILE hi
  rw [ref_maxfile, hU] at hused
  unfold BlockForOk
  rw [blockFor, if_neg (by omega)]
  by_cases h0 : (x i).addr NDIRECT = 0
  · rw [if_pos h0]
    have heq : nb = NDIRECT := by
      have hnot : ¬ slots nb MAXFILE := fun hs => hused.mpr hs h0
      unfold slots at hnot
      omega
    have hnew : ((x i).setAddr NDIRECT s.freeblock).addr NDIRECT = s.freeblock :=
      Dinode.addr_setAddr (by decide)
    by_cases hfull : s.freeblock < FSSIZE
    · -- the pointer first, then the entry
      left
      have htake := h.takeIndirect hi h0
      have hmeta : nmeta = 59 := rfl
      have hlo' := h.lo
      obtain ⟨s', hrun, hold, hbelow, hle, hle', hnext⟩ := entryFor_spec htake hi hlo hhi
        (by rw [Function.update_self, hnew]; omega) (by rw [Function.update_self, hnew]; omega)
        (show s.freeblock + 1 ≤ _ by omega)
      simp only [Function.update_self] at hrun hnext
      refine ⟨s', _, hrun, hold.congr fun j t _ => ?_, ⟨hbelow, ?_, ?_, rfl⟩, .inr ?_⟩
      · by_cases hji : j = i
        · subst hji
          simp only [Function.update_self]
          rw [hU]
          unfold slots
          omega
        · simp only [Function.update_of_ne hji]
      · exact Nat.le_trans (Nat.le_succ _) hle
      · exact hle'
      · rcases hnext with ⟨-, hold'⟩ | hnext
        · rw [hU] at hold'
          unfold slots at hold'
          omega
        · exact hnext
    · right
      refine ⟨⟨.exit .read, ?_⟩, by omega⟩
      rw [entryFor, hnew, rsect_of_le (s := takeBlock s) h.len (by omega) (by omega), error_bind]
  · rw [if_neg h0]
    left
    have hrange := h.addr_lt hi (t := MAXFILE) (by rw [ref_maxfile]; exact h0)
    rw [ref_maxfile] at hrange
    obtain ⟨s', hrun, hold, hbelow, hle, hle', hnext⟩ :=
      entryFor_spec h hi hlo hhi h0 (by omega) (by omega)
    refine ⟨s', x i, hrun, ?_, ⟨hbelow, hle, by omega, rfl⟩, hnext.imp_left And.left⟩
    rw [Function.update_eq_self]
    refine hold.congr fun j t _ => ?_
    by_cases hji : j = i
    · subst hji
      rw [Function.update_self, Function.update_self, hU]
      have hnb' := hused.mp h0
      unfold slots at hnb' ⊢
      omega
    · rw [Function.update_of_ne hji, Function.update_of_ne hji]

lemma blockFor_spec (h : Holding s n x c U) (hi : Live n i) (hU : ∀ t, U i t ↔ slots nb t)
    (hfb : s.freeblock ≤ FSSIZE) (hfbn : fbn < MAXFILE) (hnb : fbn ≤ nb) :
    BlockForOk s n i x c U nb fbn := by
  by_cases hlt : fbn < NDIRECT
  · exact blockFor_direct h hi hU hlt hnb
  · exact blockFor_indirect h hi hU hfb (by omega) hfbn hnb

/-- The blocks of a file of `len` bytes. -/
def blocks (len : ℕ) : ℕ := (len + BSIZE - 1) / BSIZE

/-- The outcome of a round: what it appended, or why it failed. -/
def RoundOk (s : St) (n i : ℕ) (x : ℕ → Dinode) (c : ℕ → List UInt8) (U : ℕ → ℕ → Prop)
    (p : List UInt8) : Prop :=
  (∃ s' y n1, appendRound s (x i) (c i).length p = .ok (s', y, n1) ∧ 0 < n1 ∧ n1 ≤ p.length ∧
    Holding s' n (Function.update x i y) (Function.update c i (c i ++ p.take n1))
      (Function.update U i (slots (blocks ((c i).length + n1)))) ∧
    Took 2 s s' (x i) y ∧ s'.freeblock ≤ FSSIZE ∧ (c i).length + n1 ≤ MAXFILE * BSIZE) ∨
  ((∃ e, appendRound s (x i) (c i).length p = .error e) ∧
    (MAXFILE * BSIZE ≤ (c i).length ∨ FSSIZE ≤ s.freeblock + 1))

/-- Bytes put into a data block of file `i`. -/
lemma Holding.write (h : Holding s n x c U) (hi : Live n i) {b n1 : ℕ} {p : List UInt8}
    (hb : dataAddr s.img.disk (x i) ((c i).length / BSIZE) = b) (hb0 : b ≠ 0) (hlt : b < FSSIZE)
    (hn1 : n1 ≤ p.length) (hn : (c i).length + n1 ≤ ((c i).length / BSIZE + 1) * BSIZE) :
    Holding (log (wsect s b (blit (s.img.disk b) ((c i).length - (c i).length / BSIZE * BSIZE) n1
        (ofList p))) (.wdata (sector b))) n x (Function.update c i (c i ++ p.take n1)) U ∧
      nmeta ≤ b := by
  have hne : dataAddr s.img.disk (x i) ((c i).length / BSIZE) ≠ 0 := by rwa [hb]
  have hs := lt_of_dataAddr_ne_zero hne
  have hrange := h.addr_lt hi (t := (c i).length / BSIZE) (by rwa [ref_of_lt hs])
  rw [ref_of_lt hs, hb] at hrange
  have hF : FSSIZE = 2000 := rfl
  have hsec : sector b = b := sector_of_le (by omega)
  have hlen := h.len
  have hdisk : ∀ w, (wsect s b w).img.disk = Function.update s.img.disk b w := by
    intro w
    unfold wsect
    rw [hsec]
  have hstores := h.stores.write (ofList p) hi hne hn
  rw [← ofList_append_take _ _ hn1, hb] at hstores
  refine ⟨⟨?_, h.lo, ?_, ?_, ?_, ?_⟩, hrange.1⟩
  · show max s.img.len (sector b + 1) = FSSIZE
    omega
  · show Stores (wsect s b _).img.disk _ _ _ _ _
    rw [hdisk]
    refine ⟨hstores.owned, fun j off hj => ?_⟩
    rw [hstores.byte j off hj]
    -- no other file owns the block that is written
    by_cases hji : j = i
    · subst hji
      rw [Function.update_self, Function.update_self]
    · rw [Function.update_of_ne hji, Function.update_of_ne hji]
  · intro j t hj
    rw [← h.used j t hj]
    show ref (wsect s b _).img.disk _ _ ≠ 0 ↔ _
    rw [hdisk, ref_congr]
    rw [← hb]
    exact h.stores.addr_update hi hj hne _
  · intro b' hb'
    show (wsect s b _).img.disk b' = _
    have hb'' : s.freeblock ≤ b' := hb'
    rw [hdisk, Function.update_of_ne (by omega), h.fresh b' hb']
  · intro e he
    rcases List.mem_append.mp he with he | he
    · exact h.events e he
    · rw [List.mem_singleton.mp he, hsec]
      exact hrange

/-- One round appends what fits into the current block. -/
lemma appendRound_spec (h : Holding s n x c U) (hi : Live n i)
    (hU : ∀ t, U i t ↔ slots (blocks (c i).length) t) (hfb : s.freeblock ≤ FSSIZE)
    {p : List UInt8} (hp : p ≠ []) : RoundOk s n i x c U p := by
  have hB : BSIZE = 512 := rfl
  have hpos : 0 < p.length := List.length_pos_iff.mpr hp
  have hnb : (c i).length / BSIZE ≤ blocks (c i).length := by
    simp only [blocks, hB]
    omega
  unfold RoundOk appendRound
  dsimp only
  -- the file is full, or it has a block for this round
  by_cases hmax : (c i).length / BSIZE < MAXFILE
  · rw [if_pos hmax]
    obtain ⟨n1, hn1⟩ : ∃ n1, n1 = min p.length (((c i).length / BSIZE + 1) * BSIZE - (c i).length) :=
      ⟨_, rfl⟩
    have hn1pos : 0 < n1 := by
      simp only [hB] at hn1
      omega
    rcases blockFor_spec h hi hU hfb hmax hnb with ⟨s', y, hrun, hold, htook, hnext⟩ | ⟨⟨e, hrun⟩, hfull⟩
    · rw [hrun, ok_bind]
      dsimp only
      have hslots : slots (max (blocks (c i).length) ((c i).length / BSIZE + 1))
          ((c i).length / BSIZE) := .inl ⟨by omega, hmax⟩
      have hne : dataAddr s'.img.disk y ((c i).length / BSIZE) ≠ 0 := by
        have := (hold.used i ((c i).length / BSIZE) hi).mpr (by rw [Function.update_self]; exact hslots)
        rwa [Function.update_self, ref_of_lt hmax] at this
      have hrange := hold.addr_lt hi (t := (c i).length / BSIZE)
        (by rwa [Function.update_self, ref_of_lt hmax])
      rw [Function.update_self, ref_of_lt hmax] at hrange
      have hle := htook.le
      have hle' := htook.le'
      -- the block just given out may lie behind the end of the image
      by_cases hlt : dataAddr s'.img.disk y ((c i).length / BSIZE) < FSSIZE
      · left
        rw [rsect_of_lt hold.len hlt, ok_bind, ← hn1]
        obtain ⟨hwrite, hmeta⟩ := hold.write hi (by rw [Function.update_self]) hne hlt
          (show n1 ≤ p.length by omega) (by simp only [hB] at hn1 ⊢; omega)
        refine ⟨_, y, n1, rfl, hn1pos, by omega, hwrite.congr fun j t _ => ?_,
          ⟨fun b hb => ?_, hle, hle', htook.same⟩, ?_, ?_⟩
        · have hblocks : max (blocks (c i).length) ((c i).length / BSIZE + 1)
              = blocks ((c i).length + n1) := by
            simp only [blocks, hB] at hn1 ⊢
            omega
          rw [hblocks]
        · show Function.update s'.img.disk (sector _) _ b = _
          have hF : FSSIZE = 2000 := rfl
          rw [sector_of_le (by omega), Function.update_of_ne (by omega)]
          exact htook.below b hb
        · show s'.freeblock ≤ FSSIZE
          omega
        · have hMAX : MAXFILE = 140 := rfl
          simp only [hB, hMAX] at hmax hn1 ⊢
          omega
      · right
        have hF : FSSIZE = 2000 := rfl
        rw [rsect_of_le hold.len (by omega) (by omega), error_bind]
        exact ⟨⟨_, rfl⟩, .inr (by omega)⟩
    · right
      rw [hrun, error_bind]
      exact ⟨⟨_, rfl⟩, .inr (by omega)⟩
  · right
    rw [if_neg hmax]
    refine ⟨⟨_, rfl⟩, .inl ?_⟩
    have hMAX : MAXFILE = 140 := rfl
    simp only [hB, hMAX] at hmax ⊢
    omega

/-! ## The loop -/

/-- A round that goes well leaves the rest to the loop. -/
lemma appendLoop_of_ok {s s' : St} {din din' : Dinode} {off n1 : ℕ} {p : List UInt8}
    (hp : p ≠ []) (h : appendRound s din off p = .ok (s', din', n1)) :
    appendLoop s din off p = appendLoop s' din' (off + n1) (p.drop n1) := by
  rw [appendLoop, if_neg hp]
  split
  · next h' => rw [h'] at h; cases h
  · next h' =>
    rw [h'] at h
    cases h
    rfl

/-- A round that stops ends the loop. -/
lemma appendLoop_of_error {s : St} {din : Dinode} {off : ℕ} {p : List UInt8} {e : Stop}
    (hp : p ≠ []) (h : appendRound s din off p = .error e) :
    appendLoop s din off p = .error e := by
  rw [appendLoop, if_neg hp]
  split
  · next h' =>
    rw [h'] at h
    cases h
    rfl
  · next h' => rw [h'] at h; cases h

/-- The outcome of the loop: all of `p` is appended, or the file or the image is full. -/
def LoopOk (s : St) (n i : ℕ) (x : ℕ → Dinode) (c : ℕ → List UInt8) (U : ℕ → ℕ → Prop)
    (p : List UInt8) : Prop :=
  (∃ s' y, appendLoop s (x i) (c i).length p = .ok (s', y, (c i ++ p).length) ∧
    Holding s' n (Function.update x i y) (Function.update c i (c i ++ p))
      (Function.update U i (slots (blocks (c i ++ p).length))) ∧
    Took (2 * p.length) s s' (x i) y ∧ s'.freeblock ≤ FSSIZE ∧
    (p ≠ [] → (c i ++ p).length ≤ MAXFILE * BSIZE)) ∨
  ((∃ e, appendLoop s (x i) (c i).length p = .error e) ∧
    (MAXFILE * BSIZE < (c i ++ p).length ∨ FSSIZE ≤ s.freeblock + 2 * p.length))

/-- By induction on what is left: all of it is appended, or the image or the file is full. -/
lemma appendLoop_spec (h : Holding s n x c U) (hi : Live n i)
    (hU : ∀ t, U i t ↔ slots (blocks (c i).length) t) (hfb : s.freeblock ≤ FSSIZE)
    (p : List UInt8) : LoopOk s n i x c U p := by
  -- induction on what is left to append; the inode in hand and the contents change
  obtain ⟨k, hk⟩ : ∃ k, p.length = k := ⟨_, rfl⟩
  induction k using Nat.strongRecOn generalizing s x c U p with
  | ind k ih =>
    by_cases hp : p = []
    · subst hp
      left
      refine ⟨s, x i, by rw [appendLoop, if_pos rfl, List.append_nil], ?_, Took.refl _ s _, hfb,
        fun h => absurd rfl h⟩
      rw [List.append_nil, Function.update_eq_self, Function.update_eq_self]
      refine h.congr fun j t _ => ?_
      by_cases hji : j = i
      · subst hji
        rw [Function.update_self, hU]
      · rw [Function.update_of_ne hji]
    · have hlen : 0 < p.length := List.length_pos_iff.mpr hp
      rcases appendRound_spec h hi hU hfb hp with
        ⟨s', y, n1, hrun, hpos, hn1, hold, htook, hfb', hmax⟩ | ⟨⟨e, hrun⟩, hwhy⟩
      · have htake : (p.take n1).length = n1 := List.length_take_of_le hn1
        have hrest : c i ++ p.take n1 ++ p.drop n1 = c i ++ p := by
          rw [List.append_assoc, List.take_append_drop]
        have hdrop : (p.drop n1).length = p.length - n1 := List.length_drop
        have hU' : ∀ t, Function.update U i (slots (blocks ((c i).length + n1))) i t ↔
            slots (blocks (Function.update c i (c i ++ p.take n1) i).length) t := by
          intro t
          rw [Function.update_self, Function.update_self, List.length_append, htake]
        have hle := htook.le'
        rcases ih (p.drop n1).length (by omega) hold hU' hfb' (p.drop n1) rfl with
          ⟨s'', z, hloop, hold', htook', hfb'', hmax'⟩ | ⟨⟨e, hloop⟩, hwhy⟩
        · left
          simp only [Function.update_self, Function.update_idem, hrest, List.length_append, htake]
            at hloop hold' htook' hmax'
          refine ⟨s'', z, ?_, ?_, ?_, hfb'', fun _ => ?_⟩
          · rw [appendLoop_of_ok hp hrun, hloop, List.length_append]
          · rwa [List.length_append]
          · have := htook.trans htook'
            exact ⟨this.below, this.le, Nat.le_trans this.le' (by omega), this.same⟩
          · rw [List.length_append]
            by_cases hnil : p.drop n1 = []
            · rw [hnil] at hdrop
              simp only [List.length_nil] at hdrop
              omega
            · have := hmax' hnil
              omega
        · right
          simp only [Function.update_self, hrest, List.length_append, htake] at hloop hwhy
          refine ⟨⟨e, ?_⟩, ?_⟩
          · rw [appendLoop_of_ok hp hrun, hloop]
          · rw [List.length_append]
            omega
      · right
        refine ⟨⟨e, appendLoop_of_error hp hrun⟩, ?_⟩
        rw [List.length_append]
        omega

end

end Mkfs
end OhMyXv6
