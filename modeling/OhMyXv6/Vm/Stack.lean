import OhMyXv6.Lib.Stores
import OhMyXv6.Vm.Arguments

/-!
# What `main` finds

The new program reads its memory through the new page table: what `exec` has copied to a page is there, on
top of what the page held before. The strings, the vector of their addresses and the return word lie below
each other in the page of the stack.
-/

namespace OhMyXv6
namespace Vm

open Bytes Fallible

/-- What is stored in the page of the copy. -/
def Stored.store (c : Stored) : Store := ⟨c.va % PGSIZE, c.bytes⟩

/-- The bytes of a page, after what was copied to it. -/
def Loader.page (s : Loader) (f : ℕ) : ℕ → UInt8 :=
  replay (s.mem.data f) (((s.loads ++ s.args).filter fun c => c.frame = f).map Stored.store)

/-- The byte at a user address. -/
def Loader.byte (s : Loader) (d va : ℕ) : Option UInt8 :=
  (find s.mem d (path (va / PGSIZE))).map fun f => s.page f (va % PGSIZE)

/-- From the address on there are these bytes. -/
def Loader.Reads (s : Loader) (d va : ℕ) (bytes : List UInt8) : Prop :=
  ∀ j (hj : j < bytes.length), s.byte d (va + j) = some bytes[j]

/-- A piece of memory, by its address and its length. -/
abbrev Piece := ℕ × ℕ

/-- The return word, the vector, and the strings at the addresses `addrs`. -/
def pieces (img : Committed) (addrs : List ℕ) (argv : List (List UInt8)) : List Piece :=
  (img.rsp, 8) :: (img.rsi, (argv.length + 1) * 8) :: List.zipWith (fun a arg => (a, arg.length + 1)) addrs argv

/-- The arguments are there for `main`, with the strings at the addresses `addrs`. -/
structure Arrived (t : Loader) (img : Committed) (argv : List (List UInt8)) (addrs : List ℕ) : Prop where
  length : addrs.length = argv.length
  rdi : img.rdi = argv.length
  rsi : img.rsi = img.rsp + 8
  strings : ∀ i (hi : i < argv.length) (ha : i < addrs.length),
    t.Reads img.pgdir addrs[i] (argv[i] ++ [0])
  vector : ∀ i (ha : i < addrs.length), t.Reads img.pgdir (img.rsi + 8 * i) (addrBytes [addrs[i]])
  last : t.Reads img.pgdir (img.rsi + 8 * argv.length) (addrBytes [0])
  ret : t.Reads img.pgdir img.rsp (addrBytes [0xffffffffffffffff])
  aligned : ∀ x ∈ pieces img addrs argv, 8 ∣ x.1
  disjoint : (pieces img addrs argv).Pairwise fun x y => x.1 + x.2 ≤ y.1 ∨ y.1 + y.2 ≤ x.1
  /-- The page of the stack, the last one, is for the user. -/
  inside : ∃ v, img.sz = (v + 2) * PGSIZE ∧ Flagged t.mem img.pgdir (v + 1) true true ∧
    ∀ x ∈ pieces img addrs argv, (v + 1) * PGSIZE ≤ x.1 ∧ x.1 + x.2 ≤ (v + 2) * PGSIZE
  /-- Nothing has filled the page since the copies were made. -/
  kept : ∀ c ∈ t.args, t.mem.data c.frame = c.mem.data c.frame

section
variable {K : Kernel} {t s : Loader} {d va sz f v sp sp' : ℕ} {a b : List UInt8}
  {bytes : ℕ → UInt8} {img : Committed}
  {argv : List (List UInt8)} {ustack : List ℕ} {cs : List Stored} {c : Stored}

/-! ## Bytes one after the other -/

/-- A string is read in two parts. -/
lemma Loader.Reads.of_append (h : t.Reads d va (a ++ b)) :
    t.Reads d va a ∧ t.Reads d (va + a.length) b := by
  constructor
  · intro j hj
    rw [h j (by rw [List.length_append]; omega), List.getElem_append_left hj]
  · intro j hj
    have hbyte := h (a.length + j) (by rw [List.length_append]; omega)
    rw [List.getElem_append_right (by omega)] at hbyte
    rw [Nat.add_assoc, hbyte]
    simp only [Nat.add_sub_cancel_left]

lemma addrBytes_cons {x : ℕ} {l : List ℕ} : addrBytes (x :: l) = addrBytes [x] ++ addrBytes l := by
  unfold addrBytes
  rw [List.flatMap_cons, List.flatMap_cons, List.flatMap_nil, List.append_nil]

/-- The words of a vector. -/
lemma Loader.Reads.word {l : List ℕ} {i : ℕ} (h : t.Reads d va (addrBytes l)) (hi : i < l.length) :
    t.Reads d (va + 8 * i) (addrBytes [l[i]]) := by
  induction l generalizing va i with
  | nil => exact absurd hi (Nat.not_lt_zero i)
  | cons x l ih =>
    rw [addrBytes_cons] at h
    obtain ⟨hhead, htail⟩ := h.of_append
    cases i with
    | zero => exact hhead
    | succ i =>
      have hword := ih htail (by simpa using hi)
      rw [length_addrBytes, List.length_singleton] at hword
      rw [List.getElem_cons_succ, show va + 8 * (i + 1) = va + 8 * 1 + 8 * i by omega]
      exact hword

/-! ## The copies in the page of the stack -/

/-- Copies below each other in page `v` of the memory, which is at `f`. -/
structure Placed (f v sp : ℕ) (cs : List Stored) : Prop where
  frame : ∀ c ∈ cs, c.frame = f
  pos : ∀ c ∈ cs, 0 < c.bytes.length
  inside : ∀ c ∈ cs, v * PGSIZE ≤ c.va ∧ c.va + c.bytes.length ≤ (v + 1) * PGSIZE
  below : cs.Pairwise fun c e => e.va + e.bytes.length ≤ c.va

/-- All of them can be read afterwards. -/
lemma Placed.reads (h : Placed f v sp cs) (hargs : t.args = cs) (hfind : find t.mem d (path v) = some f)
    (hc : c ∈ cs) : t.Reads d c.va c.bytes := by
  intro j hj
  obtain ⟨hlow, hhigh⟩ := h.inside c hc
  have hpage : (c.va + j) / PGSIZE = v := by
    unfold PGSIZE at hlow hhigh ⊢
    omega
  have hoff : (c.va + j) % PGSIZE = c.store.off + j := by
    show _ = c.va % PGSIZE + j
    unfold PGSIZE at hlow hhigh ⊢
    omega
  have hall : (cs.filter fun c => c.frame = f) = cs := by
    refine List.filter_eq_self.mpr fun e he => ?_
    rw [decide_eq_true_iff]
    exact h.frame e he
  have hdisjoint : (cs.map Stored.store).Pairwise Store.Disjoint := by
    rw [List.pairwise_map]
    refine h.below.imp_of_mem fun {x y} hx hy hxy => .inr ?_
    have hxin := h.inside x hx
    have hyin := h.inside y hy
    have hpos := h.pos x hx
    show y.va % PGSIZE + y.bytes.length ≤ x.va % PGSIZE
    unfold PGSIZE at hxin hyin ⊢
    omega
  unfold Loader.byte Loader.page
  rw [hpage, hfind, Option.map_some, hoff, List.filter_append, hargs, hall, List.map_append, replay_append]
  exact congrArg some (replay_in hdisjoint (List.mem_map_of_mem hc) hj)

namespace Pushes

variable (h : Pushes bytes f sz sp argv ustack cs sp')
include h

/-- Each argument has its address. -/
lemma length : ustack.length = argv.length := by
  induction h with
  | nil sp => rfl
  | cons _ _ _ _ _ _ _ ih => rw [List.length_cons, List.length_cons, ih]

lemma le : sp' ≤ sp := by
  induction h with
  | nil sp => exact Nat.le_refl sp
  | cons _ _ _ _ _ hsp _ ih => omega

lemma dvd (hsp : 8 ∣ sp) : 8 ∣ sp' := by
  induction h with
  | nil sp => exact hsp
  | cons _ _ _ hva _ _ _ ih => exact ih hva

/-- Each string is above the last stack pointer and below the first one. -/
theorem mem (hc : c ∈ cs) : c.frame = f ∧ c.mem.data f = bytes ∧ 0 < c.bytes.length ∧ 8 ∣ c.va ∧
    sz - PGSIZE ≤ c.va ∧ sp' ≤ c.va ∧ c.va + c.bytes.length ≤ sp := by
  induction h with
  | nil sp => exact absurd hc List.not_mem_nil
  | cons hframe hdata hbytes hva hlow hsp hrest ih =>
    rcases List.mem_cons.mp hc with rfl | hmem
    · refine ⟨hframe, hdata, ?_, hva, hlow, hrest.le, hsp⟩
      rw [hbytes, List.length_append]
      exact Nat.succ_pos _
    · obtain ⟨hf, hdata, hpos, hdvd, hl, hle, hend⟩ := ih hmem
      exact ⟨hf, hdata, hpos, hdvd, hl, hle, by omega⟩

/-- The strings lie one below the other. -/
lemma pairwise : cs.Pairwise fun c e => e.va + e.bytes.length ≤ c.va := by
  induction h with
  | nil sp => exact .nil
  | cons _ _ _ _ _ _ hrest ih => exact .cons (fun e he => (hrest.mem he).2.2.2.2.2.2) ih

/-- The copies are those of the arguments, at the addresses of the vector. -/
theorem zip : List.zipWith (fun a arg => (a, arg.length + 1)) ustack argv =
    cs.map fun c => (c.va, c.bytes.length) := by
  induction h with
  | nil sp => rfl
  | cons _ _ hbytes _ _ _ _ ih =>
    rw [List.zipWith_cons_cons, List.map_cons, ih, hbytes, List.length_append]
    rfl

/-- The address of an argument is that of its string. -/
lemma get {i : ℕ} (hi : i < argv.length) (ha : i < ustack.length) :
    ∃ c ∈ cs, c.va = ustack[i] ∧ c.bytes = argv[i] ++ [0] := by
  induction h generalizing i with
  | nil sp => exact absurd hi (Nat.not_lt_zero i)
  | @cons sp sp' arg argv ustack c cs _ _ hbytes _ _ _ _ ih =>
    cases i with
    | zero => exact ⟨c, List.mem_cons_self, rfl, hbytes⟩
    | succ i =>
      obtain ⟨e, he, hva, heb⟩ := ih (Nat.lt_of_succ_lt_succ hi) (Nat.lt_of_succ_lt_succ ha)
      exact ⟨e, List.mem_cons_of_mem c he, hva, heb⟩

end Pushes

/-- The strings and the vector are in the page of the stack, each below the one before it. -/
theorem Filled.placed (h : Filled t img argv v f sp ustack cs c) : Placed f (v + 1) sp (cs ++ [c]) := by
  have hsize := h.size
  have hlow := h.low
  have hrsp := h.rsp
  have hlen : c.bytes.length = (argv.length + 2) * 8 := by
    rw [h.bytes, length_addrBytes, List.length_append, List.length_cons, List.length_singleton,
      h.strings.length]
    omega
  have hle := h.strings.le
  have hva := h.va
  refine ⟨fun e he => ?_, fun e he => ?_, fun e he => ?_, ?_⟩
  · rcases List.mem_append.mp he with hmem | hmem
    · exact (h.strings.mem hmem).1
    · rw [List.mem_singleton.mp hmem]
      exact h.frame
  · rcases List.mem_append.mp he with hmem | hmem
    · exact (h.strings.mem hmem).2.2.1
    · rw [List.mem_singleton.mp hmem]
      omega
  · rcases List.mem_append.mp he with hmem | hmem
    · obtain ⟨-, -, -, -, hl, -, hend⟩ := h.strings.mem hmem
      unfold PGSIZE at hsize hl ⊢
      omega
    · rw [List.mem_singleton.mp hmem]
      unfold PGSIZE at hsize hlow ⊢
      omega
  · refine List.pairwise_append.mpr ⟨h.strings.pairwise, List.pairwise_singleton _ _, fun x hx y hy => ?_⟩
    obtain ⟨-, -, -, -, -, hx, -⟩ := h.strings.mem hx
    rw [List.mem_singleton.mp hy]
    omega

/-- `main` finds its arguments. -/
lemma Filled.arrived (h : Filled t img argv v f sp ustack cs c) : Arrived t img argv ustack := by
  have hplaced := h.placed
  have hreads : ∀ e ∈ cs ++ [c], t.Reads img.pgdir e.va e.bytes := fun e he =>
    hplaced.reads h.args h.found he
  have hlen := h.strings.length
  have hrsi := h.rsi
  have hrsp := h.rsp
  have hva := h.va
  have hsize := h.size
  have hlow := h.low
  -- the vector is one copy
  have hvector : t.Reads img.pgdir img.rsp (addrBytes (0xffffffffffffffff :: (ustack ++ [0]))) := by
    have hcopy := hreads c (List.mem_append_right _ List.mem_cons_self)
    rw [h.va, h.bytes] at hcopy
    exact hcopy
  rw [addrBytes_cons] at hvector
  obtain ⟨hret, hwords⟩ := hvector.of_append
  rw [length_addrBytes, List.length_singleton, ← hrsi] at hwords
  have hdvd : 8 ∣ sp := h.strings.dvd (by
    rw [hsize]
    exact Dvd.dvd.mul_left (by decide) _)
  have hstrings : ∀ x ∈ cs.map fun c => (c.va, c.bytes.length), 8 ∣ x.1 ∧ sp ≤ x.1 ∧
      (v + 1) * PGSIZE ≤ x.1 ∧ x.1 + x.2 ≤ (v + 2) * PGSIZE := by
    intro x hx
    obtain ⟨e, he, rfl⟩ := List.mem_map.mp hx
    obtain ⟨-, -, -, hedvd, hel, hesp, heend⟩ := h.strings.mem he
    refine ⟨hedvd, hesp, ?_, ?_⟩
    · simp only
      unfold PGSIZE at hsize hel ⊢
      omega
    · simp only
      omega
  have hpieces : pieces img ustack argv = (img.rsp, 8) :: (img.rsi, (argv.length + 1) * 8) ::
      cs.map fun c => (c.va, c.bytes.length) := by
    unfold pieces
    rw [h.strings.zip]
  refine ⟨hlen, h.rdi, hrsi, ?_, ?_, ?_, hret, ?_, ?_, ⟨v, hsize, h.flags, ?_⟩, ?_⟩
  · intro i hi ha
    obtain ⟨e, he, hva, hbytes⟩ := h.strings.get hi ha
    rw [← hva, ← hbytes]
    exact hreads e (List.mem_append_left _ he)
  · intro i ha
    have hword := hwords.word (i := i) (by rw [List.length_append]; omega)
    rwa [List.getElem_append_left ha] at hword
  · have hword := hwords.word (i := argv.length) (by rw [List.length_append, List.length_singleton]; omega)
    rw [List.getElem_append_right (by omega)] at hword
    simpa using hword
  · rw [hpieces]
    intro x hx
    rcases List.mem_cons.mp hx with rfl | hx
    · simp only
      omega
    rcases List.mem_cons.mp hx with rfl | hx
    · simp only
      omega
    · exact (hstrings x hx).1
  · rw [hpieces]
    refine .cons (fun x hx => .inl ?_) (.cons (fun x hx => .inl ?_) ?_)
    · rcases List.mem_cons.mp hx with rfl | hx
      · simp only
        omega
      · have hx := (hstrings x hx).2.1
        simp only
        omega
    · have hx := (hstrings x hx).2.1
      simp only
      omega
    · rw [List.pairwise_map]
      exact h.strings.pairwise.imp .inr
  · rw [hpieces]
    intro x hx
    have hend : sp ≤ (v + 2) * PGSIZE := hsize ▸ h.strings.le
    rcases List.mem_cons.mp hx with rfl | hx
    · simp only
      unfold PGSIZE at hsize hlow hend ⊢
      omega
    rcases List.mem_cons.mp hx with rfl | hx
    · simp only
      unfold PGSIZE at hsize hlow hend ⊢
      omega
    · exact (hstrings x hx).2.2
  · rw [h.args]
    intro e he
    rcases List.mem_append.mp he with he | he
    · obtain ⟨hframe, hdata, -⟩ := h.strings.mem he
      rw [hframe, hdata]
    · rw [List.mem_singleton.mp he, h.frame, h.mem]

/-! ## Results -/

variable {s₀ s' : Sys} {p : Slot} {acts : List Act} {old : ℕ}

/-- **The arguments arrive**: for every file, and for all arguments that `sys_exec` accepts, in every state
that the machine reaches and for every process that can make a call there. -/
theorem exec_arguments (rip : ℕ) (file : List UInt8) (hs : Started K s₀)
    (hrun : Runs.run (machine K) s₀ acts = some s') (hlive : (s'.proc p).status = .live)
    (huser : (s'.proc p).pc = .user) (hfetch : fetches s' p rip) (hold : (s'.proc p).pgdir = some old)
    (hcount : argv.length < MAXARG) (hargs : ∀ arg ∈ argv, PGSIZE + arg.length < (s'.proc p).sz)
    (hexec : (exec K old file argv).run s'.mem.loader = .ok (some img, t)) :
    ∃ addrs, Arrived t img argv addrs := by
  obtain ⟨F, hown, hsz⟩ := caller hs hrun hlive huser hfetch hold
  have hends : Ends (fun _ => True) (exec K old file argv)
      (fun o t => ∀ img, o = some img → ∃ addrs, Arrived t img argv addrs) s'.mem.loader := by
    unfold exec
    rw [ends_bind]
    apply (execImage_ends hown).mono fun _ _ => trivial
    rintro o u ⟨-, hprep⟩
    cases o with
    | none => exact nofun
    | some image =>
      obtain ⟨entry, d, sz⟩ := image
      obtain ⟨hlaid, hguard⟩ := hprep.some entry d sz rfl
      apply (pushOrBad_ends hlaid hguard hcount (length_lt_of_fetched hargs hsz)
        hprep.args).mono fun _ _ => trivial
      rintro o t ⟨-, hpushed⟩ img himg
      obtain ⟨v, f, sp, ustack, cs, c, hfilled⟩ := hpushed.stack img himg
      exact ⟨ustack, hfilled.arrived⟩
  exact hends.of_ok hexec img rfl

/-- Three arguments of different lengths. -/
theorem exec_arguments_sbrkActs : ∃ s img t, Runs.run (machine smallKernel) smallSys sbrkActs = some s ∧
    (exec smallKernel 57340 oneSegment threeArgs).run s.mem.loader = .ok (some img, t) ∧
    ∃ addrs, Arrived t img threeArgs addrs := by
  obtain ⟨s, hrun, hlive, huser, hold, hsz, hfetch⟩ := run_sbrkActs
  have hsome : ((Runs.run (machine smallKernel) smallSys sbrkActs).bind fun s =>
      (resultX (exec smallKernel 57340 oneSegment threeArgs) s.mem.loader).map Option.isSome)
      = some true := by
    decide +kernel
  rw [hrun, Option.bind_some] at hsome
  obtain ⟨o, ho, hisSome⟩ := Option.map_eq_some_iff.mp hsome
  obtain ⟨img, rfl⟩ := Option.isSome_iff_exists.mp hisSome
  obtain ⟨t, ht⟩ := run_of_resultX ho
  exact ⟨s, img, t, hrun, ht, exec_arguments PGSIZE oneSegment started_smallSys hrun hlive huser hfetch
    hold (by decide) (hsz ▸ threeArgs_fit) ht⟩

end

end Vm
end OhMyXv6
