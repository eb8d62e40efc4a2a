import OhMyXv6.Exec.Reading
import OhMyXv6.Kernel.Opened
import OhMyXv6.Vm.Arguments

/-!
# A failed `exec`

`exec` builds the new memory beside the old one, and its process does not change before the commit, but for
two registers: the arguments of `main` are set before the vector is copied to the stack. When the strings
fit into the page of the stack and the vector does not, `exec` returns -1 and the registers have changed.
-/

namespace OhMyXv6
namespace Exec

open Fallible
open Vm (Loader belowStrings)

-- `KERNBASE` is not to be counted down to when two programs are compared
attribute [local irreducible] Vm.allocuvm

/-- A call has given back the inodes that it took, and its transaction is over. -/
structure GivenBack (s t : Kernel.State) : Prop where
  disk : t.disk = s.disk
  /-- The open files and the current directory of each process. -/
  proc : t.proc = s.proc
  ftable : t.ftable = s.ftable
  inum : ∀ e < NINODE, 0 < (s.icache e).ref → (t.icache e).inum = (s.icache e).inum
  ref : ∀ e < NINODE, (t.icache e).ref = (s.icache e).ref
  lock : ∀ e < NINODE, (t.icache e).lock = none
  outstanding : t.outstanding = s.outstanding
  inOp : t.inOp = s.inOp

/-- The caller is as it was. -/
structure Kept (s t : State) : Prop where
  fs : GivenBack s.fs t.fs
  table : ∀ g ∈ Vm.Tree s.vm.mem s.task.pgdir, t.vm.mem.table g = s.vm.mem.table g
  pgdir : t.task.pgdir = s.task.pgdir
  sz : t.task.sz = s.task.sz
  name : t.task.name = s.task.name
  tf : ∀ r, r ≠ .rax → t.task.tf r = s.task.tf r

/-- In a memory of `sz` bytes the strings fit into the page of the stack, down to `sp`, and the vector below
them does not. -/
def Overflows (sz : ℕ) (argv : List (List UInt8)) (sp : ℕ) : Prop :=
  belowStrings sz sz argv = some sp ∧ sp < sz - PGSIZE + (argv.length + 2) * 8

/-- The path leads to a program for which the vector of the arguments is the first thing that does not fit,
and the registers for the arguments of `main` have other values. -/
def Late (s : State) (p : ℕ) (path : List UInt8) (argv : List (List UInt8)) : Prop :=
  ∃ i sz sp, s.fs.nodes.resolve (s.fs.start p path) path = some i ∧
    Vm.imageSize (program (s.fs.nodes i)) = some sz ∧ Overflows sz argv sp ∧
    ¬ (s.task.tf .rdi = argv.length ∧ s.task.tf .rsi = sp - (argv.length + 1) * 8)

/-- `exec` has failed, with only the registers changed. -/
structure Undone (s t : State) (tf : Reg → ℕ) : Prop where
  fs : GivenBack s.fs t.fs
  table : ∀ g ∈ Vm.Tree s.vm.mem s.task.pgdir, t.vm.mem.table g = s.vm.mem.table g
  task : t.task = { s.task with tf := tf }

/-- The registers with the arguments of `main`. -/
def mainArgs (tf : Reg → ℕ) (argc rsi : ℕ) : Reg → ℕ := Function.update (Function.update tf .rdi argc) .rsi rsi

/-- How `exec` fails with its program at hand: by the vector, or before. -/
def Fails (s t : State) (file : List UInt8) (argv : List (List UInt8)) : Prop :=
  (Undone s t s.task.tf ∧ ∀ sz sp, Vm.imageSize file = some sz → ¬ Overflows sz argv sp) ∨
    ∃ sz sp, Vm.imageSize file = some sz ∧ Overflows sz argv sp ∧
      Undone s t (mainArgs s.task.tf argv.length (sp - (argv.length + 1) * 8))

section
variable {s s₀ t : State} {T : Kernel.State} {p ip i old d sz sp : ℕ} {α : Type} {K : Vm.Kernel} {F : Multiset ℕ}
  {file path : List UInt8} {argv : List (List UInt8)}

/-- A call that is undone has kept the state of the others. -/
lemma Undone.kept (h : Undone s t s.task.tf) : Kept s t := by
  have htask := h.task
  refine ⟨h.fs, h.table, ?_, ?_, ?_, fun r _ => ?_⟩
  · rw [htask]
  · rw [htask]
  · rw [htask]
  · rw [htask]

/-- With the registers changed, the caller is as it was if they had these values before. -/
theorem Undone.kept_iff {argc rsi : ℕ} (h : Undone s t (mainArgs s.task.tf argc rsi)) :
    Kept s t ↔ s.task.tf .rdi = argc ∧ s.task.tf .rsi = rsi := by
  have htf : t.task.tf = mainArgs s.task.tf argc rsi := by rw [h.task]
  constructor
  · intro hkept
    have hrdi := hkept.tf .rdi (by decide)
    have hrsi := hkept.tf .rsi (by decide)
    rw [htf] at hrdi hrsi
    unfold mainArgs at hrdi hrsi
    rw [Function.update_of_ne (by decide), Function.update_self] at hrdi
    rw [Function.update_self] at hrsi
    exact ⟨hrdi.symm, hrsi.symm⟩
  · rintro ⟨hrdi, hrsi⟩
    have hsame : mainArgs s.task.tf argc rsi = s.task.tf := by
      unfold mainArgs
      rw [← hrdi, ← hrsi, Function.update_eq_self, Function.update_eq_self]
    rw [hsame] at h
    exact h.kept

/-! ## The file system -/

/-- A call of the file system leaves the memory alone. -/
lemma onFs_ends {x : Kernel.M α} {Q : α → Kernel.State → Prop} {R : α → State → Prop}
    (h : Prog.wp (fun _ => True) x Q s.fs) (hR : ∀ a fs, Q a fs → R a { s with fs := fs }) :
    Ends (fun _ => True) (onFs x) R s := by
  unfold Prog.wp at h
  unfold Ends
  cases hx : x.exec s.fs with
  | done a fs =>
    rw [hx] at h
    rw [run_onFs hx]
    exact hR a fs h
  | wait =>
    have hrun : (onFs x).run s = .error .asleep := by simp only [onFs, StateT.run, hx]
    rw [hrun]
    trivial
  | stop e =>
    have hrun : (onFs x).run s = .error (.fs e) := by simp only [onFs, StateT.run, hx]
    rw [hrun]
    trivial

/-- `begin_op` opens the operation. -/
lemma begin_op_begun {fs : Kernel.State} (h : Kernel.Ready fs p) :
    Prog.wp (fun _ => True) (Kernel.begin_op p)
      (fun _ T => T = fs.begun p ∧ Kernel.Base fs T ∧ Kernel.Settled T) fs := by
  have hbase := Kernel.begin_base h
  unfold Kernel.begin_op at hbase ⊢
  rw [Prog.wp_act] at hbase ⊢
  split
  · trivial
  · next hlog =>
    rw [if_neg hlog] at hbase
    exact ⟨rfl, hbase⟩

/-- The end of the transaction, when no inode is held any more. -/
lemma end_op_givenBack {fs k : Kernel.State} (h : Kernel.Steady (fs.begun p) k [] []) :
    Prog.wp (fun _ => True) (Kernel.end_op p) (fun _ u => GivenBack fs u) k := by
  have hout : k.outstanding = fs.outstanding + 1 := by
    rw [h.frame]
    rfl
  have hin : k.inOp = p :: fs.inOp := by
    rw [h.frame]
    rfl
  have htab : ∀ e < NINODE, (fs.begun p).view.tab e = (fs.icache e).ref := fun e he => if_pos he
  refine ⟨h.disk, h.proc, h.ftable, fun e he hpos => ?_, fun e he => ?_, fun e he => ?_, ?_, ?_⟩
  · have hpos' : 0 < (fs.begun p).view.tab e := by rwa [htab e he]
    exact (h.cached.tab e hpos').2.1
  · exact (h.ref_eq he).trans (htab e he)
  · exact h.unlocked e he List.not_mem_nil
  · show k.outstanding - 1 = _
    rw [hout, Nat.add_sub_cancel]
  · show k.inOp.erase p = _
    rw [hin, List.erase_cons_head]

/-- Inside the call: a locked inode, with nothing else changed. -/
structure Inside (s₀ s : State) (p ip i : ℕ) : Prop where
  base : Kernel.Base s₀.fs (s₀.fs.begun p)
  steady : Kernel.Steady (s₀.fs.begun p) s.fs [⟨ip, i, false⟩] [ip]
  task : s.task = s₀.task

lemma Inside.vm (h : Inside s₀ s p ip i) (l : Loader) : Inside s₀ { s with vm := l } p ip i :=
  ⟨h.base, h.steady, h.task⟩

/-- The inode is given back and the operation ended. -/
lemma close_ends (h : Inside s₀ s p ip i) : Ends (fun _ => True) (close p ip)
    (fun _ t => GivenBack s₀.fs t.fs ∧ t.vm = s.vm ∧ t.task = s₀.task) s := by
  have hkept := h.base.anchored.kept h.steady (List.Subset.refl [])
  unfold close
  rw [ends_bind]
  apply onFs_ends (h.steady.iunlockput_ends (E := fun _ => True) hkept nofun nofun).wp
  intro _ fs hfs
  exact onFs_ends (end_op_givenBack hfs) fun _ _ hback => ⟨hback, rfl, h.task⟩

/-! ## `goto bad` -/

/-- The page tables of the caller are as they were. -/
def Spared (s₀ : State) (F : Multiset ℕ) (m : Vm.Mem) : Prop :=
  ∀ g ∈ Vm.Tree s₀.vm.mem s₀.task.pgdir + F, m.table g = s₀.vm.mem.table g

/-- The old tables are as they were. -/
lemma Spared.table {m : Vm.Mem} (h : Spared s₀ F m) :
    ∀ g ∈ Vm.Tree s₀.vm.mem s₀.task.pgdir, m.table g = s₀.vm.mem.table g := fun g hg =>
  h g (Multiset.mem_add.mpr (.inl hg))

/-- The new page table goes. -/
lemma freevm_spared {m : Vm.Mem} (h : Vm.Laid K s₀.vm.mem m d sz (Vm.Tree s₀.vm.mem s₀.task.pgdir + F))
    (hm : s.vm.mem = m) : Ends (fun _ => True) (onVm (Vm.onMem (Vm.freevm K (some d))))
      (fun _ t => t.fs = s.fs ∧ t.task = s.task ∧ Spared s₀ F t.vm.mem) s := by
  rw [ends_onVm]
  apply Vm.onMem_returns (Vm.freevm_ends (hm ▸ h.owns))
  intro _ m' hfreed
  refine ⟨rfl, rfl, fun g hg => ?_⟩
  rw [hfreed.frame g hg, hm]
  exact h.frame g hg

lemma bad_inside (h : Inside s₀ s p ip i) (hspared : Spared s₀ F s.vm.mem) :
    Ends (fun _ => True) (bad K p none (some ip)) (fun _ t => Undone s₀ t s₀.task.tf) s := by
  unfold bad
  simp only
  rw [ends_bind]
  apply (close_ends h).mono fun _ he => he
  rintro _ t ⟨hback, hvm, htask⟩
  exact ⟨hback, hvm ▸ hspared.table, htask⟩

/-- With a new table, which is freed. -/
lemma bad_loading (h : Inside s₀ s p ip i)
    (hlaid : Vm.Laid K s₀.vm.mem s.vm.mem d sz (Vm.Tree s₀.vm.mem s₀.task.pgdir + F)) :
    Ends (fun _ => True) (bad K p (some d) (some ip)) (fun _ t => Undone s₀ t s₀.task.tf) s := by
  unfold bad
  simp only
  rw [ends_bind]
  apply (freevm_spared hlaid rfl).mono fun _ he => he
  rintro _ t ⟨hfs, htask, hspared⟩
  have hin : Inside s₀ t p ip i := ⟨h.base, hfs ▸ h.steady, htask.trans h.task⟩
  rw [ends_bind]
  apply (close_ends hin).mono fun _ he => he
  rintro _ u ⟨hback, hvm, htask'⟩
  exact ⟨hback, hvm ▸ hspared.table, htask'⟩

/-- After the file was given back. -/
lemma bad_closed {m : Vm.Mem} {tf : Reg → ℕ} (hback : GivenBack s₀.fs s.fs)
    (hlaid : Vm.Laid K s₀.vm.mem m d sz (Vm.Tree s₀.vm.mem s₀.task.pgdir + F)) (hm : s.vm.mem = m)
    (htask : s.task = { s₀.task with tf := tf }) :
    Ends (fun _ => True) (bad K p (some d) none) (fun _ t => Undone s₀ t tf) s := by
  unfold bad
  simp only
  rw [ends_bind]
  apply (freevm_spared hlaid hm).mono fun _ he => he
  rintro _ t ⟨hfs, htask', hspared⟩
  rw [ends_pure]
  exact ⟨hfs ▸ hback, hspared.table, htask'.trans htask⟩

/-! ## The parts of `exec` -/

lemma ends_setReg {r : Reg} {v : ℕ} {E : Stop → Prop} {Q : Unit → State → Prop} :
    Ends E (setReg r v) Q s ↔
      Q () ⟨s.fs, s.vm, ⟨s.task.pgdir, s.task.sz, s.task.name, Function.update s.task.tf r v⟩⟩ := Iff.rfl

/-- What `exec` does when it succeeds is not asked for. -/
lemma commit_ends {entry : ℕ} {Q : Bool → State → Prop} (hQ : ∀ t, Q true t) : Ends (fun _ => True)
    (do commit K old path d sz entry sp; return true) Q s := by
  rw [ends_bind]
  unfold Ends
  cases (commit K old path d sz entry sp).run s with
  | ok r => exact hQ r.2
  | error e => trivial

/-- `exec` is behind its first `end_op`: the new page table `d` is laid out for `sz` bytes. -/
structure Beside (K : Vm.Kernel) (s₀ s : State) (d sz : ℕ) (F : Multiset ℕ) : Prop where
  back : GivenBack s₀.fs s.fs
  laid : Vm.Laid K s₀.vm.mem s.vm.mem d sz (Vm.Tree s₀.vm.mem s₀.task.pgdir + F)
  task : s.task = s₀.task
  args : s.vm.args = []

/-- The last part, which cannot fail. -/
lemma finish_ends {entry v : ℕ} {ustack : List ℕ} (h : Beside K s₀ s d sz F)
    (hstacked : Vm.Stacked s.vm.mem d sz v) {m : Vm.Mem}
    (hm : m = s.vm.mem) (hlow : sz - PGSIZE ≤ sp) (hsp : sp ≤ sz)
    (hcount : argv.length < Vm.MAXARG) (hustack : ustack.length = argv.length) {l : Loader} (hl : l.mem = m) :
    Ends (fun _ => True) (finish K p old path entry d sz argv.length sp ustack)
      (fun r t => r = false → sp < sz - PGSIZE + (argv.length + 2) * 8 ∧
        Undone s₀ t (mainArgs s₀.task.tf argv.length (sp - (argv.length + 1) * 8))) { s with vm := l } := by
  have hsize := hstacked.size
  have hsmall := hstacked.small
  have hcount' : argv.length < 32 := hcount
  have hroom : (1 + argv.length + 1) * 8 ≤ sp := by
    unfold PGSIZE at hlow hsize
    omega
  have hat : Vm.lower sp ((1 + argv.length + 1) * 8) = sp - (1 + argv.length + 1) * 8 :=
    Vm.lower_of_le hroom (by omega)
  have hrsi : Vm.lower sp ((argv.length + 1) * 8) = sp - (argv.length + 1) * 8 :=
    Vm.lower_of_le (by omega) (by omega)
  obtain ⟨buf, hbuf⟩ : ∃ buf, buf = Vm.addrBytes (0xffffffffffffffff :: ustack ++ [0]) := ⟨_, rfl⟩
  have hbuflen : buf.length = (1 + argv.length + 1) * 8 := by
    rw [hbuf, Vm.length_addrBytes]
    simp only [List.cons_append, List.length_cons, List.length_append, List.length_nil, hustack]
    ring
  have hne : buf ≠ [] := by
    rw [← List.length_pos_iff, hbuflen]
    omega
  have hstacked' : Vm.Stacked l.mem d sz v := hstacked.congr (hl.trans hm)
  unfold finish
  simp only [hat, hrsi, ← hbuf]
  rw [ends_bind, ends_setReg, ends_bind, ends_setReg, ends_bind, ends_onVm]
  -- the block fits into the stack page, or it reaches the guard page below
  by_cases hpage : sz - PGSIZE ≤ sp - (1 + argv.length + 1) * 8
  · apply (hstacked'.copyout_high hne hpage (by rw [hbuflen]; omega)).mono fun _ _ => trivial
    rintro b u ⟨rfl, -⟩
    rw [if_pos rfl]
    exact commit_ends fun _ h => nomatch h
  · apply (hstacked'.copyout_low hne (by omega) (by
      rw [hbuflen]
      unfold PGSIZE at hlow hsize ⊢
      omega)).mono fun _ _ => trivial
    rintro b u ⟨rfl, hmem, -⟩
    rw [if_neg Bool.false_ne_true]
    obtain ⟨tf, htf⟩ : ∃ tf, tf = mainArgs s₀.task.tf argv.length (sp - (argv.length + 1) * 8) := ⟨_, rfl⟩
    have htask : (⟨s.task.pgdir, s.task.sz, s.task.name, mainArgs s.task.tf argv.length
        (sp - (argv.length + 1) * 8)⟩ : Task) = ⟨s₀.task.pgdir, s₀.task.sz, s₀.task.name, tf⟩ := by
      rw [h.task, htf]
    rw [← htf]
    have hbad : Ends (fun _ => True) (bad K p (some d) none) (fun _ t => Undone s₀ t tf)
        ⟨s.fs, u, ⟨s.task.pgdir, s.task.sz, s.task.name, mainArgs s.task.tf argv.length
          (sp - (argv.length + 1) * 8)⟩⟩ :=
      bad_closed h.back h.laid ((hmem.trans hl).trans hm) htask
    exact hbad.mono (fun _ _ => trivial) fun _ t ht _ => ⟨by omega, ht⟩

/-- The stack: it succeeds, or the new table is freed. -/
lemma stack_ends {entry : ℕ} (h : Beside K s₀ s d sz F) (hcount : argv.length < Vm.MAXARG)
    (hargs : ∀ arg ∈ argv, arg.length < 2 ^ 28)
    (hfile : Vm.imageSize file = some (Vm.PGROUNDUP sz + 2 * PGSIZE)) :
    Ends (fun _ => True) (stack K p old path argv entry d sz)
      (fun r t => r = false → Fails s₀ t file argv) s := by
  unfold stack
  rw [ends_bind, ends_onVm]
  apply Vm.onMem_ends (Vm.execStack_laid h.laid) fun _ _ => trivial
  rintro o m ⟨rfl, hlaid, hguard⟩
  set sz' := Vm.PGROUNDUP sz + 2 * PGSIZE
  obtain ⟨v, hstacked⟩ := hlaid.stacked hguard
  obtain ⟨tstack, f, htstack, hfstack⟩ := hstacked.stack
  have hf : Vm.find m d (Vm.path (v + 1)) = some f := by
    rw [Vm.path_eq, Vm.find_concat htstack, Vm.child, hfstack]
    rfl
  simp only
  rw [ends_bind, ends_onVm]
  apply (Vm.pushArgs_ends (s := { s.vm with mem := m }) hstacked hf (Nat.sub_le _ _) le_rfl
    (by rw [Nat.zero_add]; exact hcount.le) hargs (by rw [h.args]; simp)).mono fun _ _ => trivial
  rintro o l ⟨-, hmem, -, hbelow, ho⟩
  cases o with
  | none =>
    -- a string does not fit
    have hbad : Ends (fun _ => True) (bad K p (some d) none) (fun _ t => Undone s₀ t s₀.task.tf)
        { s with vm := l } :=
      bad_closed h.back hlaid hmem h.task
    refine hbad.mono (fun _ _ => trivial) fun _ t ht _ => ?_
    refine .inl ⟨ht, fun sz sp hsz hover => ?_⟩
    rw [hfile] at hsz
    obtain rfl := Option.some.inj hsz
    have hnone : none = some sp := hbelow.trans hover.1
    cases hnone
  | some r =>
    obtain ⟨sp, ustack⟩ := r
    obtain ⟨hlow, hle, hlen, -⟩ := ho sp ustack rfl
    have hbeside : Beside K s₀ { s with vm := { s.vm with mem := m } } d sz' F :=
      ⟨h.back, hlaid, h.task, h.args⟩
    apply (finish_ends hbeside hstacked rfl hlow hle hcount hlen hmem).mono fun _ _ => trivial
    intro _ t ht hfalse
    obtain ⟨hvector, hundone⟩ := ht hfalse
    exact .inr ⟨sz', sp, hfile, ⟨hbelow.symm, hvector⟩, hundone⟩

/-- With its inode locked `exec` fails without changes before it comes to the stack. -/
theorem fails_of_none (h : Undone s₀ t s₀.task.tf) (hfile : Vm.imageSize file = none) : Fails s₀ t file argv :=
  .inl ⟨h, fun _ _ hsz => by
    rw [hfile] at hsz
    exact nomatch hsz⟩

/-- The image: it succeeds, or the new table is freed and the file given back. -/
lemma image_ends (hs : Kernel.Sound (s₀.fs.begun p)) (h : Inside s₀ s p ip i) (hvm : s.vm = s₀.vm.mem.loader)
    (hown : Vm.Owns K s₀.vm.mem (Vm.Tree s₀.vm.mem s₀.task.pgdir + F)) (hcount : argv.length < Vm.MAXARG)
    (hargs : ∀ arg ∈ argv, arg.length < 2 ^ 28) :
    Ends (fun _ => True) (image K p old path argv ip)
      (fun r t => r = false → Fails s₀ t (program (s₀.fs.nodes i)) argv) s := by
  have hnode : (s₀.fs.begun p).nodes i = s₀.fs.nodes i := congrFun h.base.nodes i
  have hspared : Spared s₀ F s.vm.mem := by
    rw [hvm]
    exact fun _ _ => rfl
  obtain ⟨file, hfile⟩ : ∃ file, file = program (s₀.fs.nodes i) := ⟨_, rfl⟩
  rw [← hfile]
  -- the header of a device is not read
  have helf : Ends (fun _ => True) (readElfhdr ip) (fun o t => t = s ∧ o = Vm.readElfhdr file ∧
      (o ≠ none → Reads s.fs ip file)) s := by
    obtain ⟨hrun, hreads⟩ := readElfhdr_steady h.steady hs (.head _) (.head _)
    rw [hnode, ← hfile] at hrun hreads
    unfold Ends
    rw [hrun s rfl]
    exact ⟨rfl, rfl, hreads⟩
  unfold image
  rw [ends_bind]
  apply helf.mono fun _ _ => trivial
  rintro o s ⟨rfl, rfl, hreads⟩
  cases hhdr : Vm.readElfhdr file with
  | none =>
    refine (bad_inside h hspared).mono (fun _ _ => trivial) fun _ t ht _ => fails_of_none ht ?_
    unfold Vm.imageSize
    rw [hhdr]
    rfl
  | some elf =>
    have hreads' := hreads (by rw [hhdr]; exact nofun)
    simp only
    rw [ends_bind, ends_onVm, hvm]
    apply Vm.onMem_ends (s := s₀.vm.mem.loader) ((Vm.setupkvm_ends hown).and Vm.setupkvm_top) fun _ _ => trivial
    rintro _ m₁ ⟨⟨d, rfl, hfresh⟩, htop⟩
    have hpage : Vm.pages PGSIZE = 1 := rfl
    have hlaid := hfresh.laid (htop d rfl) hpage
    simp only
    rw [ends_bind]
    have hat : At s.fs { s with vm := { s₀.vm.mem.loader with mem := m₁ } } := rfl
    apply hreads'.loadSegments.ends hat
    apply (Vm.loadSegments_ends (s := { s₀.vm.mem.loader with mem := m₁ }) hlaid).mono fun _ _ => trivial
    rintro o l ⟨-, rfl, hargs', -, sz, hlaid', hsz⟩
    have hsize : Vm.imageSize file = (Vm.segmentsSize file elf.phnum (elf.phoff % 2 ^ 32) PGSIZE).map
        fun sz => Vm.PGROUNDUP sz + 2 * PGSIZE := by
      unfold Vm.imageSize
      rw [hhdr]
      rfl
    have hin : Inside s₀ { s with vm := l } p ip i := h.vm l
    cases hseg : Vm.segmentsSize file elf.phnum (elf.phoff % 2 ^ 32) PGSIZE with
    | none =>
      rw [hseg] at hsize
      exact (bad_loading hin hlaid').mono (fun _ _ => trivial) fun _ t ht _ => fails_of_none ht hsize
    | some sz' =>
      obtain rfl := hsz sz' hseg
      rw [hseg] at hsize
      simp only
      rw [ends_bind]
      apply (close_ends hin).mono fun _ _ => trivial
      rintro _ t ⟨hback, hvm', htask⟩
      have hbeside : Beside K s₀ t d sz' F :=
        ⟨hback, by rw [hvm']; exact hlaid', htask, by rw [hvm']; exact hargs'⟩
      exact stack_ends hbeside hcount hargs hsize

/-- How `exec` fails: the path leads nowhere, or to a program. -/
lemma exec_ends (hready : Kernel.Ready s.fs p) (hvm : s.vm = s.vm.mem.loader)
    (hown : Vm.Owns K s.vm.mem (Vm.Tree s.vm.mem s.task.pgdir + F)) (hcount : argv.length < Vm.MAXARG)
    (hargs : ∀ arg ∈ argv, arg.length < 2 ^ 28) :
    Ends (fun _ => True) (exec K p path argv) (fun r t => r = false →
      (s.fs.nodes.resolve (s.fs.start p path) path = none ∧ Undone s t s.task.tf) ∨
      ∃ i, s.fs.nodes.resolve (s.fs.start p path) path = some i ∧ Fails s t (program (s.fs.nodes i)) argv) s := by
  unfold exec
  rw [ends_bind, ends_get]
  simp only
  rw [ends_bind]
  apply onFs_ends (begin_op_begun hready)
  rintro _ _ ⟨rfl, hbase, hset⟩
  have hcwd := hbase.hasCwd hready.cwd
  -- `namei` resolves the path in the tree as it stands when `exec` begins
  have hnamei : Prog.wp (fun _ => True) (Kernel.namei p path) (fun r k =>
      (s.fs.nodes.resolve (s.fs.start p path) path = none ∧ r = none ∧ Kernel.Steady (s.fs.begun p) k [] []) ∨
      ∃ i ip, s.fs.nodes.resolve (s.fs.start p path) path = some i ∧ r = some ip ∧
        Kernel.Steady (s.fs.begun p) k [⟨ip, i, false⟩] []) (s.fs.begun p) := by
    have hnamex : Prog.wp (fun _ => True) (Kernel.namex p path false) _ (s.fs.begun p) :=
      (Kernel.namex_ends hbase.sound hcwd hbase.anchored (Kernel.passable_any _ []) trivial hset).wp
    rw [Kernel.Nodes.walk_false (Nat.lt_succ_self _), hbase.nodes, hbase.start] at hnamex
    unfold Kernel.namei
    apply Prog.wp_seq hnamex
    intro r k hr
    cases hresolve : s.fs.nodes.resolve (s.fs.start p path) path with
    | none =>
      rw [hresolve] at hr
      obtain ⟨rfl, hk⟩ := hr
      exact .inl ⟨rfl, rfl, hk⟩
    | some i =>
      rw [hresolve] at hr
      obtain ⟨ip, rfl, hk⟩ := hr
      exact .inr ⟨i, ip, rfl, rfl, hk⟩
  rw [ends_bind]
  apply onFs_ends hnamei
  rintro r k (⟨hnone, rfl, hk⟩ | ⟨i, ip, hsome, rfl, hk⟩)
  · simp only
    rw [ends_bind]
    apply onFs_ends (end_op_givenBack hk)
    exact fun _ fs hback _ => .inl ⟨hnone, hback, fun _ _ => rfl, rfl⟩
  · simp only
    rw [ends_bind]
    apply onFs_ends (Kernel.ilock_wp hk (.head _))
    rintro _ k₁ ⟨h₁, -⟩
    have hin : Inside s { s with fs := k₁ } p ip i := ⟨hbase, h₁, rfl⟩
    refine (image_ends hbase.sound hin hvm hown hcount hargs).mono (fun _ _ => trivial) fun r t ht hr => ?_
    exact .inr ⟨i, hsome, ht hr⟩

/-! ## Results -/

/-- A failed `exec` leaves its process as it was, unless it was late. -/
theorem kept_iff (hready : Kernel.Ready s.fs p) (hvm : s.vm = s.vm.mem.loader)
    (hown : Vm.Owns K s.vm.mem (Vm.Tree s.vm.mem s.task.pgdir + F)) (hcount : argv.length < Vm.MAXARG)
    (hargs : ∀ arg ∈ argv, arg.length < 2 ^ 28) (hrun : (exec K p path argv).run s = .ok (false, t)) :
    Kept s t ↔ ¬ Late s p path argv := by
  rcases (exec_ends hready hvm hown hcount hargs).of_ok hrun rfl with ⟨hnone, hundone⟩ | ⟨i, hsome, hfails⟩
  · refine iff_of_true hundone.kept ?_
    rintro ⟨i, sz, sp, hi, -⟩
    rw [hnone] at hi
    exact nomatch hi
  rcases hfails with ⟨hundone, hnot⟩ | ⟨sz, sp, hsz, hover, hundone⟩
  · refine iff_of_true hundone.kept ?_
    rintro ⟨j, sz, sp, hj, hsz, hover, -⟩
    rw [hsome] at hj
    obtain rfl := Option.some.inj hj
    exact hnot sz sp hsz hover
  · rw [hundone.kept_iff, iff_not_comm]
    constructor
    · rintro ⟨j, sz', sp', hj, hsz', hover', hne⟩
      rw [hsome] at hj
      obtain rfl := Option.some.inj hj
      rw [hsz] at hsz'
      obtain rfl := Option.some.inj hsz'
      have hsp := hover.1.symm.trans hover'.1
      obtain rfl := Option.some.inj hsp
      exact hne
    · exact fun hne => ⟨i, sz, sp, hsome, hsz, hover, hne⟩

/-! ### A vector that does not fit -/

/-- What a program returns. -/
def resultM {α : Type} (x : M α) (s : State) : Option α :=
  match x.run s with
  | .ok (a, _) => some a
  | .error _ => none

/-- A result is the result of a run. -/
lemma run_of_resultM {x : M α} {a : α} (h : resultM x s = some a) : ∃ t, x.run s = .ok (a, t) := by
  unfold resultM at h
  cases hx : x.run s with
  | ok r =>
    rw [hx] at h
    obtain ⟨b, t⟩ := r
    obtain rfl := Option.some.inj h
    exact ⟨t, rfl⟩
  | error e =>
    rw [hx] at h
    exact nomatch h

/-- The disk with the file `f`, which is a program without segments. -/
def elfFile : Kernel.State :=
  { Kernel.oneFile with
    disk := Kernel.twoDisk Kernel.oneFileSb (Kernel.blockBase (Vm.elfBytes 0)) Kernel.rootInode
      (Kernel.blockInode (Vm.elfBytes 0).length)
    icache := Kernel.twoCache Kernel.rootInode (Kernel.blockInode (Vm.elfBytes 0).length) }

/-- The file of the example has its inode and blocks. -/
lemma rooted_elfFile :
    Kernel.Rooted (Kernel.blockBase (Vm.elfBytes 0)) (Kernel.blockInode (Vm.elfBytes 0).length) 60 :=
  Kernel.rooted_blockFile (by decide)

/-- The example's file system is at rest. -/
lemma ready_elfFile : Kernel.Ready elfFile 1 := by
  refine ⟨rooted_elfFile.two.settled rfl rfl rfl, rooted_elfFile.sound rfl rfl, ⟨by decide, by decide⟩,
    fun f _ h0 => ?_, List.nodup_nil⟩
  by_cases hf : f = 0
  · rw [hf] at h0
    exact absurd h0 (by decide)
  · show (if f = 0 then (⟨.FD_INODE, 1, true, true, 0, 0, 0⟩ : Kernel.File)
      else ⟨.FD_NONE, 0, false, false, 0, 0, 0⟩).type = _
    rw [if_neg hf]

lemma resolve_elfFile : elfFile.nodes.resolve (elfFile.start 1 [102]) [102] = some 2 := by
  have hnodes := rooted_elfFile.two.nodes (s := elfFile) rfl rfl
  rw [hnodes]
  exact rooted_elfFile.resolve_file

/-- The file's content is the image. -/
lemma program_elfFile : program (elfFile.nodes 2) = Vm.elfBytes 0 := by
  have hnodes := rooted_elfFile.two.nodes (s := elfFile) rfl rfl
  have htype : (elfFile.nodes 2).type ≠ T_DEV := by
    rw [hnodes, rooted_elfFile.type_file]
    decide
  have hsize : (elfFile.nodes 2).size = (Vm.elfBytes 0).length := by
    rw [hnodes]
    rfl
  refine List.ext_getElem ((length_program htype).trans hsize) fun j _ hj => ?_
  unfold program
  simp only [if_neg htype, List.getElem_map, List.getElem_range]
  rw [hnodes]
  exact Kernel.data_blockFile (by decide) hj

/-- The arguments of the system call are in the memory of the process. -/
def lateTask : Task := ⟨57340, 12392, [], fun r => if r = .rdi then 8000 else if r = .rsi then 8002 else 0⟩

/-- The state of the example, on the disk with the program. -/
def lateState (v : Vm.Sys) : State := ⟨elfFile, v.mem.loader, lateTask⟩

/-- A string of 4095 bytes fills the page of the stack. -/
def fullPage : List (List UInt8) := [List.replicate 4095 97]

lemma late_elfFile (v : Vm.Sys) : Late (lateState v) 1 [102] fullPage := by
  have hrdi : lateTask.tf .rdi ≠ fullPage.length := by decide
  refine ⟨2, 12288, 8192, resolve_elfFile, ?_, ⟨by decide +kernel, by decide⟩, fun h => hrdi h.1⟩
  show Vm.imageSize (program (elfFile.nodes 2)) = _
  rw [program_elfFile]
  decide +kernel

/-- `exec` returns -1. -/
lemma run_lateState : ∃ v t, Runs.run (Vm.machine Vm.smallKernel) Vm.smallSys Vm.grownActs = some v ∧
    (v.proc Vm.initproc).status = .live ∧ (v.proc Vm.initproc).pc = .user ∧
    (v.proc Vm.initproc).pgdir = some 57340 ∧ (v.proc Vm.initproc).sz = 12392 ∧
    Vm.fetches v Vm.initproc PGSIZE ∧
    (exec Vm.smallKernel 1 [102] fullPage).run (lateState v) = .ok (false, t) := by
  obtain ⟨v, -, hrun, hlive, huser, hold, hsz, hfetch, -⟩ := Vm.run_grownActs
  have hfalse : ((Runs.run (Vm.machine Vm.smallKernel) Vm.smallSys Vm.grownActs).bind fun v =>
      resultM (exec Vm.smallKernel 1 [102] fullPage) (lateState v)) = some false := by
    decide +kernel
  rw [hrun, Option.bind_some] at hfalse
  obtain ⟨t, ht⟩ := run_of_resultM hfalse
  exact ⟨v, t, hrun, hlive, huser, hold, hsz, hfetch, ht⟩

/-- They are strings of the caller. -/
lemma length_fullPage : ∀ arg ∈ fullPage, arg.length < 12392 := by
  intro arg harg
  rw [List.mem_singleton.mp harg, List.length_replicate]
  decide

/-! ### Results -/

variable {v₀ v : Vm.Sys} {q : Vm.Slot} {acts : List Vm.Act}

/-- **A failed `exec` leaves its caller as it was if and only if** it was not late: for every path, all
arguments and every file, in every state of the file system between two calls and of the memory that the
machine reaches. -/
theorem exec_failed_iff (rip : ℕ) (hs : Vm.Started K v₀) (hv : Runs.run (Vm.machine K) v₀ acts = some v)
    (hlive : (v.proc q).status = .live) (huser : (v.proc q).pc = .user) (hfetch : Vm.fetches v q rip)
    (hold : (v.proc q).pgdir = some s.task.pgdir) (hsz : (v.proc q).sz = s.task.sz) (hvm : s.vm = v.mem.loader)
    (hready : Kernel.Ready s.fs p) (hcount : argv.length < Vm.MAXARG)
    (hargs : ∀ arg ∈ argv, arg.length < s.task.sz) (hrun : (exec K p path argv).run s = .ok (false, t)) :
    Kept s t ↔ ¬ Late s p path argv := by
  obtain ⟨F, hown, hsmall⟩ := Vm.caller hs hv hlive huser hfetch hold
  have hmem : s.vm.mem = v.mem := by
    rw [hvm]
    rfl
  rw [hsz] at hsmall
  exact kept_iff hready (by rw [hmem, hvm]) (hmem ▸ hown) hcount
    (fun arg harg => (hargs arg harg).trans hsmall) hrun

/-- The arguments do not fit, after the registers were set. -/
theorem exec_failed_iff_lateState : ∃ v t,
    Runs.run (Vm.machine Vm.smallKernel) Vm.smallSys Vm.grownActs = some v ∧
    (exec Vm.smallKernel 1 [102] fullPage).run (lateState v) = .ok (false, t) ∧
    (Kept (lateState v) t ↔ ¬ Late (lateState v) 1 [102] fullPage) := by
  obtain ⟨v, t, hv, hlive, huser, hold, hsz, hfetch, hrun⟩ := run_lateState
  exact ⟨v, t, hv, hrun, exec_failed_iff PGSIZE Vm.started_smallSys hv hlive huser hfetch hold hsz rfl
    ready_elfFile (by decide) length_fullPage hrun⟩

/-- After this `exec` has failed, the registers `rdi` and `rsi` are not what they were. -/
theorem not_kept_lateState : Vm.Started Vm.smallKernel Vm.smallSys ∧ Kernel.Ready elfFile 1 ∧ ∃ v t,
    Runs.run (Vm.machine Vm.smallKernel) Vm.smallSys Vm.grownActs = some v ∧
    Vm.fetches v Vm.initproc PGSIZE ∧
    (exec Vm.smallKernel 1 [102] fullPage).run (lateState v) = .ok (false, t) ∧ ¬ Kept (lateState v) t := by
  refine ⟨Vm.started_smallSys, ready_elfFile, ?_⟩
  obtain ⟨v, t, hv, hlive, huser, hold, hsz, hfetch, hrun⟩ := run_lateState
  refine ⟨v, t, hv, hfetch, hrun, fun hkept => ?_⟩
  obtain ⟨F, hown, -⟩ := Vm.caller Vm.started_smallSys hv hlive huser hfetch hold
  have hsmall : ∀ arg ∈ fullPage, arg.length < 2 ^ 28 := fun arg harg =>
    (length_fullPage arg harg).trans (by decide)
  exact (kept_iff ready_elfFile rfl hown (by decide) hsmall hrun).mp hkept (late_elfFile v)

end

end Exec
end OhMyXv6
