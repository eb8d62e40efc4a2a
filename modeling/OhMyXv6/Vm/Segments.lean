import OhMyXv6.Lib.Simulation
import OhMyXv6.Vm.Exec

/-!
# The loader and the steps of `exec`

`Vm.System` has `exec` as steps that go by the program headers, without the file: a step is told the header
and which pages `readi` reads in full. Here these steps are those of the loader in `Vm.Exec`, which reads both
from the file: whatever `execImage` does to the page tables is done by a run of steps.
-/

namespace OhMyXv6
namespace Vm

open Fallible

variable {K : Kernel} {file : List UInt8} {d addr offset sz n i off entry : ℕ} {m : Mem} {l : Loader}
  {s : Sys} {p : Slot} {ph : Segment} {pc : Pc} {α : Type}

/-- The loader has these page tables. -/
def Has (m : Mem) (l : Loader) : Prop := l.mem = m

/-- `readi` reads the page at `i` of a segment in full. -/
def readsPage (file : List UInt8) (offset sz i : ℕ) : Bool :=
  (readi file ((offset + i) % 2 ^ 32) (chunk sz i)).any fun bytes => bytes.length = chunk sz i

/-- What a step of `exec` is told about a segment. -/
def Segment.reads (file : List UInt8) (ph : Segment) : ℕ → Bool :=
  readsPage file (ph.off.toNat % 2 ^ 32) (ph.filesz.toNat % 2 ^ 32)

/-! ## The functions of `vm.c` -/

/-- A call of a function of `vm.c`. -/
lemma onMem_simulates (x : V α) (h : Has m l) : Simulates Has Fault.panic Eq x (onMem x) m l := by
  unfold Has at h
  unfold Simulates Ends
  subst h
  rw [run_onMem]
  cases hx : x.run l.mem with
  | ok r =>
    obtain ⟨a, m⟩ := r
    exact ⟨a, { l with mem := m }, rfl, rfl, rfl⟩
  | error e => rfl

/-- By induction on the pages that are left. -/
lemma loadLoop_simulates (h : Has m l) : Simulates Has Fault.panic Eq
    (loaduvmLoop d addr (readsPage file offset sz) n i) (loadLoop file d addr offset sz n i) m l := by
  induction n generalizing i m l with
  | zero => exact simulates_pure rfl h
  | succ n ih =>
    rw [loaduvmLoop, loadLoop]
    refine (onMem_simulates _ h).bind fun o o' m₁ l₁ ho h₁ => ?_
    subst ho
    cases o with
    | none => exact simulates_throw _
    | some slot =>
      obtain ⟨t, j⟩ := slot
      simp only
      rw [simulates_get_right]
      cases hread : readi file ((offset + i) % 2 ^ 32) (chunk sz i) with
      | none =>
        have hno : readsPage file offset sz i = false := by rw [readsPage, hread, Option.any_none]
        rw [hno]
        exact simulates_pure rfl h₁
      | some bytes =>
        have hfull : readsPage file offset sz i = decide (bytes.length = chunk sz i) := by
          rw [readsPage, hread, Option.any_some]
        rw [hfull]
        unfold load
        simp only [decide_eq_true_eq]
        rw [simulates_modify_right]
        split
        · exact ih h₁
        · exact simulates_pure rfl h₁

/-- `loaduvm` of a segment that begins at a page. -/
lemma loadPages_simulates (h : Has m l) (haddr : addr % PGSIZE = 0) : Simulates Has Fault.panic Eq
    (loaduvm d addr n (readsPage file offset (n % 2 ^ 32))) (loadPages file d addr offset (n % 2 ^ 32)) m l := by
  unfold loaduvm loadPages
  rw [if_neg (not_not.mpr haddr)]
  exact loadLoop_simulates h

/-- **One segment.** The loader does what the step does that is told what the file has. -/
theorem loadSegment_simulates (h : Has m l) : Simulates Has Fault.panic Eq
    (execSegment K d sz ph.toProghdr (ph.reads file)) (loadSegment K file d sz ph) m l := by
  unfold execSegment loadSegment
  split
  · exact simulates_pure rfl h
  split
  · exact simulates_pure rfl h
  split
  · exact simulates_pure rfl h
  refine (onMem_simulates _ h).bind fun sz' sz'' m₁ l₁ hsz h₁ => ?_
  subst hsz
  split
  · exact simulates_pure rfl h₁
  split
  · exact simulates_pure rfl h₁
  · next haddr =>
    refine (loadPages_simulates h₁ (not_not.mp haddr)).bind fun ok ok' m₂ l₂ hok h₂ => ?_
    subst hok
    cases ok with
    | true => exact simulates_pure rfl h₂
    | false => exact simulates_pure rfl h₂

/-! ## The steps -/

-- the elaborator would run the programs in search of further arguments
attribute [local irreducible] Ends

/-- The system with the page tables of the loader. -/
def Sys.loading (s : Sys) (p : Slot) (l : Loader) (pc : Pc) : Sys := { s with mem := l.mem }.setPc p pc

/-- The process that loads its program. -/
lemma Sys.proc_loading (s : Sys) (p : Slot) (l : Loader) (pc : Pc) :
    (s.loading p l pc).proc p = { s.proc p with pc := pc } := Function.update_self _ _ _

/-- The loader goes on. -/
lemma Sys.loading_loading {l' : Loader} {pc' : Pc} :
    (s.loading p l pc).loading p l' pc' = s.loading p l' pc' := by
  unfold Sys.loading Sys.setPc Sys.setProc
  simp only [Function.update_self, Function.update_idem]

/-- Nothing is loaded. -/
lemma Sys.loading_self (h : Has s.mem l) : s.loading p l (s.proc p).pc = s := by
  unfold Sys.loading Sys.setPc Sys.setProc
  rw [show l.mem = s.mem from h, Function.update_eq_self]

/-- Where a process is that has done `execImage`. -/
def imagePc : Option (ℕ × ℕ × ℕ) → Pc
  | none => .user
  | some (_, d, sz) => .args d sz

/-- Steps lead to the state `u`. -/
def Reached (K : Kernel) (s u : Sys) : Prop := ∃ acts, Runs.run (step K) s acts = some u

/-- Steps lead to the panic with which the loader stops. -/
def Stopped (K : Kernel) (s : Sys) (e : Fault) : Prop :=
  ∃ q, e = .panic q ∧ ∃ acts u a, Runs.run (step K) s acts = some u ∧ trans K u a = some (.error q)

/-- A step before the others. -/
lemma Reached.step {u v : Sys} {a : Act} (ha : step K s a = some u) (h : Reached K u v) : Reached K s v := by
  obtain ⟨acts, hrun⟩ := h
  exact ⟨a :: acts, Runs.run_cons_eq_some.mpr ⟨u, ha, hrun⟩⟩

lemma Reached.refl : Reached K s s := ⟨[], rfl⟩

/-- A step before the others. -/
lemma Stopped.step {u : Sys} {a : Act} {e : Fault} (ha : step K s a = some u) (h : Stopped K u e) :
    Stopped K s e := by
  obtain ⟨q, rfl, acts, v, b, hrun, hb⟩ := h
  exact ⟨q, rfl, a :: acts, v, b, Runs.run_cons_eq_some.mpr ⟨u, ha, hrun⟩, hb⟩

/-- The next step is the one that panics. -/
lemma Stopped.here {a : Act} {q : Panic} (h : trans K s a = some (.error q)) : Stopped K s (.panic q) :=
  ⟨q, rfl, [], s, a, rfl, h⟩

/-- A step that is one call of a function of `vm.c`, which the loader makes as well. -/
theorem call_step {x : V α} {y : X α} {k : α → Sys → Sys} {a : Act}
    (htrans : trans K s a = some (s.onMem x k)) (h : Simulates Has Fault.panic Eq x y s.mem l) :
    Ends (Stopped K s) y (fun r l' => step K s a = some (k r { s with mem := l'.mem })) l := by
  refine h.runs.mono ?_ ?_
  · rintro e ⟨q, rfl, hx⟩
    refine .here (a := a) ?_
    rw [htrans]
    unfold Sys.onMem
    rw [hx]
  · rintro r l' ⟨r', m', rfl, hm, hx⟩
    unfold step
    rw [htrans]
    unfold Sys.onMem
    rw [hx, show l'.mem = m' from hm]

/-- A segment, and `goto bad` if it is not loaded. -/
def loadOrBad (K : Kernel) (file : List UInt8) (d sz : ℕ) (ph : Segment) : X (Option ℕ) := do
  match ← loadSegment K file d sz ph with
  | none =>
    onMem (freevm K (some d))
    return none
  | some sz => return some sz

/-- The loader and the step free the new page table for the same reasons. -/
theorem loadOrBad_simulates (h : Has m l) : Simulates Has Fault.panic Eq
    (orBad K d (execSegment K d sz ph.toProghdr (ph.reads file))) (loadOrBad K file d sz ph) m l := by
  refine (loadSegment_simulates h).bind fun o o' m₁ l₁ ho h₁ => ?_
  subst ho
  cases o with
  | none => exact (onMem_simulates _ h₁).bind fun _ _ _ _ _ h₂ => simulates_pure rfl h₂
  | some sz => exact simulates_pure rfl h₁

/-- One round of the loop over the program headers. -/
lemma loadSegments_succ : (loadSegments K file d (n + 1) off sz >>= stackOrBad K entry d) =
    (match readSegment file off with
    | none => stackOrBad K entry d none
    | some ph => loadOrBad K file d sz ph >>= fun o =>
      match o with
      | none => pure none
      | some sz => loadSegments K file d n ((off + Segment.size) % 2 ^ 32) sz >>= stackOrBad K entry d) := by
  rw [loadSegments]
  cases readSegment file off with
  | none => rw [pure_bind]
  | some ph =>
    unfold loadOrBad
    simp only [bind_assoc]
    congr 1
    funext o
    cases o with
    | none => simp [stackOrBad]
    | some sz => simp

/-- What a process does in the kernel goes by where it is. -/
lemma trans_go (hlive : (s.proc p).status = .live) (hpc : (s.proc p).pc = pc) (move : Move) :
    trans K s (.go p move) = go K s p pc move := by
  rw [← hpc]
  exact if_pos hlive

/-- The system when `exec` has its new page table. -/
def Sys.began (s : Sys) (p : Slot) : Option ℕ → Sys
  | none => s
  | some d => s.setPc p (.exec d PGSIZE)

/-- The call of `exec`. -/
lemma trans_exec (hlive : (s.proc p).status = .live) (hpc : (s.proc p).pc = .user) (rip : ℕ) :
    trans K s (.call p rip .exec) = some (s.onMem (setupkvm K) fun d s => s.began p d) := by
  have hcall : trans K s (.call p rip .exec) = some (call K s p .exec) := if_pos ⟨hlive, hpc⟩
  rw [hcall, call]
  congr 2

/-- `goto bad`, as there is no program header. -/
lemma bad_runs (hlive : (s.proc p).status = .live) (hpc : (s.proc p).pc = .exec d sz)
    (h : Has s.mem l) : Ends (Stopped K s) (stackOrBad K entry d none)
      (fun o l' => Reached K s (s.loading p l' (imagePc o))) l := by
  have htrans := trans_go (K := K) hlive hpc .bad
  rw [go] at htrans
  have hcall := call_step htrans (onMem_simulates (freevm K (some d)) h)
  rw [stackOrBad, ends_bind]
  refine hcall.mono (fun _ he => he) fun _ l' hstep => ?_
  rw [ends_pure]
  exact Reached.refl.step hstep

/-- The stack, when all segments are loaded. -/
lemma stack_runs (hlive : (s.proc p).status = .live) (hpc : (s.proc p).pc = .exec d sz)
    (h : Has s.mem l) : Ends (Stopped K s) (stackOrBad K entry d (some sz))
      (fun o l' => Reached K s (s.loading p l' (imagePc o))) l := by
  have htrans := trans_go (K := K) hlive hpc .stack
  rw [go] at htrans
  have hcall := call_step htrans (onMem_simulates _ h)
  rw [stackOrBad, ends_bind]
  refine hcall.mono (fun _ he => he) fun o l' hstep => ?_
  cases o with
  | none => exact ends_pure.mpr (Reached.refl.step hstep)
  | some sz => exact ends_pure.mpr (Reached.refl.step hstep)

/-- By induction on the program headers that are left. -/
lemma loadSegments_runs (hlive : (s.proc p).status = .live) (hpc : (s.proc p).pc = .exec d sz)
    (h : Has s.mem l) : Ends (Stopped K s) (loadSegments K file d n off sz >>= stackOrBad K entry d)
      (fun o l' => Reached K s (s.loading p l' (imagePc o))) l := by
  induction n generalizing s sz off l with
  | zero =>
    rw [loadSegments, pure_bind]
    exact stack_runs hlive hpc h
  | succ n ih =>
    rw [loadSegments_succ]
    cases readSegment file off with
    | none => exact bad_runs hlive hpc h
    | some ph =>
      refine (call_step (trans_go hlive hpc (.segment ph.toProghdr (ph.reads file)))
        (loadOrBad_simulates h)).seq fun o l' hstep => ?_
      cases o with
      | none => exact ends_pure.mpr (Reached.refl.step hstep)
      | some sz' =>
        have hproc := s.proc_loading p l' (.exec d sz')
        refine (ih (s := s.loading p l' (.exec d sz')) ?_ ?_ rfl).mono (fun e he => he.step hstep) ?_
        · rw [hproc]
          exact hlive
        · rw [hproc]
        · intro o l'' hreach
          rw [Sys.loading_loading] at hreach
          exact hreach.step hstep

/-- **The loader is a run of steps.** What `execImage` does to the page tables, and the panic with which it
may stop, is what steps of the process do that begin with its call of `exec`. -/
theorem execImage_runs (hlive : (s.proc p).status = .live) (hpc : (s.proc p).pc = .user) (h : Has s.mem l) :
    Ends (Stopped K s) (execImage K file) (fun o l' => Reached K s (s.loading p l' (imagePc o))) l := by
  have hsame : s.loading p l .user = s := by
    rw [← hpc]
    exact Sys.loading_self h
  unfold execImage
  cases readElfhdr file with
  | none =>
    rw [ends_pure]
    show Reached K s (s.loading p l .user)
    rw [hsame]
    exact .refl
  | some elf =>
    refine (call_step (trans_exec hlive hpc 0) (onMem_simulates (setupkvm K) h)).seq
      fun o l' hstep => ?_
    cases o with
    | none =>
      rw [ends_pure]
      have hback : s.loading p l' .user = { s with mem := l'.mem } := by
        rw [← hpc]
        exact Sys.loading_self (s := { s with mem := l'.mem }) rfl
      show Reached K s (s.loading p l' .user)
      rw [hback]
      exact Reached.refl.step hstep
    | some d =>
      have hproc := s.proc_loading p l' (.exec d PGSIZE)
      refine (loadSegments_runs (s := s.loading p l' (.exec d PGSIZE)) (p := p) ?_ ?_ rfl).mono
        (fun e he => he.step hstep) ?_
      · rw [hproc]
        exact hlive
      · rw [hproc]
      · intro o l'' hreach
        rw [Sys.loading_loading] at hreach
        exact hreach.step hstep

end Vm
end OhMyXv6
