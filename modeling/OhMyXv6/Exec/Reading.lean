import OhMyXv6.Exec.Model
import OhMyXv6.Kernel.Walk

/-!
# Reading the program

As long as the inode is locked, `readi` reads the same bytes and leaves the file system as it is. So loading
a program through its inode is what `Vm.Exec` does with the bytes of the file.
-/

namespace OhMyXv6
namespace Exec

open Fallible
open Vm (Loader Elfhdr Segment ELF_MAGIC)

/-- What `exec` can read of a file. -/
def program (n : Kernel.Node) : List UInt8 :=
  if n.type = T_DEV then [] else (List.range n.size).map n.data

/-- Through the inode there are these bytes. -/
def Reads (fs : Kernel.State) (ip : ℕ) (file : List UInt8) : Prop :=
  ∀ off n, (Kernel.readi ip off n).exec fs = .done (Vm.readi file off n) fs

section
variable {T k : Kernel.State} {H : List Kernel.Held} {L : List ℕ} {ip i : ℕ} {file : List UInt8}
  {K : Vm.Kernel} {s : State} {α : Type}

/-! ## The bytes of a file -/

/-- A program is as long as its file. -/
lemma length_program {n : Kernel.Node} (h : n.type ≠ T_DEV) : (program n).length = n.size := by
  unfold program
  rw [if_neg h, List.length_map, List.length_range]

/-- A part of the file. -/
lemma part_program {n : Kernel.Node} (h : n.type ≠ T_DEV) {off len : ℕ} (hoff : off ≤ n.size) :
    ((program n).drop off).take len =
      (List.range (Kernel.readiLen n.size off len)).map fun j => n.data (off + j) := by
  have hlen : (((program n).drop off).take len).length = Kernel.readiLen n.size off len := by
    rw [List.length_take, List.length_drop, length_program h]
    unfold Kernel.readiLen
    split
    · omega
    · omega
  refine List.ext_getElem (by rw [hlen, List.length_map, List.length_range]) fun j _ _ => ?_
  unfold program
  simp only [if_neg h, List.getElem_take, List.getElem_drop, List.getElem_map, List.getElem_range]

/-- A locked inode that is not a device is read. -/
lemma reads_of_steady (h : Kernel.Steady T k H L) (hs : Kernel.Sound T) {v : Bool} (ha : ⟨ip, i, v⟩ ∈ H)
    (hL : ip ∈ L) (htype : (T.nodes i).type ≠ T_DEV) : Reads k ip (program (T.nodes i)) := by
  have hcached := h.cached_eq ha hL
  have hdev : (k.icache ip).din.type ≠ T_DEV := by
    rw [← hcached] at htype
    exact htype
  have hsize : (T.nodes i).size = (k.icache ip).din.size := by
    rw [← hcached]
    rfl
  intro off n
  unfold Vm.readi
  rw [length_program htype, hsize]
  by_cases hout : (k.icache ip).din.size < off ∨ 2 ^ 32 ≤ off + n
  · rw [if_pos hout]
    unfold Kernel.readi
    rw [Kernel.exec_get, if_neg hdev, if_pos hout]
    rfl
  · rw [if_neg hout, not_or] at *
    have hoff : off ≤ (k.icache ip).din.size := by omega
    have hB : BSIZE = 512 := rfl
    rw [Kernel.exec_readi hdev hoff (by omega), part_program htype (hsize ▸ hoff), hsize, hcached]
    intro bn hle hlt
    have hread := Kernel.readiLen_le (n := n) hoff
    have hoff' : bn * BSIZE < (k.icache ip).din.size := by omega
    have hblock := h.hasBlock hs ha hL hoff'
    rwa [Nat.mul_div_cancel _ (by rw [hB]; decide)] at hblock

/-! ## Loading it -/

/-- The file system is in this state. -/
def At (fs : Kernel.State) (s : State) : Prop := s.fs = fs

/-- The file system is no part of the memory. -/
lemma ignores_at {fs : Kernel.State} : Ignores memory (At fs) := fun _ _ h => h

/-- A call of the memory model leaves the file system alone. -/
lemma ends_onVm {x : Vm.X α} {E : Stop → Prop} {Q : α → State → Prop} :
    Ends E (onVm x) Q s ↔ Ends (fun e => E (.vm e)) x (fun a l => Q a { s with vm := l }) s.vm := ends_on

/-- A call of the file system that is known. -/
lemma run_onFs {x : Kernel.M α} {a : α} {fs : Kernel.State} (h : x.exec s.fs = .done a fs) :
    (onFs x).run s = .ok (a, { s with fs := fs }) := by
  unfold onFs StateT.run
  dsimp only
  rw [h]

variable {fs : Kernel.State} (h : Reads fs ip file)
include h

/-- `readi` reads the file's bytes. -/
lemma Reads.run (off n : ℕ) :
    ∀ s, At fs s → (onFs (Kernel.readi ip off n)).run s = .ok (Vm.readi file off n, s) := by
  rintro s rfl
  exact run_onFs (h off n)

/-- The same where all bytes must be there. -/
lemma Reads.readExact (off n : ℕ) :
    ∀ s, At fs s → (readExact ip off n).run s = .ok (Vm.readExact file off n, s) := by
  intro s hs
  unfold Exec.readExact
  rw [StateT.run_bind, h.run off n s hs]
  rfl

lemma Reads.readSegment (off : ℕ) :
    ∀ s, At fs s → (readSegment ip off).run s = .ok (Vm.readSegment file off, s) := by
  intro s hs
  unfold Exec.readSegment
  rw [StateT.run_bind, h.readExact off _ s hs]
  rfl

lemma Reads.readElfhdr : ∀ s, At fs s → (readElfhdr ip).run s = .ok (Vm.readElfhdr file, s) := by
  intro s hs
  unfold Exec.readElfhdr
  rw [StateT.run_bind, h.readExact 0 _ s hs]
  rfl

lemma Reads.loadLoop {pgdir addr offset sz n i : ℕ} : Follows (At fs) memory Stop.vm
    (loadLoop ip pgdir addr offset sz n i) (Vm.loadLoop file pgdir addr offset sz n i) := by
  induction n generalizing i with
  | zero => exact .pure
  | succ n ih =>
    rw [Exec.loadLoop, Vm.loadLoop]
    refine .bind ignores_at .on fun o => ?_
    cases o with
    | none => exact .throw
    | some r =>
      obtain ⟨t, j⟩ := r
      refine .bind ignores_at .on fun l => .known (h.run _ _) ?_
      cases Vm.readi file ((offset + i) % 2 ^ 32) (Vm.chunk sz i) with
      | none => exact .pure
      | some bytes =>
        exact .bind ignores_at .on fun _ => .ite ih .pure

lemma Reads.loaduvm {pgdir addr offset sz : ℕ} : Follows (At fs) memory Stop.vm
    (loaduvm ip pgdir addr offset sz) (Vm.loadPages file pgdir addr offset sz) := by
  unfold Exec.loaduvm Vm.loadPages
  by_cases haddr : addr % PGSIZE ≠ 0
  · rw [if_pos haddr, if_pos haddr]
    exact .bind ignores_at .throw fun _ => h.loadLoop
  · rw [if_neg haddr, if_neg haddr]
    exact h.loadLoop

lemma Reads.loadSegment {pgdir sz : ℕ} {ph : Segment} : Follows (At fs) memory Stop.vm
    (loadSegment K ip pgdir sz ph) (Vm.loadSegment K file pgdir sz ph) := by
  unfold Exec.loadSegment Vm.loadSegment
  refine .ite .pure (.ite .pure (.ite .pure (.bind ignores_at .on fun sz' => .ite .pure (.ite .pure ?_))))
  exact .bind ignores_at h.loaduvm fun ok => .ite .pure .pure

lemma Reads.loadSegments {pgdir n off sz : ℕ} : Follows (At fs) memory Stop.vm
    (loadSegments K ip pgdir n off sz) (Vm.loadSegments K file pgdir n off sz) := by
  induction n generalizing off sz with
  | zero => exact .pure
  | succ n ih =>
    rw [Exec.loadSegments, Vm.loadSegments]
    refine .known (h.readSegment off) ?_
    cases Vm.readSegment file off with
    | none => exact .pure
    | some ph =>
      refine .bind ignores_at h.loadSegment fun o => ?_
      cases o with
      | none => exact .pure
      | some sz => exact ih

omit h

/-- A device can not be read, and has no header. -/
lemma readElfhdr_device (hdev : (fs.icache ip).din.type = T_DEV) :
    ∀ s, At fs s → (readElfhdr ip).run s = .ok (none, s) := by
  rintro s rfl
  have hread : (Kernel.readi ip 0 Elfhdr.size).exec s.fs = .done none s.fs := by
    unfold Kernel.readi
    rw [Kernel.exec_get, if_pos hdev]
    rfl
  unfold readElfhdr readExact
  rw [StateT.run_bind, StateT.run_bind, run_onFs hread]
  rfl

/-- The header of a locked inode; where there is one, all of the file can be read. -/
theorem readElfhdr_steady (hk : Kernel.Steady T k H L) (hs : Kernel.Sound T) {v : Bool} (ha : ⟨ip, i, v⟩ ∈ H)
    (hL : ip ∈ L) : (∀ s, At k s → (readElfhdr ip).run s = .ok (Vm.readElfhdr (program (T.nodes i)), s)) ∧
      (Vm.readElfhdr (program (T.nodes i)) ≠ none → Reads k ip (program (T.nodes i))) := by
  by_cases htype : (T.nodes i).type = T_DEV
  · have hdev : (k.icache ip).din.type = T_DEV := by
      rw [← hk.cached_eq ha hL] at htype
      exact htype
    have hnone : Vm.readElfhdr (program (T.nodes i)) = none := by
      unfold program
      rw [if_pos htype]
      rfl
    rw [hnone]
    exact ⟨readElfhdr_device hdev, fun h => absurd rfl h⟩
  · have hreads := reads_of_steady hk hs ha hL htype
    exact ⟨hreads.readElfhdr, fun _ => hreads⟩

end

end Exec
end OhMyXv6
