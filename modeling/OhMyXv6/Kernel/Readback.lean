import OhMyXv6.Kernel.Filewrite

/-!
# Reading back what was written

`writei` and `readi` cut a range at the ends of the blocks, each in its own way. What one of them has
stored the other finds, in every range, and nothing else has changed.
-/

namespace OhMyXv6
namespace Kernel

open Bytes Prog

/-- Byte `p` of a file after `src` has been written at offset `off`. -/
def overwritten (old : ℕ → UInt8) (off : ℕ) (src : List UInt8) (p : ℕ) : UInt8 :=
  if off ≤ p ∧ p < off + src.length then src.getD (p - off) 0 else old p

/-- `readi` gives the bytes that are there, and refuses exactly the ranges that start behind the end
of the file or wrap around. -/
structure Readable (s : State) (ip : ℕ) (byte : ℕ → UInt8) : Prop where
  refuses : ∀ off n, (s.icache ip).din.size < off ∨ 2 ^ 32 ≤ off + n →
    Prog.exec (readi ip off n) s = .done none s
  reads : ∀ off n, off ≤ (s.icache ip).din.size → off + n < 2 ^ 32 →
    Prog.exec (readi ip off n) s = .done (some
      ((List.range (readiLen (s.icache ip).din.size off n)).map fun j => byte (off + j))) s

/-- From `s` to `t`, the bytes `src` have been written at offset `off`. -/
structure ReadsBack (s t : State) (ip off : ℕ) (src : List UInt8) : Prop where
  size : (t.icache ip).din.size = max (s.icache ip).din.size (off + src.length)
  read : Readable t ip (overwritten (s.cached ip).data off src)
  others : ∀ j, j ≠ (s.icache ip).inum → t.nodes j = s.nodes j

section
variable {s t : State} {ip off n : ℕ} {X : ℕ → Dinode} {A : Nodes} {src : List UInt8}

/-- What `writei` does to the bytes of the file. -/
lemma overwritten_eq (old : ℕ → UInt8) (p : ℕ) :
    blit old off src.length (ofList src) p = overwritten old off src p := by
  unfold overwritten
  by_cases hin : off ≤ p ∧ p < off + src.length
  · rw [if_pos hin, blit_in hin.1 hin.2]
    rfl
  · rw [if_neg hin, blit_out (by omega)]

/-- A block below the size is there. -/
lemma Holds.hasBlock (h : Holds s ip X A) {bn : ℕ} (hlt : bn * BSIZE < (s.icache ip).din.size) :
    s.HasBlock ip bn := by
  have hd := h.image.dense _ bn h.live
  rw [Function.update_self] at hd
  exact hd hlt

/-- A file without holes can be read. -/
lemma Holds.readable (h : Holds s ip X A) (htype : (s.icache ip).din.type ≠ T_DEV) :
    Readable s ip (s.cached ip).data := by
  refine ⟨fun off n href => ?_, fun off n hoff hlt => ?_⟩
  · unfold readi
    rw [exec_get, if_neg htype, if_pos href]
    rfl
  · refine exec_readi htype hoff hlt fun bn _ hbn => ?_
    have hle := readiLen_le (n := n) hoff
    exact h.hasBlock (by omega)

/-- What was written is read, and all other bytes are as they were. -/
lemma Wrote.readsBack (h : Holds s ip (dinode s.sb s.disk) A)
    (ht : Holds t ip (dinode s.sb s.disk) (A.write (s.icache ip).inum off src))
    (hw : Wrote s t ip off src) (htype : (s.icache ip).din.type ≠ T_DEV) :
    ReadsBack s t ip off src := by
  have hnode := ht.node
  rw [hw.inum, Nodes.write_self, h.node] at hnode
  have hdin : (t.icache ip).din.type = (s.icache ip).din.type := by
    rw [hw.frame]
    simp only [Function.update_self]
  have hdata : (t.cached ip).data = overwritten (s.cached ip).data off src := by
    rw [← hnode]
    funext p
    exact overwritten_eq _ p
  refine ⟨?_, ?_, fun j hj => ?_⟩
  · have hsize := congrArg Node.size hnode
    exact hsize.symm
  · rw [← hdata]
    exact ht.readable (by rw [hdin]; exact htype)
  · -- the other inodes are the same on the disk, and so are their blocks
    unfold State.nodes
    rw [hw.sb]
    by_cases hlt : j < s.sb.ninodes
    · rw [if_pos hlt, if_pos hlt, hw.others j hlt hj]
      have hs := h.image.node_of_lt hlt
      have ht' := ht.image.node_of_lt (i := j) (by rw [hw.sb]; exact hlt)
      rw [Function.update_of_ne hj] at hs
      rw [hw.inum, Function.update_of_ne hj, Nodes.write_of_ne hj] at ht'
      rw [← hs, ← ht']
    · rw [if_neg hlt, if_neg hlt]

/-- **What was written is read back.** A write to a regular file, on a disk with enough free blocks,
is refused exactly when it starts behind the end of the file, wraps around or goes beyond the largest
size; otherwise it ends, unless the log is full, with all bytes in place and all others as they
were. -/
theorem read_back (h : Holds s ip (dinode s.sb s.disk) A) (hout : 1 ≤ s.outstanding)
    (htype : (s.icache ip).din.type = T_FILE)
    (hfree : (missing s ip (slots (blocks off src.length))).card ≤ freeCount s.sb s.disk) :
    Readable s ip (s.cached ip).data ∧
    Ends (fun e => e = .tooBigATransaction ∧
        s.logLimit ≤ s.lh.length + ((blocks off src.length).card + 6))
      (writei ip src off)
      (fun r t => if (s.icache ip).din.size < off ∨ 2 ^ 32 ≤ off + src.length ∨
          MAXFILE * BSIZE < off + src.length then r = none ∧ t = s
        else r = some src.length ∧ ReadsBack s t ip off src) s := by
  have hBS : BSIZE = 512 := rfl
  have hM : MAXFILE = 140 := rfl
  have hdev : (s.icache ip).din.type ≠ T_DEV := by
    rw [htype]
    decide
  refine ⟨h.readable hdev, (writei_wrote h hout hdev).mono ?_ fun r t hrt => ?_⟩
  · rintro e ⟨-, ⟨-, hless⟩ | hfull⟩
    · omega
    · exact hfull
  · have hiff : ((s.icache ip).din.size < off ∨ 2 ^ 32 ≤ off + src.length ∨
        MAXFILE * BSIZE < off + src.length) ↔ Refused (s.icache ip).din off src.length := by
      unfold Refused
      rw [hM, hBS]
      omega
    by_cases href : Refused (s.icache ip).din off src.length
    · rw [if_pos href] at hrt
      rw [if_pos (hiff.mpr href)]
      exact hrt
    · rw [if_neg href] at hrt
      rw [if_neg fun hh => href (hiff.mp hh)]
      exact ⟨hrt.1, hrt.2.2.readsBack h hrt.2.1 hdev⟩

/-! ### The empty file -/

lemma dinode_oneFile {j : ℕ} (hj : j < 200) :
    dinode oneFileSb oneFileDisk j = oneFileInodes j := twoFiles_oneFile.dinode hj

/-- The disk with one empty file, inside a transaction. -/
def oneFileOpen : State := { oneFile with outstanding := 1 }

lemma holds_oneFileOpen : Holds oneFileOpen 0 (dinode oneFileSb oneFileDisk) oneFileNodes := by
  refine ⟨?_, by decide, by decide, List.nodup_nil⟩
  refine image_oneFile.congr fun i hi => ?_
  show Function.update (dinode oneFileSb oneFileDisk) 2 emptyInode i = _
  by_cases h2 : i = 2
  · rw [h2, Function.update_self]
    rfl
  · rw [Function.update_of_ne h2, dinode_oneFile hi]

/-- There are blocks for two bytes. -/
lemma enough_oneFileOpen : (missing oneFileOpen 0 (slots (blocks 0 2))).card
    ≤ freeCount oneFileOpen.sb oneFileOpen.disk := by
  have hmissing := card_missing_le oneFileOpen 0 (slots (blocks 0 2))
  have hslots := card_slots_le (blocks 0 2)
  have hblocks : (blocks 0 2).card ≤ 1 + 1 := card_blocks_le (by decide)
  have hfree : 1940 ≤ freeCount oneFileOpen.sb oneFileOpen.disk := le_freeCount_oneFile
  omega

/-- Two bytes are written to the empty file and read back. -/
theorem read_back_oneFile : Readable oneFileOpen 0 (oneFileOpen.cached 0).data ∧
    Ends (fun e => e = .tooBigATransaction) (writei 0 [104, 105] 0)
      (fun r t => r = some 2 ∧ ReadsBack oneFileOpen t 0 0 [104, 105]) oneFileOpen := by
  have hM : MAXFILE * BSIZE = 71680 := rfl
  have hempty : ∀ (s : State) (src : List UInt8), Holds s 0 (dinode s.sb s.disk) oneFileNodes →
      1 ≤ s.outstanding → (s.icache 0).din.type = T_FILE → (s.icache 0).din.size = 0 →
      src.length = 2 → (missing s 0 (slots (blocks 0 2))).card ≤ freeCount s.sb s.disk →
      Readable s 0 (s.cached 0).data ∧ Ends (fun e => e = .tooBigATransaction) (writei 0 src 0)
        (fun r t => r = some 2 ∧ ReadsBack s t 0 0 src) s := by
    intro s src hholds hout htype hsize hlen hfree
    rw [← hlen] at hfree
    obtain ⟨hread, hends⟩ := read_back hholds hout htype hfree
    refine ⟨hread, hends.mono (fun e he => he.1) fun r t hrt => ?_⟩
    rw [if_neg (by rw [hsize, hlen, hM]; omega), hlen] at hrt
    exact hrt
  exact hempty oneFileOpen [104, 105] holds_oneFileOpen (Nat.le_refl 1) rfl rfl rfl
    enough_oneFileOpen

end

end Kernel
end OhMyXv6
