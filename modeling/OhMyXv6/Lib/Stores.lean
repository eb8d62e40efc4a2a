import OhMyXv6.Lib.Bytes

/-!
# Stores to a byte string

A log of stores is replayed on a byte string. Where the stores do not overlap, each of them is there
afterwards, whatever the string held before.
-/

namespace Bytes

/-- Some bytes, and the offset at which they are stored. -/
structure Store where
  off : ℕ
  bytes : List UInt8

namespace Store

/-- The bytes after one store. -/
def write (b : ℕ → UInt8) (c : Store) : ℕ → UInt8 := blit b c.off c.bytes.length (ofList c.bytes)

/-- The first store and the second one have no byte in common. -/
def Disjoint (c e : Store) : Prop := c.off + c.bytes.length ≤ e.off ∨ e.off + e.bytes.length ≤ c.off

end Store

/-- The bytes after a list of stores. -/
def replay (b : ℕ → UInt8) (cs : List Store) : ℕ → UInt8 := cs.foldl Store.write b

section
variable {b : ℕ → UInt8} {c : Store} {cs ds : List Store} {i j : ℕ}

lemma replay_append : replay b (cs ++ ds) = replay (replay b cs) ds := List.foldl_append

lemma write_in (hj : j < c.bytes.length) : Store.write b c (c.off + j) = c.bytes[j] := by
  unfold Store.write
  rw [blit_in (by omega) (by omega), Nat.add_sub_cancel_left, ofList, List.getD_eq_getElem _ _ hj]

lemma write_out (h : i < c.off ∨ c.off + c.bytes.length ≤ i) : Store.write b c i = b i := blit_out h

/-- A byte that no store covers is as it was. -/
lemma replay_out (h : ∀ c ∈ cs, i < c.off ∨ c.off + c.bytes.length ≤ i) : replay b cs i = b i := by
  induction cs generalizing b with
  | nil => rfl
  | cons c cs ih =>
    have hhead := h c List.mem_cons_self
    have htail : replay (Store.write b c) cs i = Store.write b c i :=
      ih fun e he => h e (List.mem_cons_of_mem c he)
    exact htail.trans (write_out hhead)

/-- Each of the stores is there afterwards. -/
lemma replay_in (hd : cs.Pairwise Store.Disjoint) (hc : c ∈ cs) (hj : j < c.bytes.length) :
    replay b cs (c.off + j) = c.bytes[j] := by
  induction cs generalizing b with
  | nil => exact absurd hc List.not_mem_nil
  | cons e cs ih =>
    obtain ⟨hhead, htail⟩ := List.pairwise_cons.mp hd
    rcases List.mem_cons.mp hc with rfl | hmem
    · -- the later stores are elsewhere
      have hout : replay (Store.write b c) cs (c.off + j) = Store.write b c (c.off + j) := by
        refine replay_out fun e he => ?_
        have hce := hhead e he
        unfold Store.Disjoint at hce
        omega
      exact hout.trans (write_in hj)
    · exact ih htail hmem

end

end Bytes
