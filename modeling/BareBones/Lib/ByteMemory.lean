-- A memory of bytes that remembers where it was stored to, and what is left alone
-- by a series of stores.
import Mathlib.Algebra.Group.Nat.Defs
import Mathlib.Data.List.Range

namespace byte_memory

structure Memory where
  bytes : Nat → UInt8
  stored : List Nat

namespace Memory

/-- The bytes of `bs` from `a` on. -/
def store (m : Memory) (a : Nat) (bs : List UInt8) : Memory where
  bytes := fun i => if a ≤ i ∧ i < a + bs.length then bs.getD (i - a) 0 else m.bytes i
  stored := m.stored ++ List.range' a bs.length

/-- An integer of `n` bytes, the lowest one first. -/
def storeInt (m : Memory) (a n value : Nat) : Memory :=
  m.store a ((List.range n).map fun i => UInt8.ofNat (value / 256 ^ i))

end Memory

/-- Between `m` and the later `m'` there was no store to an address of `P`. -/
structure Spares (P : Nat → Prop) (m m' : Memory) : Prop where
  bytes : ∀ a, P a → m'.bytes a = m.bytes a
  stored : ∀ a ∈ m'.stored, P a → a ∈ m.stored
  later : m.stored ⊆ m'.stored

namespace Spares

variable {P : Nat → Prop}

theorem refl (m : Memory) : Spares P m m := ⟨fun _ _ => rfl, fun _ h _ => h, fun _ h => h⟩

theorem trans {m m' m'' : Memory} (h : Spares P m m') (h' : Spares P m' m'') : Spares P m m'' where
  bytes a ha := (h'.bytes a ha).trans (h.bytes a ha)
  stored a hs ha := h.stored a (h'.stored a hs ha) ha
  later _ hs := h'.later (h.later hs)

theorem store {a : Nat} {bs : List UInt8} (h : ∀ i, P i → i < a ∨ a + bs.length ≤ i)
    (m : Memory) : Spares P m (m.store a bs) where
  bytes i hi := by
    have := h i hi
    exact if_neg (by omega)
  stored i hs hi := by
    have := h i hi
    rw [Memory.store, List.mem_append, List.mem_range'_1] at hs
    rcases hs with hs | hs
    · exact hs
    · omega
  later := List.subset_append_left _ _

theorem storeInt {a n : Nat} (h : ∀ i, P i → i < a ∨ a + n ≤ i) (m : Memory) (value : Nat) :
    Spares P m (m.storeInt a n value) :=
  Spares.store (by simpa using h) m

end Spares

theorem mem_stored_storeInt (m : Memory) (a value : Nat) {n : Nat} (hn : 0 < n) :
    a ∈ (m.storeInt a n value).stored := by
  rw [Memory.storeInt, Memory.store, List.mem_append, List.mem_range'_1]
  simp [hn]

end byte_memory
