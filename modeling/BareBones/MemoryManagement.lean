-- The interface of `memoryManagement.h`. The kernel is linked with one of
-- two managers, `bitmap.c` or `buddy.c`; the code above it only calls
-- `mm_alloc` and `mm_free`, so it is modelled over any manager.
import Mathlib.Algebra.Group.Nat.Defs
import Mathlib.Data.List.Basic

namespace bare_bones

/-- An address of the kernel. `NULL` is the `none` of an `Option Addr`. -/
abbrev Addr := Nat

/-- `POW2` of `memoryManagement.h`. -/
def POW2 (x : Nat) : Nat := 2 ^ x

def HEAP_SIZE : Nat := 256 * 1024 * 1024

@[simp] theorem POW2_eq (x : Nat) : POW2 x = 2 ^ x := rfl

/-- A memory manager with states `H`: `mm_alloc` gives a block or `NULL`, and
`mm_free` takes a block back. -/
class MemoryManager (H : Type) where
  mm_alloc : Nat → H → Option Addr × H
  mm_free : Addr → H → H

export MemoryManager (mm_alloc mm_free)

/-- `mm_alloc` never gives `NULL` for a request of `n` bytes. A sequence of
answers fixed in advance is a manager too, so a statement over every manager
with `Serves` covers each run in which the requests of `n` bytes succeed. -/
def Serves (H : Type) [MemoryManager H] (n : Nat) : Prop :=
  ∀ h : H, ∃ a h', mm_alloc n h = (some a, h')

/-- `mm_free` on each block of a list, in order. -/
def freeAll {H : Type} [MemoryManager H] (blocks : List Addr) (h : H) : H :=
  blocks.foldl (fun h a => mm_free a h) h

/-- A heap that never runs out: it gives the next address and forgets what
comes back. It runs the model on concrete inputs. -/
structure Endless where
  next : Addr

instance : MemoryManager Endless where
  mm_alloc n h := (some h.next, ⟨h.next + n⟩)
  mm_free _ h := h

theorem endless_serves (n : Nat) : Serves Endless n := fun h => ⟨h.next, ⟨h.next + n⟩, rfl⟩

/-! ## What the two managers share -/

/-- `mem_t`. -/
structure Mem where
  size : Nat
  used : Nat
  free : Nat
  deriving DecidableEq, Repr

/-- The arguments of `mm_create`: a region of the address space. -/
structure Region where
  startAddress : Addr
  totalSize : Nat
  fits : startAddress + totalSize ≤ 2 ^ 64

theorem Region.totalSize_le (r : Region) : r.totalSize ≤ 2 ^ 64 :=
  Nat.le_trans (Nat.le_add_left _ _) r.fits

inductive HeapCall
  | mm_alloc (bytes : Nat)
  | mm_free (ptr : Addr)
  deriving DecidableEq, Repr

/-- Addition and subtraction of `uint64_t`. -/
def add64 (a b : Nat) : Nat := (a + b) % 2 ^ 64

def sub64 (a b : Nat) : Nat := (a + (2 ^ 64 - b % 2 ^ 64)) % 2 ^ 64

theorem add64_of_lt {a b : Nat} (h : a + b < 2 ^ 64) : add64 a b = a + b := Nat.mod_eq_of_lt h

theorem sub64_of_le {a b : Nat} (h : b ≤ a) (ha : a < 2 ^ 64) : sub64 a b = a - b := by
  unfold sub64
  rw [Nat.mod_eq_of_lt (Nat.lt_of_le_of_lt h ha)]
  omega

end bare_bones
