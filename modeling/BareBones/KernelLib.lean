-- `lib.c`: copies of memory, by words where everything is a multiple of four bytes, and
-- memory filled with one byte.
import BareBones.Lib.Copies

namespace bare_bones.lib

open byte_memory

/-- `sizeof(uint32_t)`. -/
def WORD_SIZE : Nat := 4

/-- The loop over words. An address is a number: the ranges do not wrap. -/
def copyWords (destination source length : Nat) (m : Memory) : Memory :=
  m.copyForward WORD_SIZE (length / WORD_SIZE) destination source

/-- The loop over bytes. -/
def copyBytes (destination source length : Nat) (m : Memory) : Memory :=
  m.copyForward 1 length destination source

/-- Gives the destination back. -/
def memcpy (destination source length : Nat) (m : Memory) : Nat × Memory :=
  if destination % WORD_SIZE = 0 ∧ source % WORD_SIZE = 0 ∧ length % WORD_SIZE = 0 then
    (destination, copyWords destination source length m)
  else (destination, copyBytes destination source length m)

section
variable {destination source length : Nat}

theorem copyBytes_copied (h : destination ≤ source ∨ source + length ≤ destination)
    (m : Memory) : Copied m (copyBytes destination source length m) destination source length := by
  have hcopied := copyForward_copied (d := destination) (s := source) 1 length (by omega) m
  rwa [Nat.one_mul] at hcopied

theorem copyWords_copied (hwords : WORD_SIZE ∣ length)
    (h : destination ≤ source ∨ source + length ≤ destination) (m : Memory) :
    Copied m (copyWords destination source length m) destination source length := by
  have hlength := Nat.mul_div_cancel' hwords
  rw [← hlength] at h
  have hcopied := copyForward_copied WORD_SIZE (length / WORD_SIZE) h m
  rwa [hlength] at hcopied

theorem copied_nothing_backwards (h : Apart destination length source length ∨
    destination ≤ source) : length = 0 ∨ destination ≤ source ∨ source + length ≤ destination := by
  unfold Apart at h
  omega

theorem memcpy_spec (h : Apart destination length source length ∨ destination ≤ source)
    (m : Memory) :
    Copied m (memcpy destination source length m).2 destination source length := by
  unfold memcpy
  rcases copied_nothing_backwards h with rfl | h
  · split <;> exact Copied.none m destination source
  · split
    · rename_i haligned
      exact copyWords_copied (Nat.dvd_of_mod_eq_zero haligned.2.2) h m
    · exact copyBytes_copied h m

theorem memcpy_spares (destination source length : Nat) (m : Memory) :
    Spares (fun a => a < destination ∨ destination + length ≤ a) m
      (memcpy destination source length m).2 := by
  unfold memcpy
  split
  · rename_i haligned
    have hwords := Nat.mul_div_cancel' (Nat.dvd_of_mod_eq_zero haligned.2.2)
    have hspared := copyForward_spares WORD_SIZE (length / WORD_SIZE) destination source m
    rwa [hwords] at hspared
  · have hspared := copyForward_spares 1 length destination source m
    rwa [Nat.one_mul] at hspared

/-- By words or by bytes, `memcpy` moves what was at the source, and to lower addresses
it may overlap. The two ways leave the same memory. -/
theorem memcpy_moves (m : Memory) (destination source length : Nat)
    (h : Apart destination length source length ∨ destination ≤ source) :
    (memcpy destination source length m).1 = destination ∧
    Copied m (memcpy destination source length m).2 destination source length ∧
    (WORD_SIZE ∣ length → (copyWords destination source length m).bytes =
      (copyBytes destination source length m).bytes) := by
  refine ⟨?_, memcpy_spec h m, fun hwords => ?_⟩
  · unfold memcpy
    split <;> rfl
  · rcases copied_nothing_backwards h with rfl | h
    · rfl
    · exact (copyWords_copied hwords h m).bytes_eq (copyBytes_copied h m)

/-- Eight bytes, four further down: the words overlap. -/
theorem memcpy_moves_overlapping :
    (memcpy 0 4 8 ⟨fun a => UInt8.ofNat a, []⟩).2.bytes 7 = 11 ∧
    Copied ⟨fun a => UInt8.ofNat a, []⟩ (memcpy 0 4 8 ⟨fun a => UInt8.ofNat a, []⟩).2 0 4 8 :=
  ⟨by decide, (memcpy_moves _ 0 4 8 (Or.inr (by decide))).2.1⟩

end

/-- The loop counts down: the last byte is stored first. -/
def memset (destination : Nat) (c : Int) (length : Nat) (m : Memory) : Nat × Memory :=
  let chr := UInt8.ofInt c
  (destination, (List.range length).foldr (fun i m => m.store (destination + i) [chr]) m)

theorem memset_wrote (destination : Nat) (c : Int) (length : Nat) (m : Memory) :
    Wrote m (memset destination c length m).2 destination
      (List.replicate length (UInt8.ofInt c)) := by
  induction length generalizing m with
  | zero => exact Wrote.nothing m destination
  | succ length ih =>
    have hlast := wrote_store m (destination + length) [UInt8.ofInt c]
    have hfirst := ih (m.store (destination + length) [UInt8.ofInt c])
    have hboth : Wrote m _ destination (List.replicate length (UInt8.ofInt c) ++ [UInt8.ofInt c]) :=
      Wrote.before (by rwa [List.length_replicate]) hfirst
    rw [List.replicate_succ']
    simpa [memset, List.range_succ] using hboth

end bare_bones.lib
