-- The words that `str_to_uint32` takes for numbers. It has a value for what is none, but
-- does not look for numbers that are too large.
import BareBones.Shell
import Mathlib.Data.List.TakeWhile

namespace bare_bones.shell

def isBlank (c : UInt8) : Bool := c = 32 || c = 9

/-- The value of a series of digits, however large. -/
def decimalValue (digits : List UInt8) : Nat :=
  digits.foldl (fun v c => v * 10 + (c.toNat - 48)) 0

/-- Blanks, digits of the value `v`, and blanks again. -/
def Number (str : Word) (v : Nat) : Prop :=
  ∃ before digits after, str = before ++ digits ++ after ∧ (∀ c ∈ before, isBlank c) ∧
    digits ≠ [] ∧ (∀ c ∈ digits, my_isdigit c) ∧ (∀ c ∈ after, isBlank c) ∧
    v = decimalValue digits

/-- What `str_to_uint32` gives for a word that is no number. -/
def NOT_A_NUMBER : UInt32 := 0 - 1

/-- The digits that the second loop takes. -/
def digitsOf (str : Word) : List UInt8 := (str.dropWhile isBlank).takeWhile my_isdigit

/-- What is left behind the third loop. -/
def restOf (str : Word) : List UInt8 :=
  ((str.dropWhile isBlank).dropWhile my_isdigit).dropWhile isBlank

theorem str_to_uint32_eq (str : Word) :
    str_to_uint32 str =
      if digitsOf str = [] ∨ restOf str ≠ [] then NOT_A_NUMBER
      else (digitsOf str).foldl (fun result c => result * 10 + UInt32.ofNat (c.toNat - 48)) 0 :=
  rfl

theorem not_isBlank {c : UInt8} (h : my_isdigit c) : isBlank c = false := by
  simp only [my_isdigit, isBlank, Bool.and_eq_true, decide_eq_true_eq] at *
  grind

theorem not_isDigit {c : UInt8} (h : isBlank c) : my_isdigit c = false := by
  by_contra hdigit
  rw [not_isBlank (Bool.not_eq_false _ ▸ hdigit)] at h
  cases h

theorem dropWhile_append_boundary {p : UInt8 → Bool} {l l' : List UInt8} (h : ∀ c ∈ l, p c)
    (h' : ∀ c ∈ l', p c = false) : (l ++ l').dropWhile p = l' := by
  rw [List.dropWhile_append_of_pos h]
  cases l' with
  | nil => rfl
  | cons c l' => exact List.dropWhile_cons_of_neg (by simp [h' c List.mem_cons_self])

theorem takeWhile_append_boundary {p : UInt8 → Bool} {l l' : List UInt8} (h : ∀ c ∈ l, p c)
    (h' : ∀ c ∈ l', p c = false) : (l ++ l').takeWhile p = l := by
  rw [List.takeWhile_append_of_pos h]
  cases l' with
  | nil => simp
  | cons c l' => simp [h' c List.mem_cons_self]

/-- The sum wraps at each digit, or once at the end. -/
theorem foldl_digits (digits : List UInt8) (result : UInt32) (v : Nat)
    (h : result.toNat = v % 2 ^ 32) :
    (digits.foldl (fun result c => result * 10 + UInt32.ofNat (c.toNat - 48)) result).toNat =
      digits.foldl (fun v c => v * 10 + (c.toNat - 48)) v % 2 ^ 32 := by
  induction digits generalizing result v with
  | nil => exact h
  | cons c digits ih =>
    apply ih
    rw [UInt32.toNat_add, UInt32.toNat_mul, h, UInt32.toNat_ofNat']
    simp [Nat.add_mod, Nat.mul_mod]

theorem Number.loops {str : Word} {v : Nat} (h : Number str v) :
    digitsOf str ≠ [] ∧ restOf str = [] ∧ v = decimalValue (digitsOf str) := by
  obtain ⟨before, digits, after, rfl, hbefore, hne, hdigits, hafter, rfl⟩ := h
  have hskip : (before ++ digits ++ after).dropWhile isBlank = digits ++ after := by
    obtain ⟨d, digits, rfl⟩ := List.exists_cons_of_ne_nil hne
    rw [List.append_assoc, List.dropWhile_append_of_pos hbefore]
    exact List.dropWhile_cons_of_neg (by simp [not_isBlank (hdigits d List.mem_cons_self)])
  have hboundary : ∀ c ∈ after, my_isdigit c = false := fun c hc => not_isDigit (hafter c hc)
  have hdigitsOf : digitsOf (before ++ digits ++ after) = digits := by
    rw [digitsOf, hskip, takeWhile_append_boundary hdigits hboundary]
  refine ⟨by rwa [hdigitsOf], ?_, by rw [hdigitsOf]⟩
  rw [restOf, hskip, dropWhile_append_boundary hdigits hboundary]
  exact List.dropWhile_eq_nil_iff.mpr hafter

/-- What passes the loops is a number. -/
theorem number_of_loops {str : Word} (hdigits : digitsOf str ≠ []) (hrest : restOf str = []) :
    Number str (decimalValue (digitsOf str)) := by
  refine ⟨str.takeWhile isBlank, digitsOf str, (str.dropWhile isBlank).dropWhile my_isdigit,
    ?_, fun c hc => ?_, hdigits, fun c hc => ?_, fun c hc => ?_, rfl⟩
  · rw [List.append_assoc, digitsOf, List.takeWhile_append_dropWhile,
      List.takeWhile_append_dropWhile]
  · exact List.mem_takeWhile_imp hc
  · exact List.mem_takeWhile_imp hc
  · exact List.dropWhile_eq_nil_iff.mp hrest c hc

theorem str_to_uint32_number {str : Word} {v : Nat} (h : Number str v) :
    (str_to_uint32 str).toNat = v % 2 ^ 32 := by
  obtain ⟨hdigits, hrest, rfl⟩ := h.loops
  rw [str_to_uint32_eq, if_neg (by simp [hdigits, hrest])]
  exact foldl_digits _ 0 0 rfl

theorem str_to_uint32_other {str : Word} (h : ∀ v, ¬ Number str v) :
    str_to_uint32 str = NOT_A_NUMBER := by
  rw [str_to_uint32_eq, if_pos]
  by_contra hloops
  rw [not_or, not_not] at hloops
  exact h _ (number_of_loops hloops.1 hloops.2)

theorem Number.unique {str : Word} {v w : Nat} (hv : Number str v) (hw : Number str w) :
    v = w := hv.loops.2.2.trans hw.loops.2.2.symm

/-- The numbers below 2^32 - 1 have their value, and all other words have none. -/
def ReadExactly (str : Word) : Prop :=
  (str_to_uint32 str ≠ NOT_A_NUMBER ↔ ∃ v, Number str v ∧ v < 2 ^ 32 - 1) ∧
    ∀ v, Number str v → v < 2 ^ 32 - 1 → (str_to_uint32 str).toNat = v

theorem toNat_not_a_number : NOT_A_NUMBER.toNat = 2 ^ 32 - 1 := by decide

theorem str_to_uint32_ne_iff {str : Word} {v : Nat} (h : Number str v) :
    str_to_uint32 str ≠ NOT_A_NUMBER ↔ v % 2 ^ 32 ≠ 2 ^ 32 - 1 := by
  rw [ne_eq, ← UInt32.toNat_inj, str_to_uint32_number h, toNat_not_a_number]

/-- A number that is too large has no value only when it wraps to 2^32 - 1. -/
theorem readExactly_iff (str : Word) :
    ReadExactly str ↔ ∀ v, Number str v → v < 2 ^ 32 ∨ v % 2 ^ 32 = 2 ^ 32 - 1 := by
  constructor
  · intro h v hv
    by_contra hlarge
    rw [not_or] at hlarge
    obtain ⟨w, hw, hlt⟩ := h.1.mp ((str_to_uint32_ne_iff hv).mpr hlarge.2)
    have := hv.unique hw
    omega
  · intro h
    refine ⟨⟨fun hne => ?_, fun ⟨v, hv, hlt⟩ => ?_⟩, fun v hv hlt => ?_⟩
    · obtain ⟨v, hv⟩ := not_forall_not.mp fun hnone => hne (str_to_uint32_other hnone)
      have hwrap := (str_to_uint32_ne_iff hv).mp hne
      have := h v hv
      exact ⟨v, hv, by omega⟩
    · exact (str_to_uint32_ne_iff hv).mpr (by omega)
    · rw [str_to_uint32_number hv]
      omega

/-- 2^32 is taken for 0. -/
theorem too_large_is_read : ¬ ReadExactly (word "4294967296") := by
  intro h
  have hread : str_to_uint32 (word "4294967296") = 0 := by decide
  obtain ⟨v, hv, hlt⟩ := h.1.mp (by rw [hread]; decide)
  have hvalue : v = decimalValue (digitsOf (word "4294967296")) := hv.loops.2.2
  have hlarge : decimalValue (digitsOf (word "4294967296")) = 2 ^ 32 := by decide
  omega

end bare_bones.shell
