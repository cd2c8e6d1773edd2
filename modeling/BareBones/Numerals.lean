-- Numbers as strings: `itoa` and `strtoi`, that the kernel and the programs each have a
-- copy of, down to the bytes of the buffer.
import BareBones.Builtins
import BareBones.Lib.Copies
import Mathlib.Data.Nat.Digits.Lemmas

namespace bare_bones.numerals

open byte_memory
open bare_bones.builtinFunctions (isNumber number digitChar)

/-- A base for which the loops over the digits end. -/
structure Base where
  value : Nat
  two_le : 2 ≤ value

def decimal : Base := ⟨10, by decide⟩

@[simp] theorem decimal_value : decimal.value = 10 := rfl

theorem Base.div_lt {n : Nat} (base : Base) (h : n ≠ 0) : n / base.value < n :=
  Nat.div_lt_self (Nat.pos_of_ne_zero h) base.two_le

/-! ## The loops -/

/-- `while (n /= base) count++`. -/
def logFrom (count n : Nat) (base : Base) : Nat :=
  if n / base.value = 0 then count else logFrom (count + 1) (n / base.value) base
termination_by n
decreasing_by
  rename_i h
  exact base.div_lt fun h0 => h (by simp [h0])

def log (n : Nat) (base : Base) : Nat := logFrom 1 n base

/-- The index counts down from `len`, in an `unsigned int`. -/
def storeDigits (n buffer : Nat) (base : Base) (len i : Nat) (m : Memory) : Nat × Memory :=
  if n = 0 then (i, m)
  else
    storeDigits (n / base.value) buffer base len (i + 1)
      (m.store (buffer + (len + 2 ^ 32 - i - 1) % 2 ^ 32) [digitChar (n % base.value)])
termination_by n
decreasing_by
  rename_i h
  exact base.div_lt h

/-- The number from `s` on, and where it ends. The fuel bounds the digits read. -/
def scanDigits (m : Memory) : Nat → Nat → Int32 → Option (Int32 × Nat)
  | 0, _, _ => none
  | fuel + 1, s, num =>
    if isNumber (m.bytes s) then
      scanDigits m fuel (s + 1) (num * 10 + Int32.ofNat (m.bytes s).toNat - 48)
    else some (num, s)

/-! ## The copy of the kernel -/

namespace kernel

def itoa (n buffer : Nat) (base : Base) (m : Memory) : Nat × Memory :=
  if n = 0 then (1, (m.store buffer [48]).store (buffer + 1) [0])
  else
    let len := log n base
    let (i, m) := storeDigits n buffer base len 0 m
    (len, m.store (buffer + i) [0])

/-- Stores where the number ends in `*stop`. -/
def strtoi (fuel s stop : Nat) (m : Memory) : Option (Int32 × Memory) :=
  (scanDigits m fuel s 0).map fun (num, s) => (num, m.storeInt stop 8 s)

end kernel

/-! ## The copy of the programs -/

namespace userland

/-- `n` is unsigned: it is never below zero. -/
def itoa (n buffer : Nat) (base : Base) (m : Memory) : Nat × Memory :=
  if n = 0 then (1, (m.store buffer [48]).store (buffer + 1) [0])
  else
    let (n, len, i, m) :=
      if n < 0 ∧ base.value = 10 then ((2 ^ 64 - n) % 2 ^ 64, 1, 1, m.store buffer [45])
      else (n, 0, 0, m)
    let len := len + log n base
    let (i, m) := storeDigits n buffer base len i m
    (len, m.store (buffer + i) [0])

def strtoi (fuel s stop : Nat) (m : Memory) : Option (Int32 × Memory) :=
  (scanDigits m fuel s 0).map fun (num, s) => (num, m.storeInt stop 8 s)

end userland

/-! ## Numerals -/

/-- The characters of the digits of `n`, the most significant first. -/
def digitChars (base n : Nat) : List UInt8 := (Nat.digits base n).reverse.map digitChar

/-- `n` in a base; zero has a digit too. -/
def numeral (base n : Nat) : List UInt8 := if n = 0 then [48] else digitChars base n

theorem digitChars_pos {n : Nat} (base : Base) (h : n ≠ 0) :
    digitChars base.value n =
      digitChars base.value (n / base.value) ++ [digitChar (n % base.value)] := by
  rw [digitChars, Nat.digits_def' base.two_le (Nat.pos_of_ne_zero h)]
  simp [digitChars]

@[simp] theorem digitChars_zero (base : Nat) : digitChars base 0 = [] := by simp [digitChars]

theorem length_digitChars_le {n k : Nat} (base : Base) :
    (digitChars base.value n).length ≤ k ↔ n < base.value ^ k := by
  simpa [digitChars] using Nat.digits_length_le_iff base.two_le n

theorem digitChar_ne_zero {r : Nat} (hr : r < 36) (h : r ≠ 0) : digitChar r ≠ 48 := by
  revert r
  decide

/-- There are no leading zeros. -/
theorem head_numeral {n : Nat} (base : Base) (hbase : base.value ≤ 36) (h : n ≠ 0) :
    (numeral base.value n).head? ≠ some 48 := by
  have hne : Nat.digits base.value n ≠ [] := Nat.digits_ne_nil_iff_ne_zero.mpr h
  have hlt := Nat.digits_lt_base base.two_le (List.getLast_mem hne)
  rw [numeral, if_neg h, digitChars, List.head?_map, List.head?_reverse,
    List.getLast?_eq_some_getLast hne]
  simpa using digitChar_ne_zero (hlt.trans_le hbase) (Nat.getLast_digit_ne_zero base.value h)

theorem logFrom_eq {n : Nat} (count : Nat) (base : Base) (h : n ≠ 0) :
    logFrom count n base + 1 = count + (digitChars base.value n).length := by
  induction n using Nat.strongRecOn generalizing count with
  | ind n ih =>
    rw [logFrom, digitChars_pos base h]
    split
    · rename_i hlast
      simp [hlast]
    · rename_i hmore
      rw [ih _ (base.div_lt h) _ hmore]
      simp
      omega

theorem log_eq {n : Nat} (base : Base) (h : n ≠ 0) :
    log n base = (digitChars base.value n).length := by
  have := logFrom_eq 1 base h
  rw [log]
  omega

/-! ## What `itoa` stores -/

/-- The digits that are left go before the ones that are stored. -/
theorem storeDigits_spec {n len i : Nat} (buffer : Nat) (base : Base) (m : Memory)
    (hlen : i + (digitChars base.value n).length = len) (hlt : len < 2 ^ 32) :
    (storeDigits n buffer base len i m).1 = len ∧
      Wrote m (storeDigits n buffer base len i m).2 buffer (digitChars base.value n) := by
  fun_induction storeDigits n buffer base len i m with
  | case1 i m => exact ⟨by simpa using hlen, by simpa using Wrote.nothing m buffer⟩
  | case2 n i m hn ih =>
    rw [digitChars_pos base hn, List.length_append, List.length_singleton] at hlen
    obtain ⟨hall, hfirst⟩ := ih (by omega)
    have hindex : (len + 2 ^ 32 - i - 1) % 2 ^ 32 =
        (digitChars base.value (n / base.value)).length := by omega
    refine ⟨hall, ?_⟩
    rw [digitChars_pos base hn]
    exact Wrote.before (hindex ▸ wrote_store m _ _) hfirst

/-- What a call of `itoa` has to do. -/
structure Printed (n buffer : Nat) (base : Base) (m : Memory) (r : Nat × Memory) : Prop where
  returned : r.1 = (numeral base.value n).length
  wrote : Wrote m r.2 buffer (numeral base.value n ++ [0])

section
variable {n : Nat} (buffer : Nat) (base : Base) (m : Memory)

theorem length_digitChars_lt (hn : n < 2 ^ 64) : (digitChars base.value n).length < 2 ^ 32 := by
  have hle : (digitChars base.value n).length ≤ 64 :=
    (length_digitChars_le base).mpr (hn.trans_le (Nat.pow_le_pow_left base.two_le 64))
  omega

theorem kernel.itoa_printed (hn : n < 2 ^ 64) :
    Printed n buffer base m (kernel.itoa n buffer base m) := by
  unfold kernel.itoa
  split
  · rename_i h0
    subst h0
    exact ⟨rfl, (wrote_store m buffer [48]).after (wrote_store _ _ [0])⟩
  · rename_i h0
    have hlog := log_eq base h0
    obtain ⟨hi, hdigits⟩ := storeDigits_spec (i := 0) buffer base m
      ((Nat.zero_add _).trans hlog.symm) (hlog ▸ length_digitChars_lt base hn)
    dsimp only
    refine ⟨by rw [numeral, if_neg h0, hlog], ?_⟩
    have hterminated := hdigits.after (wrote_store _ _ [0])
    rw [← hlog] at hterminated
    rwa [numeral, if_neg h0, hi]

/-- The sign is never printed. -/
theorem userland.itoa_eq : userland.itoa n buffer base m = kernel.itoa n buffer base m := by
  simp [userland.itoa, kernel.itoa]

end

/-! ## What `strtoi` reads -/

section
variable {m : Memory} {s : Nat} {digits : List UInt8}

theorem scanDigits_spec (hdigits : ∀ c ∈ digits, isNumber c)
    (hload : m.load s digits.length = digits)
    (hend : ¬ isNumber (m.bytes (s + digits.length))) (num : Int32) {fuel : Nat}
    (hfuel : digits.length < fuel) :
    scanDigits m fuel s num =
      some (digits.foldl (fun num c => num * 10 + Int32.ofNat c.toNat - 48) num,
        s + digits.length) := by
  induction digits generalizing s num fuel with
  | nil =>
    obtain ⟨fuel, rfl⟩ := Nat.exists_eq_succ_of_ne_zero (Nat.ne_of_gt hfuel)
    rw [List.length_nil, Nat.add_zero] at hend
    simp [scanDigits, hend]
  | cons c digits ih =>
    obtain ⟨fuel, rfl⟩ := Nat.exists_eq_succ_of_ne_zero (Nat.ne_of_gt (Nat.zero_lt_of_lt hfuel))
    have hc : m.bytes s = c := by
      simpa using Memory.load_eq_iff.mp hload 0 (Nat.zero_lt_succ _)
    have hrest := ((@Memory.load_append m s [c] digits).mp hload).2
    rw [scanDigits, hc, if_pos (hdigits c List.mem_cons_self)]
    rw [List.length_singleton] at hrest
    rw [List.length_cons, Nat.add_comm digits.length, ← Nat.add_assoc] at hend ⊢
    rw [List.length_cons] at hfuel
    exact ih (fun d hd => hdigits d (List.mem_cons_of_mem _ hd)) hrest hend _ (by omega)

end

theorem isNumber_digitChar {r : Nat} (h : r < 10) : isNumber (digitChar r) := by
  revert r
  decide

theorem isNumber_numeral {c : UInt8} {n : Nat} (h : c ∈ numeral 10 n) : isNumber c := by
  rw [numeral] at h
  split at h
  · simp at h
    subst h
    decide
  · obtain ⟨r, hr, rfl⟩ := List.mem_map.mp h
    exact isNumber_digitChar (Nat.digits_lt_base (by decide) (List.mem_reverse.mp hr))

/-- Up to the wrap of an `int`. -/
theorem number_digitChars (n : Nat) : number (digitChars 10 n) = Int32.ofNat n := by
  induction n using Nat.strongRecOn with
  | ind n ih =>
    by_cases h0 : n = 0
    · subst h0
      rfl
    · have hsplit := digitChars_pos decimal h0
      have hlast : (digitChar (n % 10)).toNat = n % 10 + 48 := by
        rw [digitChar, if_neg (by omega), UInt8.toNat_ofNat']
        omega
      have hleading : number (digitChars 10 (n / 10)) = Int32.ofNat (n / 10) :=
        ih (n / 10) (decimal.div_lt h0)
      calc number (digitChars 10 n)
          = number (digitChars 10 (n / 10)) * 10 +
              Int32.ofNat (digitChar (n % 10)).toNat - 48 := by
            rw [show digitChars 10 n = _ from hsplit, number, List.foldl_append]
            rfl
        _ = Int32.ofNat (n / 10 * 10 + (n % 10 + 48) - 48) := by
            rw [hleading, hlast, Int32.ofNat_sub _ _ (by omega), Int32.ofNat_add (n / 10 * 10),
              Int32.ofNat_mul]
            rfl
        _ = Int32.ofNat n := by
            congr 1
            omega

theorem number_numeral (n : Nat) : number (numeral 10 n) = Int32.ofNat n := by
  rw [numeral]
  split
  · rename_i h0
    subst h0
    rfl
  · exact number_digitChars n

/-- Both copies of `strtoi` read a number of `itoa` back, modulo 2^32. -/
theorem strtoi_numeral {n buffer : Nat} {m : Memory} {r : Nat × Memory}
    (hp : Printed n buffer decimal m r) (stop : Nat) {fuel : Nat} (hfuel : r.1 < fuel) :
    kernel.strtoi fuel buffer stop r.2 =
        some (Int32.ofNat n, r.2.storeInt stop 8 (buffer + r.1)) ∧
      userland.strtoi fuel buffer stop r.2 =
        some (Int32.ofNat n, r.2.storeInt stop 8 (buffer + r.1)) := by
  rw [hp.returned] at hfuel ⊢
  obtain ⟨hnumeral, hend⟩ := Memory.load_append.mp hp.wrote.bytes
  have hzero : r.2.bytes (buffer + (numeral 10 n).length) = 0 := by
    simpa using Memory.load_eq_iff.mp hend 0 (by decide)
  have hscan := scanDigits_spec (fun _ hc => isNumber_numeral hc) hnumeral
    (by simp [hzero, isNumber]) 0 hfuel
  have hvalue := number_numeral n
  rw [number] at hvalue
  constructor
  · rw [kernel.strtoi, hscan]
    simp [decimal, hvalue]
  · rw [userland.strtoi, hscan]
    simp [decimal, hvalue]

/-- The store of the digits all at once, as the commands of the shell have it. -/
theorem itoa_eq_builtin {n : Nat} (buffer : Nat) (base : Base) (m : Memory) (hn : n < 2 ^ 64) :
    (userland.itoa n buffer base m).2.bytes =
      (builtinFunctions.itoa n buffer base.value m).bytes := by
  rw [userland.itoa_eq, (kernel.itoa_printed buffer base m hn).wrote.bytes_eq, numeral,
    builtinFunctions.itoa]
  split <;> rfl

/-- `itoa` writes the digits and the terminator only, and `strtoi` gives back what fits an
`int` and stops at the terminator, in each of the copies. The commands of the shell write the
same bytes. -/
theorem itoa_strtoi (n buffer : Nat) (base : Base) (m : Memory) (hn : n < 2 ^ 64) :
    Printed n buffer base m (kernel.itoa n buffer base m) ∧
    Printed n buffer base m (userland.itoa n buffer base m) ∧
    (base.value ≤ 36 → n ≠ 0 → (numeral base.value n).head? ≠ some 48) ∧
    (numeral 10 n).length ≤ 20 ∧
    (n < 2 ^ 31 → ∀ stop fuel, (numeral 10 n).length < fuel → ∃ num : Int32, num.toInt = n ∧
      kernel.strtoi fuel buffer stop (kernel.itoa n buffer decimal m).2 =
        some (num, (kernel.itoa n buffer decimal m).2.storeInt stop 8
          (buffer + (numeral 10 n).length)) ∧
      userland.strtoi fuel buffer stop (userland.itoa n buffer decimal m).2 =
        some (num, (userland.itoa n buffer decimal m).2.storeInt stop 8
          (buffer + (numeral 10 n).length))) ∧
    (userland.itoa n buffer base m).2.bytes =
      (builtinFunctions.itoa n buffer base.value m).bytes := by
  have hprinted := fun b => kernel.itoa_printed buffer b m hn
  refine ⟨hprinted base, ?_, head_numeral base, ?_, fun hn stop fuel hfuel =>
    ⟨Int32.ofNat n, ?_, ?_⟩, itoa_eq_builtin buffer base m hn⟩
  · rw [userland.itoa_eq]
    exact hprinted base
  · rw [numeral]
    split
    · decide
    · exact (length_digitChars_le decimal).mpr (by simp only [decimal]; omega)
  · exact Int32.toInt_ofNat_of_lt hn
  · have hlen := (hprinted decimal).returned
    have hread := strtoi_numeral (hprinted decimal) stop (hlen.trans_lt hfuel)
    rw [userland.itoa_eq]
    rwa [hlen] at hread

/-- The largest `int`, in ten digits, on a memory of zeros. -/
theorem itoa_strtoi_int_max :
    (kernel.itoa (2 ^ 31 - 1) 64 decimal ⟨fun _ => 0, []⟩).1 = 10 ∧
    ∃ num : Int32, num.toInt = 2 ^ 31 - 1 ∧
      (kernel.strtoi 11 64 0 (kernel.itoa (2 ^ 31 - 1) 64 decimal ⟨fun _ => 0, []⟩).2).map
        Prod.fst = some num := by
  obtain ⟨hprinted, -, -, -, hread, -⟩ :=
    itoa_strtoi (2 ^ 31 - 1) 64 decimal ⟨fun _ => 0, []⟩ (by decide)
  obtain ⟨num, hnum, hkernel, -⟩ := hread (by decide) 0 11 (by decide)
  exact ⟨hprinted.returned, num, hnum, by rw [hkernel]; rfl⟩

end bare_bones.numerals
