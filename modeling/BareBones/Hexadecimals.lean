-- `strtoh` on the numerals that `itoa` writes in base 16. The loop of `strtoh` asks whether
-- a character is a digit before it makes it lower case, and `itoa` writes upper case.
import BareBones.Numerals

namespace bare_bones.numerals

open byte_memory
open bare_bones.builtinFunctions (isNumber digitChar)

def hexadecimal : Base := ⟨16, by decide⟩

@[simp] theorem hexadecimal_value : hexadecimal.value = 16 := rfl

/-! ## `strtoh` -/

namespace userland

/-- The digits above nine, in lower case only. -/
def isHex (c : UInt8) : Bool := 97 ≤ c && c ≤ 102

def toLower (c : UInt8) : UInt8 := if 65 ≤ c ∧ c ≤ 90 then c - (65 - 97) else c

/-- What a character adds to the number. -/
def hexValue (aux : UInt8) : Int32 :=
  (if isNumber aux then 1 else 0) * (Int32.ofNat aux.toNat - 48) +
    (if isHex aux then 1 else 0) * (Int32.ofNat aux.toNat - 97 + 10)

/-- The number from `s` on, and where it ends. The fuel bounds the digits read. -/
def scanHex (m : Memory) : Nat → Nat → Int32 → Option (Int32 × Nat)
  | 0, _, _ => none
  | fuel + 1, s, num =>
    if isNumber (m.bytes s) || isHex (m.bytes s) then
      scanHex m fuel (s + 1) (num * 16 + hexValue (toLower (m.bytes s)))
    else some (num, s)

def strtoh (fuel s stop : Nat) (m : Memory) : Option (Int32 × Memory) :=
  (scanHex m fuel s 0).map fun (num, s) => (num, m.storeInt stop 8 s)

end userland

open userland

/-! ## What `strtoh` reads -/

/-- The characters that the loop goes over. -/
def goesOver (c : UInt8) : Bool := isNumber c || isHex c

theorem scanHex_spec {m : Memory} {s : Nat} {digits : List UInt8}
    (hdigits : ∀ c ∈ digits, goesOver c) (hload : m.load s digits.length = digits)
    (hend : ¬ goesOver (m.bytes (s + digits.length))) (num : Int32) {fuel : Nat}
    (hfuel : digits.length < fuel) :
    scanHex m fuel s num =
      some (digits.foldl (fun num c => num * 16 + hexValue (toLower c)) num,
        s + digits.length) := by
  induction digits generalizing s num fuel with
  | nil =>
    obtain ⟨fuel, rfl⟩ := Nat.exists_eq_succ_of_ne_zero (Nat.ne_of_gt hfuel)
    rw [List.length_nil, Nat.add_zero] at hend
    simp only [scanHex, List.foldl_nil, List.length_nil, Nat.add_zero]
    exact if_neg hend
  | cons c digits ih =>
    obtain ⟨fuel, rfl⟩ := Nat.exists_eq_succ_of_ne_zero (Nat.ne_of_gt (Nat.zero_lt_of_lt hfuel))
    have hc : m.bytes s = c := by
      simpa using Memory.load_eq_iff.mp hload 0 (Nat.zero_lt_succ _)
    have hrest := ((@Memory.load_append m s [c] digits).mp hload).2
    rw [List.length_singleton] at hrest
    rw [List.length_cons, Nat.add_comm digits.length, ← Nat.add_assoc] at hend ⊢
    rw [List.length_cons] at hfuel
    rw [scanHex, hc]
    refine (if_pos (hdigits c List.mem_cons_self)).trans ?_
    exact ih (fun d hd => hdigits d (List.mem_cons_of_mem _ hd)) hrest hend _ (by omega)

/-- The body of the loop makes a digit of any character that `itoa` writes. -/
theorem hexValue_digitChar {r : Nat} (h : r < 16) :
    hexValue (toLower (digitChar r)) = Int32.ofNat r := by
  revert r
  decide

/-- The head of the loop goes over no letter that `itoa` writes. -/
theorem goesOver_digitChar {r : Nat} (h : r < 16) : goesOver (digitChar r) = decide (r ≤ 9) := by
  revert r
  decide

theorem foldl_digitChars (n : Nat) :
    (digitChars 16 n).foldl (fun num c => num * 16 + hexValue (toLower c)) 0 = Int32.ofNat n := by
  induction n using Nat.strongRecOn with
  | ind n ih =>
    by_cases h0 : n = 0
    · subst h0
      rfl
    · have hsplit : digitChars 16 n = _ := digitChars_pos hexadecimal h0
      have hleading := ih (n / 16) (hexadecimal.div_lt h0)
      have hlast := hexValue_digitChar (Nat.mod_lt n (by decide : 0 < 16))
      rw [hsplit, List.foldl_append, hexadecimal_value, hleading]
      simp only [List.foldl_cons, List.foldl_nil, hlast]
      calc Int32.ofNat (n / 16) * 16 + Int32.ofNat (n % 16)
          = Int32.ofNat (n / 16 * 16 + n % 16) := by
            rw [Int32.ofNat_add, Int32.ofNat_mul]
            rfl
        _ = Int32.ofNat n := by rw [Nat.div_add_mod']

/-- The digits of `n` in base 16, the most significant first, and one for zero. -/
def hexDigits (n : Nat) : List Nat := if n = 0 then [0] else (Nat.digits 16 n).reverse

theorem numeral_hexDigits (n : Nat) : numeral 16 n = (hexDigits n).map digitChar := by
  unfold numeral hexDigits digitChars
  split <;> rfl

theorem hexDigits_lt {n d : Nat} (h : d ∈ hexDigits n) : d < 16 := by
  unfold hexDigits at h
  split at h
  · rw [List.mem_singleton.mp h]
    decide
  · exact Nat.digits_lt_base (by decide) (List.mem_reverse.mp h)

theorem foldl_numeral (n : Nat) :
    (numeral 16 n).foldl (fun num c => num * 16 + hexValue (toLower c)) 0 = Int32.ofNat n := by
  rw [numeral]
  split
  · rename_i h0
    subst h0
    rfl
  · exact foldl_digitChars n

/-! ## Where `strtoh` ends -/

theorem intBytes_mod {n v v' : Nat} (h : intBytes n v = intBytes n v') :
    v % 256 ^ n = v' % 256 ^ n := by
  induction n generalizing v v' with
  | zero => simp [Nat.mod_one]
  | succ n ih =>
    rw [intBytes_succ, intBytes_succ, List.cons.injEq] at h
    have hlow : v % 256 = v' % 256 := by simpa using congrArg UInt8.toNat h.1
    rw [Nat.pow_succ', Nat.mod_mul, Nat.mod_mul, hlow, ih h.2]

/-- A pointer that was stored tells where it points to. -/
theorem storeInt_inj {m : Memory} {a v v' : Nat} (h : m.storeInt a 8 v = m.storeInt a 8 v') :
    v % 2 ^ 64 = v' % 2 ^ 64 := by
  have hread : ∀ v, (m.storeInt a 8 v).load a 8 = intBytes 8 v := fun v => by
    have := (wrote_store m a (intBytes 8 v)).bytes
    rwa [length_intBytes] at this
  have hbytes := (hread v).symm.trans ((congrArg (Memory.load · a 8) h).trans (hread v'))
  exact intBytes_mod hbytes

/-- `strtoh` gives back the number that `itoa` wrote, and leaves its second result at the
terminator. -/
def ReadsBack (n buffer stop fuel : Nat) (m : Memory) : Prop :=
  ∃ num : Int32, num.toInt = n ∧
    (userland.itoa n buffer hexadecimal m).2.bytes
      (buffer + (userland.itoa n buffer hexadecimal m).1) = 0 ∧
    strtoh fuel buffer stop (userland.itoa n buffer hexadecimal m).2 =
      some (num, (userland.itoa n buffer hexadecimal m).2.storeInt stop 8
        (buffer + (userland.itoa n buffer hexadecimal m).1))

section
variable {n buffer fuel : Nat} {m : Memory} {r : Nat × Memory}

/-- Without letters `strtoh` gets to the terminator. -/
theorem strtoh_decimal (hp : Printed n buffer hexadecimal m r) (hfuel : r.1 < fuel)
    (hdigits : ∀ d ∈ hexDigits n, d ≤ 9) (stop : Nat) :
    r.2.bytes (buffer + r.1) = 0 ∧
      strtoh fuel buffer stop r.2 =
        some (Int32.ofNat n, r.2.storeInt stop 8 (buffer + r.1)) := by
  obtain ⟨hload, hend⟩ := Memory.load_append.mp hp.wrote.bytes
  have hzero : r.2.bytes (buffer + r.1) = 0 := by
    rw [hp.returned]
    simpa using Memory.load_eq_iff.mp hend 0 (by decide)
  refine ⟨hzero, ?_⟩
  have hover : ∀ c ∈ numeral 16 n, goesOver c := by
    rw [numeral_hexDigits]
    intro c hc
    obtain ⟨d, hd, rfl⟩ := List.mem_map.mp hc
    rw [goesOver_digitChar (hexDigits_lt hd)]
    exact decide_eq_true (hdigits d hd)
  rw [hp.returned] at hzero hfuel ⊢
  have hscan := scanHex_spec hover hload
    (by rw [show r.2.bytes (buffer + (numeral 16 n).length) = 0 from hzero]; decide) 0 hfuel
  rw [strtoh, hscan, foldl_numeral]
  rfl

/-- At a letter `strtoh` stops. -/
theorem strtoh_letter (hp : Printed n buffer hexadecimal m r) (hfuel : r.1 < fuel) {d : Nat}
    (hd : d ∈ hexDigits n) (hletter : ¬ d ≤ 9) (stop : Nat) :
    ∃ num k, k < r.1 ∧
      strtoh fuel buffer stop r.2 = some (num, r.2.storeInt stop 8 (buffer + k)) := by
  obtain ⟨first, hfind⟩ := Option.isSome_iff_exists.mp
    (List.find?_isSome (p := fun d => ¬ d ≤ 9) |>.mpr ⟨d, hd, by simpa using hletter⟩)
  obtain ⟨hfirst, front, back, hsplit, hfront⟩ := List.find?_eq_some_iff_append.mp hfind
  have hload := (Memory.load_append.mp hp.wrote.bytes).1
  rw [hexadecimal_value, numeral_hexDigits, hsplit, List.map_append, List.map_cons] at hload
  obtain ⟨hbefore, hafter⟩ := Memory.load_append.mp hload
  have hmem : ∀ e ∈ front, e ∈ hexDigits n := fun e he => by
    rw [hsplit]
    exact List.mem_append_left _ he
  have hover : ∀ c ∈ front.map digitChar, goesOver c := by
    intro c hc
    obtain ⟨e, he, rfl⟩ := List.mem_map.mp hc
    rw [goesOver_digitChar (hexDigits_lt (hmem e he))]
    simpa using hfront e he
  have hlt : first < 16 := hexDigits_lt (n := n) (by rw [hsplit]; simp)
  have hat : r.2.bytes (buffer + (front.map digitChar).length) = digitChar first := by
    simpa using Memory.load_eq_iff.mp hafter 0 (by simp)
  have hend : ¬ goesOver (r.2.bytes (buffer + (front.map digitChar).length)) := by
    rw [hat, goesOver_digitChar hlt]
    simpa using hfirst
  have hlen : (front.map digitChar).length < r.1 := by
    rw [hp.returned, hexadecimal_value, numeral_hexDigits, hsplit]
    simp
  exact ⟨_, _, hlen, by rw [strtoh, scanHex_spec hover hbefore hend 0 (by omega)]; rfl⟩

end

/-- `strtoh` reads a number of `itoa` back when no digit of it is a letter, and only then. -/
theorem strtoh_reads_itoa_back_iff (n buffer stop fuel : Nat) (m : Memory) (hn : n < 2 ^ 31)
    (hfuel : (numeral 16 n).length < fuel) :
    ReadsBack n buffer stop fuel m ↔ ∀ d ∈ Nat.digits 16 n, d ≤ 9 := by
  have hp : Printed n buffer hexadecimal m (userland.itoa n buffer hexadecimal m) := by
    rw [userland.itoa_eq]
    exact kernel.itoa_printed buffer hexadecimal m (by omega)
  have hlen : (userland.itoa n buffer hexadecimal m).1 < fuel := by
    rw [hp.returned]
    exact hfuel
  have hdigits : (∀ d ∈ Nat.digits 16 n, d ≤ 9) ↔ ∀ d ∈ hexDigits n, d ≤ 9 := by
    unfold hexDigits
    split
    · rename_i h0
      subst h0
      simp
    · simp
  rw [hdigits]
  constructor
  · rintro ⟨num, -, -, hread⟩ d hd
    by_contra hletter
    obtain ⟨num', k, hk, hstop⟩ := strtoh_letter hp hlen hd hletter stop
    rw [hstop, Option.some.injEq, Prod.mk.injEq] at hread
    have hmod := storeInt_inj hread.2
    have hshort := length_digitChars_lt hexadecimal (show n < 2 ^ 64 by omega)
    have hreturned := hp.returned
    rw [numeral] at hreturned
    split at hreturned <;> simp at hreturned hshort <;> omega
  · intro h
    obtain ⟨hzero, hread⟩ := strtoh_decimal hp hlen h stop
    exact ⟨Int32.ofNat n, Int32.toInt_ofNat_of_lt hn, hzero, hread⟩

/-- A memory of zeros. -/
def zeros : Memory := ⟨fun _ => 0, []⟩

/-- 4660 is `1234`. -/
theorem strtoh_reads_1234_back : ReadsBack 0x1234 64 0 5 zeros :=
  (strtoh_reads_itoa_back_iff 0x1234 64 0 5 zeros (by decide)
    (by norm_num [numeral, digitChars])).mpr (by norm_num)

/-- Ten is `A`, where `strtoh` stops at once and gives 0. -/
theorem strtoh_stops_at_a_letter :
    ¬ (∀ n < 2 ^ 31, ∀ buffer stop fuel m, (numeral 16 n).length < fuel →
      ReadsBack n buffer stop fuel m) ∧
    strtoh 2 64 0 (userland.itoa 10 64 hexadecimal zeros).2 =
      some (0, (userland.itoa 10 64 hexadecimal zeros).2.storeInt 0 8 64) := by
  have hread : strtoh 2 64 0 (userland.itoa 10 64 hexadecimal zeros).2 =
      some (0, (userland.itoa 10 64 hexadecimal zeros).2.storeInt 0 8 64) := by
    have hp := kernel.itoa_printed (n := 10) 64 hexadecimal zeros (by decide)
    have hat : (userland.itoa 10 64 hexadecimal zeros).2.bytes 64 = 65 := by
      rw [userland.itoa_eq, hp.wrote.bytes_eq]
      norm_num [numeral, digitChars, Memory.store, zeros, digitChar]
      rfl
    simp [strtoh, scanHex, hat, isNumber, isHex]
  refine ⟨fun h => ?_, hread⟩
  obtain ⟨num, hnum, -, hback⟩ :=
    h 10 (by decide) 64 0 2 zeros (by norm_num [numeral, digitChars])
  rw [hread, Option.some.injEq, Prod.mk.injEq] at hback
  rw [← hback.1] at hnum
  exact absurd hnum (by decide)

end bare_bones.numerals
