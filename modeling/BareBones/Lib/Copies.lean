-- Bytes loaded from a memory: as a list, as an integer with its lowest byte first, and
-- copied elsewhere in that memory, forwards and some bytes at a time.
import BareBones.Lib.ByteMemory

namespace byte_memory

/-- No address is in both of the ranges of `n` bytes at `a` and `k` bytes at `b`. -/
def Apart (a n b k : Nat) : Prop := n = 0 ∨ k = 0 ∨ a + n ≤ b ∨ b + k ≤ a
deriving Decidable

/-! ## Integers of some bytes -/

def intBytes (n value : Nat) : List UInt8 :=
  (List.range n).map fun i => UInt8.ofNat (value / 256 ^ i)

def ofBytes : List UInt8 → Nat
  | [] => 0
  | b :: bs => b.toNat + 256 * ofBytes bs

@[simp] theorem length_intBytes (n value : Nat) : (intBytes n value).length = n := by
  simp [intBytes]

theorem intBytes_succ (n value : Nat) :
    intBytes (n + 1) value = UInt8.ofNat value :: intBytes n (value / 256) := by
  simp [intBytes, List.range_succ_eq_map, Nat.pow_succ, Nat.div_div_eq_div_mul,
    Nat.mul_comm 256]

theorem ofBytes_intBytes {n value : Nat} (h : value < 256 ^ n) :
    ofBytes (intBytes n value) = value := by
  induction n generalizing value with
  | zero =>
    have : value = 0 := by simpa using h
    simp [this, intBytes, ofBytes]
  | succ n ih =>
    have hlt : value / 256 < 256 ^ n := by
      apply Nat.div_lt_of_lt_mul
      rwa [Nat.mul_comm, ← Nat.pow_succ]
    rw [intBytes_succ, ofBytes, ih hlt, UInt8.toNat_ofNat']
    omega

namespace Memory

/-! ## Loads -/

def load (m : Memory) (a n : Nat) : List UInt8 := (List.range n).map fun i => m.bytes (a + i)

def loadInt (m : Memory) (a n : Nat) : Nat := ofBytes (m.load a n)

@[simp] theorem length_load (m : Memory) (a n : Nat) : (m.load a n).length = n := by simp [load]

theorem load_eq_iff {m : Memory} {a : Nat} {bs : List UInt8} :
    m.load a bs.length = bs ↔ ∀ i (h : i < bs.length), m.bytes (a + i) = bs[i] := by
  constructor
  · intro h i hi
    have := congrArg (·[i]?) h
    simpa [load, hi] using this
  · intro h
    apply List.ext_getElem
    · simp
    · intro i _ hi
      simpa [load] using h i hi

theorem load_add (m : Memory) (a n k : Nat) :
    m.load a (n + k) = m.load a n ++ m.load (a + n) k := by
  unfold load
  rw [List.range_add, List.map_append, List.map_map]
  simp only [Function.comp_def, Nat.add_assoc]

theorem load_append {m : Memory} {a : Nat} {bs cs : List UInt8} :
    m.load a (bs ++ cs).length = bs ++ cs ↔
      m.load a bs.length = bs ∧ m.load (a + bs.length) cs.length = cs := by
  rw [List.length_append, load_add]
  constructor
  · intro h
    exact List.append_inj h (length_load ..)
  · rintro ⟨hbs, hcs⟩
    rw [hbs, hcs]

theorem load_congr {m m' : Memory} {a n : Nat}
    (h : ∀ i < n, m'.bytes (a + i) = m.bytes (a + i)) : m'.load a n = m.load a n :=
  List.map_congr_left fun i hi => h i (List.mem_range.mp hi)

theorem store_inside {m : Memory} {a i : Nat} {bs : List UInt8} (h : i < bs.length) :
    (m.store a bs).bytes (a + i) = bs[i] := by
  simp [store, h]

theorem store_outside {m : Memory} {a i : Nat} {bs : List UInt8}
    (h : i < a ∨ a + bs.length ≤ i) : (m.store a bs).bytes i = m.bytes i :=
  if_neg (by omega)

end Memory

/-! ## Stores -/

theorem Spares.mono {P Q : Nat → Prop} {m m' : Memory} (h : Spares P m m')
    (hQ : ∀ a, Q a → P a) : Spares Q m m' :=
  ⟨fun a ha => h.bytes a (hQ a ha), fun a hs ha => h.stored a hs (hQ a ha), h.later⟩

/-- `bs` was stored at `a`, and nothing elsewhere. -/
structure Wrote (m m' : Memory) (a : Nat) (bs : List UInt8) : Prop where
  bytes : m'.load a bs.length = bs
  spared : Spares (fun i => i < a ∨ a + bs.length ≤ i) m m'

theorem Wrote.nothing (m : Memory) (a : Nat) : Wrote m m a [] := ⟨rfl, Spares.refl m⟩

theorem wrote_store (m : Memory) (a : Nat) (bs : List UInt8) : Wrote m (m.store a bs) a bs :=
  ⟨Memory.load_eq_iff.mpr fun _ hi => Memory.store_inside hi, Spares.store (fun _ h => h) m⟩

theorem Wrote.bytes_eq {m m' : Memory} {a : Nat} {bs : List UInt8} (h : Wrote m m' a bs) :
    m'.bytes = (m.store a bs).bytes := by
  funext i
  by_cases hi : a ≤ i ∧ i < a + bs.length
  · obtain ⟨j, rfl⟩ := Nat.exists_eq_add_of_le hi.1
    have hj : j < bs.length := by omega
    rw [Memory.store_inside hj, Memory.load_eq_iff.mp h.bytes j hj]
  · rw [Memory.store_outside (by omega), h.spared.bytes i (by omega)]

/-- The last bytes may be stored first. -/
theorem Wrote.before {m m₁ m₂ : Memory} {a : Nat} {bs cs : List UInt8}
    (hlast : Wrote m m₁ (a + bs.length) cs) (hfirst : Wrote m₁ m₂ a bs) :
    Wrote m m₂ a (bs ++ cs) where
  bytes := by
    have hkept := Memory.load_congr fun i (_ : i < cs.length) =>
      hfirst.spared.bytes (a + bs.length + i) (by omega)
    exact Memory.load_append.mpr ⟨hfirst.bytes, hkept.trans hlast.bytes⟩
  spared := by
    rw [List.length_append]
    exact (hlast.spared.mono fun i (hi : i < a ∨ _) => by omega).trans
      (hfirst.spared.mono fun i (hi : i < a ∨ _) => by omega)

/-- Or they may be stored last. -/
theorem Wrote.after {m m₁ m₂ : Memory} {a : Nat} {bs cs : List UInt8}
    (hfirst : Wrote m m₁ a bs) (hlast : Wrote m₁ m₂ (a + bs.length) cs) :
    Wrote m m₂ a (bs ++ cs) where
  bytes := by
    have hkept := Memory.load_congr fun i (_ : i < bs.length) =>
      hlast.spared.bytes (a + i) (by omega)
    exact Memory.load_append.mpr ⟨hkept.trans hfirst.bytes, hlast.bytes⟩
  spared := by
    rw [List.length_append]
    exact (hfirst.spared.mono fun i (hi : i < a ∨ _) => by omega).trans
      (hlast.spared.mono fun i (hi : i < a ∨ _) => by omega)

/-! ## Copies -/

/-- `m'` is `m` with the `n` bytes that `m` has at `s` at `d`, and nothing else was stored
since. -/
structure Copied (m m' : Memory) (d s n : Nat) : Prop where
  inside : ∀ i < n, m'.bytes (d + i) = m.bytes (s + i)
  outside : Spares (fun a => a < d ∨ d + n ≤ a) m m'

/-- `w` bytes at a time, the lowest first. -/
def Memory.copyForward (m : Memory) (w n d s : Nat) : Memory :=
  (List.range n).foldl (fun m i => m.store (d + w * i) (m.load (s + w * i) w)) m

namespace Copied

variable {m m' : Memory} {d s n : Nat}

theorem none (m : Memory) (d s : Nat) : Copied m m d s 0 :=
  ⟨fun _ h => absurd h (Nat.not_lt_zero _), Spares.refl m⟩

/-- The next `w` bytes are still as they were: they do not lie in the copy. -/
theorem next {w : Nat} (hc : Copied m m' d s n) (h : d ≤ s ∨ s + n + w ≤ d) :
    Copied m (m'.store (d + n) (m'.load (s + n) w)) d s (n + w) where
  inside i hi := by
    by_cases hn : i < n
    · rw [Memory.store_outside (by omega), hc.inside i hn]
    · obtain ⟨j, rfl⟩ := Nat.exists_eq_add_of_le (Nat.not_lt.mp hn)
      have hj : j < w := by omega
      have hunread : m'.bytes (s + n + j) = m.bytes (s + n + j) :=
        hc.outside.bytes _ (by omega)
      rw [← Nat.add_assoc, Memory.store_inside (by simpa using hj), ← Nat.add_assoc, ← hunread]
      simp [Memory.load]
  outside :=
    { bytes := fun a ha => by
        rw [Memory.store_outside (by simp; omega)]
        exact hc.outside.bytes a (by omega)
      stored := fun a hs ha => by
        have hspared : Spares (· = a) m' (m'.store (d + n) (m'.load (s + n) w)) :=
          Spares.store (by simp; omega) m'
        exact hc.outside.stored a (hspared.stored a hs rfl) (by omega)
      later := fun _ hs => List.mem_append_left _ (hc.outside.later hs) }

theorem load_eq (hc : Copied m m' d s n) : m'.load d n = m.load s n :=
  List.map_congr_left fun i hi => hc.inside i (List.mem_range.mp hi)

/-- What lies apart from the copy is loaded as before. -/
theorem load_apart (hc : Copied m m' d s n) {a k : Nat} (h : Apart a k d n) :
    m'.load a k = m.load a k := by
  rcases h with rfl | rfl | h | h
  · rfl
  · exact Memory.load_congr fun i _ => hc.outside.bytes _ (by omega)
  · exact Memory.load_congr fun i _ => hc.outside.bytes _ (by omega)
  · exact Memory.load_congr fun i _ => hc.outside.bytes _ (by omega)

/-- A copy is decided by where it goes and what it takes. -/
theorem bytes_eq {m'' : Memory} (hc : Copied m m' d s n) (hc' : Copied m m'' d s n) :
    m'.bytes = m''.bytes := by
  funext a
  by_cases ha : d ≤ a ∧ a < d + n
  · obtain ⟨i, rfl⟩ := Nat.exists_eq_add_of_le ha.1
    rw [hc.inside i (by omega), hc'.inside i (by omega)]
  · rw [hc.outside.bytes a (by omega), hc'.outside.bytes a (by omega)]

end Copied

/-- Forwards, a copy to lower addresses may overlap what it takes. -/
theorem copyForward_copied {d s : Nat} (w n : Nat) (h : d ≤ s ∨ s + w * n ≤ d) (m : Memory) :
    Copied m (m.copyForward w n d s) d s (w * n) := by
  induction n with
  | zero => exact Copied.none m d s
  | succ n ih =>
    rw [Nat.mul_succ] at h
    have hnext := (ih (by omega)).next (w := w) (by omega)
    simpa [Memory.copyForward, List.range_succ, Nat.mul_succ] using hnext

/-- Whether they overlap or not, only the copy is stored. -/
theorem copyForward_spares (w n d s : Nat) (m : Memory) :
    Spares (fun a => a < d ∨ d + w * n ≤ a) m (m.copyForward w n d s) := by
  induction n with
  | zero => exact Spares.refl m
  | succ n ih =>
    rw [Memory.copyForward, List.range_succ, List.foldl_append, ← Memory.copyForward]
    refine (ih.mono fun a ha => ?_).trans (Spares.store (fun a ha => ?_) _)
    · rw [Nat.mul_succ] at ha
      omega
    · rw [Nat.mul_succ] at ha
      rw [Memory.length_load]
      omega

end byte_memory
