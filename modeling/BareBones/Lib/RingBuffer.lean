-- A ring buffer of `n` cells: the index of the oldest element and the number of
-- elements. What it holds is a queue.
import Mathlib.Data.Nat.ModEq
import Mathlib.Data.List.Basic
import Mathlib.Logic.Function.Basic

namespace ring_buffer

variable {α : Type*}

structure RingBuffer (α : Type*) where
  cells : Nat → α
  first : Nat
  count : Nat

namespace RingBuffer

/-- The cell of the next element. -/
def last (n : Nat) (r : RingBuffer α) : Nat := (r.first + r.count) % n

/-- The elements, oldest first. -/
def contents (n : Nat) (r : RingBuffer α) : List α :=
  (List.range r.count).map (fun k => r.cells ((r.first + k) % n))

def put (n : Nat) (r : RingBuffer α) (a : α) : RingBuffer α :=
  { r with cells := Function.update r.cells (r.last n) a, count := r.count + 1 }

def drop (n : Nat) (r : RingBuffer α) : RingBuffer α :=
  { r with first := (r.first + 1) % n, count := r.count - 1 }

/-- The indices are in range. -/
structure Ok (n : Nat) (r : RingBuffer α) : Prop where
  first : r.first < n
  count : r.count ≤ n

theorem length_contents (n : Nat) (r : RingBuffer α) : (r.contents n).length = r.count := by
  rw [contents, List.length_map, List.length_range]

/-- The cells of the elements are not the next cell. -/
theorem cell_ne_last {n : Nat} {r : RingBuffer α} (h : r.count < n) {k : Nat} (hk : k < r.count) :
    (r.first + k) % n ≠ r.last n := by
  intro he
  have hmod : (r.first + r.count) % n = (r.first + k) % n := he.symm
  have hdvd : n ∣ (r.first + r.count) - (r.first + k) :=
    (Nat.modEq_iff_dvd' (by omega)).mp hmod.symm
  have hle : n ≤ (r.first + r.count) - (r.first + k) := Nat.le_of_dvd (by omega) hdvd
  omega

theorem contents_put {n : Nat} {r : RingBuffer α} (h : r.count < n) (a : α) :
    (r.put n a).contents n = r.contents n ++ [a] := by
  unfold contents put
  dsimp only
  rw [List.range_succ, List.map_append, List.map_singleton, ← last, Function.update_self]
  congr 1
  apply List.map_congr_left
  intro k hk
  exact Function.update_of_ne (cell_ne_last h (List.mem_range.mp hk)) _ _

theorem contents_drop {n : Nat} {r : RingBuffer α} (h : r.Ok n) (hpos : 0 < r.count) :
    r.contents n = r.cells r.first :: (r.drop n).contents n := by
  unfold contents drop
  obtain ⟨c, hc⟩ : ∃ c, r.count = c + 1 := ⟨r.count - 1, by omega⟩
  dsimp only
  rw [hc, List.range_succ_eq_map, List.map_cons, List.map_map, Nat.add_zero,
    Nat.mod_eq_of_lt h.first, Nat.add_sub_cancel]
  congr 1
  apply List.map_congr_left
  intro k _
  rw [Function.comp, Nat.mod_add_mod, Nat.add_right_comm, Nat.add_assoc]

theorem ok_put {n : Nat} {r : RingBuffer α} (h : r.Ok n) (hlt : r.count < n) (a : α) :
    (r.put n a).Ok n := ⟨h.first, hlt⟩

theorem ok_drop {n : Nat} {r : RingBuffer α} (h : r.Ok n) : (r.drop n).Ok n := by
  have hn : 0 < n := Nat.lt_of_le_of_lt (Nat.zero_le _) h.first
  exact ⟨Nat.mod_lt _ hn, Nat.le_trans (Nat.sub_le _ _) h.count⟩

theorem last_put {n : Nat} {r : RingBuffer α} (a : α) :
    (r.put n a).last n = (r.last n + 1) % n := by
  unfold last put
  rw [Nat.mod_add_mod, Nat.add_assoc]

theorem last_drop {n : Nat} {r : RingBuffer α} (hpos : 0 < r.count) :
    (r.drop n).last n = r.last n := by
  unfold last drop
  dsimp only
  rw [Nat.mod_add_mod]
  congr 1
  omega

end RingBuffer

end ring_buffer
