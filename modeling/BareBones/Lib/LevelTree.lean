-- A complete binary tree stored by levels in an array: the root at 0, the
-- children of `i` at `2 * i + 1` and `2 * i + 2`. The nodes above a node, the
-- place of a node on its level, and the interval of leaves under it.
import BareBones.Lib.Extents
import Mathlib.Data.Nat.Log

namespace level_tree

open extents

def parent (i : Nat) : Nat := (i - 1) / 2

def left (i : Nat) : Nat := 2 * i + 1

def right (i : Nat) : Nat := 2 * i + 2

/-- The node at place `k` of level `d`, from the left and from the root. -/
def index (d k : Nat) : Nat := 2 ^ d - 1 + k

/-- The proper ancestors of a node. -/
inductive Above : Nat → Nat → Prop
  | base {i : Nat} : 0 < i → Above (parent i) i
  | step {a i : Nat} : 0 < i → Above a (parent i) → Above a i

/-! ## Parents and children -/

theorem parent_lt {i : Nat} (h : 0 < i) : parent i < i := by unfold parent; omega

@[simp] theorem parent_left (i : Nat) : parent (left i) = i := by unfold parent left; omega

@[simp] theorem parent_right (i : Nat) : parent (right i) = i := by unfold parent right; omega

theorem child_cases {i : Nat} (h : 0 < i) : i = left (parent i) ∨ i = right (parent i) := by
  unfold left right parent
  omega

theorem left_pos (i : Nat) : 0 < left i := Nat.succ_pos _

theorem right_pos (i : Nat) : 0 < right i := Nat.succ_pos _

theorem Above.lt {a i : Nat} (h : Above a i) : a < i := by
  induction h with
  | base hpos => exact parent_lt hpos
  | step hpos _ ih => exact ih.trans (parent_lt hpos)

theorem Above.trans {a b c : Nat} (hab : Above a b) (hbc : Above b c) : Above a c := by
  induction hbc with
  | base hpos => exact .step hpos hab
  | step hpos _ ih => exact .step hpos (ih hab)

/-- The nodes above a node are its parent and the nodes above that. -/
theorem above_iff {a i : Nat} (h : 0 < i) : Above a i ↔ a = parent i ∨ Above a (parent i) := by
  constructor
  · rintro (_ | ⟨_, ha⟩)
    · exact .inl rfl
    · exact .inr ha
  · rintro (rfl | ha)
    · exact .base h
    · exact .step h ha

theorem not_above_zero (a : Nat) : ¬ Above a 0 := fun h => absurd h.lt (Nat.not_lt_zero a)

theorem above_left (i : Nat) : Above i (left i) :=
  (above_iff (left_pos i)).mpr (.inl (parent_left i).symm)

theorem above_right (i : Nat) : Above i (right i) :=
  (above_iff (right_pos i)).mpr (.inl (parent_right i).symm)

/-- On the way from `a` down to `i` lies a child of `a`. -/
theorem Above.child {a i : Nat} (h : Above a i) :
    ∃ c, 0 < c ∧ parent c = a ∧ (c = i ∨ Above c i) := by
  induction h with
  | base hpos => exact ⟨_, hpos, rfl, .inl rfl⟩
  | step hpos _ ih =>
    obtain ⟨c, hc, hca, hci⟩ := ih
    refine ⟨c, hc, hca, .inr ?_⟩
    rcases hci with rfl | hci
    · exact .base hpos
    · exact .step hpos hci

/-! ## Levels -/

theorem two_pow_pos (d : Nat) : 0 < 2 ^ d := Nat.pow_pos (by decide)

theorem parent_index (d k : Nat) : parent (index (d + 1) k) = index d (k / 2) := by
  have := two_pow_pos d
  unfold parent index
  rw [Nat.pow_succ]
  omega

theorem left_index (d k : Nat) : left (index d k) = index (d + 1) (2 * k) := by
  have := two_pow_pos d
  unfold left index
  rw [Nat.pow_succ]
  omega

theorem right_index (d k : Nat) : right (index d k) = index (d + 1) (2 * k + 1) := by
  have := two_pow_pos d
  unfold right index
  rw [Nat.pow_succ]
  omega

theorem index_zero : index 0 0 = 0 := rfl

theorem index_succ_pos (d k : Nat) : 0 < index (d + 1) k := by
  have := two_pow_pos d
  unfold index
  rw [Nat.pow_succ]
  omega

/-- The levels above `height` are the first `2 ^ height - 1` nodes. -/
theorem index_lt {d k height : Nat} (hd : d < height) (hk : k < 2 ^ d) :
    index d k < 2 ^ height - 1 := by
  have hle : 2 ^ (d + 1) ≤ 2 ^ height := Nat.pow_le_pow_right (by decide) hd
  rw [Nat.pow_succ] at hle
  unfold index
  omega

/-- The level of a node. -/
def level (i : Nat) : Nat := Nat.log 2 (i + 1)

theorem level_index {d k : Nat} (hk : k < 2 ^ d) : level (index d k) = d := by
  have := two_pow_pos d
  unfold level index
  apply Nat.log_eq_of_pow_le_of_lt_pow (by omega)
  rw [Nat.pow_succ]
  omega

theorem index_inj {d k d' k' : Nat} (hk : k < 2 ^ d) (hk' : k' < 2 ^ d')
    (h : index d k = index d' k') : d = d' ∧ k = k' := by
  have hd : d = d' := (level_index hk).symm.trans ((congrArg level h).trans (level_index hk'))
  subst hd
  unfold index at h
  exact ⟨rfl, by omega⟩

/-- `n` levels up, the place is divided by `2 ^ n`. -/
theorem above_index {n : Nat} (hn : 0 < n) (d k : Nat) :
    Above (index d (k / 2 ^ n)) (index (d + n) k) := by
  induction n generalizing k with
  | zero => exact absurd hn (Nat.lt_irrefl 0)
  | succ n ih =>
    rw [← Nat.add_assoc, above_iff (index_succ_pos _ _), parent_index, Nat.pow_succ',
      ← Nat.div_div_eq_div_mul]
    rcases Nat.eq_zero_or_pos n with rfl | hpos
    · exact .inl (by rw [Nat.pow_zero, Nat.div_one, Nat.add_zero])
    · exact .inr (ih hpos (k / 2))

/-! ## Spans -/

/-- The leaves under a node, in a tree with leaves on level `height`. -/
def span (height d k : Nat) : Extent := ⟨k * 2 ^ (height - d), 2 ^ (height - d)⟩

theorem span_stop (height d k : Nat) : (span height d k).stop = (k + 1) * 2 ^ (height - d) := by
  rw [Nat.succ_mul]
  rfl

/-- Spans of the same level are apart. -/
theorem span_apart {height d k k' : Nat} (h : k ≠ k') :
    (span height d k).Apart (span height d k') := by
  unfold Extent.Apart
  rw [span_stop, span_stop]
  rcases Nat.lt_or_gt_of_ne h with h | h
  · exact .inl (Nat.mul_le_mul_right _ h)
  · exact .inr (Nat.mul_le_mul_right _ h)

/-- A span lies inside the spans of the nodes above. -/
theorem span_inside_above {height d n k : Nat} (h : d + n ≤ height) :
    (span height (d + n) k).Inside (span height d (k / 2 ^ n)) := by
  have hpow : 2 ^ (height - d) = 2 ^ n * 2 ^ (height - (d + n)) := by
    rw [← Nat.pow_add]
    congr 1
    omega
  refine ⟨?_, ?_⟩
  · unfold span
    dsimp only
    rw [hpow, ← Nat.mul_assoc]
    exact Nat.mul_le_mul_right _ (Nat.div_mul_le_self k (2 ^ n))
  · rw [span_stop, span_stop, hpow, ← Nat.mul_assoc]
    apply Nat.mul_le_mul_right _
    have := Nat.div_add_mod k (2 ^ n)
    have := Nat.mod_lt k (two_pow_pos n)
    rw [Nat.succ_mul, Nat.mul_comm (k / 2 ^ n)]
    omega

/-- Two nodes, none above the other, have spans apart. -/
theorem spans_apart {height d k d' k' : Nat} (hle : d ≤ d') (hd' : d' ≤ height)
    (hne : index d k ≠ index d' k') (habove : ¬ Above (index d k) (index d' k')) :
    (span height d k).Apart (span height d' k') := by
  obtain ⟨n, rfl⟩ := Nat.exists_eq_add_of_le hle
  have hk : k ≠ k' / 2 ^ n := by
    rintro rfl
    rcases Nat.eq_zero_or_pos n with rfl | hpos
    · exact hne (by rw [Nat.pow_zero, Nat.div_one, Nat.add_zero])
    · exact habove (above_index hpos d k')
  exact Extent.Inside.apart ⟨Nat.le_refl _, Nat.le_refl _⟩ (span_inside_above hd') (span_apart hk)

end level_tree
