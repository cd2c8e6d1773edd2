-- Weighted round robin. The head of the order has the processor until its
-- weight in ticks is spent, and then goes to the end. A round is as many ticks
-- as the weights of the order add up to.
import Mathlib.Algebra.BigOperators.Group.List.Basic
import Mathlib.Algebra.Order.Ring.Nat
import Mathlib.Data.List.Nodup
import Mathlib.Logic.Function.Iterate

namespace round_robin

variable {α : Type*}

/-- The head of `order` has the processor for `left` more ticks. -/
structure Wheel (α : Type*) where
  left : Nat
  order : List α

/-- The head of the order begins its turn. -/
def fresh (w : α → Nat) (order : List α) : Wheel α := ⟨(order.head?.map w).getD 0, order⟩

/-- The head goes to the end of the order. -/
def turned : List α → List α
  | [] => []
  | x :: rest => rest ++ [x]

def tick (w : α → Nat) (s : Wheel α) : Wheel α :=
  if s.left ≤ 1 then fresh w (turned s.order) else { s with left := s.left - 1 }

/-- Who has the processor, tick by tick. -/
def ran (w : α → Nat) : Nat → Wheel α → List α
  | 0, _ => []
  | n + 1, s => s.order.head?.toList ++ ran w n (tick w s)

/-- Who gets the processor, turn by turn. -/
def turns (w : α → Nat) : Nat → Wheel α → List α
  | 0, _ => []
  | n + 1, s =>
    (if s.left ≤ 1 then (turned s.order).head?.toList else []) ++ turns w n (tick w s)

/-- The ticks of one turn of each member of a list. -/
def ticksOf (w : α → Nat) (l : List α) : Nat := (l.map w).sum

/-- One turn of each member of a list, tick by tick. -/
def spread (w : α → Nat) (l : List α) : List α := l.flatMap (fun x => List.replicate (w x) x)

@[simp] theorem turned_cons (x : α) (rest : List α) : turned (x :: rest) = rest ++ [x] := rfl

@[simp] theorem ticksOf_nil (w : α → Nat) : ticksOf w [] = 0 := rfl

@[simp] theorem ticksOf_cons (w : α → Nat) (x : α) (l : List α) :
    ticksOf w (x :: l) = w x + ticksOf w l := by
  simp [ticksOf]

@[simp] theorem spread_cons (w : α → Nat) (x : α) (l : List α) :
    spread w (x :: l) = List.replicate (w x) x ++ spread w l := by
  simp [spread]

theorem ran_add (w : α → Nat) (m n : Nat) (s : Wheel α) :
    ran w (m + n) s = ran w m s ++ ran w n ((tick w)^[m] s) := by
  induction m generalizing s with
  | zero => simp [ran]
  | succ m ih => rw [Nat.succ_add, ran, ran, ih, Function.iterate_succ_apply, List.append_assoc]

theorem turns_add (w : α → Nat) (m n : Nat) (s : Wheel α) :
    turns w (m + n) s = turns w m s ++ turns w n ((tick w)^[m] s) := by
  induction m generalizing s with
  | zero => simp [turns]
  | succ m ih =>
    rw [Nat.succ_add, turns, turns, ih, Function.iterate_succ_apply, List.append_assoc]

/-! ## One turn -/

theorem turn (w : α → Nat) (x : α) (rest : List α) (n : Nat) :
    (tick w)^[n + 1] ⟨n + 1, x :: rest⟩ = fresh w (rest ++ [x]) ∧
      ran w (n + 1) ⟨n + 1, x :: rest⟩ = List.replicate (n + 1) x ∧
      turns w (n + 1) ⟨n + 1, x :: rest⟩ = (rest ++ [x]).head?.toList := by
  induction n with
  | zero => simp [tick, ran, turns]
  | succ n ih =>
    have ht : tick w ⟨n + 1 + 1, x :: rest⟩ = ⟨n + 1, x :: rest⟩ := by simp [tick]
    refine ⟨?_, ?_, ?_⟩
    · rw [Function.iterate_succ_apply, ht, ih.1]
    · rw [ran, ht, ih.2.1]
      rfl
    · rw [turns, ht, ih.2.2]
      simp

/-- A full turn of the head. -/
theorem turn_fresh {w : α → Nat} {x : α} (hx : 1 ≤ w x) (rest : List α) :
    (tick w)^[w x] (fresh w (x :: rest)) = fresh w (rest ++ [x]) ∧
      ran w (w x) (fresh w (x :: rest)) = List.replicate (w x) x ∧
      turns w (w x) (fresh w (x :: rest)) = (rest ++ [x]).head?.toList := by
  obtain ⟨n, hn⟩ : ∃ n, w x = n + 1 := ⟨w x - 1, by omega⟩
  have hf : fresh w (x :: rest) = ⟨n + 1, x :: rest⟩ := by simp [fresh, hn]
  rw [hf, hn]
  exact turn w x rest n

/-! ## Rounds -/

/-- A turn of each of the first members `l₁` of the order. -/
theorem turns_prefix {w : α → Nat} (l₁ : List α) (hw : ∀ x ∈ l₁, 1 ≤ w x) (l₂ : List α) :
    (tick w)^[ticksOf w l₁] (fresh w (l₁ ++ l₂)) = fresh w (l₂ ++ l₁) ∧
      ran w (ticksOf w l₁) (fresh w (l₁ ++ l₂)) = spread w l₁ ∧
      (l₁ ++ l₂).head?.toList ++ turns w (ticksOf w l₁) (fresh w (l₁ ++ l₂)) =
        l₁ ++ (l₂ ++ l₁).head?.toList := by
  induction l₁ generalizing l₂ with
  | nil => simp [ran, turns, spread]
  | cons x l₁ ih =>
    obtain ⟨hit, hran, hturn⟩ := turn_fresh (hw x (by simp)) (l₁ ++ l₂)
    obtain ⟨hit', hran', hturn'⟩ := ih (fun y hy => hw y (by simp [hy])) (l₂ ++ [x])
    rw [List.append_assoc] at hit hturn
    have hend : l₂ ++ [x] ++ l₁ = l₂ ++ x :: l₁ := by simp
    rw [hend] at hit' hturn'
    refine ⟨?_, ?_, ?_⟩
    · rw [ticksOf_cons, Nat.add_comm, Function.iterate_add_apply, List.cons_append, hit, hit']
    · rw [ticksOf_cons, ran_add, List.cons_append, hit, hran, hran', spread_cons]
    · rw [ticksOf_cons, turns_add, List.cons_append, hit, hturn, hturn']
      rfl

/-- One round: everybody has a turn, and the order comes back. -/
theorem round {w : α → Nat} {x : α} {rest : List α} (hw : ∀ y ∈ x :: rest, 1 ≤ w y) :
    (tick w)^[ticksOf w (x :: rest)] (fresh w (x :: rest)) = fresh w (x :: rest) ∧
      ran w (ticksOf w (x :: rest)) (fresh w (x :: rest)) = spread w (x :: rest) ∧
      turns w (ticksOf w (x :: rest)) (fresh w (x :: rest)) = rest ++ [x] := by
  obtain ⟨hit, hran, hturn⟩ := turns_prefix (x :: rest) hw []
  rw [List.append_nil] at hit hran hturn
  refine ⟨hit, hran, ?_⟩
  simpa using hturn

/-- Any number of rounds. -/
theorem rounds {w : α → Nat} {x : α} {rest : List α} (hw : ∀ y ∈ x :: rest, 1 ≤ w y) (k : Nat) :
    ran w (k * ticksOf w (x :: rest)) (fresh w (x :: rest)) =
        (List.replicate k (spread w (x :: rest))).flatten ∧
      turns w (k * ticksOf w (x :: rest)) (fresh w (x :: rest)) =
        (List.replicate k (rest ++ [x])).flatten := by
  obtain ⟨hit, hran, hturn⟩ := round hw
  induction k with
  | zero => simp [ran, turns]
  | succ k ih =>
    rw [Nat.succ_mul, Nat.add_comm, ran_add, turns_add, hit, hran, hturn, ih.1, ih.2]
    simp [List.replicate_succ]

/-! ## Shares -/

variable [DecidableEq α]

theorem count_spread (w : α → Nat) (x : α) (l : List α) :
    (spread w l).count x = l.count x * w x := by
  induction l with
  | nil => simp [spread]
  | cons y l ih =>
    rw [spread_cons, List.count_append, ih, List.count_replicate, List.count_cons, Nat.add_mul,
      Nat.add_comm]
    by_cases h : y = x
    · simp [h]
    · simp [h]

/-- In `k` rounds each member has `k` times its weight in ticks. -/
theorem count_rounds (w : α → Nat) {l : List α} (hl : l.Nodup) {x : α} (hx : x ∈ l) (k : Nat) :
    (List.replicate k (spread w l)).flatten.count x = k * w x := by
  have h1 : (spread w l).count x = w x := by
    rw [count_spread, List.count_eq_one_of_mem hl hx, Nat.one_mul]
  induction k with
  | zero => simp
  | succ k ih =>
    rw [List.replicate_succ, List.flatten_cons, List.count_append, h1, ih, Nat.succ_mul,
      Nat.add_comm]

end round_robin
