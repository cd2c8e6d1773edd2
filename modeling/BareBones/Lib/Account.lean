-- The books of an allocator: what it has given and not yet taken back, by
-- name, and what was taken back. Code that is given blocks and gives blocks
-- back trades what it holds for something else; the trades compose, and leave
-- alone what others hold.
import Mathlib.Algebra.Order.Group.Multiset

namespace accounts

variable {α β : Type*}

structure Account (α β : Type*) where
  /-- What is given out: its name, and what was asked for. -/
  live : List (α × β)
  /-- The names that came back, oldest first. -/
  freed : List α
  /-- How often a name came back that was not given out. -/
  stray : Nat
  /-- How many requests were not met. -/
  refused : Nat

namespace Account

def empty : Account α β := ⟨[], [], 0, 0⟩

def give (x : Account α β) (a : α) (b : β) : Account α β := { x with live := (a, b) :: x.live }

def refuse (x : Account α β) : Account α β := { x with refused := x.refused + 1 }

def take [DecidableEq α] (x : Account α β) (a : α) : Account α β :=
  { x with
    live := x.live.eraseP (fun g => g.1 = a)
    freed := x.freed ++ [a]
    stray := if a ∈ x.live.map Prod.fst then x.stray else x.stray + 1 }

/-- The names that are given out. -/
def held (x : Account α β) : Multiset α := ↑(x.live.map Prod.fst)

@[simp] theorem held_give (x : Account α β) (a : α) (b : β) : (x.give a b).held = a ::ₘ x.held :=
  rfl

@[simp] theorem held_refuse (x : Account α β) : x.refuse.held = x.held := rfl

theorem map_fst_eraseP [DecidableEq α] (live : List (α × β)) (a : α) :
    (live.eraseP (fun g => g.1 = a)).map Prod.fst = (live.map Prod.fst).erase a := by
  induction live with
  | nil => rfl
  | cons g live ih =>
    by_cases h : g.1 = a
    · simp [h]
    · rw [List.eraseP_cons_of_neg (by simpa using h), List.map_cons, List.map_cons, ih,
        List.erase_cons_tail (by simpa using h)]

@[simp] theorem held_take [DecidableEq α] (x : Account α β) (a : α) :
    (x.take a).held = x.held.erase a := by
  rw [held, take, map_fst_eraseP, ← Multiset.coe_erase]
  rfl

/-- What is held came back is not stray. -/
theorem stray_take [DecidableEq α] {x : Account α β} {a : α} (h : a ∈ x.held) :
    (x.take a).stray = x.stray := if_pos h

theorem take_stray [DecidableEq α] {x : Account α β} {a : α} (h : (x.take a).stray = 0) :
    a ∈ x.held ∧ x.stray = 0 := by
  unfold take at h
  dsimp only at h
  split at h
  · rename_i ha
    exact ⟨ha, h⟩
  · cases h

end Account

/-! ## Trades -/

/-- What is kept or gone at the end of two stretches was kept or gone in each. -/
theorem le_add_append {b c d : Multiset α} {freed more : List α} (h : b ≤ c + ↑freed)
    (h' : c ≤ d + ↑more) : b ≤ d + ↑(freed ++ more) :=
  calc b ≤ c + ↑freed := h
    _ ≤ d + ↑more + ↑freed := Multiset.add_le_add_right h'
    _ = d + ↑(freed ++ more) := by
      rw [← Multiset.coe_add, add_assoc, add_comm (more : Multiset α)]

/-- On the way from `x` to `x'` somebody trades the names `b` for `b'`. What
others hold stays, nothing stray comes back, and what is gone came back. -/
structure Trades (x x' : Account α β) (b b' : Multiset α) : Prop where
  held : ∀ rest, x.held = b + rest → x'.held = b' + rest ∧ x'.stray = x.stray
  gone : ∃ freed, x'.freed = x.freed ++ freed ∧ b ≤ b' + ↑freed
  refused : x.refused ≤ x'.refused

namespace Trades

theorem refl (x : Account α β) (b : Multiset α) : Trades x x b b :=
  ⟨fun _ h => ⟨h, rfl⟩, ⟨[], by simp, by simp⟩, Nat.le_refl _⟩

theorem trans {x y z : Account α β} {b c d : Multiset α} (h : Trades x y b c)
    (h' : Trades y z c d) : Trades x z b d := by
  refine ⟨fun rest hx => ?_, ?_, h.refused.trans h'.refused⟩
  · obtain ⟨hy, hs⟩ := h.held rest hx
    obtain ⟨hz, hs'⟩ := h'.held rest hy
    exact ⟨hz, hs'.trans hs⟩
  · obtain ⟨freed, hy, hb⟩ := h.gone
    obtain ⟨more, hz, hc⟩ := h'.gone
    exact ⟨freed ++ more, by rw [hz, hy, List.append_assoc], le_add_append hb hc⟩

/-- Whoever trades may hold more. -/
theorem frame {x x' : Account α β} {b b' : Multiset α} (h : Trades x x' b b')
    (c : Multiset α) : Trades x x' (b + c) (b' + c) := by
  refine ⟨fun rest hx => ?_, ?_, h.refused⟩
  · rw [add_assoc] at hx ⊢
    exact h.held (c + rest) hx
  · obtain ⟨freed, hf, hb⟩ := h.gone
    refine ⟨freed, hf, ?_⟩
    rw [add_right_comm]
    exact Multiset.add_le_add_right hb

theorem frame_left {x x' : Account α β} {b b' : Multiset α} (h : Trades x x' b b')
    (c : Multiset α) : Trades x x' (c + b) (c + b') := by
  rw [add_comm c, add_comm c]
  exact h.frame c

theorem give (x : Account α β) (a : α) (b : β) : Trades x (x.give a b) 0 {a} := by
  refine ⟨fun rest hx => ⟨?_, rfl⟩, ⟨[], by simp [Account.give], by simp⟩, Nat.le_refl _⟩
  rw [Account.held_give, hx, zero_add, Multiset.singleton_add]

theorem refuse (x : Account α β) (b : Multiset α) : Trades x x.refuse b b :=
  ⟨fun _ h => ⟨h, rfl⟩, ⟨[], by simp [Account.refuse], by simp⟩, Nat.le_succ _⟩

theorem take [DecidableEq α] (x : Account α β) (a : α) : Trades x (x.take a) {a} 0 := by
  refine ⟨fun rest hx => ⟨?_, Account.stray_take ?_⟩, ⟨[a], rfl, by simp⟩, Nat.le_refl _⟩
  · rw [Account.held_take, hx, zero_add, Multiset.singleton_add, Multiset.erase_cons_head]
  · rw [hx]
    simp

/-- One after the other is given. -/
theorem earn {x y z : Account α β} {b c : Multiset α} (h : Trades x y 0 b)
    (h' : Trades y z 0 c) : Trades x z 0 (b + c) := by
  have := h'.frame_left b
  rw [add_zero] at this
  exact h.trans this

/-- One after the other comes back. -/
theorem pay {x y z : Account α β} {b c : Multiset α} (h : Trades x y b 0)
    (h' : Trades y z c 0) : Trades x z (b + c) 0 := by
  have := h.frame c
  rw [zero_add] at this
  exact this.trans h'

/-- The last of what was given comes back. -/
theorem spend {x y z : Account α β} {b c : Multiset α} (h : Trades x y 0 (b + c))
    (h' : Trades y z c 0) : Trades x z 0 b := by
  have := h'.frame_left b
  rw [add_zero] at this
  exact h.trans this

end Trades

end accounts
