-- The tree of `buddy.c` is tidy between calls: the nodes below a node that is
-- not `SPLIT` are `FREE`, and a `SPLIT` node has a child that is not. What
-- `mm_alloc` chooses, and what it and `mm_free` do to the states.
import BareBones.Buddy

namespace bare_bones.buddy_heap

open bare_bones level_tree

@[simp] theorem setNode_same (m : Manager) (i : Nat) (s : UInt8) :
    (m.setNode i s).tree i = s := Function.update_self ..

theorem setNode_ne (m : Manager) {i j : Nat} (s : UInt8) (h : j ≠ i) :
    (m.setNode i s).tree j = m.tree j := Function.update_of_ne h ..

/-! ## Tidy trees -/

structure Tidy (m : Manager) : Prop where
  /-- The nodes fill whole levels. -/
  nodes : ∃ height, m.totalNodes = 2 ^ height - 1
  known : ∀ i < m.totalNodes, m.tree i = FREE ∨ m.tree i = USED ∨ m.tree i = SPLIT
  below : ∀ i < m.totalNodes, 0 < i → m.tree (parent i) ≠ SPLIT → m.tree i = FREE
  split : ∀ i < m.totalNodes, m.tree i = SPLIT →
    right i < m.totalNodes ∧ (m.tree (left i) ≠ FREE ∨ m.tree (right i) ≠ FREE)

/-- A node in the tree has its brother in it. -/
theorem right_lt {n height i : Nat} (hn : n = 2 ^ height - 1) (h : left i < n) : right i < n := by
  unfold left right at *
  cases height with
  | zero => omega
  | succ height =>
    rw [Nat.pow_succ] at hn
    omega

theorem child_lt {n height i : Nat} (hn : n = 2 ^ height - 1) (hpos : 0 < i) (h : i < n) :
    right (parent i) < n := by
  rcases child_cases hpos with hi | hi
  · exact right_lt hn (hi ▸ h)
  · exact hi ▸ h

/-- Below a node that is not `SPLIT` all is `FREE`. -/
theorem Tidy.free_below {m : Manager} (ht : Tidy m) {a i : Nat} (ha : Above a i)
    (hi : i < m.totalNodes) (hs : m.tree a ≠ SPLIT) : m.tree i = FREE := by
  induction ha with
  | base hpos => exact ht.below _ hi hpos hs
  | step hpos _ ih =>
    have hp := ih ((parent_lt hpos).trans hi) hs
    exact ht.below _ hi hpos (by rw [hp]; decide)

/-- Above a node that is not `FREE` all is `SPLIT`. -/
theorem Tidy.split_above {m : Manager} (ht : Tidy m) {a i : Nat} (ha : Above a i)
    (hi : i < m.totalNodes) (hs : m.tree i ≠ FREE) : m.tree a = SPLIT := by
  by_contra hn
  exact hs (ht.free_below ha hi hn)

/-- Below a `SPLIT` node is a `USED` one. -/
theorem Tidy.used_below {m : Manager} (ht : Tidy m) {i : Nat} (hi : i < m.totalNodes)
    (hs : m.tree i = SPLIT) : ∃ j < m.totalNodes, Above i j ∧ m.tree j = USED := by
  obtain ⟨hright, hchild⟩ := ht.split i hi hs
  have hgo : ∀ c, i < c → c < m.totalNodes → Above i c → m.tree c ≠ FREE →
      ∃ j < m.totalNodes, Above i j ∧ m.tree j = USED := by
    intro c hic hc habove hne
    rcases ht.known c hc with hf | hu | hsp
    · exact absurd hf hne
    · exact ⟨c, hc, habove, hu⟩
    · obtain ⟨j, hj, hcj, hu⟩ := ht.used_below hc hsp
      exact ⟨j, hj, habove.trans hcj, hu⟩
  rcases hchild with h | h
  · have hlr : left i < right i := Nat.lt_succ_self _
    exact hgo _ (above_left i).lt (hlr.trans hright) (above_left i) h
  · exact hgo _ (above_right i).lt hright (above_right i) h
termination_by m.totalNodes - i

/-! ## The node that is chosen -/

/-- A node that a search from the root can reach and take. -/
def Offered (m : Manager) (i : Nat) : Prop :=
  m.tree i = FREE ∧ ∀ a, Above a i → m.tree a = SPLIT ∨ m.tree a = FREE

/-- The places of level `d + steps` below the node `index d k`. -/
theorem above_place {steps : Nat} (hs : 0 < steps) (d : Nat) {k j : Nat} (hj : j < 2 ^ steps) :
    Above (index d k) (index (d + steps) (k * 2 ^ steps + j)) := by
  have hdiv : (k * 2 ^ steps + j) / 2 ^ steps = k := by
    rw [Nat.mul_comm, Nat.mul_add_div (two_pow_pos steps), Nat.div_eq_of_lt hj, Nat.add_zero]
  have := above_index hs d (k * 2 ^ steps + j)
  rwa [hdiv] at this

theorem place_left (d k steps j : Nat) : index (d + 1 + steps) (2 * k * 2 ^ steps + j) =
    index (d + (steps + 1)) (k * 2 ^ (steps + 1) + j) := by
  rw [Nat.add_right_comm, Nat.add_assoc, Nat.pow_succ', ← Nat.mul_assoc, Nat.mul_comm 2 k]

theorem place_right (d k steps j : Nat) : index (d + 1 + steps) ((2 * k + 1) * 2 ^ steps + j) =
    index (d + (steps + 1)) (k * 2 ^ (steps + 1) + (2 ^ steps + j)) := by
  rw [Nat.add_mul, Nat.one_mul, Nat.add_assoc (_ * _), place_left]

theorem findFreeNode_succ (m : Manager) (steps d k : Nat) :
    findFreeNode m (steps + 1) (index d k) =
      if m.tree (index d k) ≠ SPLIT ∧ m.tree (index d k) ≠ FREE then none
      else match findFreeNode m steps (index (d + 1) (2 * k)) with
        | some found => some found
        | none => findFreeNode m steps (index (d + 1) (2 * k + 1)) := by
  have hl : index (d + 1) (2 * k) = index d k * 2 + 1 := by
    rw [← left_index, left, Nat.mul_comm]
  have hr : index (d + 1) (2 * k + 1) = index d k * 2 + 2 := by
    rw [← right_index, right, Nat.mul_comm]
  generalize index (d + 1) (2 * k) = l at hl ⊢
  generalize index (d + 1) (2 * k + 1) = r at hr ⊢
  subst hl hr
  rfl

/-- The search ends with -1 when no node of the level below is offered. -/
theorem findFreeNode_none {m : Manager} {steps d k : Nat}
    (h : findFreeNode m steps (index d k) = none) {j : Nat} (hj : j < 2 ^ steps) :
    ¬ Offered m (index (d + steps) (k * 2 ^ steps + j)) := by
  induction steps generalizing d k j with
  | zero =>
    rw [Nat.pow_zero, Nat.lt_one_iff] at hj
    rw [hj, Nat.pow_zero, Nat.mul_one, Nat.add_zero, Nat.add_zero]
    intro ho
    rw [findFreeNode, if_pos ho.1] at h
    cases h
  | succ steps ih =>
    rw [findFreeNode_succ] at h
    split at h
    · next hstate =>
      intro ho
      rcases ho.2 _ (above_place (Nat.succ_pos steps) d hj) with hs | hf
      · exact hstate.1 hs
      · exact hstate.2 hf
    · cases hleft : findFreeNode m steps (index (d + 1) (2 * k)) with
      | some found => rw [hleft] at h; cases h
      | none =>
        rw [hleft] at h
        rcases Nat.lt_or_ge j (2 ^ steps) with hlt | hge
        · rw [← place_left]
          exact ih hleft hlt
        · obtain ⟨j, rfl⟩ := Nat.exists_eq_add_of_le hge
          rw [← place_right]
          exact ih h (by rw [Nat.pow_succ] at hj; omega)

/-- The search ends with the leftmost node of the level that is offered. -/
theorem findFreeNode_some {m : Manager} {steps d k found : Nat}
    (h : findFreeNode m steps (index d k) = some found) :
    ∃ j < 2 ^ steps, found = index (d + steps) (k * 2 ^ steps + j) ∧ m.tree found = FREE ∧
      (∀ a, Above a found → ¬ Above a (index d k) → m.tree a = SPLIT ∨ m.tree a = FREE) ∧
      ∀ j' < j, ¬ Offered m (index (d + steps) (k * 2 ^ steps + j')) := by
  induction steps generalizing d k with
  | zero =>
    rw [findFreeNode] at h
    split at h
    · next hfree =>
      cases h
      refine ⟨0, by decide, ?_, hfree, fun a ha hna => absurd ha hna,
        fun j' hj' => absurd hj' (Nat.not_lt_zero j')⟩
      rw [Nat.pow_zero, Nat.mul_one, Nat.add_zero, Nat.add_zero]
    · cases h
  | succ steps ih =>
    rw [findFreeNode_succ] at h
    split at h
    · cases h
    · next hstate =>
      have hnode : m.tree (index d k) = SPLIT ∨ m.tree (index d k) = FREE := by
        by_contra hn
        exact hstate (not_or.mp hn)
      -- a node on the way is the one the search is at, or below a child of it
      have hway : ∀ c, 0 < c → parent c = index d k →
          (∀ a, Above a found → ¬ Above a c → m.tree a = SPLIT ∨ m.tree a = FREE) →
          ∀ a, Above a found → ¬ Above a (index d k) → m.tree a = SPLIT ∨ m.tree a = FREE := by
        intro c hpos hc hfar a ha hna
        by_cases hac : Above a c
        · rcases (above_iff hpos).mp hac with he | he
          · rw [he, hc]
            exact hnode
          · exact absurd (hc ▸ he) hna
        · exact hfar a ha hac
      cases hleft : findFreeNode m steps (index (d + 1) (2 * k)) with
      | some found' =>
        rw [hleft] at h
        cases h
        obtain ⟨j, hj, hfound, hfree, hfar, hfirst⟩ := ih hleft
        refine ⟨j, hj.trans (Nat.pow_lt_pow_succ (by decide)), ?_, hfree, ?_, fun j' hj' => ?_⟩
        · rw [hfound, place_left]
        · exact hway _ (index_succ_pos _ _) (by rw [parent_index]; congr 1; omega) hfar
        · rw [← place_left]
          exact hfirst j' hj'
      | none =>
        rw [hleft] at h
        obtain ⟨j, hj, hfound, hfree, hfar, hfirst⟩ := ih h
        refine ⟨2 ^ steps + j, by rw [Nat.pow_succ]; omega, ?_, hfree, ?_, fun j' hj' => ?_⟩
        · rw [hfound, place_right]
        · exact hway _ (index_succ_pos _ _) (by rw [parent_index]; congr 1; omega) hfar
        · rcases Nat.lt_or_ge j' (2 ^ steps) with hlt | hge
          · rw [← place_left]
            exact findFreeNode_none hleft hlt
          · obtain ⟨j', rfl⟩ := Nat.exists_eq_add_of_le hge
            rw [← place_right]
            exact hfirst j' (by omega)

/-- From the root: the leftmost node of a level that is offered, if there is one. -/
theorem findFreeNode_root {m : Manager} {steps found : Nat}
    (h : findFreeNode m steps 0 = some found) :
    ∃ j < 2 ^ steps, found = index steps j ∧ Offered m found ∧
      ∀ j' < j, ¬ Offered m (index steps j') := by
  obtain ⟨j, hj, hfound, hfree, hway, hfirst⟩ := findFreeNode_some (d := 0) (k := 0) h
  rw [Nat.zero_mul, Nat.zero_add, Nat.zero_add] at hfound
  refine ⟨j, hj, hfound, ⟨hfree, fun a ha => hway a ha (not_above_zero a)⟩, fun j' hj' => ?_⟩
  have := hfirst j' hj'
  rwa [Nat.zero_mul, Nat.zero_add, Nat.zero_add] at this

theorem findFreeNode_root_none {m : Manager} {steps : Nat} (h : findFreeNode m steps 0 = none)
    {j : Nat} (hj : j < 2 ^ steps) : ¬ Offered m (index steps j) := by
  have := findFreeNode_none (d := 0) (k := 0) h hj
  rwa [Nat.zero_mul, Nat.zero_add, Nat.zero_add] at this

/-! ## Taking a node -/

/-- What no call changes. -/
structure SameShape (m m' : Manager) : Prop where
  treeStart : m'.treeStart = m.treeStart
  size : m'.size = m.size
  maxExp : m'.maxExp = m.maxExp
  totalNodes : m'.totalNodes = m.totalNodes

theorem SameShape.refl (m : Manager) : SameShape m m := ⟨rfl, rfl, rfl, rfl⟩

theorem SameShape.trans {m m' m'' : Manager} (h : SameShape m m') (h' : SameShape m' m'') :
    SameShape m m'' :=
  ⟨h'.1.trans h.1, h'.2.trans h.2, h'.3.trans h.3, h'.4.trans h.4⟩

theorem setNode_shape (m : Manager) (i : Nat) (s : UInt8) : SameShape m (m.setNode i s) :=
  ⟨rfl, rfl, rfl, rfl⟩

theorem splitLoop_spec {left x : Nat} (hle : x ≤ left) (m : Manager) :
    SameShape m (splitLoop left x m) ∧ (splitLoop left x m).used = m.used ∧
      (∀ i, Above i x → (splitLoop left x m).tree i = SPLIT) ∧
      ∀ i, ¬ Above i x → (splitLoop left x m).tree i = m.tree i := by
  induction left generalizing x m with
  | zero =>
    obtain rfl : x = 0 := Nat.le_zero.mp hle
    exact ⟨.refl m, rfl, fun i hi => absurd hi (not_above_zero i), fun i _ => rfl⟩
  | succ left ih =>
    rw [splitLoop]
    split
    · next h0 =>
      subst h0
      exact ⟨.refl m, rfl, fun i hi => absurd hi (not_above_zero i), fun i _ => rfl⟩
    · next h0 =>
      have hpos := Nat.pos_of_ne_zero h0
      have hlt : parent x < x := parent_lt hpos
      obtain ⟨hs, hu, habove, hother⟩ :=
        ih (x := parent x) (by omega) (m.setNode (parent x) SPLIT)
      refine ⟨(setNode_shape ..).trans hs, hu, fun i hi => ?_, fun i hi => ?_⟩
      · rcases (above_iff hpos).mp hi with rfl | hi
        · apply (hother _ fun h => absurd h.lt (Nat.lt_irrefl _)).trans
          exact setNode_same ..
        · exact habove i hi
      · rw [above_iff hpos, not_or] at hi
        exact (hother i hi.2).trans (setNode_ne m SPLIT hi.1)

/-- What `mm_alloc` writes for the node `x`. -/
structure Taken (m m' : Manager) (x : Nat) : Prop where
  shape : SameShape m m'
  node : m'.tree x = USED
  above : ∀ i, Above i x → m'.tree i = SPLIT
  other : ∀ i, i ≠ x → ¬ Above i x → m'.tree i = m.tree i

theorem taken_spec {m : Manager} {x : Nat} (hx : x < m.totalNodes) :
    Taken m (setSplitedChildren x (splitTree x m)) x ∧
      (setSplitedChildren x (splitTree x m)).used = m.used := by
  obtain ⟨hs, hu, habove, hother⟩ := splitLoop_spec (Nat.le_refl x) m
  have hset : setSplitedChildren x (splitTree x m) = (splitTree x m).setNode x USED :=
    if_pos (hs.totalNodes ▸ hx)
  rw [hset]
  refine ⟨⟨hs.trans (setNode_shape ..), setNode_same .., fun i hi => ?_, fun i hne hi => ?_⟩, hu⟩
  · exact (setNode_ne _ _ (Nat.ne_of_lt hi.lt)).trans (habove i hi)
  · exact (setNode_ne _ _ hne).trans (hother i hi)

theorem tidy_taken {m m' : Manager} {x : Nat} (ht : Tidy m) (hx : x < m.totalNodes)
    (ho : Offered m x) (h : Taken m m' x) : Tidy m' := by
  have hnodes := h.shape.totalNodes
  -- a node that was not `FREE` is not `FREE` now
  have hkeep : ∀ i, m.tree i ≠ FREE → m'.tree i ≠ FREE := by
    intro i hi
    by_cases hix : i = x
    · rw [hix, h.node]
      decide
    · by_cases ha : Above i x
      · rw [h.above i ha]
        decide
      · rwa [h.other i hix ha]
  refine ⟨hnodes ▸ ht.nodes, fun i hi => ?_, fun i hi hpos hp => ?_, fun i hi hsplit => ?_⟩
  · rw [hnodes] at hi
    by_cases hix : i = x
    · exact .inr (.inl (hix ▸ h.node))
    · by_cases ha : Above i x
      · exact .inr (.inr (h.above i ha))
      · rw [h.other i hix ha]
        exact ht.known i hi
  · rw [hnodes] at hi
    have hpx : ¬ Above (parent i) x := fun ha => hp (h.above _ ha)
    have hix : i ≠ x := fun he => hpx (he ▸ .base hpos)
    have hia : ¬ Above i x := fun ha => hpx ((Above.base hpos).trans ha)
    rw [h.other i hix hia]
    apply ht.below i hi hpos
    by_cases he : parent i = x
    · rw [he, ho.1]
      decide
    · rwa [h.other _ he hpx] at hp
  · rw [hnodes] at hi ⊢
    by_cases ha : Above i x
    · obtain ⟨height, hheight⟩ := ht.nodes
      obtain ⟨c, hpos, hci, hcx⟩ := ha.child
      have hc : m'.tree c ≠ FREE := by
        rcases hcx with rfl | hcx
        · rw [h.node]
          decide
        · rw [h.above c hcx]
          decide
      have hclt : c < m.totalNodes := by
        rcases hcx with rfl | hcx
        · exact hx
        · exact hcx.lt.trans hx
      refine ⟨hci ▸ child_lt hheight hpos hclt, ?_⟩
      rcases child_cases hpos with he | he
      · exact .inl (by rw [← hci, ← he]; exact hc)
      · exact .inr (by rw [← hci, ← he]; exact hc)
    · have hix : i ≠ x := by
        rintro rfl
        rw [h.node] at hsplit
        exact absurd hsplit (by decide)
      rw [h.other i hix ha] at hsplit
      obtain ⟨hr, hc⟩ := ht.split i hi hsplit
      exact ⟨hr, hc.imp (hkeep _) (hkeep _)⟩

/-- The nodes that `mm_alloc` writes were not `USED`. -/
theorem used_taken {m m' : Manager} {x : Nat} (ho : Offered m x) (h : Taken m m' x) (i : Nat) :
    m'.tree i = USED ↔ i = x ∨ m.tree i = USED := by
  by_cases hix : i = x
  · exact iff_of_true (hix ▸ h.node) (.inl hix)
  · by_cases ha : Above i x
    · rw [h.above i ha]
      rcases ho.2 i ha with hs | hf
      · rw [hs]
        simp [hix]
      · rw [hf]
        simp [hix, FREE, SPLIT, USED]
    · rw [h.other i hix ha]
      simp [hix]

/-! ## Giving a node back -/

/-- Tidy but for the parent of the `FREE` node `x`, which is `SPLIT`. -/
structure Loose (m : Manager) (x : Nat) : Prop where
  nodes : ∃ height, m.totalNodes = 2 ^ height - 1
  node : x < m.totalNodes ∧ m.tree x = FREE
  known : ∀ i < m.totalNodes, m.tree i = FREE ∨ m.tree i = USED ∨ m.tree i = SPLIT
  below : ∀ i < m.totalNodes, 0 < i → m.tree (parent i) ≠ SPLIT → m.tree i = FREE
  split : ∀ i < m.totalNodes, m.tree i = SPLIT → (0 < x → i ≠ parent x) →
    right i < m.totalNodes ∧ (m.tree (left i) ≠ FREE ∨ m.tree (right i) ≠ FREE)
  top : 0 < x → m.tree (parent x) = SPLIT

/-- A `FREE` node stays `FREE` when another one becomes `FREE`. -/
theorem free_setNode {m : Manager} {x i : Nat} (h : m.tree i = FREE) :
    (m.setNode x FREE).tree i = FREE := by
  by_cases hix : i = x
  · rw [hix, setNode_same]
  · rwa [setNode_ne m _ hix]

theorem known_setNode {m : Manager} {x i : Nat}
    (h : m.tree i = FREE ∨ m.tree i = USED ∨ m.tree i = SPLIT) :
    (m.setNode x FREE).tree i = FREE ∨ (m.setNode x FREE).tree i = USED ∨
      (m.setNode x FREE).tree i = SPLIT := by
  by_cases hix : i = x
  · exact .inl (by rw [hix, setNode_same])
  · rwa [setNode_ne m _ hix]

/-- What is `SPLIT` behind the write is another node, and was so before it. -/
theorem split_setNode {m : Manager} {x i : Nat} (h : (m.setNode x FREE).tree i = SPLIT) :
    i ≠ x ∧ m.tree i = SPLIT := by
  have hix : i ≠ x := by
    rintro rfl
    rw [setNode_same] at h
    exact absurd h (by decide)
  rw [setNode_ne m _ hix] at h
  exact ⟨hix, h⟩

/-- A node that is not the parent of `x` keeps its children. -/
theorem children_setNode {m : Manager} {x i : Nat} (hne : 0 < x → i ≠ parent x)
    (h : m.tree (left i) ≠ FREE ∨ m.tree (right i) ≠ FREE) :
    (m.setNode x FREE).tree (left i) ≠ FREE ∨ (m.setNode x FREE).tree (right i) ≠ FREE := by
  have hchild : ∀ c, 0 < c → parent c = i → m.tree c ≠ FREE →
      (m.setNode x FREE).tree c ≠ FREE := by
    intro c hpos hci hc
    have hcx : c ≠ x := by
      rintro rfl
      exact hne hpos hci.symm
    rwa [setNode_ne m _ hcx]
  exact h.imp (hchild _ (left_pos i) (parent_left i)) (hchild _ (right_pos i) (parent_right i))

theorem loose_freed {m : Manager} {x : Nat} (ht : Tidy m) (hx : x < m.totalNodes)
    (hu : m.tree x = USED) : Loose (m.setNode x FREE) x := by
  refine ⟨ht.nodes, ⟨hx, setNode_same ..⟩, fun i hi => known_setNode (ht.known i hi),
    fun i hi hpos hp => ?_, fun i hi hs hne => ?_, fun hpos => ?_⟩
  · refine free_setNode (ht.below i hi hpos ?_)
    by_cases he : parent i = x
    · rw [he, hu]
      decide
    · rwa [setNode_ne m _ he] at hp
  · obtain ⟨hr, hc⟩ := ht.split i hi (split_setNode hs).2
    exact ⟨hr, children_setNode hne hc⟩
  · rw [setNode_ne m _ (Nat.ne_of_lt (parent_lt hpos))]
    exact ht.split_above (.base hpos) hx (by rw [hu]; decide)

theorem Loose.tidy {m : Manager} {x : Nat} (h : Loose m x)
    (hx : 0 < x → right (parent x) < m.totalNodes ∧
      (m.tree (left (parent x)) ≠ FREE ∨ m.tree (right (parent x)) ≠ FREE)) :
    Tidy m := by
  refine ⟨h.nodes, h.known, h.below, fun i hi hs => ?_⟩
  by_cases hpos : 0 < x
  · by_cases hix : i = parent x
    · exact hix ▸ hx hpos
    · exact h.split i hi hs fun _ => hix
  · exact h.split i hi hs fun hpos' => absurd hpos' hpos

/-- Two `FREE` brothers: the parent becomes `FREE`, and the loose end moves up. -/
theorem Loose.up {m : Manager} {x : Nat} (h : Loose m x) (hpos : 0 < x)
    (hl : m.tree (left (parent x)) = FREE)
    (hr : m.tree (right (parent x)) = FREE) :
    Loose (m.setNode (parent x) FREE) (parent x) := by
  have hlt : parent x < m.totalNodes := (parent_lt hpos).trans h.node.1
  refine ⟨h.nodes, ⟨hlt, setNode_same ..⟩, fun i hi => known_setNode (h.known i hi),
    fun i hi hipos hp => free_setNode ?_, fun i hi hs hne => ?_, fun hppos => ?_⟩
  · by_cases he : parent i = parent x
    · rcases child_cases hipos with hc | hc
      · rw [hc, he]
        exact hl
      · rw [hc, he]
        exact hr
    · rw [setNode_ne m _ he] at hp
      exact h.below i hi hipos hp
  · obtain ⟨hix, hsplit⟩ := split_setNode hs
    obtain ⟨hright, hc⟩ := h.split i hi hsplit fun _ => hix
    exact ⟨hright, children_setNode hne hc⟩
  · rw [setNode_ne m _ (Nat.ne_of_lt (parent_lt hppos))]
    by_contra hn
    have := h.below _ hlt hppos hn
    rw [h.top hpos] at this
    exact absurd this (by decide)

/-- The other child of the parent. -/
theorem buddy_cases {node : Nat} (hpos : 0 < node) :
    (node = left (parent node) ∧
        (if node % 2 = 0 then node - 1 else node + 1) = right (parent node)) ∨
      (node = right (parent node) ∧
        (if node % 2 = 0 then node - 1 else node + 1) = left (parent node)) := by
  unfold left right parent
  split <;> omega

theorem mergeLoop_spec {left x : Nat} (hle : x ≤ left) {m : Manager} (h : Loose m x) :
    Tidy (mergeLoop left x m) ∧ SameShape m (mergeLoop left x m) ∧
      (mergeLoop left x m).used = m.used ∧
      ∀ i, (mergeLoop left x m).tree i = USED ↔ m.tree i = USED := by
  induction left generalizing x m with
  | zero =>
    obtain rfl : x = 0 := Nat.le_zero.mp hle
    exact ⟨h.tidy fun hpos => absurd hpos (Nat.lt_irrefl 0), .refl m, rfl, fun i => Iff.rfl⟩
  | succ left ih =>
    rw [mergeLoop]
    by_cases h0 : x = 0
    · rw [if_pos h0]
      exact ⟨h.tidy fun hpos => absurd h0 (Nat.ne_of_gt hpos), .refl m, rfl, fun i => Iff.rfl⟩
    rw [if_neg h0]
    have hpos := Nat.pos_of_ne_zero h0
    obtain ⟨height, hheight⟩ := h.nodes
    have hright := child_lt hheight hpos h.node.1
    have hleft : level_tree.left (parent x) < m.totalNodes :=
      (Nat.lt_succ_self _).trans hright
    have hbuddy := buddy_cases hpos
    dsimp only
    generalize (if x % 2 = 0 then x - 1 else x + 1) = buddy at hbuddy ⊢
    by_cases hfree : m.tree buddy = FREE
    · have hlr : m.tree (level_tree.left (parent x)) = FREE ∧
          m.tree (right (parent x)) = FREE := by
        rcases hbuddy with ⟨hn, hb⟩ | ⟨hn, hb⟩
        · exact ⟨hn ▸ h.node.2, hb ▸ hfree⟩
        · exact ⟨hb ▸ hfree, hn ▸ h.node.2⟩
      have hlt : buddy < m.totalNodes := by
        rcases hbuddy with ⟨-, rfl⟩ | ⟨-, rfl⟩
        · exact hright
        · exact hleft
      have hplt : (x - 1) / 2 < m.totalNodes := (parent_lt hpos).trans h.node.1
      rw [if_pos ⟨hlt, hfree, h.node.2⟩, if_pos ⟨hplt, h.top hpos⟩]
      obtain ⟨ht, hs, hu, hused⟩ := ih (x := parent x)
        (by have := parent_lt hpos; omega) (h.up hpos hlr.1 hlr.2)
      refine ⟨ht, (setNode_shape ..).trans hs, hu, fun i => (hused i).trans ?_⟩
      by_cases hip : i = parent x
      · rw [hip, setNode_same, h.top hpos]
        decide
      · rw [setNode_ne m _ hip]
    · rw [if_neg fun hc => hfree hc.2.1]
      refine ⟨h.tidy fun _ => ⟨hright, ?_⟩, .refl m, rfl, fun i => Iff.rfl⟩
      rcases hbuddy with ⟨-, rfl⟩ | ⟨-, rfl⟩
      · exact .inr hfree
      · exact .inl hfree

/-- What `mm_free` does to the states, once it has found a `USED` node. -/
theorem freed_spec {m : Manager} {x : Nat} (ht : Tidy m) (hx : x < m.totalNodes)
    (hu : m.tree x = USED) :
    Tidy (setMerge x (m.setNode x FREE)) ∧ SameShape m (setMerge x (m.setNode x FREE)) ∧
      (setMerge x (m.setNode x FREE)).used = m.used ∧
      ∀ i, (setMerge x (m.setNode x FREE)).tree i = USED ↔ m.tree i = USED ∧ i ≠ x := by
  obtain ⟨htidy, hs, hused, hiff⟩ := mergeLoop_spec (Nat.le_refl x) (loose_freed ht hx hu)
  refine ⟨htidy, (setNode_shape ..).trans hs, hused, fun i => (hiff i).trans ?_⟩
  by_cases hix : i = x
  · rw [hix, setNode_same]
    simp [FREE, USED]
  · rw [setNode_ne m _ hix]
    simp [hix]

end bare_bones.buddy_heap
