-- `findFreeNode` with the arguments that the code passes: the two levels as bytes, and the
-- node as a `uint64_t`. From the root it reads nodes of the tree only, and it finds the
-- leftmost node of the level that is free and not under a block.
import BareBones.BuddyIndexes

namespace bare_bones.buddy_heap

open bare_bones level_tree runs

/-- The result and the nodes that were read, in their order. The fuel bounds the depth of
the recursion. -/
def findFreeNode_traced (m : Manager) (targetLevel : UInt8) :
    Nat → Nat → UInt8 → Option (Option Nat × List Nat)
  | 0, _, _ => none
  | fuel + 1, node, level =>
    if level = targetLevel then
      some (if m.tree node = FREE then some node else none, [node])
    else if m.tree node ≠ SPLIT ∧ m.tree node ≠ FREE then some (none, [node])
    else
      match findFreeNode_traced m targetLevel fuel ((node * 2 + 1) % 2 ^ 64) (level + 1) with
      | none => none
      | some (some left, seen) => some (some left, node :: seen)
      | some (none, seen) =>
        (findFreeNode_traced m targetLevel fuel ((node * 2 + 2) % 2 ^ 64) (level + 1)).map
          fun (right, more) => (right, node :: (seen ++ more))

/-- The node is free, and no block lies above it. -/
def Available (m : Manager) (i : Nat) : Prop :=
  m.tree i = FREE ∧ ∀ a, Above a i → m.tree a ≠ USED

/-! ## The search and its recursion on the levels that are left -/

/-- The search below a node of the tree ends, and stays in the tree. -/
theorem findFreeNode_traced_eq {m : Manager} (hm : Shaped m) {targetLevel : UInt8}
    (ht : targetLevel.toNat ≤ m.maxExp - MIN_EXP) {steps d k : Nat}
    (hd : d + steps = targetLevel.toNat) (hk : k < 2 ^ d) :
    ∃ seen, (∀ i ∈ seen, i < m.totalNodes) ∧ ∀ fuel, steps < fuel →
      findFreeNode_traced m targetLevel fuel (index d k) (UInt8.ofNat d) =
        some (findFreeNode m steps (index d k), seen) := by
  have hmost := hm.most
  have hleast := hm.least
  unfold MIN_EXP MAX_EXP at *
  have hin : ∀ {d k}, d ≤ targetLevel.toNat → k < 2 ^ d → index d k < m.totalNodes := by
    intro d k hd hk
    rw [hm.nodes]
    exact index_lt (by omega) hk
  have hword : m.totalNodes < 2 ^ 64 := by
    have := Nat.pow_le_pow_right (by decide : 0 < 2) (show m.maxExp - 3 ≤ 63 by omega)
    rw [hm.nodes]
    omega
  induction steps generalizing d k with
  | zero =>
    obtain rfl : d = targetLevel.toNat := hd
    refine ⟨[index targetLevel.toNat k], by simpa using hin (Nat.le_refl _) hk, fun fuel hf => ?_⟩
    obtain ⟨fuel, rfl⟩ := Nat.exists_eq_succ_of_ne_zero (Nat.ne_of_gt hf)
    rw [UInt8.ofNat_toNat, findFreeNode_traced, if_pos rfl, findFreeNode]
  | succ steps ih =>
    have hpow := Nat.pow_succ 2 d
    have hlevel : UInt8.ofNat d ≠ targetLevel := by
      intro h
      have hnat := congrArg UInt8.toNat h
      rw [UInt8.toNat_ofNat'] at hnat
      omega
    have hnext : UInt8.ofNat d + 1 = UInt8.ofNat (d + 1) := by
      rw [UInt8.ofNat_add]
      rfl
    have hl : (index d k * 2 + 1) % 2 ^ 64 = index (d + 1) (2 * k) := by
      have hlt := hin (d := d + 1) (k := 2 * k) (by omega) (by omega)
      rw [← left_index, left] at hlt ⊢
      rw [Nat.mul_comm (index d k), Nat.mod_eq_of_lt (hlt.trans hword)]
    have hr : (index d k * 2 + 2) % 2 ^ 64 = index (d + 1) (2 * k + 1) := by
      have hlt := hin (d := d + 1) (k := 2 * k + 1) (by omega) (by omega)
      rw [← right_index, right] at hlt ⊢
      rw [Nat.mul_comm (index d k), Nat.mod_eq_of_lt (hlt.trans hword)]
    obtain ⟨seen, hseen, hleft⟩ := ih (d := d + 1) (k := 2 * k) (by omega) (by omega)
    obtain ⟨more, hmore, hright⟩ := ih (d := d + 1) (k := 2 * k + 1) (by omega) (by omega)
    have hnode := hin (d := d) (k := k) (by omega) hk
    rw [findFreeNode_succ]
    by_cases hstate : m.tree (index d k) ≠ SPLIT ∧ m.tree (index d k) ≠ FREE
    · refine ⟨[index d k], by simpa using hnode, fun fuel hf => ?_⟩
      obtain ⟨fuel, rfl⟩ := Nat.exists_eq_succ_of_ne_zero (Nat.ne_of_gt (Nat.zero_lt_of_lt hf))
      rw [findFreeNode_traced, if_neg hlevel, if_pos hstate, if_pos hstate]
    rw [if_neg hstate]
    cases hfound : findFreeNode m steps (index (d + 1) (2 * k)) with
    | some found =>
      refine ⟨index d k :: seen, by simpa using ⟨hnode, hseen⟩, fun fuel hf => ?_⟩
      obtain ⟨fuel, rfl⟩ := Nat.exists_eq_succ_of_ne_zero (Nat.ne_of_gt (Nat.zero_lt_of_lt hf))
      rw [findFreeNode_traced, if_neg hlevel, if_neg hstate, hl, hnext, hleft fuel (by omega),
        hfound]
    | none =>
      refine ⟨index d k :: (seen ++ more), fun i hi => ?_, fun fuel hf => ?_⟩
      · rcases List.mem_cons.mp hi with rfl | hi
        · exact hnode
        · exact (List.mem_append.mp hi).elim (hseen i) (hmore i)
      · obtain ⟨fuel, rfl⟩ := Nat.exists_eq_succ_of_ne_zero (Nat.ne_of_gt (Nat.zero_lt_of_lt hf))
        rw [findFreeNode_traced, if_neg hlevel, if_neg hstate, hl, hr, hnext,
          hleft fuel (by omega), hfound]
        dsimp only
        rw [hright fuel (by omega)]
        rfl

/-- In a tree that is well-formed a node is in one of the three states. -/
theorem WellFormed.known {m : Manager} (h : WellFormed m) {i : Nat} (hi : i < m.totalNodes) :
    m.tree i = FREE ∨ m.tree i = USED ∨ m.tree i = SPLIT := by
  by_cases hu : m.tree i = USED
  · exact .inr (.inl hu)
  by_cases hb : ∃ j < m.totalNodes, Above i j ∧ m.tree j = USED
  · obtain ⟨j, hj, ha, hju⟩ := hb
    exact .inr (.inr (h.split i j hj hju ha))
  · exact .inl (h.free i hi hu fun j hj ha hju => hb ⟨j, hj, ha, hju⟩)

/-- What a search can reach and take is what is available. -/
theorem offered_iff {m : Manager} (h : WellFormed m) {i : Nat} (hi : i < m.totalNodes) :
    Offered m i ↔ Available m i := by
  refine and_congr_right fun _ => forall₂_congr fun a ha => ?_
  have hknown := h.known (ha.lt.trans hi)
  constructor
  · rintro (hs | hf)
    · rw [hs]
      decide
    · rw [hf]
      decide
  · exact fun hu => hknown.elim .inr fun hk => hk.elim (absurd · hu) .inl

/-- The search from the root for a node of a level. -/
structure Finds (m : Manager) (level : UInt8) (result : Option Nat) (seen : List Nat) : Prop where
  ends : ∀ fuel, level.toNat < fuel → findFreeNode_traced m level fuel 0 0 = some (result, seen)
  inside : ∀ i ∈ seen, i < m.totalNodes
  /-- It is the search of `mm_alloc`. -/
  chosen : findFreeNode m level.toNat 0 = result
  complete : result = none ↔ ∀ k < 2 ^ level.toNat, ¬ Available m (index level.toNat k)
  leftmost : ∀ x ∈ result, ∃ k < 2 ^ level.toNat, x = index level.toNat k ∧ Available m x ∧
    ∀ k' < k, ¬ Available m (index level.toNat k')

theorem findFreeNode_is_complete_and_leftmost {m : Manager} (hw : WellFormed m) (hm : Shaped m)
    {level : UInt8} (hlevel : level.toNat ≤ m.maxExp - MIN_EXP) :
    ∃ result seen, Finds m level result seen := by
  have hoffered : ∀ k < 2 ^ level.toNat,
      (Offered m (index level.toNat k) ↔ Available m (index level.toNat k)) := by
    intro k hk
    have hleast := hm.least
    have hlt : index level.toNat k < m.totalNodes := by
      unfold MIN_EXP at hlevel hleast
      rw [hm.nodes]
      exact index_lt (by omega) hk
    exact offered_iff hw hlt
  obtain ⟨seen, hseen, hends⟩ :=
    findFreeNode_traced_eq hm hlevel (d := 0) (k := 0) (Nat.zero_add level.toNat) (by decide)
  rw [index_zero] at hends
  have hroot := @findFreeNode_root m level.toNat
  have hnone := @findFreeNode_root_none m level.toNat
  generalize hchosen : findFreeNode m level.toNat 0 = result at hends hroot hnone
  refine ⟨result, seen, hends, hseen, hchosen, ⟨fun h k hk hav => ?_, fun h => ?_⟩, fun x hx => ?_⟩
  · exact hnone h hk ((hoffered k hk).mpr hav)
  · cases result with
    | none => rfl
    | some x =>
      obtain ⟨k, hk, rfl, hoff, -⟩ := hroot rfl
      exact absurd ((hoffered k hk).mp hoff) (h k hk)
  · obtain ⟨k, hk, rfl, hoff, hfirst⟩ := hroot hx
    exact ⟨k, hk, rfl, (hoffered k hk).mp hoff,
      fun k' hk' hav => hfirst k' hk' ((hoffered k' (hk'.trans hk)).mpr hav)⟩

/-- In a tree of 64 bytes with a block of 16 on the left and one of 32 on the right, the search
for 16 bytes goes down on the left and takes the brother of the first block. -/
theorem findFreeNode_finds_the_brother :
    ∃ seen, Finds (run exec (heapOver 127 (by decide) (by decide))
      [.mm_alloc 16, .mm_alloc 20]).manager 2 (some 4) seen := by
  have hsound := (mm_create_spec (heapOver_created 127 (by decide) (by decide))).1
  have hfits : Meets exec Fits (heapOver 127 (by decide) (by decide))
      [.mm_alloc 16, .mm_alloc 20] := by decide +kernel
  have hrun := (sound_run hsound hfits).1
  have hlevel : (2 : UInt8).toNat ≤ (run exec (heapOver 127 (by decide) (by decide))
      [.mm_alloc 16, .mm_alloc 20]).manager.maxExp - MIN_EXP := by decide +kernel
  obtain ⟨result, seen, h⟩ :=
    findFreeNode_is_complete_and_leftmost hrun.tidy.wellFormed hrun.shaped hlevel
  have hchosen : result = some 4 := h.chosen.symm.trans (by decide +kernel)
  exact ⟨seen, hchosen ▸ h⟩

end bare_bones.buddy_heap
