-- Where the blocks of `buddy.c` end. The tree covers 2^maxExp bytes and the heap
-- is shorter, so on each level one block may lie across the end of the heap. A
-- block ends inside the heap unless it is the one that does.
import BareBones.BuddyAccounting

namespace bare_bones.buddy_heap

open bare_bones level_tree extents runs

/-- The block across the end is not the next to be taken: the heap ends where a
block of the level ends, or that block is not offered, or one before it is. -/
def EndClear (m : Manager) (bytes : Nat) : Prop :=
  ¬ 2 ^ getExponent bytes ∣ m.size →
    m.size / 2 ^ getExponent bytes < 2 ^ levelFor m bytes →
      Offered m (index (levelFor m bytes) (m.size / 2 ^ getExponent bytes)) →
        ∃ j < m.size / 2 ^ getExponent bytes, Offered m (index (levelFor m bytes) j)

/-- The calls that keep the blocks inside. -/
def KeepsInside (h : Heap) : HeapCall → Prop
  | .mm_alloc bytes => Admitted h.manager bytes →
      getExponent bytes ≤ h.manager.maxExp ∧ EndClear h.manager bytes
  | .mm_free ptr => ∃ a ∈ h.live, a.ptr = ptr

/-- A call that returns a block returns one inside the heap. -/
def ReturnsInside (h : Heap) : HeapCall → Prop
  | .mm_alloc bytes => ∀ ptr m, mm_alloc bytes h.manager = (some ptr, m) →
      h.manager.treeStart ≤ ptr ∧
        ptr + POW2 (getExponent bytes) ≤ h.manager.treeStart + h.manager.size
  | .mm_free _ => True

theorem KeepsInside.fits {h : Heap} {call : HeapCall} (hk : KeepsInside h call) : Fits h call := by
  cases call with
  | mm_alloc bytes => exact fun had => (hk had).1
  | mm_free ptr => exact hk

/-- The first offered block of a level ends inside the heap, or it is the one
across the end. -/
theorem ends_inside {size unit k : Nat} (hpos : 0 < unit) (hk : k * unit < size)
    (hclear : ¬ unit ∣ size → k ≠ size / unit) : (k + 1) * unit ≤ size := by
  have hle : k ≤ size / unit := (Nat.le_div_iff_mul_le hpos).mpr hk.le
  by_cases hdvd : unit ∣ size
  · obtain ⟨q, rfl⟩ := hdvd
    rw [Nat.mul_comm]
    exact Nat.mul_le_mul_left _ (Nat.lt_of_mul_lt_mul_right (Nat.mul_comm unit q ▸ hk))
  · have hlt : k + 1 ≤ size / unit := Nat.lt_of_le_of_ne hle (hclear hdvd)
    exact (Nat.mul_le_mul_right _ hlt).trans (Nat.div_mul_le_self size unit)

theorem returns_inside {h : Heap} (hi : Sound h) {call : HeapCall} (hk : KeepsInside h call) :
    ReturnsInside h call := by
  cases call with
  | mm_free ptr => trivial
  | mm_alloc bytes =>
    intro ptr m hm
    rcases mm_alloc_spec hi.shaped hk.fits with ⟨hnull, -⟩ | ⟨had, k, m', ht, hm'⟩
    · rw [hnull] at hm
      cases hm
    · rw [hm'] at hm
      by_cases hpast : h.manager.size ≤ k * 2 ^ getExponent bytes
      · rw [if_pos hpast] at hm
        cases hm
      · rw [if_neg hpast] at hm
        cases hm
        refine ⟨Nat.le_add_right _ _, ?_⟩
        have hend : (k + 1) * 2 ^ getExponent bytes ≤ h.manager.size := by
          apply ends_inside (two_pow_pos _) (Nat.not_le.mp hpast)
          intro hdvd hk'
          obtain ⟨j, hj, hoffered⟩ := (hk had).2 hdvd (hk' ▸ ht.place) (hk' ▸ ht.offered)
          exact ht.first j (hk' ▸ hj) hoffered
        rw [Nat.add_one_mul] at hend
        rw [POW2_eq, Nat.add_assoc]
        exact Nat.add_le_add_left hend _

/-- The condition is exact: where it fails, the call returns the block across the end. -/
theorem endClear_of_inside {h : Heap} (hi : Sound h) {bytes : Nat} (had : Admitted h.manager bytes)
    (hexp : getExponent bytes ≤ h.manager.maxExp) (hr : ReturnsInside h (.mm_alloc bytes)) :
    EndClear h.manager bytes := by
  intro hdvd hplace hoffered
  by_contra hno
  have hq : h.manager.size / 2 ^ getExponent bytes * 2 ^ getExponent bytes < h.manager.size := by
    refine Nat.lt_of_le_of_ne (Nat.div_mul_le_self _ _) fun he => hdvd ?_
    exact ⟨_, he.symm.trans (Nat.mul_comm _ _)⟩
  rcases mm_alloc_spec hi.shaped fun _ => hexp with ⟨-, hnone⟩ | ⟨-, k, m', ht, hm⟩
  · exact hnone had _ hplace hoffered
  · -- the first that is offered is the block across the end
    have hk : k = h.manager.size / 2 ^ getExponent bytes := by
      rcases Nat.lt_trichotomy k (h.manager.size / 2 ^ getExponent bytes) with hlt | he | hgt
      · exact absurd ⟨k, hlt, ht.offered⟩ hno
      · exact he
      · exact absurd hoffered (ht.first _ hgt)
    rw [hk, if_neg (Nat.not_le.mpr hq)] at hm
    have hend := (hr _ _ hm).2
    rw [Nat.add_assoc, Nat.add_le_add_iff_left, POW2_eq, ← Nat.succ_mul] at hend
    have hlt := Nat.lt_mul_div_succ h.manager.size (two_pow_pos (getExponent bytes))
    rw [Nat.mul_comm] at hlt
    exact absurd hlt (Nat.not_lt.mpr hend)

/-- As long as no call takes the block across the end. For the next request of at most the whole
tree the condition is exact. -/
theorem blocks_stay_inside_the_heap {r : Region} {bytes : Nat → UInt8} {m : Manager}
    (hm : mm_create r bytes = some m) {calls : List HeapCall}
    (hk : Meets exec KeepsInside ⟨m, []⟩ calls) :
    Meets exec ReturnsInside ⟨m, []⟩ calls ∧
      ∀ bytes, Admitted (run exec ⟨m, []⟩ calls).manager bytes →
        getExponent bytes ≤ (run exec ⟨m, []⟩ calls).manager.maxExp →
          (ReturnsInside (run exec ⟨m, []⟩ calls) (.mm_alloc bytes) ↔
            EndClear (run exec ⟨m, []⟩ calls).manager bytes) := by
  have hstep : ∀ h call, Sound h → KeepsInside h call → Sound (exec h call) :=
    fun _ _ hi hok => (sound_exec hi hok.fits).1
  have hstart : Sound ⟨m, []⟩ := (mm_create_spec hm).1
  refine ⟨run_steps hstep (fun _ _ hi hok => returns_inside hi hok) hstart hk, ?_⟩
  intro bytes had hexp
  have hi := run_invariant hstep hstart hk
  exact ⟨endClear_of_inside hi had hexp, fun hclear => returns_inside hi fun _ => ⟨hexp, hclear⟩⟩

/-- Three blocks of 16 bytes in a heap of 48. -/
theorem blocks_stay_inside_a_heap_of_whole_blocks :
    Meets exec ReturnsInside (heapOver 103 (by decide) (by decide))
      [.mm_alloc 16, .mm_alloc 16, .mm_free 119, .mm_alloc 9, .mm_alloc 16] := by
  have hk : Meets exec KeepsInside (heapOver 103 (by decide) (by decide))
      [.mm_alloc 16, .mm_alloc 16, .mm_free 119, .mm_alloc 9, .mm_alloc 16] := by
    refine ⟨fun _ => ⟨by decide +kernel, fun hn => absurd ?_ hn⟩,
      fun _ => ⟨by decide +kernel, fun hn => absurd ?_ hn⟩, ?_,
      fun _ => ⟨by decide +kernel, fun hn => absurd ?_ hn⟩,
      fun _ => ⟨by decide +kernel, fun hn => absurd ?_ hn⟩, trivial⟩
    · decide +kernel
    · decide +kernel
    · exact ⟨⟨119, 16, 3⟩, by decide +kernel, rfl⟩
    · decide +kernel
    · decide +kernel
  exact (blocks_stay_inside_the_heap (heapOver_created 103 (by decide) (by decide)) hk).1

/-- In a heap of 45 bytes the third block of 16 is returned, and ends at 48. -/
theorem a_block_ends_past_the_heap :
    ¬ ∀ (r : Region) (bytes : Nat → UInt8) (m : Manager), mm_create r bytes = some m →
      ∀ calls, Meets exec FreesLive ⟨m, []⟩ calls → Meets exec ReturnsInside ⟨m, []⟩ calls := by
  intro hall
  have h := hall _ _ _ (heapOver_created 100 (by decide) (by decide))
    [.mm_alloc 16, .mm_alloc 16, .mm_alloc 13] (by decide +kernel)
  have hlast := (h.2.2.1 151 _ (Prod.ext (by decide +kernel) rfl)).2
  exact absurd hlast (by decide +kernel)

end bare_bones.buddy_heap
