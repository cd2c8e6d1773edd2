-- The tree of `buddy.c` after any history of calls that frees live blocks only:
-- the `USED` nodes are an antichain, `SPLIT` is above them, all else is `FREE`.
import BareBones.BuddyHeap

namespace bare_bones.buddy_heap

open bare_bones level_tree extents runs

/-- What the states of the nodes say. -/
structure WellFormed (m : Manager) : Prop where
  antichain : ∀ i < m.totalNodes, ∀ j < m.totalNodes, m.tree i = USED → m.tree j = USED →
    ¬ Above i j
  split : ∀ i, ∀ j < m.totalNodes, m.tree j = USED → Above i j → m.tree i = SPLIT
  free : ∀ i < m.totalNodes, m.tree i ≠ USED →
    (∀ j < m.totalNodes, Above i j → m.tree j ≠ USED) → m.tree i = FREE

/-- What follows for the allocations that are live. -/
structure Safe (h : Heap) : Prop where
  apart : h.live.Pairwise fun a b => a.block.Apart b.block
  enough : ∀ a ∈ h.live, a.bytes ≤ a.block.len
  releases : ∀ a ∈ h.live, a.node < h.manager.totalNodes ∧
    ∀ i < h.manager.totalNodes, (mm_free a.ptr h.manager).tree i = USED ↔
      h.manager.tree i = USED ∧ i ≠ a.node
  held : ∀ a ∈ h.live, h.manager.tree a.node = USED
  merged : (∀ i < h.manager.totalNodes, h.manager.tree i ≠ USED) →
    ∀ i < h.manager.totalNodes, h.manager.tree i = FREE

theorem Tidy.wellFormed {m : Manager} (ht : Tidy m) : WellFormed m := by
  have hsplit : ∀ i, ∀ j < m.totalNodes, m.tree j = USED → Above i j → m.tree i = SPLIT :=
    fun i j hj hu ha => ht.split_above ha hj (by rw [hu]; decide)
  refine ⟨fun i _ j hj hi hu ha => ?_, hsplit, fun i hi hu hno => ?_⟩
  · have := hi.symm.trans (hsplit i j hj hu ha)
    exact absurd this (by decide)
  · rcases ht.known i hi with hf | hu' | hs
    · exact hf
    · exact absurd hu' hu
    · obtain ⟨j, hj, ha, hju⟩ := ht.used_below hi hs
      exact absurd hju (hno j hj ha)

/-- The block of an allocation is the span of its node. -/
theorem Placed.block_eq {m : Manager} {a : Allocation} (h : Placed m a) :
    ∃ k, k < 2 ^ levelFor m a.bytes ∧ a.node = index (levelFor m a.bytes) k ∧
      a.block = (span m.maxExp (levelFor m a.bytes) k).bytes m.treeStart 1 := by
  obtain ⟨k, hk, hb⟩ := h.block
  refine ⟨k, hb.place, hk, Extent.ext ?_ ?_⟩
  · rw [Allocation.block, Extent.bytes, span, Nat.mul_one]
    exact hb.ptr
  · rw [Allocation.block, Extent.bytes, span, Nat.mul_one, Nat.mul_one]
    exact congrArg (2 ^ ·) (levelFor_exponent h.exponent).symm

theorem Placed.apart {m : Manager} {a b : Allocation} (ha : Placed m a) (hb : Placed m b)
    (hne : a.node ≠ b.node) (hab : ¬ Above a.node b.node) (hba : ¬ Above b.node a.node) :
    a.block.Apart b.block := by
  obtain ⟨k, -, hk, hka⟩ := ha.block_eq
  obtain ⟨k', -, hk', hkb⟩ := hb.block_eq
  rw [hk, hk'] at hne hab hba
  rw [hka, hkb]
  refine Extent.Apart.bytes ?_ _ _
  have hle : ∀ bytes, levelFor m bytes ≤ m.maxExp := fun bytes => Nat.sub_le _ _
  rcases Nat.le_total (levelFor m a.bytes) (levelFor m b.bytes) with h | h
  · exact spans_apart h (hle _) hne hab
  · exact (spans_apart h (hle _) hne.symm hba).symm

theorem Placed.used {m : Manager} {a : Allocation} (h : Placed m a) : m.tree a.node = USED := by
  obtain ⟨k, hk, hb⟩ := h.block
  exact hk ▸ hb.used

theorem Sound.safe {h : Heap} (hi : Sound h) : Safe h := by
  have hw := hi.tidy.wellFormed
  have hlt : ∀ a ∈ h.live, a.node < h.manager.totalNodes :=
    fun a ha => (hi.placed a ha).node_lt hi.shaped
  refine ⟨?_, fun a ha => (getExponent_spec (hi.placed a ha).small).1, fun a ha => ?_,
    fun a ha => (hi.placed a ha).used, fun hno i hlt => ?_⟩
  · refine hi.distinct.imp_of_mem fun {a b} ha hb hne => ?_
    have hpa := hi.placed a ha
    have hpb := hi.placed b hb
    exact hpa.apart hpb hne (hw.antichain _ (hlt a ha) _ (hlt b hb) hpa.used hpb.used)
      (hw.antichain _ (hlt b hb) _ (hlt a ha) hpb.used hpa.used)
  · obtain ⟨-, -, -, hused⟩ := free_live hi ha
    exact ⟨hlt a ha, fun i _ => hused i⟩
  · exact hw.free i hlt (hno i hlt) fun j hj _ => hno j hj

/-- A tree of 2^17 bytes or more has a level for every request that is admitted. -/
theorem fits_of_large {h : Heap} (hlarge : 17 ≤ h.manager.maxExp) {call : HeapCall}
    (hf : FreesLive h call) : Fits h call := by
  cases call with
  | mm_free ptr => exact hf
  | mm_alloc bytes =>
    intro had
    have hsmall : bytes ≤ POW2 17 := Nat.not_lt.mp fun hl => had (.inr (.inr hl))
    exact (getExponent_spec hsmall).2.2.trans hlarge

/-- In the heap of the kernel, and in any whose tree has 2^17 bytes or more. -/
theorem the_tree_is_well_formed_after_every_call {r : Region} {bytes : Nat → UInt8} {m : Manager}
    (hm : mm_create r bytes = some m) (hlarge : r.totalSize = HEAP_SIZE ∨ 17 ≤ m.maxExp)
    {calls : List HeapCall} (hf : Meets exec FreesLive ⟨m, []⟩ calls) :
    WellFormed (run exec ⟨m, []⟩ calls).manager ∧ Safe (run exec ⟨m, []⟩ calls) := by
  obtain ⟨hsound, -, -, -, hmax⟩ := mm_create_spec hm
  have hlarge : 17 ≤ m.maxExp := by
    rcases hlarge with hsize | h
    · rw [hmax, hsize]
      decide
    · exact h
  have hrun : Sound (run exec ⟨m, []⟩ calls) ∧ 17 ≤ (run exec ⟨m, []⟩ calls).manager.maxExp := by
    refine run_invariant (I := fun h => Sound h ∧ 17 ≤ h.manager.maxExp)
      (fun h call hi hok => ?_) ⟨hsound, hlarge⟩ hf
    obtain ⟨hs, hshape⟩ := sound_exec hi.1 (fits_of_large hi.2 hok)
    exact ⟨hs, hshape.maxExp ▸ hi.2⟩
  exact ⟨hrun.1.tidy.wellFormed, hrun.1.safe⟩

/-- A heap over 2^18 bytes. -/
def exampleHeap : Heap :=
  ⟨(mm_create ⟨64, 2 ^ 18, by decide⟩ fun _ => 0).get (by decide +kernel), []⟩

/-- Three blocks of which the second and then the first come back. -/
theorem the_tree_is_well_formed_when_blocks_merge :
    WellFormed (run exec exampleHeap
      [.mm_alloc 20, .mm_alloc 16, .mm_alloc 100, .mm_free 32911, .mm_free 32879]).manager := by
  have hm : mm_create ⟨64, 2 ^ 18, by decide⟩ (fun _ => 0) = some exampleHeap.manager :=
    (Option.some_get (by decide +kernel)).symm
  exact (the_tree_is_well_formed_after_every_call hm (.inr (by decide +kernel))
    (by decide +kernel)).1

end bare_bones.buddy_heap
