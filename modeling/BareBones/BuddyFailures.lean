-- What `buddy.c` leaves behind when a call fails: `mm_free` of a pointer that is no
-- live block, and `mm_alloc` that returns `NULL`. In any state of the tree, also one
-- that stray frees and stores have spoilt.
import BareBones.BuddyAccounting

namespace bare_bones.buddy_heap

open bare_bones level_tree runs

/-! ## What no write changes -/

theorem mergeLoop_shape (left node : Nat) (m : Manager) :
    SameShape m (mergeLoop left node m) ∧ (mergeLoop left node m).used = m.used := by
  induction left generalizing node m with
  | zero => exact ⟨.refl m, rfl⟩
  | succ left ih =>
    rw [mergeLoop]
    dsimp only
    generalize (if node % 2 = 0 then node - 1 else node + 1) = buddy
    split_ifs
    · exact ⟨.refl m, rfl⟩
    · obtain ⟨hs, hu⟩ := ih ((node - 1) / 2) (m.setNode ((node - 1) / 2) FREE)
      exact ⟨(setNode_shape ..).trans hs, hu⟩
    · exact ⟨.refl m, rfl⟩
    · exact ⟨.refl m, rfl⟩

/-- `mm_free` gives up, or it takes the bytes of a node off the count. -/
theorem mm_free_cases {m : Manager} {ptr : Addr} (hptr : ptr ≠ 0) :
    (getNodeIndex m ptr (getExponentPtr m ptr) 0 = none ∧ mm_free ptr m = m) ∨
      ∃ nodo exponent, getNodeIndex m ptr (getExponentPtr m ptr) 0 = some (nodo, exponent) ∧
        SameShape m (mm_free ptr m) ∧ (mm_free ptr m).used = sub64 m.used (2 ^ exponent) := by
  unfold mm_free
  rw [if_neg hptr]
  cases hnode : getNodeIndex m ptr (getExponentPtr m ptr) 0 with
  | none => exact .inl ⟨rfl, rfl⟩
  | some found =>
    obtain ⟨nodo, exponent⟩ := found
    obtain ⟨hs, hu⟩ := mergeLoop_shape nodo nodo (m.setNode nodo FREE)
    refine .inr ⟨nodo, exponent, rfl, ?_, congrArg (sub64 · _) hu⟩
    have hs := (setNode_shape m nodo FREE).trans hs
    exact ⟨hs.1, hs.2, hs.3, hs.4⟩

theorem mm_free_shape (ptr : Addr) (m : Manager) : SameShape m (mm_free ptr m) := by
  by_cases hptr : ptr = 0
  · rw [mm_free, if_pos hptr]
    exact .refl m
  · rcases mm_free_cases (m := m) hptr with ⟨-, he⟩ | ⟨-, -, -, hs, -⟩
    · rw [he]
      exact .refl m
    · exact hs

theorem mm_alloc_shape (bytes : Nat) (m : Manager) : SameShape m (mm_alloc bytes m).2 := by
  unfold mm_alloc
  split
  · exact .refl m
  dsimp only
  split
  · exact .refl m
  · rename_i nodo _
    have hs : SameShape m (setSplitedChildren nodo (splitTree nodo m)) := by
      have hsplit := (splitLoop_spec (Nat.le_refl nodo) m).1
      unfold setSplitedChildren
      split
      · exact hsplit.trans (setNode_shape ..)
      · exact hsplit
    split <;> exact ⟨hs.1, hs.2, hs.3, hs.4⟩

/-- What programs do: they call, with any pointer, and store bytes in the blocks. -/
inductive HeapUse
  | call (c : HeapCall)
  | store (i : Nat) (byte : UInt8)

/-- The bytes past the nodes are those of the blocks. -/
def useHeap (h : Heap) : HeapUse → Heap
  | .call c => exec h c
  | .store i byte =>
    if h.manager.totalNodes ≤ i then { h with manager := h.manager.setNode i byte } else h

theorem useHeap_shape (h : Heap) (u : HeapUse) : SameShape h.manager (useHeap h u).manager := by
  cases u with
  | call c =>
    cases c with
    | mm_alloc bytes =>
      rw [useHeap, exec_alloc_manager]
      exact mm_alloc_shape bytes h.manager
    | mm_free ptr => exact mm_free_shape ptr h.manager
  | store i byte =>
    by_cases hi : h.manager.totalNodes ≤ i
    · rw [useHeap, if_pos hi]
      exact setNode_shape ..
    · rw [useHeap, if_neg hi]
      exact .refl _

/-- In every run, whatever is freed and stored. -/
theorem shaped_run {r : Region} {bytes : Nat → UInt8} {m : Manager}
    (hm : mm_create r bytes = some m) (uses : List HeapUse) :
    Shaped (run useHeap ⟨m, []⟩ uses).manager :=
  run_keeps (I := fun h : Heap => Shaped h.manager) (fun h u hs => hs.of_shape (useHeap_shape h u))
    (mm_create_spec hm).1.shaped uses

/-! ## A stray free -/

/-- The free changes no state, no byte of a block and no count. -/
structure Ignores (m : Manager) (ptr : Addr) : Prop where
  states : ∀ i < m.totalNodes, (mm_free ptr m).tree i = m.tree i
  outside : ∀ i, m.totalNodes ≤ i → (mm_free ptr m).tree i = m.tree i
  used : (mm_free ptr m).used = m.used

/-- At or past the end, at an even distance from the start, while the heap is not one
whole block. -/
def PastTheEnd (m : Manager) (ptr : Addr) : Prop :=
  m.treeStart ≤ ptr ∧ m.size ≤ ptr - m.treeStart ∧ 2 ∣ ptr - m.treeStart ∧ m.tree 0 ≠ USED

instance (m : Manager) (ptr : Addr) : Decidable (PastTheEnd m ptr) :=
  inferInstanceAs (Decidable (_ ∧ _ ∧ _ ∧ _))

theorem sub64_ne (a : Nat) {b : Nat} (hpos : 0 < b) (hb : b < 2 ^ 64) : sub64 a b ≠ a := by
  unfold sub64
  rw [Nat.mod_eq_of_lt hb]
  omega

theorem add64_ne (a : Nat) {b : Nat} (hpos : 0 < b) (hb : b < 2 ^ 64) : add64 a b ≠ a := by
  unfold add64
  omega

theorem exponentFrom_dvd (address bound : Nat) : 2 ^ exponentFrom address bound ∣ address := by
  induction bound with
  | zero => exact Nat.one_dvd address
  | succ bound ih =>
    rw [exponentFrom]
    split
    · exact ih
    · next h => exact Nat.dvd_of_mod_eq_zero (not_not.mp h)

theorem getExponentPtr_le (m : Manager) (ptr : Addr) : getExponentPtr m ptr ≤ m.maxExp := by
  unfold getExponentPtr
  split
  · exact Nat.zero_le _
  · exact exponentFrom_le _ _

/-- The exponent only falls on the way down. -/
theorem getNodeIndex_exponent_le {m : Manager} {ptr : Addr} {levelExponent node x e : Nat}
    (h : getNodeIndex m ptr levelExponent node = some (x, e)) : e ≤ levelExponent := by
  induction levelExponent generalizing node with
  | zero =>
    cases h
    exact Nat.le_refl 0
  | succ le ih =>
    rw [getNodeIndex] at h
    split_ifs at h
    · cases h
      exact Nat.le_refl _
    · exact (ih h).trans (Nat.le_succ le)

/-- The bounds are checked at the first turn of the loop or never. -/
theorem getNodeIndex_none_iff (m : Manager) (ptr : Addr) (levelExponent node : Nat) :
    getNodeIndex m ptr levelExponent node = none ↔
      0 < levelExponent ∧ m.tree node ≠ USED ∧
        (ptr < m.treeStart ∨ m.size ≤ ptr - m.treeStart) := by
  induction levelExponent generalizing node with
  | zero => simp [getNodeIndex]
  | succ le ih =>
    rw [getNodeIndex]
    split_ifs with hused hlow hhigh
    · simp [hused]
    · simp [hused, hlow]
    · simp [hused, hhigh]
    · rw [ih]
      simp [hlow, hhigh]

theorem ignores_iff {m : Manager} (hm : Shaped m) (ptr : Addr) :
    Ignores m ptr ↔ ptr = 0 ∨ PastTheEnd m ptr := by
  by_cases hptr : ptr = 0
  · have he : mm_free ptr m = m := if_pos hptr
    refine iff_of_true ⟨fun i _ => ?_, fun i _ => ?_, ?_⟩ (.inl hptr) <;> rw [he]
  have hleast := hm.least
  have hmost := hm.most
  unfold MIN_EXP at hleast
  unfold MAX_EXP at hmost
  have hgivesUp : getNodeIndex m ptr (getExponentPtr m ptr) 0 = none ↔ PastTheEnd m ptr := by
    rw [getNodeIndex_none_iff]
    unfold PastTheEnd getExponentPtr
    by_cases hlow : ptr < m.treeStart
    · simp [hlow]
    · have heven : 0 < exponentFrom (ptr - m.treeStart) m.maxExp ↔ 2 ∣ ptr - m.treeStart := by
        constructor
        · intro hpos
          exact (Nat.pow_dvd_pow 2 hpos).trans (exponentFrom_dvd _ _)
        · intro hdvd
          exact le_exponentFrom (by omega) hdvd
      rw [if_neg hlow, heven]
      constructor
      · rintro ⟨hd, hroot, hend⟩
        exact ⟨Nat.not_lt.mp hlow, hend.resolve_left hlow, hd, hroot⟩
      · rintro ⟨-, hend, hd, hroot⟩
        exact ⟨hd, hroot, .inr hend⟩
  rw [or_iff_right hptr, ← hgivesUp]
  rcases mm_free_cases (m := m) hptr with ⟨hnone, he⟩ | ⟨nodo, exponent, hsome, -, hu⟩
  · exact iff_of_true ⟨fun i _ => by rw [he], fun i _ => by rw [he], by rw [he]⟩ hnone
  · refine iff_of_false (fun hi => ?_) (by rw [hsome]; simp)
    have hle := (getNodeIndex_exponent_le hsome).trans (getExponentPtr_le m ptr)
    have hlt : 2 ^ exponent < 2 ^ 64 := Nat.pow_lt_pow_right (by decide) (by omega)
    exact sub64_ne m.used (two_pow_pos exponent) hlt (hu.symm.trans hi.used)

/-- In every state reached: `mm_free` ignores `NULL`, and else what lies past the end
at an even distance. Below the heap, inside a block or freed already, it takes a node
away. -/
theorem a_free_is_ignored_past_the_end_only {r : Region} {bytes : Nat → UInt8} {m : Manager}
    (hm : mm_create r bytes = some m) (uses : List HeapUse) (ptr : Addr) :
    Ignores (run useHeap ⟨m, []⟩ uses).manager ptr ↔
      ptr = 0 ∨ PastTheEnd (run useHeap ⟨m, []⟩ uses).manager ptr :=
  ignores_iff (shaped_run hm uses) ptr

/-- The heap of 45 bytes starts at 119 and ends at 164. -/
theorem a_free_past_the_end_is_ignored :
    Ignores (run useHeap (heapOver 100 (by decide) (by decide)) [.call (.mm_alloc 16)]).manager
      165 := by
  have hpast : PastTheEnd (run useHeap (heapOver 100 (by decide) (by decide))
      [.call (.mm_alloc 16)]).manager 165 := by decide +kernel
  exact (a_free_is_ignored_past_the_end_only (heapOver_created 100 (by decide) (by decide)) _
    165).mpr (.inr hpast)

/-- A heap of 72 bytes from 119 on, of which the first 16 are live. -/
def oneBlock : Heap := run useHeap (heapOver 127 (by decide) (by decide)) [.call (.mm_alloc 16)]

/-- The block came back, and byte 24 of the heap holds a 5. -/
def freedAndStored : Heap :=
  run useHeap (heapOver 127 (by decide) (by decide))
    [.call (.mm_alloc 16), .call (.mm_free 119), .store 31 5]

/-- A free of 120 inside the live block, of 1 below the heap or of 192 past its end takes
a node away, and so does a second free of 119. After that of 120 the live block is handed
out again; the second free of 119 writes into a block. -/
theorem a_stray_free_takes_a_node_away :
    (∀ ptr ∈ [120, 1, 192], (∀ a ∈ oneBlock.live, a.ptr ≠ ptr) ∧ ¬ Ignores oneBlock.manager ptr) ∧
      ((run useHeap oneBlock [.call (.mm_free 120), .call (.mm_alloc 40)]).live.map (·.ptr) =
        [119, 119]) ∧
      freedAndStored.live = [] ∧ ¬ Ignores freedAndStored.manager 119 ∧
      freedAndStored.manager.tree 31 = 5 ∧ (mm_free 119 freedAndStored.manager).tree 31 = 0 := by
  have hone : Shaped oneBlock.manager :=
    shaped_run (heapOver_created 127 (by decide) (by decide)) _
  have hfreed : Shaped freedAndStored.manager :=
    shaped_run (heapOver_created 127 (by decide) (by decide)) _
  have hstray : ∀ ptr ∈ [120, 1, 192], ¬ (ptr = 0 ∨ PastTheEnd oneBlock.manager ptr) := by
    decide +kernel
  have hagain : ¬ (119 = 0 ∨ PastTheEnd freedAndStored.manager 119) := by decide +kernel
  refine ⟨fun ptr hptr => ⟨?_, fun hi => ?_⟩, by decide +kernel, by decide +kernel, fun hi => ?_,
    by decide +kernel, by decide +kernel⟩
  · revert ptr
    decide +kernel
  · exact hstray ptr hptr ((ignores_iff hone ptr).mp hi)
  · exact hagain ((ignores_iff hfreed 119).mp hi)

/-! ## A failed request -/

/-- A request that gets `NULL` changes no state and no count. -/
structure FailsClean (m : Manager) (bytes : Nat) : Prop where
  states : (mm_alloc bytes m).1 = none → ∀ i, (mm_alloc bytes m).2.tree i = m.tree i
  used : (mm_alloc bytes m).1 = none → (mm_alloc bytes m).2.used = m.used

/-- When a node of the level is free to take, one that starts inside the heap is. -/
def StartClear (m : Manager) (bytes : Nat) : Prop :=
  (∃ k < 2 ^ levelFor m bytes, Offered m (index (levelFor m bytes) k)) →
    ∃ k < 2 ^ levelFor m bytes, k * 2 ^ getExponent bytes < m.size ∧
      Offered m (index (levelFor m bytes) k)

theorem failsClean_iff {m : Manager} (hm : Shaped m) {bytes : Nat}
    (hexp : Admitted m bytes → getExponent bytes ≤ m.maxExp) :
    FailsClean m bytes ↔ (Admitted m bytes → StartClear m bytes) := by
  rcases mm_alloc_spec hm hexp with ⟨hnull, hnone⟩ | ⟨had, k, m', hk, he⟩
  · refine iff_of_true ⟨fun _ i => by rw [hnull], fun _ => by rw [hnull]⟩ fun had => ?_
    rintro ⟨k, hk, hoffered⟩
    exact absurd hoffered (hnone had k hk)
  by_cases hpast : m.size ≤ k * 2 ^ getExponent bytes
  · rw [if_pos hpast] at he
    refine iff_of_false (fun hclean => ?_) fun hclear => ?_
    · have hu := hclean.used (congrArg Prod.fst he)
      have hle := (getExponent_spec (Nat.not_lt.mp fun hl => had (.inr (.inr hl)))).2.2
      have hlt : 2 ^ getExponent bytes < 2 ^ 64 := Nat.pow_lt_pow_right (by decide) (by omega)
      rw [he, hk.used] at hu
      exact add64_ne m.used (two_pow_pos _) hlt hu
    · obtain ⟨j, -, hstart, hoffered⟩ := hclear had ⟨k, hk.place, hk.offered⟩
      have hjk : j < k := Nat.lt_of_mul_lt_mul_right (hstart.trans_le hpast)
      exact hk.first j hjk hoffered
  · rw [if_neg hpast] at he
    have hsome : (mm_alloc bytes m).1 ≠ none := by simp [he]
    exact iff_of_true ⟨fun hn => absurd hn hsome, fun hn => absurd hn hsome⟩
      fun _ _ => ⟨k, hk.place, Nat.not_le.mp hpast, hk.offered⟩

/-- A request that has a level in the tree, and no block past the end to take. -/
def FailsInside (m : Manager) (bytes : Nat) : Prop :=
  Admitted m bytes → getExponent bytes ≤ m.maxExp ∧ StartClear m bytes

/-- Failed requests are clean; for those that have a level, only then. -/
structure CleanInside (m : Manager) : Prop where
  clean : ∀ bytes, FailsInside m bytes → FailsClean m bytes
  only : ∀ bytes, (Admitted m bytes → getExponent bytes ≤ m.maxExp) → FailsClean m bytes →
    FailsInside m bytes

/-- In every state reached. -/
theorem a_failed_request_is_clean_inside_the_heap {r : Region} {bytes : Nat → UInt8}
    {m : Manager} (hm : mm_create r bytes = some m) (uses : List HeapUse) :
    CleanInside (run useHeap ⟨m, []⟩ uses).manager := by
  have hs := shaped_run hm uses
  refine ⟨fun n hn => ?_, fun n hexp hclean had => ⟨hexp had, ?_⟩⟩
  · exact (failsClean_iff hs fun had => (hn had).1).mpr fun had => (hn had).2
  · exact (failsClean_iff hs hexp).mp hclean had

/-- A heap of 72 bytes over a tree of 64: no block lies past the end. -/
def fourBlocks : Manager :=
  (run useHeap (heapOver 127 (by decide) (by decide))
    (List.replicate 4 (.call (.mm_alloc 16)))).manager

/-- With its four blocks taken, a request for the 8 bytes that are not counted fails and is
clean. -/
theorem a_failed_request_on_a_full_tree_is_clean :
    (mm_alloc 8 fourBlocks).1 = none ∧ FailsClean fourBlocks 8 := by
  have hlevel : levelFor fourBlocks 8 = 2 := by decide +kernel
  have hexp : getExponent 8 = 4 := by decide
  have hsize : fourBlocks.size = 72 := by decide +kernel
  have hin : FailsInside fourBlocks 8 := by
    refine fun _ => ⟨by decide +kernel, ?_⟩
    rintro ⟨k, hk, hoffered⟩
    refine ⟨k, hk, ?_, hoffered⟩
    rw [hlevel] at hk
    rw [hexp, hsize]
    omega
  refine ⟨by decide +kernel, ?_⟩
  exact (a_failed_request_is_clean_inside_the_heap (heapOver_created 127 (by decide) (by decide))
    _).clean 8 hin

/-- A heap of 45 bytes whose three blocks are taken, the last one across its end. -/
def takenToTheEnd : Manager :=
  (run useHeap (heapOver 100 (by decide) (by decide))
    [.call (.mm_alloc 16), .call (.mm_alloc 16), .call (.mm_alloc 13)]).manager

/-- The request for a fourth block gets `NULL`, and yet node 6 is `USED` and 16 more bytes
are counted. -/
theorem a_failed_request_takes_a_node :
    (mm_alloc 16 takenToTheEnd).1 = none ∧ ¬ FailsClean takenToTheEnd 16 ∧
      takenToTheEnd.tree 6 = FREE ∧ (mm_alloc 16 takenToTheEnd).2.tree 6 = USED ∧
      (mm_alloc 16 takenToTheEnd).2.used = takenToTheEnd.used + 16 := by
  have hnull : (mm_alloc 16 takenToTheEnd).1 = none := by decide +kernel
  have hfree : takenToTheEnd.tree 6 = FREE := by decide +kernel
  have hused : (mm_alloc 16 takenToTheEnd).2.tree 6 = USED := by decide +kernel
  refine ⟨hnull, fun hclean => ?_, hfree, hused, by decide +kernel⟩
  have hnode := hclean.states hnull 6
  rw [hfree, hused] at hnode
  cases hnode

end bare_bones.buddy_heap
