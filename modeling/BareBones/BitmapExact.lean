-- What one call of `bitmap.c` does, cell by cell: `mm_alloc` takes the lowest run
-- of free cells that is long enough, and `mm_free` gives back exactly the cells
-- of one allocation, whatever pointer it gets.
import BareBones.BitmapSafety

namespace bare_bones.bitmap_heap

open bare_bones extents runs

/-! ## Allocation -/

/-- `mm_alloc n` is complete and takes the first fit. -/
structure FirstFit (m : Manager) (n : Nat) : Prop where
  null : (mm_alloc n m).1 = none ↔
    n = 0 ∨ 2 ^ 17 < n ∨ ¬ ∃ i, FreeAt m i (n ⌈/⌉ BLOCK_SIZE)
  unchanged : (mm_alloc n m).1 = none → (mm_alloc n m).2 = m
  lowest : ∀ ptr, (mm_alloc n m).1 = some ptr → ∃ i, ptr = m.realMemStart + i * BLOCK_SIZE ∧
    FreeAt m i (n ⌈/⌉ BLOCK_SIZE) ∧ (∀ j, FreeAt m j (n ⌈/⌉ BLOCK_SIZE) → i ≤ j) ∧
    Marks m (mm_alloc n m).2 i (n ⌈/⌉ BLOCK_SIZE)

theorem Drawn.firstFit {m : Manager} {l : List Extent} (h : Drawn m l) (n : Nat) :
    FirstFit m n := by
  rcases mm_alloc_cases h n with ⟨he, hwhy⟩ | ⟨i, m', he, hn, hfree, hlow, hm⟩
  · refine ⟨iff_of_true (by rw [he]) (hwhy.imp_right (Or.imp_right not_exists.mpr)),
      fun _ => by rw [he], fun ptr hptr => ?_⟩
    rw [he] at hptr
    cases hptr
  · refine ⟨iff_of_false (by simp [he]) ?_, fun hnull => ?_, fun ptr hptr => ?_⟩
    · rintro (h0 | hlarge | hnone)
      · exact hn (.inl h0)
      · exact hn (.inr hlarge)
      · exact hnone ⟨i, hfree⟩
    · rw [he] at hnull
      cases hnull
    · rw [he] at hptr ⊢
      cases hptr
      exact ⟨i, rfl, hfree, hlow, hm⟩

/-- After any calls, with any sizes and any pointers. -/
theorem mm_alloc_takes_the_first_fit {r : Region} {m : Manager} (hm : mm_create r = some m)
    (calls : List HeapCall) (n : Nat) : FirstFit (run exec ⟨m, []⟩ calls).manager n :=
  (shows_run (mm_create_spec hm).1 calls).1.drawn.firstFit n

/-- The hole of two blocks is too small, and the run behind it is found. -/
theorem mm_alloc_takes_the_first_fit_behind_a_hole :
    FirstFit (run exec ⟨⟨fun _ => .FREE, 103, 7, 0⟩, []⟩
      [.mm_alloc 65, .mm_alloc 64, .mm_free 103]).manager 129 :=
  mm_alloc_takes_the_first_fit (r := ⟨64, 500, by decide⟩) rfl _ _

/-! ## Release -/

theorem manager_ext {m m' : Manager} (hs : SameShape m m')
    (hcells : ∀ c, m'.bitmap c = m.bitmap c) (hused : m'.usedBlocksCount = m.usedBlocksCount) :
    m' = m := by
  obtain ⟨bitmap, realMemStart, blockCount, used⟩ := m
  obtain ⟨bitmap', realMemStart', blockCount', used'⟩ := m'
  obtain ⟨hreal, hcount⟩ := hs
  cases hreal
  cases hcount
  cases hused
  rw [show bitmap' = bitmap from funext hcells]

theorem Clears.unique {m m₁ m₂ : Manager} {e : Extent} (h₁ : Clears m m₁ e)
    (h₂ : Clears m m₂ e) : m₁ = m₂ := by
  refine manager_ext ⟨?_, ?_⟩ (fun c => ?_) ?_
  · rw [h₁.shape.realMemStart, h₂.shape.realMemStart]
  · rw [h₁.shape.blockCount, h₂.shape.blockCount]
  · rw [h₁.cells, h₂.cells]
  · have := h₁.counted
    have := h₂.counted
    omega

/-- What `mm_free` looks at in a pointer. -/
theorem blockOf_iff {m : Manager} {ptr : Addr} {i : Nat} : blockOf m ptr = some i ↔
    (ptr ≠ 0 ∧ m.realMemStart ≤ ptr ∧ indexOf m ptr = i ∧ i < m.blockCount) ∧
      m.bitmap i = .BORDER := by
  unfold blockOf
  dsimp only
  split_ifs with h₀ h₁ h₂ h₃
  · simp [h₀]
  · simp [Nat.not_le.mpr h₁]
  · apply iff_of_false (fun h => by cases h)
    rintro ⟨⟨-, -, rfl, hlt⟩, -⟩
    exact absurd hlt (Nat.not_lt.mpr h₂)
  · apply iff_of_false (fun h => by cases h)
    rintro ⟨⟨-, -, rfl, -⟩, hb⟩
    exact h₃ hb
  · rw [Option.some.injEq]
    constructor
    · rintro rfl
      exact ⟨⟨h₀, Nat.not_lt.mp h₁, rfl, Nat.not_le.mp h₂⟩, not_not.mp h₃⟩
    · exact fun h => h.1.2.2.1

/-- A block that is clear is no longer accepted; all others are. -/
theorem Clears.blockOf_iff {m m' : Manager} {e : Extent} (h : Clears m m' e) {ptr : Addr}
    {i : Nat} : blockOf m' ptr = some i ↔ blockOf m ptr = some i ∧ ¬ e.Has i := by
  rw [bitmap_heap.blockOf_iff, bitmap_heap.blockOf_iff, h.shape.realMemStart,
    h.shape.blockCount, h.cells]
  have hindex : indexOf m' ptr = indexOf m ptr := by
    rw [indexOf, indexOf, h.shape.realMemStart]
  rw [hindex]
  by_cases he : e.Has i
  · simp [he]
  · simp [he]

theorem mm_free_of_none {m : Manager} {ptr : Addr} (h : blockOf m ptr = none) :
    mm_free ptr m = m := by
  rw [mm_free, h]

theorem clears_free {m : Manager} {l : List Extent} (h : Drawn m l) {ptr : Addr} {e : Extent}
    (he : e ∈ l) (hblock : blockOf m ptr = some e.first) : Clears m (mm_free ptr m) e := by
  rcases mm_free_cases h ptr with ⟨hnone, -⟩ | ⟨f, hf, hblock', hm⟩
  · rw [hnone] at hblock
    cases hblock
  · have hfe : f = e := by
      rw [hblock', Option.some.injEq] at hblock
      exact h.packed.unique hf he (Extent.has_first (h.packed.pos f hf))
        (hblock ▸ Extent.has_first (h.packed.pos e he))
    exact hfe ▸ hm

/-- A pointer that `mm_free` ignores is ignored after any other release. -/
theorem Clears.ignores {m m' : Manager} {e : Extent} (h : Clears m m' e) {ptr : Addr}
    (hnone : blockOf m ptr = none) : mm_free ptr m' = m' := by
  refine mm_free_of_none (Option.eq_none_iff_forall_ne_some.mpr fun i hi => ?_)
  rw [(h.blockOf_iff.mp hi).1] at hnone
  cases hnone

/-- The pointer that released a block is ignored from then on. -/
theorem Clears.spent {m m' : Manager} {e : Extent} (h : Clears m m' e) (hpos : 0 < e.len)
    {ptr : Addr} (hblock : blockOf m ptr = some e.first) : mm_free ptr m' = m' := by
  refine mm_free_of_none (Option.eq_none_iff_forall_ne_some.mpr fun i hi => ?_)
  obtain ⟨hi, hnot⟩ := h.blockOf_iff.mp hi
  rw [hblock, Option.some.injEq] at hi
  exact hnot (hi ▸ Extent.has_first hpos)

theorem mm_free_twice {m : Manager} {l : List Extent} (h : Drawn m l) (ptr : Addr) :
    mm_free ptr (mm_free ptr m) = mm_free ptr m := by
  rcases mm_free_cases h ptr with ⟨-, hm⟩ | ⟨e, he, hblock, hm⟩
  · rw [hm, hm]
  · exact hm.spent (h.packed.pos e he) hblock

theorem mm_free_comm {m : Manager} {l : List Extent} (h : Drawn m l) (p q : Addr) :
    mm_free p (mm_free q m) = mm_free q (mm_free p m) := by
  rcases mm_free_cases h p with ⟨hp, hmp⟩ | ⟨e, he, hp, hmp⟩
  · rcases mm_free_cases h q with ⟨-, hmq⟩ | ⟨f, -, -, hmq⟩
    · rw [hmp, hmq, hmp]
    · rw [hmp, hmq.ignores hp]
  · rcases mm_free_cases h q with ⟨hq, hmq⟩ | ⟨f, hf, hq, hmq⟩
    · rw [hmq, hmp.ignores hq]
    · by_cases hfe : f = e
      · subst hfe
        rw [hmp.unique hmq, hmq.spent (h.packed.pos f hf) hp, hmq.spent (h.packed.pos f hf) hq]
      · have hef : ¬ e.Has f.first := fun hh =>
          hfe (h.packed.unique hf he (Extent.has_first (h.packed.pos f hf)) hh)
        have hfe' : ¬ f.Has e.first := fun hh =>
          hfe (h.packed.unique hf he hh (Extent.has_first (h.packed.pos e he)))
        have hmem : ∀ {a b : Extent}, a ∈ l → a.first ≠ b.first →
            a ∈ l.filter fun g => g.first ≠ b.first := fun ha hab =>
          List.mem_filter.mpr ⟨ha, decide_eq_true hab⟩
        have hne : e.first ≠ f.first := fun hee => hef (hee ▸ Extent.has_first (h.packed.pos e he))
        have hqp := clears_free (hmp.drawn h he) (hmem hf hne.symm)
          (hmp.blockOf_iff.mpr ⟨hq, hef⟩)
        have hpq := clears_free (hmq.drawn h hf) (hmem he hne) (hmq.blockOf_iff.mpr ⟨hp, hfe'⟩)
        refine manager_ext ⟨?_, ?_⟩ (fun c => ?_) ?_
        · rw [hpq.shape.realMemStart, hmq.shape.realMemStart, hqp.shape.realMemStart,
            hmp.shape.realMemStart]
        · rw [hpq.shape.blockCount, hmq.shape.blockCount, hqp.shape.blockCount,
            hmp.shape.blockCount]
        · rw [hpq.cells, hmq.cells, hqp.cells, hmp.cells]
          split_ifs <;> rfl
        · have := hpq.counted
          have := hmq.counted
          have := hqp.counted
          have := hmp.counted
          omega

/-- Releasing the block that was just given out restores every cell and the counter. -/
theorem Marks.restored {m m' m'' : Manager} {i k : Nat} (hk : 0 < k) (hfree : FreeAt m i k)
    (hm : Marks m m' i k) (hc : Clears m' m'' ⟨i, k⟩) : m'' = m := by
  refine manager_ext ⟨?_, ?_⟩ (fun c => ?_) ?_
  · rw [hc.shape.realMemStart, hm.shape.realMemStart]
  · rw [hc.shape.blockCount, hm.shape.blockCount]
  · rw [hc.cells]
    split_ifs with hhas
    · exact (hfree.free c hhas.1 hhas.2).symm
    · rw [hm.cells, if_neg, if_neg]
      · exact fun hci => hhas ⟨Nat.le_of_lt hci.1, hci.2⟩
      · rintro rfl
        exact hhas ⟨Nat.le_refl c, Nat.lt_add_of_pos_right hk⟩
  · have hm := hm.counted
    have hc : m''.usedBlocksCount + k = m'.usedBlocksCount := hc.counted
    omega

theorem mm_free_alloc {m : Manager} {l : List Extent} (h : Drawn m l)
    (hsmall : m.blockCount * BLOCK_SIZE ≤ 2 ^ 63) (hstart : 0 < m.realMemStart) (n : Nat) :
    mm_free ((mm_alloc n m).1.getD 0) (mm_alloc n m).2 = m := by
  rcases mm_alloc_cases h n with ⟨he, -⟩ | ⟨i, m', he, hn, hfree, -, hm⟩
  · rw [he]
    exact mm_free_of_none (if_pos rfl)
  · have hk : 0 < blocksFor n := by
      unfold blocksFor BLOCK_SIZE
      omega
    have hlt : i < m.blockCount :=
      Nat.lt_of_lt_of_le (Nat.lt_add_of_pos_right hk) hfree.fits
    have hblock : blockOf m' (m.realMemStart + i * BLOCK_SIZE) = some i := by
      rw [blockOf_iff, hm.shape.realMemStart, hm.shape.blockCount, hm.cells, if_pos rfl]
      refine ⟨⟨Nat.ne_of_gt (Nat.lt_of_lt_of_le hstart (Nat.le_add_right _ _)),
        Nat.le_add_right _ _, ?_, hlt⟩, rfl⟩
      rw [indexOf_near] <;> rw [hm.shape.realMemStart]
      · rw [Nat.add_sub_cancel_left]
        exact Nat.mul_div_cancel i (by decide)
      · exact Nat.le_add_right _ _
      · rw [Nat.add_sub_cancel_left]
        exact Nat.lt_of_lt_of_le ((Nat.mul_lt_mul_right (by decide)).mpr hlt) hsmall
    rw [he]
    exact hm.restored hk hfree (clears_free (hm.drawn h hk hfree) List.mem_cons_self hblock)

/-! ## Whole histories -/

/-- The block at the start of an allocation. -/
def Allocation.firstBlock (a : Allocation) : Extent := ⟨a.ptr, BLOCK_SIZE⟩

/-- `mm_free ptr` gives back the cells of `a` and touches no other allocation. -/
structure Releases (h : Heap) (ptr : Addr) (a : Allocation) : Prop where
  cells : ∀ i, (mm_free ptr h.manager).bitmap i =
    if (cellsOf h.manager a).Has i then .FREE else h.manager.bitmap i
  counted : (mm_free ptr h.manager).usedBlocksCount + a.bytes ⌈/⌉ BLOCK_SIZE =
    h.manager.usedBlocksCount
  gone : a ∉ (exec h (.mm_free ptr)).live
  others : ∀ b ∈ h.live, b ≠ a → b ∈ (exec h (.mm_free ptr)).live ∧
    ∀ i, (cellsOf h.manager b).Has i → (mm_free ptr h.manager).bitmap i = h.manager.bitmap i

/-- `mm_free` is exact and idempotent. `NULL` is the address 0. -/
structure FreeIsExact (h : Heap) : Prop where
  changes : ∀ ptr < 2 ^ 64, mm_free ptr h.manager ≠ h.manager →
    ∃ a ∈ h.live, a.firstBlock.Has ptr
  releases : ∀ ptr < 2 ^ 64, ∀ a ∈ h.live, a.firstBlock.Has ptr → Releases h ptr a
  twice : ∀ ptr, mm_free ptr (mm_free ptr h.manager) = mm_free ptr h.manager
  restores : ∀ n, mm_free ((mm_alloc n h.manager).1.getD 0) (mm_alloc n h.manager).2 = h.manager
  commutes : ∀ p q, mm_free p (mm_free q h.manager) = mm_free q (mm_free p h.manager)

theorem Shows.releases {h : Heap} (hs : Shows h) {ptr : Addr} {a : Allocation} (ha : a ∈ h.live)
    (hblock : blockOf h.manager ptr = some (cellsOf h.manager a).first) : Releases h ptr a := by
  have hmem : ∀ {b : Allocation}, b ∈ h.live →
      cellsOf h.manager b ∈ h.live.map (cellsOf h.manager) := fun hb => List.mem_map_of_mem hb
  have hc := clears_free hs.drawn (hmem ha) hblock
  have hreleased : ∀ b : Allocation, Released h.manager ptr b ↔ a.ptr = b.ptr := by
    intro b
    rw [Released, hblock, Option.map_some, Option.some.injEq, ← (hs.placed a ha).2]
  refine ⟨hc.cells, hc.counted, fun hgone => ?_, fun b hb hba => ⟨?_, fun i hi => ?_⟩⟩
  · have := (List.mem_filter.mp hgone).2
    simp [hreleased] at this
  · refine List.mem_filter.mpr ⟨hb, decide_eq_true ?_⟩
    rw [hreleased]
    exact fun hptr => hba (List.inj_on_of_nodup_map hs.nodup_ptr hb ha hptr.symm)
  · rw [hc.cells, if_neg]
    intro hia
    have hcells := hs.drawn.packed.unique (hmem hb) (hmem ha) hi hia
    refine hba (List.inj_on_of_nodup_map hs.nodup_ptr hb ha ?_)
    rw [(hs.placed b hb).2, (hs.placed a ha).2, hcells]

theorem Shows.freeIsExact {h : Heap} (hs : Shows h) (hreal : 64 ≤ h.manager.realMemStart)
    (hcount : h.manager.blockCount ≤ 2 ^ 57) : FreeIsExact h := by
  have hd := hs.drawn
  have hfirst : ∀ a ∈ h.live, a.firstBlock =
      ⟨h.manager.realMemStart + (cellsOf h.manager a).first * BLOCK_SIZE, BLOCK_SIZE⟩ := by
    intro a ha
    rw [Allocation.firstBlock, ← (hs.placed a ha).2]
  refine ⟨fun ptr hptr hchange => ?_, fun ptr hptr a ha hhas => ?_, mm_free_twice hd,
    mm_free_alloc hd ?_ (Nat.lt_of_lt_of_le (by decide) hreal), mm_free_comm hd⟩
  · rcases mm_free_cases hd ptr with ⟨-, hsame⟩ | ⟨e, he, hblock, -⟩
    · exact absurd hsame hchange
    · obtain ⟨a, ha, rfl⟩ := List.mem_map.mp he
      exact ⟨a, ha, hfirst a ha ▸ ((blockOf_eq_some hreal hcount hptr).mp hblock).2.2⟩
  · obtain ⟨hlt, hborder⟩ := hs.border ha
    rw [hfirst a ha] at hhas
    exact hs.releases ha ((blockOf_eq_some hreal hcount hptr).mpr ⟨hlt, hborder, hhas⟩)
  · exact (Nat.mul_le_mul_right BLOCK_SIZE hcount).trans (by decide)

/-- A request that fits into the block that was just freed is met. -/
theorem Shows.alloc_after_free {h : Heap} (hs : Shows h)
    (hsmall : h.manager.blockCount * BLOCK_SIZE ≤ 2 ^ 63) (hstart : 0 < h.manager.realMemStart)
    {a : Allocation} (ha : a ∈ h.live) {n : Nat} (hn : ¬ (n = 0 ∨ POW2 17 < n))
    (hle : blocksFor n ≤ blocksFor a.bytes) :
    ∃ ptr m', mm_alloc n (mm_free a.ptr h.manager) = (some ptr, m') := by
  have hmem : cellsOf h.manager a ∈ h.live.map (cellsOf h.manager) := List.mem_map_of_mem ha
  have hc := clears_free hs.drawn hmem (blockOf_start hs hsmall hstart ha)
  have hfits : (cellsOf h.manager a).first + blocksFor a.bytes ≤ h.manager.blockCount :=
    hs.drawn.packed.fits _ hmem
  have hfree : FreeAt (mm_free a.ptr h.manager) (cellsOf h.manager a).first (blocksFor n) := by
    refine ⟨?_, fun j hij hj => ?_⟩
    · rw [hc.shape.blockCount]
      exact (Nat.add_le_add_left hle _).trans hfits
    · rw [hc.cells]
      exact if_pos ⟨hij, Nat.lt_of_lt_of_le hj (Nat.add_le_add_left hle _)⟩
  rcases mm_alloc_cases (hc.drawn hs.drawn hmem) n with ⟨-, hwhy⟩ | ⟨i, m', he, -⟩
  · rcases hwhy with h0 | hlarge | hnone
    · exact absurd (.inl h0) hn
    · exact absurd (.inr hlarge) hn
    · exact absurd hfree (hnone _)
  · exact ⟨_, m', he⟩

/-- After any calls, on a heap of at most 2^63 bytes that does not begin in the first 64
bytes of the address space, as the one of `kernel.c` does not. -/
theorem mm_free_releases_one_allocation_or_nothing {r : Region} {m : Manager}
    (hm : mm_create r = some m) (hstart : 64 ≤ r.startAddress) (hsize : r.totalSize ≤ 2 ^ 63)
    (calls : List HeapCall) : FreeIsExact (run exec ⟨m, []⟩ calls) := by
  obtain ⟨hi, hreal, hroom⟩ := mm_create_spec hm
  obtain ⟨hshows, hs⟩ := shows_run hi calls
  refine hshows.freeIsExact ?_ ?_
  · rw [hs.realMemStart, hreal]
    exact hstart.trans ((Nat.le_add_right _ _).trans (Nat.le_add_right _ _))
  · have hcount : m.blockCount ≤ 2 ^ 57 := by
      unfold BLOCK_SIZE at hroom
      omega
    exact hs.blockCount ▸ hcount

/-- The heap of the kernel, with blocks next to each other and a pointer that
`mm_alloc` never gave. -/
theorem mm_free_releases_one_allocation_of_the_kernel_heap :
    FreeIsExact (run exec ⟨⟨fun _ => .FREE, 10421263, 4129775, 0⟩, []⟩
      [.mm_alloc 65, .mm_alloc 1, .mm_alloc 64, .mm_free 10421400, .mm_free 5]) :=
  mm_free_releases_one_allocation_or_nothing (r := ⟨0x600000, HEAP_SIZE, by decide⟩)
    rfl (by decide) (by decide) _

end bare_bones.bitmap_heap
