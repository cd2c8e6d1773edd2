-- The blocks of `bitmap.c` over whole histories of calls. The cells are the
-- drawing of a packed store of extents, one for each allocation that is not yet
-- released; `mm_alloc` adds an extent and `mm_free` takes one out.
import BareBones.Bitmap
import BareBones.Lib.Runs
import Mathlib.Algebra.Order.Floor.Div
import Mathlib.Data.Nat.Count

namespace bare_bones.bitmap_heap

open bare_bones extents runs

/-! ## Drawings -/

/-- What a store of extents looks like on the cells. -/
def drawing (l : List Extent) (i : Nat) : Cell :=
  if ∃ e ∈ l, e.first = i then .BORDER
  else if ∃ e ∈ l, e.Has i then .USED
  else .FREE

theorem drawing_border {l : List Extent} {i : Nat} :
    drawing l i = .BORDER ↔ ∃ e ∈ l, e.first = i := by
  unfold drawing
  split
  · next h => exact ⟨fun _ => h, fun _ => rfl⟩
  · next h =>
    refine ⟨fun hb => ?_, fun hb => absurd hb h⟩
    split at hb <;> cases hb

theorem drawing_used {l : List Extent} {i : Nat} :
    drawing l i = .USED ↔ (¬ ∃ e ∈ l, e.first = i) ∧ ∃ e ∈ l, e.Has i := by
  unfold drawing
  split
  · next h => exact ⟨fun hu => (by cases hu), fun hu => absurd h hu.1⟩
  · next h =>
    split
    · next hu => exact ⟨fun _ => ⟨h, hu⟩, fun _ => rfl⟩
    · next hu => exact ⟨fun hf => (by cases hf), fun hf => absurd hf.2 hu⟩

theorem drawing_free {count : Nat} {l : List Extent} (hl : Packed count l) {i : Nat} :
    drawing l i = .FREE ↔ ∀ e ∈ l, ¬ e.Has i := by
  constructor
  · intro h e he hei
    by_cases hb : ∃ f ∈ l, f.first = i
    · rw [drawing_border.mpr hb] at h
      cases h
    · rw [drawing_used.mpr ⟨hb, e, he, hei⟩] at h
      cases h
  · intro h
    unfold drawing
    rw [if_neg, if_neg]
    · exact fun ⟨e, he, hei⟩ => h e he hei
    · rintro ⟨e, he, rfl⟩
      exact h e he (Extent.has_first (hl.pos e he))

/-- Inside an extent, after its first cell, the drawing is `USED`. -/
theorem drawing_inner {count : Nat} {l : List Extent} (hl : Packed count l) {e : Extent}
    (he : e ∈ l) {i : Nat} (hlt : e.first < i) (hstop : i < e.stop) :
    drawing l i = .USED := by
  have hei : e.Has i := ⟨Nat.le_of_lt hlt, hstop⟩
  refine drawing_used.mpr ⟨?_, e, he, hei⟩
  rintro ⟨f, hf, rfl⟩
  have hfe : f = e := hl.unique hf he (Extent.has_first (hl.pos f hf)) hei
  exact absurd (hfe ▸ hlt) (Nat.lt_irrefl _)

/-- A `USED` cell comes after a cell of the same extent. -/
theorem drawing_before {l : List Extent} {i : Nat} (h : drawing l i = .USED) :
    ∃ e ∈ l, e.first < i ∧ e.Has i := by
  obtain ⟨hb, e, he, hei⟩ := drawing_used.mp h
  exact ⟨e, he, Nat.lt_of_le_of_ne hei.1 fun hfi => hb ⟨e, he, hfi⟩, hei⟩

/-- The cell after an extent is not `USED`: there `mm_free` stops. -/
theorem drawing_stop {count : Nat} {l : List Extent} (hl : Packed count l) {e : Extent}
    (he : e ∈ l) : drawing l e.stop ≠ .USED := by
  intro h
  obtain ⟨f, hf, hlt, hfs⟩ := drawing_before h
  have hpos := hl.pos e he
  have hlast : e.Has (e.stop - 1) := ⟨by unfold Extent.stop; omega, by unfold Extent.stop; omega⟩
  have hflast : f.Has (e.stop - 1) := ⟨by omega, by have := hfs.2; omega⟩
  have hfe : f = e := hl.unique hf he hflast hlast
  exact absurd (hfe ▸ hfs.2) (Nat.lt_irrefl _)

theorem drawing_cons {count : Nat} {l : List Extent} {e : Extent} (hl : Packed count (e :: l))
    (i : Nat) : drawing (e :: l) i =
      if i = e.first then .BORDER
      else if e.Has i then .USED
      else drawing l i := by
  by_cases hb : i = e.first
  · rw [if_pos hb]
    exact drawing_border.mpr ⟨e, List.mem_cons_self, hb.symm⟩
  · rw [if_neg hb]
    by_cases hu : e.Has i
    · rw [if_pos hu]
      exact drawing_inner hl List.mem_cons_self (Nat.lt_of_le_of_ne hu.1 (Ne.symm hb)) hu.2
    · rw [if_neg hu]
      unfold drawing
      simp only [List.mem_cons, exists_eq_or_imp, Ne.symm hb, false_or, hu]

theorem drawing_filter {count : Nat} {l : List Extent} (hl : Packed count l) {e : Extent}
    (he : e ∈ l) (i : Nat) : drawing (l.filter fun f => f.first ≠ e.first) i =
      if e.Has i then .FREE else drawing l i := by
  have hl' := hl.sublist (List.filter_sublist (p := fun f => f.first ≠ e.first) (l := l))
  by_cases hei : e.Has i
  · rw [if_pos hei]
    apply (drawing_free hl').mpr
    intro f hf hfi
    obtain ⟨hf, hne⟩ := List.mem_filter.mp hf
    exact of_decide_eq_true hne (congrArg Extent.first (hl.unique hf he hfi hei))
  · rw [if_neg hei]
    have hhas : ∀ f ∈ l, f.Has i → f.first ≠ e.first := fun f hf hfi hfe => by
      have : f = e := hl.unique hf he (Extent.has_first (hl.pos f hf))
        (hfe ▸ Extent.has_first (hl.pos e he))
      exact hei (this ▸ hfi)
    have hfirst : (∃ f ∈ l.filter fun f => f.first ≠ e.first, f.first = i) ↔
        ∃ f ∈ l, f.first = i := by
      constructor
      · rintro ⟨f, hf, hfi⟩
        exact ⟨f, (List.mem_filter.mp hf).1, hfi⟩
      · rintro ⟨f, hf, rfl⟩
        exact ⟨f, List.mem_filter.mpr
          ⟨hf, decide_eq_true (hhas f hf (Extent.has_first (hl.pos f hf)))⟩, rfl⟩
    have hany : (∃ f ∈ l.filter fun f => f.first ≠ e.first, f.Has i) ↔ ∃ f ∈ l, f.Has i := by
      constructor
      · rintro ⟨f, hf, hfi⟩
        exact ⟨f, (List.mem_filter.mp hf).1, hfi⟩
      · rintro ⟨f, hf, hfi⟩
        exact ⟨f, List.mem_filter.mpr ⟨hf, decide_eq_true (hhas f hf hfi)⟩, hfi⟩
    unfold drawing
    simp only [hfirst, hany]

/-! ## One call -/

/-- The bitmap shows exactly the extents of `l`, and the counter counts their cells. -/
structure Drawn (m : Manager) (l : List Extent) : Prop where
  packed : Packed m.blockCount l
  drawn : ∀ i < m.blockCount, m.bitmap i = drawing l i
  counted : m.usedBlocksCount = total l
  small : m.blockCount < 2 ^ 64

theorem Drawn.of_shape {m m' : Manager} {l : List Extent} (hs : SameShape m m')
    (packed : Packed m.blockCount l) (drawn : ∀ i < m.blockCount, m'.bitmap i = drawing l i)
    (counted : m'.usedBlocksCount = total l) (small : m.blockCount < 2 ^ 64) : Drawn m' l := by
  rw [← hs.blockCount] at packed drawn small
  exact ⟨packed, drawn, counted, small⟩

theorem Drawn.used_le {m : Manager} {l : List Extent} (h : Drawn m l) :
    m.usedBlocksCount ≤ m.blockCount := h.counted ▸ h.packed.total_le

/-- The difference in `mm_alloc` and `mm_info` does not wrap around. -/
theorem Drawn.left {m : Manager} {l : List Extent} (h : Drawn m l) :
    sub64 m.blockCount m.usedBlocksCount = m.blockCount - m.usedBlocksCount :=
  sub64_of_le h.used_le h.small

/-- A run of free cells is an extent apart from all others. -/
theorem Drawn.apart_of_free {m : Manager} {l : List Extent} (h : Drawn m l) {e : Extent}
    (hstop : e.stop ≤ m.blockCount) (hpos : 0 < e.len)
    (hfree : ∀ j, e.Has j → m.bitmap j = .FREE) {f : Extent} (hf : f ∈ l) : e.Apart f := by
  have hnot : ∀ j, e.Has j → ¬ f.Has j := fun j hj => by
    have hj' := hfree j hj
    rw [h.drawn j (Nat.lt_of_lt_of_le hj.2 hstop), drawing_free h.packed] at hj'
    exact hj' f hf
  refine Extent.apart_of_firsts (fun he => ?_) (hnot _ (Extent.has_first hpos))
  exact hnot _ he (Extent.has_first (h.packed.pos f hf))

/-- `k` free cells in a row from cell `i` on. -/
structure FreeAt (m : Manager) (i k : Nat) : Prop where
  fits : i + k ≤ m.blockCount
  free : ∀ j, i ≤ j → j < i + k → m.bitmap j = .FREE

/-- `m'` is `m` with the `k` cells from cell `i` on marked as one allocation. -/
structure Marks (m m' : Manager) (i k : Nat) : Prop where
  shape : SameShape m m'
  cells : ∀ c, m'.bitmap c =
    if c = i then .BORDER else if i < c ∧ c < i + k then .USED else m.bitmap c
  counted : m'.usedBlocksCount = m.usedBlocksCount + k

/-- `m'` is `m` with the cells of `e` free. -/
structure Clears (m m' : Manager) (e : Extent) : Prop where
  shape : SameShape m m'
  cells : ∀ c, m'.bitmap c = if e.Has c then .FREE else m.bitmap c
  counted : m'.usedBlocksCount + e.len = m.usedBlocksCount

theorem Drawn.packed_free {m : Manager} {l : List Extent} (h : Drawn m l) {i k : Nat}
    (hk : 0 < k) (hfree : FreeAt m i k) : Packed m.blockCount (⟨i, k⟩ :: l) :=
  h.packed.cons hk hfree.fits fun _ hf =>
    h.apart_of_free (e := ⟨i, k⟩) hfree.fits hk (fun j hj => hfree.free j hj.1 hj.2) hf

/-- The free cells are counted as free. -/
theorem Drawn.room {m : Manager} {l : List Extent} (h : Drawn m l) {i k : Nat}
    (hk : 0 < k) (hfree : FreeAt m i k) : m.usedBlocksCount + k ≤ m.blockCount := by
  have hle : k + total l ≤ m.blockCount := (h.packed_free hk hfree).total_le
  rw [h.counted, Nat.add_comm]
  exact hle

/-- `mm_alloc` gives `NULL` when no run of free cells is long enough, or it marks the
lowest one. -/
theorem mm_alloc_cases {m : Manager} {l : List Extent} (h : Drawn m l) (bytes : Nat) :
    mm_alloc bytes m = (none, m) ∧
        (bytes = 0 ∨ POW2 17 < bytes ∨ ∀ i, ¬ FreeAt m i (blocksFor bytes)) ∨
      ∃ i m', mm_alloc bytes m = (some (m.realMemStart + i * BLOCK_SIZE), m') ∧
        ¬ (bytes = 0 ∨ POW2 17 < bytes) ∧ FreeAt m i (blocksFor bytes) ∧
        (∀ j, FreeAt m j (blocksFor bytes) → i ≤ j) ∧ Marks m m' i (blocksFor bytes) := by
  unfold mm_alloc
  by_cases hbytes : bytes = 0 ∨ POW2 17 < bytes
  · rw [if_pos hbytes]
    exact .inl ⟨rfl, hbytes.elim .inl fun h => .inr (.inl h)⟩
  rw [if_neg hbytes]
  dsimp only
  have hk : 0 < blocksFor bytes := by
    unfold blocksFor BLOCK_SIZE
    omega
  by_cases hroom : sub64 m.blockCount m.usedBlocksCount < blocksFor bytes
  · rw [if_pos hroom]
    refine .inl ⟨rfl, .inr (.inr fun i hfree => ?_)⟩
    have hle := h.room hk hfree
    rw [h.left] at hroom
    omega
  rw [if_neg hroom]
  have hfirst : NoneBefore m (blocksFor bytes)
      ((findRun m (blocksFor bytes) m.blockCount 0 0).getD (0 + m.blockCount)) :=
    findRun_first hk (Nat.le_refl 0) (fun h => absurd h (Nat.not_lt_zero 0))
      (fun i hi => absurd hk (by omega))
  cases hfind : findRun m (blocksFor bytes) m.blockCount 0 0 with
  | none =>
    refine .inl ⟨rfl, .inr (.inr fun i hfree => ?_)⟩
    rw [hfind, Nat.zero_add] at hfirst
    obtain ⟨j, hij, hj, hne⟩ := hfirst i hfree.fits
    exact hne (hfree.free j hij hj)
  | some last =>
    right
    obtain ⟨hlast, hneed, -, hfree⟩ :=
      findRun_spec (Nat.le_refl 0) (fun j _ hj => absurd hj (Nat.not_lt_zero j)) hfind
    rw [hfind, Option.getD_some] at hfirst
    obtain ⟨i, hi⟩ : ∃ i, i + blocksFor bytes = last + 1 := ⟨_, Nat.sub_add_cancel hneed⟩
    have hstart : last + 1 - blocksFor bytes = i := by omega
    rw [hstart] at hfree
    have hrun : FreeAt m i (blocksFor bytes) :=
      ⟨by omega, fun j hij hj => hfree j hij (by omega)⟩
    obtain ⟨hs, hu, hc⟩ := setUsed_spec (last - i) (i + 1) (m.setCell i .BORDER)
    dsimp only
    rw [hstart]
    refine ⟨i, _, rfl, hbytes, hrun, fun j hj => Nat.not_lt.mp fun hlt => ?_,
      ⟨⟨hs.1, hs.2⟩, fun c => ?_, ?_⟩⟩
    · obtain ⟨c, hjc, hcj, hne⟩ := hfirst j (by omega)
      exact hne (hj.free c hjc hcj)
    · have hrange : (i + 1 ≤ c ∧ c < i + 1 + (last - i)) ↔
          (i < c ∧ c < i + blocksFor bytes) := by omega
      dsimp only
      rw [hc c, if_congr hrange rfl rfl]
      by_cases hci : c = i
      · rw [if_neg (by omega), if_pos hci, hci, setCell_same]
      · rw [if_neg hci, setCell_ne m _ hci]
    · dsimp only
      rw [hu]
      exact add64_of_lt (Nat.lt_of_le_of_lt (h.room hk hrun) h.small)

theorem Marks.drawn {m m' : Manager} {l : List Extent} (h : Drawn m l) {i k : Nat} (hk : 0 < k)
    (hfree : FreeAt m i k) (hm : Marks m m' i k) : Drawn m' (⟨i, k⟩ :: l) := by
  have hpacked := h.packed_free hk hfree
  refine .of_shape hm.shape hpacked (fun c hlt => ?_) ?_ h.small
  · have hrange : (Extent.mk i k).Has c ↔ c = i ∨ i < c ∧ c < i + k := by
      simp only [Extent.Has, Extent.stop]
      omega
    rw [hm.cells, drawing_cons hpacked, h.drawn c hlt]
    by_cases hci : c = i
    · rw [if_pos hci, if_pos hci]
    · rw [if_neg hci, if_neg hci]
      exact if_congr (hrange.trans (or_iff_right hci)).symm rfl rfl
  · rw [hm.counted, h.counted, total_cons, Nat.add_comm]

/-- `mm_alloc` gives `NULL` and changes nothing, or it draws one more extent. -/
theorem mm_alloc_spec {m : Manager} {l : List Extent} (h : Drawn m l) (bytes : Nat) :
    mm_alloc bytes m = (none, m) ∨
      ∃ e m', mm_alloc bytes m = (some (m.realMemStart + e.first * BLOCK_SIZE), m') ∧
        e.len = blocksFor bytes ∧ 0 < bytes ∧ SameShape m m' ∧ Drawn m' (e :: l) := by
  rcases mm_alloc_cases h bytes with ⟨hnull, -⟩ | ⟨i, m', he, hbytes, hfree, -, hm⟩
  · exact .inl hnull
  · have hk : 0 < blocksFor bytes := by
      unfold blocksFor BLOCK_SIZE
      omega
    exact .inr ⟨⟨i, blocksFor bytes⟩, m', he, rfl,
      Nat.pos_of_ne_zero fun h0 => hbytes (.inl h0), hm.shape, hm.drawn h hk hfree⟩

/-- `mm_free` changes nothing, or it clears the extent it was given a block of. -/
theorem mm_free_cases {m : Manager} {l : List Extent} (h : Drawn m l) (ptr : Addr) :
    blockOf m ptr = none ∧ mm_free ptr m = m ∨
      ∃ e ∈ l, blockOf m ptr = some e.first ∧ Clears m (mm_free ptr m) e := by
  unfold mm_free
  cases hblock : blockOf m ptr with
  | none => exact .inl ⟨rfl, rfl⟩
  | some index =>
    right
    obtain ⟨hlt, hborder⟩ : index < m.blockCount ∧ m.bitmap index = .BORDER := by
      unfold blockOf at hblock
      dsimp only at hblock
      split_ifs at hblock with h₀ h₁ h₂ h₃
      cases hblock
      exact ⟨Nat.not_le.mp h₂, not_not.mp h₃⟩
    rw [h.drawn index hlt, drawing_border] at hborder
    obtain ⟨e, he, rfl⟩ := hborder
    have hpos := h.packed.pos e he
    have hfits : e.stop ≤ m.blockCount := h.packed.fits e he
    have hstop : e.first + 1 + (e.len - 1) = e.stop := by unfold Extent.stop; omega
    have htotal := h.packed.total_filter he
    have hused := h.counted
    have husedle := h.used_le
    have hsmall := h.small
    have hsub := freeCell_used (m := m) e.first (by omega) (by omega)
    obtain ⟨hs, hu, hc⟩ := freeRun_spec (n := m.blockCount - (e.first + 1))
      (i := e.first + 1) (k := e.len - 1) (m := m.freeCell e.first) (by omega)
      (fun j hj hji => by
        rw [freeCell_ne m (Nat.ne_of_gt hj), h.drawn j (by omega)]
        exact drawing_inner h.packed he hj (by omega))
      (fun hlt' => by
        rw [hstop, freeCell_ne m (by omega), h.drawn _ (by omega)]
        exact drawing_stop h.packed he)
      (by omega) (by omega)
    refine ⟨e, he, rfl, (freeCell_shape m e.first).trans hs, fun c => ?_, ?_⟩
    · dsimp only
      rw [hc c, hstop]
      by_cases hce : c = e.first
      · rw [hce, if_neg (by omega), if_pos (Extent.has_first hpos), freeCell_same]
      · rw [freeCell_ne m hce]
        refine if_congr ?_ rfl rfl
        unfold Extent.Has
        omega
    · dsimp only
      omega

theorem Clears.drawn {m m' : Manager} {l : List Extent} (h : Drawn m l) {e : Extent} (he : e ∈ l)
    (hm : Clears m m' e) : Drawn m' (l.filter fun f => f.first ≠ e.first) := by
  refine .of_shape hm.shape (h.packed.sublist List.filter_sublist) (fun i hi => ?_) ?_ h.small
  · rw [hm.cells, drawing_filter h.packed he, h.drawn i hi]
  · have htotal := h.packed.total_filter he
    have hcount := hm.counted
    have hused := h.counted
    omega

/-- `mm_free` changes nothing, or it takes out the extent it was given a block of. -/
theorem mm_free_spec {m : Manager} {l : List Extent} (h : Drawn m l) (ptr : Addr) :
    blockOf m ptr = none ∧ mm_free ptr m = m ∨
      ∃ e ∈ l, blockOf m ptr = some e.first ∧ SameShape m (mm_free ptr m) ∧
        Drawn (mm_free ptr m) (l.filter fun f => f.first ≠ e.first) := by
  rcases mm_free_cases h ptr with hnone | ⟨e, he, hblock, hm⟩
  · exact .inl hnone
  · exact .inr ⟨e, he, hblock, hm.shape, hm.drawn h he⟩

/-! ## Histories -/

/-- A block that `mm_alloc` returned for a request of `bytes`. -/
structure Allocation where
  ptr : Addr
  bytes : Nat
  deriving DecidableEq, Repr

def Allocation.range (a : Allocation) : Extent := ⟨a.ptr, a.bytes⟩

/-- The manager with the allocations that are returned and not yet released. -/
structure Heap where
  manager : Manager
  live : List Allocation

/-- `mm_free` takes back the allocation that starts at the block it frees. -/
def Released (m : Manager) (ptr : Addr) (a : Allocation) : Prop :=
  (blockOf m ptr).map (fun i => m.realMemStart + i * BLOCK_SIZE) = some a.ptr

instance (m : Manager) (ptr : Addr) (a : Allocation) : Decidable (Released m ptr a) :=
  inferInstanceAs (Decidable (_ = _))

def exec (h : Heap) : HeapCall → Heap
  | .mm_alloc bytes =>
    match mm_alloc bytes h.manager with
    | (none, m) => ⟨m, h.live⟩
    | (some ptr, m) => ⟨m, ⟨ptr, bytes⟩ :: h.live⟩
  | .mm_free ptr =>
    ⟨mm_free ptr h.manager, h.live.filter fun a => ¬ Released h.manager ptr a⟩

/-- The blocks of an allocation. -/
def cellsOf (m : Manager) (a : Allocation) : Extent :=
  ⟨(a.ptr - m.realMemStart) / BLOCK_SIZE, blocksFor a.bytes⟩

theorem cellsOf_shape {m m' : Manager} (h : SameShape m m') : cellsOf m' = cellsOf m := by
  funext a
  rw [cellsOf, cellsOf, h.realMemStart]

/-- What each call keeps: the cells show the blocks of the live allocations. -/
structure Shows (h : Heap) : Prop where
  drawn : Drawn h.manager (h.live.map (cellsOf h.manager))
  placed : ∀ a ∈ h.live, 0 < a.bytes ∧
    a.ptr = h.manager.realMemStart + (cellsOf h.manager a).first * BLOCK_SIZE

theorem shows_alloc {h : Heap} (hi : Shows h) (bytes : Nat) :
    Shows (exec h (.mm_alloc bytes)) ∧
      SameShape h.manager (exec h (.mm_alloc bytes)).manager := by
  rcases mm_alloc_spec hi.drawn bytes with hnull | ⟨e, m', hm, hlen, hpos, hs, hd⟩
  · have he : exec h (.mm_alloc bytes) = h := by rw [exec, hnull]
    rw [he]
    exact ⟨hi, .refl _⟩
  · have he : exec h (.mm_alloc bytes) =
        ⟨m', ⟨h.manager.realMemStart + e.first * BLOCK_SIZE, bytes⟩ :: h.live⟩ := by rw [exec, hm]
    have hcells : cellsOf h.manager ⟨h.manager.realMemStart + e.first * BLOCK_SIZE, bytes⟩ = e := by
      refine Extent.ext ?_ hlen.symm
      change (h.manager.realMemStart + e.first * BLOCK_SIZE - h.manager.realMemStart) /
        BLOCK_SIZE = _
      rw [Nat.add_sub_cancel_left]
      exact Nat.mul_div_cancel _ (by decide)
    rw [he]
    refine ⟨⟨?_, fun a ha => ?_⟩, hs⟩
    · rw [cellsOf_shape hs, List.map_cons, hcells]
      exact hd
    · dsimp only
      rw [cellsOf_shape hs, hs.realMemStart]
      rcases List.mem_cons.mp ha with rfl | ha
      · exact ⟨hpos, by rw [hcells]⟩
      · exact hi.placed a ha

theorem shows_free {h : Heap} (hi : Shows h) (ptr : Addr) :
    Shows (exec h (.mm_free ptr)) ∧
      SameShape h.manager (exec h (.mm_free ptr)).manager := by
  rcases mm_free_spec hi.drawn ptr with ⟨hnone, hm⟩ | ⟨e, -, hblock, hs, hd⟩
  · have he : exec h (.mm_free ptr) = h := by
      have hlive : h.live.filter (fun a => ¬ Released h.manager ptr a) = h.live := by
        refine List.filter_eq_self.mpr fun a _ => decide_eq_true ?_
        simp [Released, hnone]
      rw [exec, hm, hlive]
    rw [he]
    exact ⟨hi, .refl _⟩
  · have hlive : ∀ a ∈ h.live, (¬ Released h.manager ptr a) ↔
        (cellsOf h.manager a).first ≠ e.first := by
      intro a ha
      rw [Released, hblock, Option.map_some, Option.some.injEq, (hi.placed a ha).2,
        Nat.add_left_cancel_iff, Nat.mul_left_inj (by decide)]
      exact not_congr eq_comm
    refine ⟨⟨?_, fun a ha => ?_⟩, hs⟩
    · dsimp only [exec]
      rw [cellsOf_shape hs]
      have hmap : (h.live.filter fun a => ¬ Released h.manager ptr a).map (cellsOf h.manager) =
          (h.live.map (cellsOf h.manager)).filter fun f => f.first ≠ e.first := by
        rw [List.filter_map]
        refine congrArg _ (List.filter_congr fun a ha => ?_)
        exact decide_eq_decide.mpr (hlive a ha)
      rw [hmap]
      exact hd
    · dsimp only [exec] at ha ⊢
      rw [cellsOf_shape hs, hs.realMemStart]
      exact hi.placed a (List.mem_filter.mp ha).1

theorem shows_exec {h : Heap} (hi : Shows h) (call : HeapCall) :
    Shows (exec h call) ∧ SameShape h.manager (exec h call).manager := by
  cases call with
  | mm_alloc bytes => exact shows_alloc hi bytes
  | mm_free ptr => exact shows_free hi ptr

theorem shows_run {h : Heap} (hi : Shows h) (calls : List HeapCall) :
    Shows (run exec h calls) ∧ SameShape h.manager (run exec h calls).manager := by
  induction calls generalizing h with
  | nil => exact ⟨hi, .refl _⟩
  | cons call calls ih =>
    obtain ⟨h₁, hs₁⟩ := shows_exec hi call
    obtain ⟨h₂, hs₂⟩ := ih h₁
    exact ⟨h₂, hs₁.trans hs₂⟩

/-! ## Safety -/

/-- A concatenation of `FREE` cells and of runs `BORDER USED*`. -/
inductive Concatenation : List Cell → Prop
  | nil : Concatenation []
  | free {cells : List Cell} : Concatenation cells → Concatenation (.FREE :: cells)
  | run (k : Nat) {cells : List Cell} : Concatenation cells →
      Concatenation (.BORDER :: (List.replicate k .USED ++ cells))

def Manager.cells (m : Manager) : List Cell := (List.range m.blockCount).map m.bitmap

/-- A whole run of `k` cells from cell `i` on. -/
structure RunAt (m : Manager) (i k : Nat) : Prop where
  border : m.bitmap i = .BORDER
  used : ∀ j, i < j → j < i + k → m.bitmap j = .USED
  fits : i + k ≤ m.blockCount
  stop : i + k < m.blockCount → m.bitmap (i + k) ≠ .USED

/-- The heap over the region `r`. -/
structure Safe (r : Region) (h : Heap) : Prop where
  concatenation : Concatenation h.manager.cells
  not_stray : ∀ i < h.manager.blockCount, h.manager.bitmap i = .USED →
    0 < i ∧ h.manager.bitmap (i - 1) ≠ .FREE
  owns : ∀ a ∈ h.live, ∃ i, a.ptr = h.manager.realMemStart + i * BLOCK_SIZE ∧
    RunAt h.manager i (a.bytes ⌈/⌉ BLOCK_SIZE)
  owned : ∀ i < h.manager.blockCount, h.manager.bitmap i = .BORDER →
    ∃ a ∈ h.live, a.ptr = h.manager.realMemStart + i * BLOCK_SIZE
  apart : h.live.Pairwise fun a b => a.ptr ≠ b.ptr ∧ a.range.Apart b.range
  off_struct : ∀ a ∈ h.live, a.range.Apart ⟨r.startAddress, structSize⟩
  off_bitmap : ∀ a ∈ h.live, a.range.Apart ⟨r.startAddress + structSize, h.manager.blockCount⟩
  inside : ∀ a ∈ h.live, a.range.Inside ⟨r.startAddress, r.totalSize⟩
  counted : h.manager.usedBlocksCount =
    Nat.count (fun i => h.manager.bitmap i ≠ .FREE) h.manager.blockCount
  fits : h.manager.usedBlocksCount ≤ h.manager.blockCount

/-- Without a `USED` cell after a `FREE` one, the cells are some `USED` cells
and then a concatenation. -/
theorem concatenation_after_used {cells : List Cell}
    (h : cells.IsChain fun a b => b = .USED → a ≠ .FREE) :
    ∃ k rest, cells = List.replicate k .USED ++ rest ∧ Concatenation rest := by
  induction cells with
  | nil => exact ⟨0, [], rfl, .nil⟩
  | cons c cells ih =>
    obtain ⟨k, rest, rfl, hrest⟩ := ih h.tail
    cases c with
    | USED => exact ⟨k + 1, rest, rfl, hrest⟩
    | BORDER => exact ⟨0, _, rfl, .run k hrest⟩
    | FREE =>
      cases k with
      | zero => exact ⟨0, _, rfl, .free hrest⟩
      | succ k => exact absurd rfl ((List.isChain_cons_cons.mp h).1 rfl)

theorem Drawn.not_stray {m : Manager} {l : List Extent} (h : Drawn m l) {i : Nat}
    (hi : i < m.blockCount) (hu : m.bitmap i = .USED) : 0 < i ∧ m.bitmap (i - 1) ≠ .FREE := by
  rw [h.drawn i hi] at hu
  obtain ⟨e, he, hlt, hei⟩ := drawing_before hu
  have hbefore : e.Has (i - 1) := ⟨by omega, by have := hei.2; omega⟩
  refine ⟨by omega, fun hf => ?_⟩
  rw [h.drawn (i - 1) (by omega), drawing_free h.packed] at hf
  exact hf e he hbefore

theorem Drawn.concatenation {m : Manager} {l : List Extent} (h : Drawn m l) :
    Concatenation m.cells := by
  have hchain : m.cells.IsChain fun a b => b = .USED → a ≠ .FREE := by
    rw [Manager.cells, List.isChain_map, List.isChain_range]
    intro i hi hu
    exact (h.not_stray (by omega) hu).2
  obtain ⟨k, rest, hk, hrest⟩ := concatenation_after_used hchain
  cases k with
  | zero => exact hk ▸ hrest
  | succ k =>
    have hhead : m.cells[0]? = some .USED := by rw [hk]; rfl
    obtain ⟨hlen, hcell⟩ := List.getElem?_eq_some_iff.mp hhead
    rw [Manager.cells, List.length_map, List.length_range] at hlen
    simp only [Manager.cells, List.getElem_map, List.getElem_range] at hcell
    exact absurd (h.not_stray hlen hcell).1 (Nat.lt_irrefl 0)

theorem Drawn.run_at {m : Manager} {l : List Extent} (h : Drawn m l) {e : Extent} (he : e ∈ l) :
    RunAt m e.first e.len := by
  have hpos := h.packed.pos e he
  have hfits : e.first + e.len ≤ m.blockCount := h.packed.fits e he
  refine ⟨?_, fun j hj hje => ?_, hfits, fun hlt => ?_⟩
  · rw [h.drawn _ (by omega)]
    exact drawing_border.mpr ⟨e, he, rfl⟩
  · rw [h.drawn _ (by omega)]
    exact drawing_inner h.packed he hj hje
  · rw [h.drawn _ hlt]
    exact drawing_stop h.packed he

theorem Drawn.count_used {m : Manager} {l : List Extent} (h : Drawn m l) :
    m.usedBlocksCount = Nat.count (fun i => m.bitmap i ≠ .FREE) m.blockCount := by
  rw [h.counted, ← h.packed.card_covered, Nat.count_eq_card_filter_range, covered]
  refine congrArg _ (Finset.filter_congr fun i hi => ?_)
  rw [h.drawn i (Finset.mem_range.mp hi), ne_eq, drawing_free h.packed]
  push Not
  rfl

/-- What `mm_create` leaves: free cells, and room for the blocks after them. -/
theorem mm_create_spec {r : Region} {m : Manager} (h : mm_create r = some m) :
    Shows ⟨m, []⟩ ∧ m.realMemStart = r.startAddress + structSize + m.blockCount ∧
      structSize + m.blockCount * (BLOCK_SIZE + 1) ≤ r.totalSize := by
  unfold mm_create at h
  dsimp only at h
  split_ifs at h with h₀ h₁ h₂
  cases h
  have hroom := Nat.div_mul_le_self (r.totalSize - structSize) (BLOCK_SIZE + 1)
  have hfits := r.totalSize_le
  have hblocks : structSize + (r.totalSize - structSize) / (BLOCK_SIZE + 1) * (BLOCK_SIZE + 1) ≤
      r.totalSize := by omega
  refine ⟨⟨⟨packed_nil _, fun i _ => ?_, rfl, ?_⟩, fun a ha => ?_⟩, rfl, hblocks⟩
  · exact ((drawing_free (packed_nil 0)).mpr fun e he => (by cases he)).symm
  · exact (Nat.div_le_self _ _).trans_lt (by unfold structSize at *; omega)
  · cases ha

theorem range_inside (m : Manager) {a : Allocation}
    (h : a.ptr = m.realMemStart + (cellsOf m a).first * BLOCK_SIZE) :
    a.range.Inside ((cellsOf m a).bytes m.realMemStart BLOCK_SIZE) := by
  refine ⟨Nat.le_of_eq h.symm, ?_⟩
  have hround : a.bytes ≤ blocksFor a.bytes * BLOCK_SIZE := by
    unfold blocksFor BLOCK_SIZE
    omega
  unfold Extent.stop Allocation.range Extent.bytes
  dsimp only
  rw [← h]
  exact Nat.add_le_add_left hround _

theorem Shows.safe {r : Region} {h : Heap} (hi : Shows h)
    (hreal : h.manager.realMemStart = r.startAddress + structSize + h.manager.blockCount)
    (hroom : structSize + h.manager.blockCount * (BLOCK_SIZE + 1) ≤ r.totalSize) :
    Safe r h := by
  have hd := hi.drawn
  have hmem : ∀ a ∈ h.live, cellsOf h.manager a ∈ h.live.map (cellsOf h.manager) :=
    fun a ha => List.mem_map_of_mem ha
  have hin : ∀ a ∈ h.live, a.range.Inside
      ⟨h.manager.realMemStart, h.manager.blockCount * BLOCK_SIZE⟩ := by
    intro a ha
    have hin := range_inside h.manager (hi.placed a ha).2
    have hcells : (cellsOf h.manager a).Inside ⟨0, h.manager.blockCount⟩ :=
      ⟨Nat.zero_le _, (hd.packed.fits _ (hmem a ha)).trans (Nat.zero_add _).ge⟩
    have hbytes := hcells.bytes h.manager.realMemStart BLOCK_SIZE
    refine ⟨?_, hin.2.trans (hbytes.2.trans ?_)⟩
    · exact (Nat.le_add_right _ _).trans (hbytes.1.trans hin.1)
    · rw [Extent.stop_bytes]
      unfold Extent.stop
      rw [Nat.zero_add]
  rw [hreal] at hin
  refine ⟨hd.concatenation, fun i => hd.not_stray, fun a ha => ?_, fun i hlt hb => ?_, ?_,
    fun a ha => ?_, fun a ha => ?_, fun a ha => ?_, hd.count_used, hd.used_le⟩
  · exact ⟨_, (hi.placed a ha).2, hd.run_at (hmem a ha)⟩
  · rw [hd.drawn i hlt, drawing_border] at hb
    obtain ⟨e, he, rfl⟩ := hb
    obtain ⟨a, ha, rfl⟩ := List.mem_map.mp he
    exact ⟨a, ha, (hi.placed a ha).2⟩
  · refine (List.pairwise_map.mp hd.packed.apart).imp_of_mem fun {a b} ha hb hab => ?_
    have hapart := (range_inside _ (hi.placed a ha).2).apart (range_inside _ (hi.placed b hb).2)
      (hab.bytes h.manager.realMemStart BLOCK_SIZE)
    refine ⟨fun hp => ?_, hapart⟩
    have ha' : b.range.Has a.ptr := hp ▸ Extent.has_first (e := b.range) (hi.placed b hb).1
    exact hapart.not_has (Extent.has_first (e := a.range) (hi.placed a ha).1) ha'
  · have := (hin a ha).1
    exact .inr (by unfold Extent.stop; dsimp only at *; omega)
  · exact .inr (hin a ha).1
  · obtain ⟨h₁, h₂⟩ := hin a ha
    unfold BLOCK_SIZE at *
    refine ⟨(Nat.le_add_right _ _).trans ((Nat.le_add_right _ _).trans h₁), h₂.trans ?_⟩
    unfold Extent.stop
    dsimp only
    omega

/-- After any calls, with any sizes and any pointers. -/
theorem the_heap_is_safe_after_every_call {r : Region} {m : Manager} (hm : mm_create r = some m)
    (calls : List HeapCall) : Safe r (run exec ⟨m, []⟩ calls) := by
  obtain ⟨hi, hreal, hroom⟩ := mm_create_spec hm
  obtain ⟨hshows, hs⟩ := shows_run hi calls
  refine hshows.safe ?_ ?_
  · rw [hs.realMemStart, hs.blockCount]
    exact hreal
  · rw [hs.blockCount]
    exact hroom

/-- Two blocks of which the first comes back by a pointer into its first cell,
with a stale and a foreign pointer between them. -/
theorem the_heap_is_safe_after_bogus_frees :
    Safe ⟨64, 400, by decide⟩ (run exec ⟨⟨fun _ => .FREE, 101, 5, 0⟩, []⟩
      [.mm_alloc 65, .mm_alloc 64, .mm_free 106, .mm_free 101, .mm_free 9, .mm_alloc 200]) :=
  the_heap_is_safe_after_every_call rfl _

/-! ## The pointers that `mm_free` accepts -/

/-- The quotient of a distance below 2^63. -/
theorem quotient_near (real d : Nat) (h : d < 2 ^ 63) :
    ((Int.bmod ((real + d : Nat) - (real : Nat)) (2 ^ 64)).tdiv BLOCK_SIZE % 2 ^ 64).toNat =
      d / BLOCK_SIZE := by
  have hdist : Int.bmod ((real + d : Nat) - (real : Nat)) (2 ^ 64) = d := by
    rw [Int.bmod_def]
    split <;> omega
  have hq : (d : Int).tdiv BLOCK_SIZE = ((d / BLOCK_SIZE : Nat) : Int) := rfl
  have hlt : d / BLOCK_SIZE < 2 ^ 64 := (Nat.div_le_self _ _).trans_lt (by omega)
  rw [hdist, hq]
  generalize d / BLOCK_SIZE = quotient at hlt
  omega

/-- A distance from 2^63 on is negative: its quotient is no index. -/
theorem quotient_far (real ptr : Nat) (hreal : 64 ≤ real) (hfar : 2 ^ 63 ≤ ptr - real)
    (hptr : ptr < 2 ^ 64) :
    2 ^ 63 ≤ ((Int.bmod ((ptr : Nat) - (real : Nat)) (2 ^ 64)).tdiv BLOCK_SIZE % 2 ^ 64).toNat := by
  obtain ⟨back, hback⟩ : ∃ back : Nat, back = 2 ^ 64 - (ptr - real) := ⟨_, rfl⟩
  have hdist : Int.bmod ((ptr : Nat) - (real : Nat)) (2 ^ 64) = -(back : Int) := by
    rw [Int.bmod_def]
    split <;> omega
  have hq : (-(back : Int)).tdiv BLOCK_SIZE = -((back / BLOCK_SIZE : Nat) : Int) := by
    rw [Int.neg_tdiv]
    rfl
  rw [hdist, hq]
  unfold BLOCK_SIZE
  omega

theorem indexOf_near {m : Manager} {ptr : Addr} (hle : m.realMemStart ≤ ptr)
    (hnear : ptr - m.realMemStart < 2 ^ 63) :
    indexOf m ptr = (ptr - m.realMemStart) / BLOCK_SIZE := by
  obtain ⟨d, rfl⟩ := Nat.exists_eq_add_of_le hle
  rw [Nat.add_sub_cancel_left] at hnear ⊢
  exact quotient_near m.realMemStart d hnear

/-- Which pointers `mm_free` accepts, in a heap of at most 2^63 bytes that does not
start at the very bottom of the address space: those into the first block of an
allocation. -/
theorem blockOf_eq_some {m : Manager} {ptr : Addr} {i : Nat} (hreal : 64 ≤ m.realMemStart)
    (hcount : m.blockCount ≤ 2 ^ 57) (hptr : ptr < 2 ^ 64) :
    blockOf m ptr = some i ↔ i < m.blockCount ∧ m.bitmap i = .BORDER ∧
      (Extent.mk (m.realMemStart + i * BLOCK_SIZE) BLOCK_SIZE).Has ptr := by
  have hblock : ∀ d : Nat, d / BLOCK_SIZE = i ↔
      i * BLOCK_SIZE ≤ d ∧ d < i * BLOCK_SIZE + BLOCK_SIZE := by
    intro d
    unfold BLOCK_SIZE
    omega
  have hcell : m.realMemStart ≤ ptr → ((ptr - m.realMemStart) / BLOCK_SIZE = i ↔
      (Extent.mk (m.realMemStart + i * BLOCK_SIZE) BLOCK_SIZE).Has ptr) := by
    intro hle
    obtain ⟨d, rfl⟩ := Nat.exists_eq_add_of_le hle
    rw [Nat.add_sub_cancel_left, hblock]
    unfold Extent.Has Extent.stop
    dsimp only
    rw [Nat.add_assoc, Nat.add_le_add_iff_left, Nat.add_lt_add_iff_left]
  unfold blockOf
  dsimp only
  by_cases hlow : ptr < m.realMemStart
  · rw [if_pos hlow, ite_self]
    refine ⟨fun h => (by cases h), fun h => absurd (h.2.2.1) ?_⟩
    exact Nat.not_le.mpr (Nat.lt_of_lt_of_le hlow (Nat.le_add_right _ _))
  · have hle : m.realMemStart ≤ ptr := Nat.not_lt.mp hlow
    have hzero : ptr ≠ 0 := Nat.ne_of_gt (Nat.lt_of_lt_of_le (by decide) (hreal.trans hle))
    rw [if_neg hzero, if_neg hlow]
    by_cases hnear : ptr - m.realMemStart < 2 ^ 63
    · rw [indexOf_near hle hnear, ← hcell hle]
      split_ifs with h₁ h₂
      · exact ⟨fun h => (by cases h), fun ⟨h, _, he⟩ => absurd (he ▸ h₁) (Nat.not_le.mpr h)⟩
      · exact ⟨fun h => (by cases h), fun ⟨_, h, he⟩ => absurd h (he ▸ h₂)⟩
      · rw [Option.some.injEq]
        exact ⟨fun h => ⟨h ▸ Nat.not_le.mp h₁, h ▸ not_not.mp h₂, h⟩, fun h => h.2.2⟩
    · have hfar : 2 ^ 63 ≤ indexOf m ptr :=
        quotient_far m.realMemStart ptr hreal (Nat.not_lt.mp hnear) hptr
      rw [if_pos (Nat.le_trans (hcount.trans (by decide)) hfar)]
      refine ⟨fun h => (by cases h), fun ⟨hi, _, he⟩ => ?_⟩
      have hd := ((hblock _).mp ((hcell hle).mpr he)).2
      unfold BLOCK_SIZE at hd
      exact absurd (Nat.lt_of_lt_of_le hd (by omega)) hnear

theorem Shows.nodup_ptr {h : Heap} (hs : Shows h) : (h.live.map Allocation.ptr).Nodup := by
  have hfirst := hs.drawn.packed.nodup_first
  rw [List.map_map] at hfirst
  apply List.Nodup.of_map (fun ptr => (ptr - h.manager.realMemStart) / BLOCK_SIZE)
  rw [List.map_map]
  exact hfirst

/-- The first cell of an allocation is a border. -/
theorem Shows.border {h : Heap} (hs : Shows h) {a : Allocation} (ha : a ∈ h.live) :
    (cellsOf h.manager a).first < h.manager.blockCount ∧
      h.manager.bitmap (cellsOf h.manager a).first = .BORDER := by
  have hd := hs.drawn
  have hmem : cellsOf h.manager a ∈ h.live.map (cellsOf h.manager) := List.mem_map_of_mem ha
  have hlt : (cellsOf h.manager a).first < h.manager.blockCount :=
    Nat.lt_of_lt_of_le (Nat.lt_add_of_pos_right (hd.packed.pos _ hmem)) (hd.packed.fits _ hmem)
  refine ⟨hlt, ?_⟩
  rw [hd.drawn _ hlt]
  exact drawing_border.mpr ⟨_, hmem, rfl⟩

/-- A pointer to the start of an allocation frees its first block. -/
theorem blockOf_start {h : Heap} (hs : Shows h)
    (hsmall : h.manager.blockCount * BLOCK_SIZE ≤ 2 ^ 63) (hstart : 0 < h.manager.realMemStart)
    {a : Allocation} (ha : a ∈ h.live) :
    blockOf h.manager a.ptr = some (cellsOf h.manager a).first := by
  obtain ⟨hlt, hborder⟩ := hs.border ha
  have hptr := (hs.placed a ha).2
  have hle : h.manager.realMemStart ≤ a.ptr := hptr ▸ Nat.le_add_right _ _
  have hindex : indexOf h.manager a.ptr = (cellsOf h.manager a).first := by
    rw [indexOf_near hle]
    · rfl
    · rw [hptr, Nat.add_sub_cancel_left]
      exact Nat.lt_of_lt_of_le ((Nat.mul_lt_mul_right (by decide)).mpr hlt) hsmall
  unfold blockOf
  rw [if_neg (Nat.ne_of_gt (Nat.lt_of_lt_of_le hstart hle)), if_neg (Nat.not_lt.mpr hle)]
  dsimp only
  rw [hindex, if_neg (Nat.not_le.mpr hlt), if_neg (not_not.mpr hborder)]

end bare_bones.bitmap_heap
