-- What `mm_info` of the two managers says: `bi_mem` prints the three numbers as
-- bytes. `buddy.c` counts bytes and `bitmap.c` counts blocks.
import BareBones.BitmapSafety
import BareBones.BuddyFailures
import Mathlib.Algebra.BigOperators.Ring.List
import Mathlib.Algebra.Order.BigOperators.Group.List

namespace bare_bones

open runs

/-- What the report of a heap over `totalSize` bytes has to say, in bytes: when its blocks lie in
`room` bytes, those that are out in `taken` of them, and its live allocations asked for
`requested`. -/
structure Reports (totalSize room taken requested : Nat) (info : Mem) : Prop where
  whole : info.used + info.free = info.size
  enough : requested ≤ info.used
  fits : info.size ≤ totalSize
  /-- The unit is the byte. -/
  size_in_bytes : info.size = room
  used_in_bytes : taken ≤ info.used

/-- The numbers of `mm_info` add up when their difference does not wrap around. -/
theorem sub64_whole {size used : Nat} (hsize : size < 2 ^ 64) (hused : used < 2 ^ 64) :
    used + sub64 size used = size ↔ used ≤ size := by
  unfold sub64
  rw [Nat.mod_eq_of_lt hused]
  omega

namespace bitmap_heap

/-- The bytes that the live allocations asked for. -/
def requested (h : Heap) : Nat := (h.live.map Allocation.bytes).sum

/-- The bytes of all blocks. -/
def room (h : Heap) : Nat := h.manager.blockCount * BLOCK_SIZE

/-- The bytes of the blocks of the live allocations. -/
def taken (h : Heap) : Nat := (h.live.map fun a => blocksFor a.bytes).sum * BLOCK_SIZE

def ReportsBytes (r : Region) (h : Heap) : Prop :=
  Reports r.totalSize (room h) (taken h) (requested h) (mm_info h.manager)

/-- Only live blocks are freed. -/
def FreesLive (h : Heap) : HeapCall → Prop
  | .mm_alloc _ => True
  | .mm_free ptr => ∃ a ∈ h.live, a.ptr = ptr

/-- The report with each of its numbers times the size of a block. -/
def inBytes (info : Mem) : Mem :=
  ⟨info.size * BLOCK_SIZE, info.used * BLOCK_SIZE, info.free * BLOCK_SIZE⟩

theorem total_eq_sum (l : List extents.Extent) :
    extents.total l = (l.map extents.Extent.len).sum := by
  induction l with
  | nil => rfl
  | cons e l ih => rw [extents.total_cons, ih, List.map_cons, List.sum_cons]

/-- The counter counts the blocks of the live allocations. -/
theorem Shows.used {h : Heap} (hs : Shows h) :
    h.manager.usedBlocksCount = (h.live.map fun a => blocksFor a.bytes).sum := by
  rw [hs.drawn.counted, total_eq_sum, List.map_map]
  rfl

/-- A request fits in its blocks. -/
theorem le_blocksFor (bytes : Nat) : bytes ≤ blocksFor bytes * BLOCK_SIZE := by
  unfold blocksFor BLOCK_SIZE
  omega

theorem requested_le_taken (h : Heap) : requested h ≤ taken h := by
  unfold requested taken
  rw [← List.sum_map_mul_right]
  exact List.sum_le_sum fun a _ => le_blocksFor a.bytes

/-- What a run over `r` keeps: there are blocks, and they lie in the region. -/
structure Blocks (r : Region) (h : Heap) : Prop where
  shows : Shows h
  some_block : 0 < h.manager.blockCount
  fits : h.manager.blockCount * BLOCK_SIZE ≤ r.totalSize

theorem blocks_exec {r : Region} {h : Heap} (hi : Blocks r h) (call : HeapCall) :
    Blocks r (exec h call) := by
  obtain ⟨hshows, hshape⟩ := shows_exec hi.shows call
  refine ⟨hshows, ?_, ?_⟩ <;> rw [hshape.blockCount]
  · exact hi.some_block
  · exact hi.fits

theorem blocks_created {r : Region} {m : Manager} (hm : mm_create r = some m) :
    Blocks r ⟨m, []⟩ := by
  obtain ⟨hshows, -, hroom⟩ := mm_create_spec hm
  refine ⟨hshows, ?_, ?_⟩
  · unfold mm_create at hm
    dsimp only at hm
    split_ifs at hm with h₀ h₁ h₂
    cases hm
    exact Nat.pos_of_ne_zero h₁
  · have hle : m.blockCount * BLOCK_SIZE ≤ m.blockCount * (BLOCK_SIZE + 1) :=
      Nat.mul_le_mul_left _ (Nat.le_succ _)
    dsimp only
    omega

/-- The report counts blocks: it is right once its numbers are taken times the size of a block. -/
theorem Blocks.counts {r : Region} {h : Heap} (hi : Blocks r h) :
    Reports r.totalSize (room h) (taken h) (requested h) (inBytes (mm_info h.manager)) := by
  have hle := hi.shows.drawn.used_le
  have hsmall := hi.shows.drawn.small
  have hwhole := (sub64_whole hsmall (hle.trans_lt hsmall)).mpr hle
  have htaken : taken h = h.manager.usedBlocksCount * BLOCK_SIZE := by
    rw [hi.shows.used]
    rfl
  refine ⟨?_, ?_, hi.fits, rfl, htaken.le⟩
  · show h.manager.usedBlocksCount * BLOCK_SIZE + sub64 _ _ * BLOCK_SIZE = _
    rw [← Nat.add_mul, hwhole]
    rfl
  · exact (requested_le_taken h).trans htaken.le

/-- No report is in bytes. -/
theorem Blocks.not_reports {r : Region} {h : Heap} (hi : Blocks r h) : ¬ ReportsBytes r h := by
  intro hr
  have hsize : h.manager.blockCount = h.manager.blockCount * BLOCK_SIZE := hr.size_in_bytes
  have hpos := hi.some_block
  unfold BLOCK_SIZE at hsize
  omega

theorem mm_info_counts_blocks {r : Region} {m : Manager} (hm : mm_create r = some m)
    (calls : List HeapCall) :
    ¬ ReportsBytes r (run exec ⟨m, []⟩ calls) ∧
      Reports r.totalSize (room (run exec ⟨m, []⟩ calls)) (taken (run exec ⟨m, []⟩ calls))
        (requested (run exec ⟨m, []⟩ calls))
        (inBytes (mm_info (run exec ⟨m, []⟩ calls).manager)) := by
  have hrun : Blocks r (run exec ⟨m, []⟩ calls) :=
    run_keeps (I := Blocks r) (fun _ call hi => blocks_exec hi call) (blocks_created hm) calls
  exact ⟨hrun.not_reports, hrun.counts⟩

end bitmap_heap

namespace buddy_heap

open level_tree

def requested (h : Heap) : Nat := (h.live.map Allocation.bytes).sum

/-- The bytes of the blocks of the live allocations. -/
def blockBytes (live : List Allocation) : Nat := (live.map fun a => POW2 (getExponent a.bytes)).sum

/-- The blocks lie from `treeStart` to the end of the region. -/
def room (r : Region) (h : Heap) : Nat := r.startAddress + r.totalSize - h.manager.treeStart

def ReportsBytes (r : Region) (h : Heap) : Prop :=
  Reports r.totalSize (room r h) (blockBytes h.live) (requested h) (mm_info h.manager)

/-- A request that finds a node leaves the count within the size: the block is rounded up
to a power of two, and `mm_alloc` compares the bytes that are asked for. -/
def RoundsInside (h : Heap) : HeapCall → Prop
  | .mm_alloc bytes => Admitted h.manager bytes →
      (nodeFor (getExponent bytes) h.manager).isSome →
      h.manager.used + POW2 (getExponent bytes) ≤ h.manager.size
  | .mm_free _ => True

/-- The blocks of the allocations that stay and of one that goes. -/
theorem blockBytes_filter {live : List Allocation} {a : Allocation} (ha : a ∈ live) :
    blockBytes (live.filter fun b => b.ptr ≠ a.ptr) + POW2 (getExponent a.bytes) ≤
      blockBytes live := by
  have hnot : a ∉ live.filter fun b => b.ptr ≠ a.ptr := by simp
  have hsub : (live.filter fun b => b.ptr ≠ a.ptr).Sublist (live.erase a) := by
    have h := (List.filter_sublist (p := fun b => b.ptr ≠ a.ptr) (l := live)).erase a
    rwa [List.erase_of_not_mem hnot] at h
  have hsum := List.sum_map_erase (fun a => POW2 (getExponent a.bytes)) ha
  have hle : blockBytes (live.filter fun b => b.ptr ≠ a.ptr) ≤ blockBytes (live.erase a) :=
    (hsub.map _).sum_le_sum fun _ _ => Nat.zero_le _
  unfold blockBytes at *
  omega

/-- What `mm_create` fixes about the size: it is less than the next power of two, and
a block more does not wrap the count around. -/
structure Sized (r : Region) (m : Manager) : Prop where
  fits : m.size ≤ r.totalSize
  room : m.treeStart + m.size = r.startAddress + r.totalSize
  wraps : m.size + POW2 17 < 2 ^ 64
  tree : ∀ e ≤ 17, POW2 e ≤ m.size → e ≤ m.maxExp

theorem growMax_stop (totalSize left computedMax : Nat)
    (h : growMax totalSize left computedMax < computedMax + left) :
    totalSize < POW2 (growMax totalSize left computedMax + 1) := by
  induction left generalizing computedMax with
  | zero => exact absurd h (Nat.lt_irrefl _)
  | succ left ih =>
    rw [growMax] at h ⊢
    split
    · next hle =>
      rw [if_pos hle] at h
      exact ih (computedMax + 1) (by omega)
    · next hgt => exact Nat.not_le.mp hgt

theorem mm_create_sized {r : Region} {bytes : Nat → UInt8} {m : Manager}
    (h : mm_create r bytes = some m) : Sized r m := by
  have hroom := (mm_create_spec h).2.2.2.1
  have hstop := growMax_stop r.totalSize (MAX_EXP - MIN_EXP) MIN_EXP
  obtain ⟨-, hhigh⟩ := growMax_spec r.totalSize (MAX_EXP - MIN_EXP) MIN_EXP
  unfold mm_create at h
  dsimp only at h
  split_ifs at h with h₀ h₁ h₂
  cases h
  have htotal := r.totalSize_le
  generalize growMax r.totalSize (MAX_EXP - MIN_EXP) MIN_EXP = e at *
  rcases Nat.lt_or_ge e MAX_EXP with hlt | hge
  · have hless := hstop (by unfold MAX_EXP MIN_EXP at *; omega)
    have hpow : POW2 (e + 1) ≤ POW2 MAX_EXP := Nat.pow_le_pow_right (by decide) hlt
    have hmax : POW2 MAX_EXP + POW2 17 < 2 ^ 64 := by decide
    refine ⟨Nat.sub_le _ _, hroom, ?_, fun x _ hx => ?_⟩
    · dsimp only
      omega
    · have hxe : POW2 x < POW2 (e + 1) := (hx.trans (Nat.sub_le _ _)).trans_lt hless
      exact Nat.lt_succ_iff.mp ((Nat.pow_lt_pow_iff_right (by decide)).mp hxe)
  · obtain rfl : e = MAX_EXP := Nat.le_antisymm hhigh hge
    have hnodes : POW2 17 < structSize + (POW2 (MAX_EXP - MIN_EXP + 1) - 1) := by decide
    refine ⟨Nat.sub_le _ _, hroom, ?_, fun x hx _ => hx.trans ?_⟩
    · dsimp only
      omega
    · dsimp only
      decide

theorem Sized.of_same {r : Region} {m m' : Manager} (h : Sized r m) (hs : SameShape m m') :
    Sized r m' := by
  obtain ⟨hfits, hroom, hwraps, htree⟩ := h
  refine ⟨hs.size ▸ hfits, ?_, hs.size ▸ hwraps, ?_⟩
  · rw [hs.treeStart, hs.size]
    exact hroom
  · rw [hs.size, hs.maxExp]
    exact htree

/-- What a run over `r` keeps while the blocks fit in what is left. -/
structure Rounded (r : Region) (h : Heap) : Prop where
  sound : Sound h
  sized : Sized r h.manager
  within : h.manager.used ≤ h.manager.size
  enough : blockBytes h.live ≤ h.manager.used

theorem Rounded.reports {r : Region} {h : Heap} (hi : Rounded r h) : ReportsBytes r h := by
  have hsize := hi.sound.shaped.size
  refine ⟨(sub64_whole hsize (hi.within.trans_lt hsize)).mpr hi.within, ?_, hi.sized.fits, ?_,
    hi.enough⟩
  · refine Nat.le_trans (List.sum_le_sum fun a ha => ?_) hi.enough
    exact (getExponent_spec (hi.sound.placed a ha).small).1
  · exact Nat.eq_sub_of_add_eq' hi.sized.room

theorem mm_alloc_none {m : Manager} {bytes : Nat}
    (h : ¬ (Admitted m bytes ∧ (nodeFor (getExponent bytes) m).isSome)) :
    mm_alloc bytes m = (none, m) := by
  unfold mm_alloc
  by_cases hno : sub64 m.size m.used < bytes ∨ bytes = 0 ∨ POW2 17 < bytes
  · exact if_pos hno
  · rw [if_neg hno]
    have hnone : nodeFor (getExponent bytes) m = none := by
      rw [← Option.not_isSome_iff_eq_none]
      exact fun hsome => h ⟨hno, hsome⟩
    dsimp only
    rw [hnone]

/-- Any node that is found is counted. -/
theorem mm_alloc_counts {m : Manager} {bytes : Nat} (had : Admitted m bytes)
    (hnode : (nodeFor (getExponent bytes) m).isSome) :
    (mm_alloc bytes m).2.used = add64 m.used (POW2 (getExponent bytes)) := by
  obtain ⟨nodo, hnode⟩ := Option.isSome_iff_exists.mp hnode
  have hused : (setSplitedChildren nodo (splitTree nodo m)).used = m.used := by
    have hsplit := (splitLoop_spec (Nat.le_refl nodo) m).2.1
    unfold setSplitedChildren
    split
    · exact hsplit
    · exact hsplit
  unfold mm_alloc
  rw [if_neg had]
  dsimp only
  rw [hnode]
  dsimp only
  rw [hused]
  split <;> rfl

theorem rounded_alloc {r : Region} {h : Heap} (hi : Rounded r h) {bytes : Nat}
    (hok : RoundsInside h (.mm_alloc bytes)) : Rounded r (exec h (.mm_alloc bytes)) := by
  by_cases hfound : Admitted h.manager bytes ∧ (nodeFor (getExponent bytes) h.manager).isSome
  · obtain ⟨had, hnode⟩ := hfound
    have hroom := hok had hnode
    have hsmall : bytes ≤ POW2 17 := Nat.not_lt.mp fun hl => had (.inr (.inr hl))
    have hexp : getExponent bytes ≤ h.manager.maxExp :=
      hi.sized.tree _ (getExponent_spec hsmall).2.2 (by omega)
    have hfits : Fits h (.mm_alloc bytes) := fun _ => hexp
    obtain ⟨hsound, hs⟩ := sound_alloc hi.sound hfits
    have hused := mm_alloc_counts had hnode
    rw [add64_of_lt (hroom.trans_lt hi.sound.shaped.size), ← exec_alloc_manager] at hused
    refine ⟨hsound, hi.sized.of_same hs, ?_, ?_⟩
    · rw [hused, hs.size]
      exact hroom
    · have henough := hi.enough
      rw [hused, exec]
      split
      · exact henough.trans (Nat.le_add_right _ _)
      · simp only [blockBytes, List.map_cons, List.sum_cons] at henough ⊢
        omega
  · have he : exec h (.mm_alloc bytes) = h := by rw [exec, mm_alloc_none hfound]
    rwa [he]

/-- A free takes off no more than the block. -/
theorem freedExponent_le {m : Manager} {a : Allocation} (hp : Placed m a) :
    freedExponent m (levelFor m a.bytes) ≤ getExponent a.bytes := by
  have hlevel := levelFor_exponent hp.exponent
  unfold freedExponent
  split <;> omega

theorem rounded_free {r : Region} {h : Heap} (hi : Rounded r h) {ptr : Addr}
    (hlive : FreesLive h (.mm_free ptr)) : Rounded r (exec h (.mm_free ptr)) := by
  obtain ⟨hsound, hs⟩ := sound_free hi.sound hlive
  obtain ⟨a, ha, rfl⟩ := hlive
  obtain ⟨-, -, hused, -⟩ := free_live hi.sound ha
  have hfreed : 2 ^ freedExponent h.manager (levelFor h.manager a.bytes) ≤
      POW2 (getExponent a.bytes) :=
    Nat.pow_le_pow_right (by decide) (freedExponent_le (hi.sound.placed a ha))
  generalize 2 ^ freedExponent h.manager (levelFor h.manager a.bytes) = freed at hused hfreed
  have hblocks := blockBytes_filter ha
  have henough := hi.enough
  have hwithin := hi.within
  have hsize := hs.size
  rw [sub64_of_le (by omega) (hwithin.trans_lt hi.sound.shaped.size)] at hused
  refine ⟨hsound, hi.sized.of_same hs, ?_, ?_⟩
  · dsimp only [exec] at hsize ⊢
    omega
  · dsimp only [exec]
    omega

theorem rounded_exec {r : Region} {h : Heap} (hi : Rounded r h) {call : HeapCall}
    (hlive : FreesLive h call) (hok : RoundsInside h call) : Rounded r (exec h call) := by
  cases call with
  | mm_alloc bytes => exact rounded_alloc hi hok
  | mm_free ptr => exact rounded_free hi hlive

theorem roundsInside_of_reports {r : Region} {h : Heap} (hi : Rounded r h) {call : HeapCall}
    (hr : ReportsBytes r (exec h call)) : RoundsInside h call := by
  cases call with
  | mm_free ptr => trivial
  | mm_alloc bytes =>
    intro had hnode
    have hsmall : bytes ≤ POW2 17 := Nat.not_lt.mp fun hl => had (.inr (.inr hl))
    have hpow : POW2 (getExponent bytes) ≤ POW2 17 :=
      Nat.pow_le_pow_right (by decide) (getExponent_spec hsmall).2.2
    have hwraps := hi.sized.wraps
    have hwithin := hi.within
    have hsize := (mm_alloc_shape bytes h.manager).size
    have hused := mm_alloc_counts had hnode
    rw [add64_of_lt (by omega)] at hused
    have hwhole := hr.whole
    dsimp only [mm_info] at hwhole
    rw [exec_alloc_manager, hsize, hused, sub64_whole (by omega) (by omega)] at hwhole
    exact hwhole

theorem reports_bytes_iff {r : Region} {bytes : Nat → UInt8} {m : Manager}
    (hm : mm_create r bytes = some m) {calls : List HeapCall}
    (hlive : Meets exec FreesLive ⟨m, []⟩ calls) :
    (∀ seen, seen <+: calls → ReportsBytes r (run exec ⟨m, []⟩ seen)) ↔
      Meets exec RoundsInside ⟨m, []⟩ calls := by
  obtain ⟨hsound, hused, -, -, -⟩ := mm_create_spec hm
  have hi : Rounded r ⟨m, []⟩ :=
    ⟨hsound, mm_create_sized hm, hused ▸ Nat.zero_le _, hused ▸ Nat.le_refl 0⟩
  exact everywhere_iff_meets (fun _ h => h.reports) (fun _ _ h hl hok => rounded_exec h hl hok)
    (fun _ _ h _ hr => roundsInside_of_reports h hr) hi hlive

end buddy_heap

/-- `bitmap.c` never reports bytes: its numbers are right when they are taken for blocks. `buddy.c`
reports what is expected in every state of a run as long as the blocks it gives fit in what is
left. -/
theorem mm_info_reports_bytes_iff {r : Region} :
    (∀ {m : bitmap_heap.Manager}, bitmap_heap.mm_create r = some m → ∀ calls : List HeapCall,
      let h := run bitmap_heap.exec ⟨m, []⟩ calls
      ¬ bitmap_heap.ReportsBytes r h ∧
        Reports r.totalSize (bitmap_heap.room h) (bitmap_heap.taken h) (bitmap_heap.requested h)
          (bitmap_heap.inBytes (bitmap_heap.mm_info h.manager))) ∧
    ∀ {bytes : Nat → UInt8} {m : buddy_heap.Manager}, buddy_heap.mm_create r bytes = some m →
      ∀ calls : List HeapCall, Meets buddy_heap.exec buddy_heap.FreesLive ⟨m, []⟩ calls →
      ((∀ seen, seen <+: calls →
          buddy_heap.ReportsBytes r (run buddy_heap.exec ⟨m, []⟩ seen)) ↔
        Meets buddy_heap.exec buddy_heap.RoundsInside ⟨m, []⟩ calls) :=
  ⟨fun hm calls => bitmap_heap.mm_info_counts_blocks hm calls,
    fun hm _ hlive => buddy_heap.reports_bytes_iff hm hlive⟩

/-- A request for two bytes, and two for 16 bytes with a free between them. -/
theorem mm_info_reports_bytes_of_small_requests :
    ¬ bitmap_heap.ReportsBytes ⟨64, 400, by decide⟩
      (run bitmap_heap.exec ⟨⟨fun _ => .FREE, 101, 5, 0⟩, []⟩ [.mm_alloc 2]) ∧
    ∀ seen, seen <+: [HeapCall.mm_alloc 16, .mm_free 119, .mm_alloc 16] →
      buddy_heap.ReportsBytes ⟨64, 100, by decide⟩
        (run buddy_heap.exec (buddy_heap.heapOver 100 (by decide) (by decide)) seen) := by
  have hbitmap := (mm_info_reports_bytes_iff (r := ⟨64, 400, by decide⟩)).1 rfl [.mm_alloc 2]
  have hbuddy := (mm_info_reports_bytes_iff (r := ⟨64, 100, by decide⟩)).2
    (buddy_heap.heapOver_created 100 (by decide) (by decide))
    [HeapCall.mm_alloc 16, .mm_free 119, .mm_alloc 16] (by decide +kernel)
  refine ⟨hbitmap.1, hbuddy.mpr ?_⟩
  exact ⟨fun _ _ => by decide +kernel, trivial, fun _ _ => by decide +kernel, trivial⟩

/-- Five blocks of 64 bytes are reported as 5; and two blocks of 16 bytes and one for 13 are more
than the 45 bytes there are. -/
theorem mm_info_reports_too_little_and_too_much :
    (¬ ∀ (r : Region) (m : bitmap_heap.Manager), bitmap_heap.mm_create r = some m →
      ∀ calls, Meets bitmap_heap.exec bitmap_heap.FreesLive ⟨m, []⟩ calls →
        bitmap_heap.ReportsBytes r (run bitmap_heap.exec ⟨m, []⟩ calls)) ∧
    ¬ ∀ (r : Region) (bytes : Nat → UInt8) (m : buddy_heap.Manager),
      buddy_heap.mm_create r bytes = some m →
      ∀ calls, Meets buddy_heap.exec buddy_heap.FreesLive ⟨m, []⟩ calls →
        buddy_heap.ReportsBytes r (run buddy_heap.exec ⟨m, []⟩ calls) := by
  constructor
  · intro h
    have hr := h ⟨64, 400, by decide⟩ _ rfl [.mm_alloc 2] ⟨trivial, trivial⟩
    exact absurd hr.size_in_bytes (by decide)
  · intro h
    have hr := h _ _ _ (buddy_heap.heapOver_created 100 (by decide) (by decide))
      [.mm_alloc 16, .mm_alloc 16, .mm_alloc 13] (by decide +kernel)
    exact absurd hr.whole (by decide +kernel)

end bare_bones
