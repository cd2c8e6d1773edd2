-- What `buddy.c` counts: `used` is the size of the `USED` nodes as long as only the
-- whole tree is freed and each block that is taken fits in what is left.
import BareBones.BuddySafety
import Mathlib.Algebra.BigOperators.Group.Finset.Basic
import Mathlib.Algebra.Order.BigOperators.Group.Finset

namespace bare_bones.buddy_heap

open bare_bones level_tree extents runs

/-! ## The bytes that are used -/

def usedNodes (m : Manager) : Finset Nat :=
  (Finset.range m.totalNodes).filter fun i => m.tree i = USED

/-- The sizes of the `USED` nodes. -/
def usedBytes (m : Manager) : Nat := ∑ i ∈ usedNodes m, 2 ^ (m.maxExp - level i)

theorem usedBytes_taken {m m' : Manager} {d k : Nat} (hk : k < 2 ^ d)
    (hlt : index d k < m.totalNodes) (ho : Offered m (index d k))
    (h : Taken m m' (index d k)) : usedBytes m' = usedBytes m + 2 ^ (m.maxExp - d) := by
  have hnot : index d k ∉ usedNodes m := fun hx => by
    have := ho.1.symm.trans (Finset.mem_filter.mp hx).2
    exact absurd this (by decide)
  have hnodes : usedNodes m' = insert (index d k) (usedNodes m) := by
    ext i
    rw [Finset.mem_insert, usedNodes, usedNodes, Finset.mem_filter, Finset.mem_filter,
      used_taken ho h, h.shape.totalNodes, Finset.mem_range]
    constructor
    · rintro ⟨hi, rfl | hu⟩
      · exact .inl rfl
      · exact .inr ⟨hi, hu⟩
    · rintro (rfl | ⟨hi, hu⟩)
      · exact ⟨hlt, .inl rfl⟩
      · exact ⟨hi, .inr hu⟩
  rw [usedBytes, usedBytes, hnodes, h.shape.maxExp, Finset.sum_insert hnot, level_index hk,
    Nat.add_comm]

theorem usedBytes_freed {m m' : Manager} {d k : Nat} (hk : k < 2 ^ d) (hs : SameShape m m')
    (hlt : index d k < m.totalNodes) (hu : m.tree (index d k) = USED)
    (h : ∀ i, m'.tree i = USED ↔ m.tree i = USED ∧ i ≠ index d k) :
    usedBytes m' + 2 ^ (m.maxExp - d) = usedBytes m := by
  have hin : index d k ∈ usedNodes m := Finset.mem_filter.mpr ⟨Finset.mem_range.mpr hlt, hu⟩
  have hnodes : usedNodes m' = (usedNodes m).erase (index d k) := by
    ext i
    rw [Finset.mem_erase, usedNodes, usedNodes, Finset.mem_filter, Finset.mem_filter, h,
      hs.totalNodes]
    exact ⟨fun ⟨h₁, h₂, h₃⟩ => ⟨h₃, h₁, h₂⟩, fun ⟨h₁, h₂, h₃⟩ => ⟨h₂, h₃, h₁⟩⟩
  have hsum := Finset.sum_erase_add (usedNodes m) (fun i => 2 ^ (m.maxExp - level i)) hin
  rw [level_index hk] at hsum
  rw [usedBytes, usedBytes, hnodes, hs.maxExp]
  exact hsum

/-- The calls that keep the count: a block that is taken fits in what is left, and
the only block that is freed is the whole tree. -/
def Counted (h : Heap) : HeapCall → Prop
  | .mm_alloc bytes => Admitted h.manager bytes → getExponent bytes ≤ h.manager.maxExp ∧
      ((∃ k < 2 ^ levelFor h.manager bytes,
          Offered h.manager (index (levelFor h.manager bytes) k)) →
        POW2 (getExponent bytes) ≤ h.manager.size - h.manager.used)
  | .mm_free ptr => ∃ a ∈ h.live, a.ptr = ptr ∧ a.node = 0

theorem Counted.fits {h : Heap} {call : HeapCall} (hc : Counted h call) : Fits h call := by
  cases call with
  | mm_alloc bytes => exact fun had => (hc had).1
  | mm_free ptr =>
    obtain ⟨a, ha, hp, -⟩ := hc
    exact ⟨a, ha, hp⟩

structure Balanced (m : Manager) : Prop where
  sum : m.used = usedBytes m
  fits : m.used ≤ m.size

theorem balanced_alloc {h : Heap} (hi : Sound h) (hb : Balanced h.manager) {bytes : Nat}
    (hc : Counted h (.mm_alloc bytes)) : Balanced (mm_alloc bytes h.manager).2 := by
  rcases mm_alloc_spec hi.shaped hc.fits with ⟨hnull, -⟩ | ⟨had, k, m', hk, hm⟩
  · rw [hnull]
    exact hb
  · obtain ⟨hexp, hroom⟩ := hc had
    have hroom := hroom ⟨k, hk.place, hk.offered⟩
    have hsmall : bytes ≤ POW2 17 := Nat.not_lt.mp fun hl => had (.inr (.inr hl))
    have hlt := buddy_heap.node_lt hi.shaped hsmall hk.place
    have hpos := two_pow_pos (getExponent bytes)
    rw [POW2_eq] at hroom
    have hfits : h.manager.used + 2 ^ getExponent bytes ≤ h.manager.size := by omega
    have hused : m'.used = h.manager.used + 2 ^ getExponent bytes := by
      rw [hk.used]
      exact add64_of_lt (hfits.trans_lt hi.shaped.size)
    rw [hm]
    refine ⟨?_, ?_⟩
    · dsimp only
      rw [hused, usedBytes_taken hk.place hlt hk.offered hk.taken, levelFor_exponent hexp, hb.sum]
    · dsimp only
      rw [hused, hk.taken.shape.size]
      exact hfits

theorem balanced_free {h : Heap} (hi : Sound h) (hb : Balanced h.manager) {a : Allocation}
    (ha : a ∈ h.live) (hroot : a.node = 0) : Balanced (mm_free a.ptr h.manager) := by
  have hlt := (hi.placed a ha).node_lt hi.shaped
  obtain ⟨-, hs, hused, hiff⟩ := free_live hi ha
  obtain ⟨k, hk, hblock⟩ := (hi.placed a ha).block
  obtain ⟨hd, rfl⟩ := index_inj hblock.place (by decide : 0 < 2 ^ 0) (hk.symm.trans hroot)
  rw [hk] at hlt hiff
  have hsum := usedBytes_freed hblock.place hs hlt hblock.used hiff
  rw [hd, Nat.sub_zero] at hsum
  rw [hd, freedExponent, if_pos rfl, sub64_of_le] at hused
  · have hsum' := hb.sum
    have hfits := hb.fits
    have hsize := hs.size
    have hpos := two_pow_pos h.manager.maxExp
    exact ⟨by omega, by omega⟩
  · have hsum' := hb.sum
    omega
  · exact hb.fits.trans_lt hi.shaped.size

theorem exec_alloc_manager (h : Heap) (bytes : Nat) :
    (exec h (.mm_alloc bytes)).manager = (mm_alloc bytes h.manager).2 := by
  rw [exec]
  split <;> next he => rw [he]

theorem balanced_exec {h : Heap} (hi : Sound h) (hb : Balanced h.manager) {call : HeapCall}
    (hc : Counted h call) : Balanced (exec h call).manager := by
  cases call with
  | mm_alloc bytes =>
    rw [exec_alloc_manager]
    exact balanced_alloc hi hb hc
  | mm_free ptr =>
    obtain ⟨a, ha, rfl, hroot⟩ := hc
    exact balanced_free hi hb ha hroot

/-- What the manager counts and reports. -/
structure Accounts (h : Heap) : Prop where
  sum : h.manager.used = usedBytes h.manager
  fits : h.manager.used ≤ h.manager.size
  left : sub64 h.manager.size h.manager.used = h.manager.size - h.manager.used
  info : (mm_info h.manager).used + (mm_info h.manager).free = (mm_info h.manager).size
  restores : ∀ bytes ptr m, mm_alloc bytes h.manager = (some ptr, m) →
    Counted h (.mm_alloc bytes) → Counted (exec h (.mm_alloc bytes)) (.mm_free ptr) →
    (mm_free ptr m).used = h.manager.used

/-- The root is `USED` only when no other node is. -/
theorem root_of_used {m : Manager} (ht : Tidy m) (h0 : m.tree 0 = USED) {d k : Nat}
    (hk : k < 2 ^ d) (hlt : index d k < m.totalNodes) (hu : m.tree (index d k) = USED) :
    d = 0 ∧ k = 0 := by
  rcases Nat.eq_zero_or_pos d with rfl | hpos
  · exact ⟨rfl, Nat.lt_one_iff.mp hk⟩
  · have habove := above_index hpos 0 k
    rw [Nat.zero_add, Nat.div_eq_of_lt hk, index_zero] at habove
    have hs := h0.symm.trans (ht.split_above habove hlt (by rw [hu]; decide))
    exact absurd hs (by decide)

theorem accounts_restores {h : Heap} (hi : Sound h) (hb : Balanced h.manager) {bytes : Nat}
    {ptr : Addr} {m : Manager} (hm : mm_alloc bytes h.manager = (some ptr, m))
    (hc : Counted h (.mm_alloc bytes))
    (hf : Counted (exec h (.mm_alloc bytes)) (.mm_free ptr)) :
    (mm_free ptr m).used = h.manager.used := by
  have hi' := (sound_alloc hi hc.fits).1
  have hb' := balanced_exec hi hb hc
  have hmanager : (exec h (.mm_alloc bytes)).manager = m := by rw [exec, hm]
  obtain ⟨a, ha, rfl, hroot⟩ := hf
  have hb'' := balanced_free hi' hb' ha hroot
  obtain ⟨-, hs, -, hiff⟩ := free_live hi' ha
  have hu := (hi'.placed a ha).used
  have htidy := hi'.tidy
  have hlt := (hi'.placed a ha).node_lt hi'.shaped
  rw [hmanager] at hb'' hs hiff hu htidy hlt
  rw [hroot] at hiff hu hlt
  rcases mm_alloc_spec hi.shaped hc.fits with ⟨hnull, -⟩ | ⟨had, k, m', hk, hm'⟩
  · rw [hnull] at hm
    cases hm
  obtain rfl : m' = m := congrArg Prod.snd (hm'.symm.trans hm)
  have hsmall : bytes ≤ POW2 17 := Nat.not_lt.mp fun hl => had (.inr (.inr hl))
  have hxlt := buddy_heap.node_lt hi.shaped hsmall hk.place
  -- the block that comes back is the one that was taken: both are the root
  obtain ⟨hd, rfl⟩ := root_of_used htidy hu hk.place (hk.taken.shape.totalNodes ▸ hxlt)
    hk.taken.node
  have htake := usedBytes_taken hk.place hxlt hk.offered hk.taken
  have hgive := usedBytes_freed (d := 0) (k := 0) (by decide) hs hlt hu hiff
  rw [hk.taken.shape.maxExp] at hgive
  rw [hd] at htake
  have h₁ := hb''.sum
  have h₂ := hb.sum
  omega

theorem Balanced.accounts {h : Heap} (hi : Sound h) (hb : Balanced h.manager) : Accounts h := by
  have hleft : sub64 h.manager.size h.manager.used = h.manager.size - h.manager.used :=
    sub64_of_le hb.fits hi.shaped.size
  refine ⟨hb.sum, hb.fits, hleft, ?_, fun bytes ptr m hm hc hf =>
    accounts_restores hi hb hm hc hf⟩
  unfold mm_info
  dsimp only
  rw [hleft]
  exact Nat.add_sub_of_le hb.fits

/-- While the calls are counted, `used` is the size of the `USED` nodes. -/
theorem used_counts_the_used_nodes {r : Region} {bytes : Nat → UInt8} {m : Manager}
    (hm : mm_create r bytes = some m) {calls : List HeapCall}
    (hc : Meets exec Counted ⟨m, []⟩ calls) : Accounts (run exec ⟨m, []⟩ calls) := by
  obtain ⟨hsound, hused, hfree, -, -⟩ := mm_create_spec hm
  have hnone : usedNodes m = ∅ := by
    apply Finset.filter_eq_empty_iff.mpr
    intro i hi hu
    have := (hfree i (Finset.mem_range.mp hi)).symm.trans hu
    exact absurd this (by decide)
  have hbalanced : Balanced m := by
    refine ⟨?_, hused ▸ Nat.zero_le _⟩
    rw [hused, usedBytes, hnone, Finset.sum_empty]
  obtain ⟨hs, hb⟩ := run_invariant (I := fun h => Sound h ∧ Balanced h.manager)
    (fun h call hi hok => ⟨(sound_exec hi.1 hok.fits).1, balanced_exec hi.1 hi.2 hok⟩)
    ⟨hsound, hbalanced⟩ hc
  exact hb.accounts hs

/-- A heap over `n` bytes that starts at 64. -/
def heapOver (n : Nat) (h : 64 + n ≤ 2 ^ 64) (hs : (mm_create ⟨64, n, h⟩ fun _ => 0).isSome) :
    Heap := ⟨(mm_create ⟨64, n, h⟩ fun _ => 0).get hs, []⟩

theorem heapOver_created (n : Nat) (h : 64 + n ≤ 2 ^ 64)
    (hs : (mm_create ⟨64, n, h⟩ fun _ => 0).isSome) :
    mm_create ⟨64, n, h⟩ (fun _ => 0) = some (heapOver n h hs).manager := (Option.some_get hs).symm

/-- The whole tree of 64 bytes is taken and freed, and then a block of 16. -/
theorem used_counts_the_used_nodes_after_the_root :
    Accounts (run exec (heapOver 127 (by decide) (by decide))
      [.mm_alloc 40, .mm_free 119, .mm_alloc 16]) := by
  have hc : Meets exec Counted (heapOver 127 (by decide) (by decide))
      [.mm_alloc 40, .mm_free 119, .mm_alloc 16] := by
    refine ⟨fun _ => ⟨by decide +kernel, fun _ => by decide +kernel⟩, ?_,
      fun _ => ⟨by decide +kernel, fun _ => by decide +kernel⟩, trivial⟩
    exact ⟨⟨119, 40, 0⟩, by decide +kernel, rfl, rfl⟩
  exact used_counts_the_used_nodes (heapOver_created 127 (by decide) (by decide)) hc

/-- The block of 16 bytes that comes back takes 8 off the count. -/
theorem a_free_takes_off_half_a_block :
    ¬ ∀ (r : Region) (bytes : Nat → UInt8) (m : Manager), mm_create r bytes = some m →
      ∀ calls, Meets exec FreesLive ⟨m, []⟩ calls →
        (run exec ⟨m, []⟩ calls).manager.used = usedBytes (run exec ⟨m, []⟩ calls).manager := by
  intro hall
  have h := hall _ _ _ (heapOver_created 100 (by decide) (by decide))
    [.mm_alloc 16, .mm_free 119] (by decide +kernel)
  exact absurd h (by decide +kernel)

end bare_bones.buddy_heap
