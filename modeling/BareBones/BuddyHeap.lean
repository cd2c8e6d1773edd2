-- Histories of calls of `buddy.c` in which each `mm_free` is given a block that
-- is live: which node each call takes or gives back, and what they keep.
import BareBones.BuddyTree
import BareBones.Lib.Runs

namespace bare_bones.buddy_heap

open bare_bones level_tree extents runs

/-! ## Exponents -/

theorem growExponent_spec {size left e : Nat} (h : size ≤ 2 ^ (e + left)) :
    size ≤ 2 ^ growExponent size left e ∧ e ≤ growExponent size left e ∧
      (e < growExponent size left e → 2 ^ (growExponent size left e - 1) < size) := by
  induction left generalizing e with
  | zero => exact ⟨h, Nat.le_refl _, fun hlt => absurd hlt (Nat.lt_irrefl _)⟩
  | succ left ih =>
    rw [growExponent]
    split
    · next hlt =>
      obtain ⟨h₁, h₂, h₃⟩ := ih (e := e + 1) (by rwa [Nat.add_assoc, Nat.add_comm 1])
      refine ⟨h₁, Nat.le_of_succ_le h₂, fun _ => ?_⟩
      rcases Nat.lt_or_eq_of_le h₂ with h | h
      · exact h₃ h
      · rw [← h, Nat.add_sub_cancel]
        exact hlt
    · next hge => exact ⟨Nat.not_lt.mp hge, Nat.le_refl _, fun hlt => absurd hlt (Nat.lt_irrefl _)⟩

/-- The smallest block of at least 16 bytes that is large enough. -/
theorem getExponent_spec {size : Nat} (h : size ≤ POW2 17) :
    size ≤ 2 ^ getExponent size ∧ MIN_EXP ≤ getExponent size ∧ getExponent size ≤ 17 := by
  have hle : size ≤ 2 ^ (MIN_EXP + 60) := h.trans (Nat.pow_le_pow_right (by decide) (by decide))
  obtain ⟨h₁, h₂, h₃⟩ := growExponent_spec hle
  refine ⟨h₁, h₂, ?_⟩
  by_contra hn
  have hlt := h₃ (lt_of_lt_of_le (by decide) (Nat.not_le.mp hn))
  have hpow : 2 ^ 17 ≤ 2 ^ (getExponent size - 1) :=
    Nat.pow_le_pow_right (by decide) (by omega)
  exact absurd (hpow.trans_lt hlt) (Nat.not_lt.mpr h)

/-- The largest exponent up to a bound that divides an address. -/
theorem le_exponentFrom {address e bound : Nat} (he : e ≤ bound) (h : 2 ^ e ∣ address) :
    e ≤ exponentFrom address bound := by
  induction bound with
  | zero => exact he
  | succ bound ih =>
    rw [exponentFrom]
    split
    · next hne =>
      rcases Nat.lt_or_eq_of_le he with hlt | rfl
      · exact ih (Nat.lt_succ_iff.mp hlt)
      · exact absurd (Nat.mod_eq_zero_of_dvd h) hne
    · exact he

theorem exponentFrom_le (address bound : Nat) : exponentFrom address bound ≤ bound := by
  induction bound with
  | zero => exact Nat.le_refl 0
  | succ bound ih =>
    rw [exponentFrom]
    split
    · exact ih.trans (Nat.le_succ bound)
    · exact Nat.le_refl _

/-! ## One call -/

/-- What `mm_create` fixes. -/
structure Shaped (m : Manager) : Prop where
  nodes : m.totalNodes = 2 ^ (m.maxExp - 3) - 1
  least : MIN_EXP ≤ m.maxExp
  most : m.maxExp ≤ MAX_EXP
  size : m.size < 2 ^ 64
  start : 0 < m.treeStart

theorem Shaped.of_shape {m m' : Manager} (h : Shaped m) (hs : SameShape m m') : Shaped m' := by
  obtain ⟨h₁, h₂, h₃, h₄, h₅⟩ := h
  refine ⟨?_, ?_, ?_, ?_, ?_⟩
  · rwa [hs.totalNodes, hs.maxExp]
  · rwa [hs.maxExp]
  · rwa [hs.maxExp]
  · rwa [hs.size]
  · rwa [hs.treeStart]

/-- The level of the blocks for a request. -/
def levelFor (m : Manager) (bytes : Nat) : Nat := m.maxExp - getExponent bytes

def Admitted (m : Manager) (bytes : Nat) : Prop :=
  ¬ (sub64 m.size m.used < bytes ∨ bytes = 0 ∨ POW2 17 < bytes)

instance (m : Manager) (bytes : Nat) : Decidable (Admitted m bytes) :=
  inferInstanceAs (Decidable (¬ _))

theorem node_lt {m : Manager} (hm : Shaped m) {bytes k : Nat} (hbytes : bytes ≤ POW2 17)
    (hk : k < 2 ^ levelFor m bytes) : index (levelFor m bytes) k < m.totalNodes := by
  rw [hm.nodes]
  refine index_lt ?_ hk
  have hleast := hm.least
  have hexp := (getExponent_spec hbytes).2.1
  unfold levelFor MIN_EXP at *
  omega

/-- The call takes the node `index (levelFor m bytes) k`, of `2 ^ e` bytes. -/
structure Takes (m : Manager) (bytes : Nat) (m' : Manager) (k : Nat) : Prop where
  place : k < 2 ^ levelFor m bytes
  chosen : nodeFor (getExponent bytes) m = some (index (levelFor m bytes) k)
  offered : Offered m (index (levelFor m bytes) k)
  first : ∀ j < k, ¬ Offered m (index (levelFor m bytes) j)
  taken : Taken m m' (index (levelFor m bytes) k)
  used : m'.used = add64 m.used (2 ^ getExponent bytes)

/-- `mm_alloc` takes the leftmost node of the level that is offered. It returns
`NULL` when there is none, and also when the block starts past the end. -/
theorem mm_alloc_spec {m : Manager} (hm : Shaped m) {bytes : Nat}
    (he : Admitted m bytes → getExponent bytes ≤ m.maxExp) :
    (mm_alloc bytes m = (none, m) ∧ (Admitted m bytes →
        ∀ k < 2 ^ levelFor m bytes, ¬ Offered m (index (levelFor m bytes) k))) ∨
      Admitted m bytes ∧ ∃ k m', Takes m bytes m' k ∧ mm_alloc bytes m =
        (if m.size ≤ k * 2 ^ getExponent bytes then none
          else some (m.treeStart + k * 2 ^ getExponent bytes), m') := by
  unfold mm_alloc
  by_cases hno : sub64 m.size m.used < bytes ∨ bytes = 0 ∨ POW2 17 < bytes
  · exact .inl ⟨if_pos hno, fun had => absurd hno had⟩
  rw [if_neg hno]
  have hexp := he hno
  have hbytes : bytes ≤ POW2 17 := Nat.not_lt.mp fun h => hno (.inr (.inr h))
  have hlevel : (m.maxExp + 2 ^ 8 - getExponent bytes) % 2 ^ 8 = levelFor m bytes := by
    have := hm.most
    unfold levelFor MAX_EXP at *
    omega
  dsimp only
  cases hnode : nodeFor (getExponent bytes) m with
  | none =>
    rw [nodeFor, hlevel] at hnode
    exact .inl ⟨rfl, fun _ k hk => findFreeNode_root_none hnode hk⟩
  | some node =>
    right
    have hfind := hnode
    rw [nodeFor, hlevel] at hfind
    obtain ⟨k, hk, rfl, hoffered, hfirst⟩ := findFreeNode_root hfind
    obtain ⟨htaken, hused⟩ := taken_spec (node_lt hm hbytes hk)
    have hoffset : index (levelFor m bytes) k - (2 ^ levelFor m bytes - 1) = k :=
      Nat.add_sub_cancel_left _ _
    dsimp only
    generalize setSplitedChildren _ (splitTree _ m) = m₁ at htaken hused ⊢
    have hs := htaken.shape
    refine ⟨hno, k, { m₁ with used := add64 m₁.used (2 ^ getExponent bytes) },
      ⟨hk, hnode, hoffered, hfirst, ⟨⟨hs.1, hs.2, hs.3, hs.4⟩, htaken.2, htaken.3, htaken.4⟩,
        hused ▸ rfl⟩, ?_⟩
    rw [getNodeLevel, hs.maxExp, hs.size, hs.treeStart, POW2_eq, POW2_eq, ← levelFor, hoffset]
    split <;> rfl

/-- The node at place `k` of level `d`, with a block that starts inside the heap. -/
structure BlockAt (m : Manager) (ptr : Addr) (d k : Nat) : Prop where
  level : d + MIN_EXP ≤ m.maxExp
  place : k < 2 ^ d
  used : m.tree (index d k) = USED
  ptr : ptr = m.treeStart + k * 2 ^ (m.maxExp - d)
  inside : k * 2 ^ (m.maxExp - d) < m.size

/-- From above the node, and with an exponent not below that of the node, the
loop of `getNodeIndex` ends at the node, with one less than its exponent. -/
theorem getNodeIndex_walk {m : Manager} (ht : Tidy m) {ptr : Addr} {d k : Nat}
    (hb : BlockAt m ptr d k) (hlt : index d k < m.totalNodes) {levelExponent node : Nat}
    (hlow : m.maxExp - d ≤ levelExponent) (hhigh : levelExponent ≤ m.maxExp)
    (hnode : Above node (index d k)) :
    getNodeIndex m ptr levelExponent node = some (index d k, m.maxExp - d - 1) := by
  have hlevel := hb.level
  unfold MIN_EXP at hlevel
  induction levelExponent generalizing node with
  | zero => omega
  | succ le ih =>
    have hsplit : m.tree node ≠ USED := by
      rw [ht.split_above hnode hlt (by rw [hb.used]; decide)]
      decide
    have hge : ¬ ptr < m.treeStart := by
      rw [hb.ptr]
      exact Nat.not_lt.mpr (Nat.le_add_right _ _)
    have hoff : ptr - m.treeStart = k * 2 ^ (m.maxExp - d) := by
      rw [hb.ptr]
      exact Nat.add_sub_cancel_left _ _
    rw [getNodeIndex, if_neg hsplit, if_neg hge, hoff, if_neg (Nat.not_le.mpr hb.inside),
      getNodeLevel, POW2_eq, POW2_eq, Nat.add_comm]
    change getNodeIndex m ptr le (index (m.maxExp - (le + 1)) _) = _
    rcases Nat.lt_or_eq_of_le hlow with hl | hl
    · -- the node of the next exponent is still above
      obtain ⟨n, hn⟩ := Nat.exists_eq_add_of_le (Nat.lt_succ_iff.mp hl)
      have hpow : 2 ^ (le + 1) = 2 ^ (m.maxExp - d) * 2 ^ (n + 1) := by
        rw [hn, Nat.add_assoc, Nat.pow_add]
      have hdiv : k * 2 ^ (m.maxExp - d) / 2 ^ (le + 1) = k / 2 ^ (n + 1) := by
        rw [hpow, Nat.mul_comm k, Nat.mul_div_mul_left _ _ (two_pow_pos _)]
      have hd : d = m.maxExp - (le + 1) + (n + 1) := by omega
      have habove := above_index (Nat.succ_pos n) (m.maxExp - (le + 1)) k
      rw [← hd] at habove
      rw [hdiv]
      exact ih (by omega) (by omega) habove
    · -- the node of the next exponent is the one
      have hdiv : k * 2 ^ (m.maxExp - d) / 2 ^ (le + 1) = k := by
        rw [← hl]
        exact Nat.mul_div_cancel k (two_pow_pos _)
      have hd : m.maxExp - (le + 1) = d := by omega
      obtain ⟨le, rfl⟩ : ∃ l, le = l + 1 := ⟨le - 1, by omega⟩
      rw [hdiv, hd, getNodeIndex, if_pos hb.used, hl, Nat.add_sub_cancel]

/-- The exponent that `mm_free` subtracts for: right for the root only. -/
def freedExponent (m : Manager) (d : Nat) : Nat := if d = 0 then m.maxExp else m.maxExp - d - 1

theorem getNodeIndex_live {m : Manager} (ht : Tidy m) (hm : Shaped m) {ptr : Addr} {d k : Nat}
    (hb : BlockAt m ptr d k) (hlt : index d k < m.totalNodes) :
    getNodeIndex m ptr (getExponentPtr m ptr) 0 = some (index d k, freedExponent m d) := by
  have hlevel := hb.level
  have hleast := hm.least
  have hoff : ptr - m.treeStart = k * 2 ^ (m.maxExp - d) := by
    rw [hb.ptr]
    exact Nat.add_sub_cancel_left _ _
  have hE : getExponentPtr m ptr = exponentFrom (k * 2 ^ (m.maxExp - d)) m.maxExp := by
    rw [getExponentPtr, if_neg, hoff]
    rw [hb.ptr]
    exact Nat.not_lt.mpr (Nat.le_add_right _ _)
  have hlow : m.maxExp - d ≤ getExponentPtr m ptr :=
    hE ▸ le_exponentFrom (Nat.sub_le _ _) (Nat.dvd_mul_left _ _)
  have hhigh : getExponentPtr m ptr ≤ m.maxExp := hE ▸ exponentFrom_le _ _
  unfold MIN_EXP at hlevel hleast
  rcases Nat.eq_zero_or_pos d with rfl | hpos
  · obtain rfl : k = 0 := Nat.lt_one_iff.mp hb.place
    have hM : getExponentPtr m ptr = m.maxExp := Nat.le_antisymm hhigh hlow
    obtain ⟨e, hM'⟩ : ∃ e, m.maxExp = e + 1 := ⟨m.maxExp - 1, by omega⟩
    rw [freedExponent, if_pos rfl, hM, hM', getNodeIndex, if_pos (index_zero ▸ hb.used), index_zero]
  · have habove := above_index hpos 0 k
    rw [Nat.zero_add, Nat.div_eq_of_lt hb.place, index_zero] at habove
    rw [freedExponent, if_neg (Nat.ne_of_gt hpos)]
    exact getNodeIndex_walk ht hb hlt hlow hhigh habove

theorem BlockAt.ptr_ne_zero {m : Manager} (hm : Shaped m) {ptr : Addr} {d k : Nat}
    (hb : BlockAt m ptr d k) : ptr ≠ 0 := by
  rw [hb.ptr]
  exact Nat.ne_of_gt (Nat.lt_of_lt_of_le hm.start (Nat.le_add_right _ _))

/-- `mm_free` of a live block gives back the node of that block and no other. -/
theorem mm_free_spec {m : Manager} (ht : Tidy m) (hm : Shaped m) {ptr : Addr} {d k : Nat}
    (hb : BlockAt m ptr d k) (hlt : index d k < m.totalNodes) :
    Tidy (mm_free ptr m) ∧ SameShape m (mm_free ptr m) ∧
      (mm_free ptr m).used = sub64 m.used (2 ^ freedExponent m d) ∧
      ∀ i, (mm_free ptr m).tree i = USED ↔ m.tree i = USED ∧ i ≠ index d k := by
  have hptr := hb.ptr_ne_zero hm
  obtain ⟨htidy, hs, hu, hused⟩ := freed_spec ht hlt hb.used
  unfold mm_free
  rw [if_neg hptr, getNodeIndex_live ht hm hb hlt]
  refine ⟨⟨htidy.1, htidy.2, htidy.3, htidy.4⟩, ⟨hs.1, hs.2, hs.3, hs.4⟩, ?_, hused⟩
  exact congrArg (sub64 · _) hu

/-! ## Histories -/

/-- A block that `mm_alloc` returned for a request of `bytes`, with the node it chose. -/
structure Allocation where
  ptr : Addr
  bytes : Nat
  node : Nat
  deriving DecidableEq, Repr

/-- The whole block. -/
def Allocation.block (a : Allocation) : Extent := ⟨a.ptr, POW2 (getExponent a.bytes)⟩

/-- The manager with the allocations that are returned and not yet freed. -/
structure Heap where
  manager : Manager
  live : List Allocation

def exec (h : Heap) : HeapCall → Heap
  | .mm_alloc bytes =>
    match mm_alloc bytes h.manager with
    | (none, m) => ⟨m, h.live⟩
    | (some ptr, m) =>
      ⟨m, ⟨ptr, bytes, (nodeFor (getExponent bytes) h.manager).getD 0⟩ :: h.live⟩
  | .mm_free ptr => ⟨mm_free ptr h.manager, h.live.filter fun a => a.ptr ≠ ptr⟩

/-- Only live blocks are freed. -/
def FreesLive (h : Heap) : HeapCall → Prop
  | .mm_alloc _ => True
  | .mm_free ptr => ∃ a ∈ h.live, a.ptr = ptr

instance : ∀ (h : Heap) (call : HeapCall), Decidable (FreesLive h call)
  | _, .mm_alloc _ => isTrue trivial
  | h, .mm_free ptr => inferInstanceAs (Decidable (∃ a ∈ h.live, a.ptr = ptr))

/-- And each request that is admitted fits the whole tree. -/
def Fits (h : Heap) : HeapCall → Prop
  | .mm_alloc bytes => Admitted h.manager bytes → getExponent bytes ≤ h.manager.maxExp
  | .mm_free ptr => ∃ a ∈ h.live, a.ptr = ptr

/-- Where a live allocation is. -/
structure Placed (m : Manager) (a : Allocation) : Prop where
  small : a.bytes ≤ POW2 17
  exponent : getExponent a.bytes ≤ m.maxExp
  block : ∃ k, a.node = index (levelFor m a.bytes) k ∧ BlockAt m a.ptr (levelFor m a.bytes) k

theorem Placed.node_lt {m : Manager} (hm : Shaped m) {a : Allocation} (h : Placed m a) :
    a.node < m.totalNodes := by
  obtain ⟨k, hk, hb⟩ := h.block
  rw [hk]
  exact buddy_heap.node_lt hm h.small hb.place

theorem levelFor_exponent {m : Manager} {bytes : Nat} (h : getExponent bytes ≤ m.maxExp) :
    m.maxExp - levelFor m bytes = getExponent bytes := Nat.sub_sub_self h

theorem levelFor_shape {m m' : Manager} (hs : SameShape m m') (bytes : Nat) :
    levelFor m' bytes = levelFor m bytes := by rw [levelFor, levelFor, hs.maxExp]

/-- An allocation stays where it is as long as its node is `USED`. -/
theorem Placed.of_shape {m m' : Manager} (hs : SameShape m m') {a : Allocation}
    (h : Placed m a) (hu : m'.tree a.node = USED) : Placed m' a := by
  obtain ⟨hsmall, hexp, k, hk, hb⟩ := h
  refine ⟨hsmall, hs.maxExp ▸ hexp, k, ?_, ?_⟩
  · rw [levelFor_shape hs, hk]
  · rw [levelFor_shape hs]
    refine ⟨hs.maxExp ▸ hb.level, hb.place, hk ▸ hu, ?_, ?_⟩
    · rw [hs.treeStart, hs.maxExp, hb.ptr]
    · rw [hs.size, hs.maxExp]
      exact hb.inside

structure Sound (h : Heap) : Prop where
  tidy : Tidy h.manager
  shaped : Shaped h.manager
  placed : ∀ a ∈ h.live, Placed h.manager a
  distinct : h.live.Pairwise fun a b => a.node ≠ b.node

/-- Two blocks of one address are one block. -/
theorem Sound.node_of_ptr {h : Heap} (hi : Sound h) {a b : Allocation} (ha : a ∈ h.live)
    (hb : b ∈ h.live) (hn : a.node = b.node) : a.ptr = b.ptr := by
  obtain ⟨-, -, k, hk, hab⟩ := hi.placed a ha
  obtain ⟨-, -, k', hk', hbb⟩ := hi.placed b hb
  obtain ⟨hd, rfl⟩ := index_inj hab.place hbb.place (hk.symm.trans (hn.trans hk'))
  rw [hab.ptr, hbb.ptr, hd]

theorem sound_alloc {h : Heap} (hi : Sound h) {bytes : Nat} (hf : Fits h (.mm_alloc bytes)) :
    Sound (exec h (.mm_alloc bytes)) ∧ SameShape h.manager (exec h (.mm_alloc bytes)).manager := by
  rcases mm_alloc_spec hi.shaped hf with ⟨hnull, -⟩ | ⟨had, k, m', hk, hm⟩
  · have he : exec h (.mm_alloc bytes) = h := by rw [exec, hnull]
    rw [he]
    exact ⟨hi, .refl _⟩
  · have hsmall : bytes ≤ POW2 17 := Nat.not_lt.mp fun hl => had (.inr (.inr hl))
    have hlt := buddy_heap.node_lt hi.shaped hsmall hk.place
    have hs := hk.taken.shape
    have hexp := hf had
    have htidy := tidy_taken hi.tidy hlt hk.offered hk.taken
    have hold : ∀ a ∈ h.live, Placed m' a := fun a ha => by
      refine (hi.placed a ha).of_shape hs ((used_taken hk.offered hk.taken _).mpr (.inr ?_))
      obtain ⟨k', hk', hb⟩ := (hi.placed a ha).block
      exact hk' ▸ hb.used
    by_cases hpast : h.manager.size ≤ k * 2 ^ getExponent bytes
    · have he : exec h (.mm_alloc bytes) = ⟨m', h.live⟩ := by rw [exec, hm, if_pos hpast]
      rw [he]
      exact ⟨⟨htidy, hi.shaped.of_shape hs, hold, hi.distinct⟩, hs⟩
    · have he : exec h (.mm_alloc bytes) =
          ⟨m', ⟨h.manager.treeStart + k * 2 ^ getExponent bytes, bytes,
            index (levelFor h.manager bytes) k⟩ :: h.live⟩ := by
        rw [exec, hm, if_neg hpast, hk.chosen]
        rfl
      have hlevel : levelFor h.manager bytes + MIN_EXP ≤ h.manager.maxExp := by
        have := (getExponent_spec hsmall).2.1
        unfold levelFor
        omega
      rw [he]
      refine ⟨⟨htidy, hi.shaped.of_shape hs, fun a ha => ?_, ?_⟩, hs⟩
      · rcases List.mem_cons.mp ha with rfl | ha
        · refine ⟨hsmall, hs.maxExp ▸ hexp, k, ?_, ?_⟩
          · dsimp only
            rw [levelFor_shape hs]
          · dsimp only
            rw [levelFor_shape hs]
            refine ⟨hs.maxExp ▸ hlevel, hk.place, hk.taken.node, ?_, ?_⟩
            · rw [hs.treeStart, hs.maxExp, levelFor_exponent hexp]
            · rw [hs.size, hs.maxExp, levelFor_exponent hexp]
              exact Nat.not_le.mp hpast
        · exact hold a ha
      · refine List.pairwise_cons.mpr ⟨fun a ha hn => ?_, hi.distinct⟩
        obtain ⟨k', hk', hb⟩ := (hi.placed a ha).block
        have hused : h.manager.tree a.node = USED := hk' ▸ hb.used
        rw [← hn, hk.offered.1] at hused
        exact absurd hused (by decide)

/-- What a free of a live block does. -/
theorem free_live {h : Heap} (hi : Sound h) {a : Allocation} (ha : a ∈ h.live) :
    Tidy (mm_free a.ptr h.manager) ∧ SameShape h.manager (mm_free a.ptr h.manager) ∧
      (mm_free a.ptr h.manager).used =
        sub64 h.manager.used (2 ^ freedExponent h.manager (levelFor h.manager a.bytes)) ∧
      ∀ i, (mm_free a.ptr h.manager).tree i = USED ↔ h.manager.tree i = USED ∧ i ≠ a.node := by
  have hlt := (hi.placed a ha).node_lt hi.shaped
  obtain ⟨k, hk, hb⟩ := (hi.placed a ha).block
  rw [hk] at hlt ⊢
  exact mm_free_spec hi.tidy hi.shaped hb hlt

theorem sound_free {h : Heap} (hi : Sound h) {ptr : Addr} (hf : Fits h (.mm_free ptr)) :
    Sound (exec h (.mm_free ptr)) ∧ SameShape h.manager (exec h (.mm_free ptr)).manager := by
  obtain ⟨a, ha, rfl⟩ := hf
  obtain ⟨htidy, hs, -, hused⟩ := free_live hi ha
  refine ⟨⟨htidy, hi.shaped.of_shape hs, fun b hb => ?_, hi.distinct.sublist List.filter_sublist⟩,
    hs⟩
  obtain ⟨hb, hne⟩ := List.mem_filter.mp hb
  refine (hi.placed b hb).of_shape hs ((hused _).mpr ⟨?_, fun hn => ?_⟩)
  · obtain ⟨k, hk, hbb⟩ := (hi.placed b hb).block
    exact hk ▸ hbb.used
  · exact of_decide_eq_true hne (hi.node_of_ptr hb ha hn)

theorem sound_exec {h : Heap} (hi : Sound h) {call : HeapCall} (hf : Fits h call) :
    Sound (exec h call) ∧ SameShape h.manager (exec h call).manager := by
  cases call with
  | mm_alloc bytes => exact sound_alloc hi hf
  | mm_free ptr => exact sound_free hi hf

theorem sound_run {h : Heap} (hi : Sound h) {calls : List HeapCall}
    (hf : Meets exec Fits h calls) :
    Sound (run exec h calls) ∧ SameShape h.manager (run exec h calls).manager := by
  induction calls generalizing h with
  | nil => exact ⟨hi, .refl _⟩
  | cons call calls ih =>
    obtain ⟨h₁, hs₁⟩ := sound_exec hi hf.1
    obtain ⟨h₂, hs₂⟩ := ih h₁ hf.2
    exact ⟨h₂, hs₁.trans hs₂⟩

theorem growMax_spec (totalSize left computedMax : Nat) :
    computedMax ≤ growMax totalSize left computedMax ∧
      growMax totalSize left computedMax ≤ computedMax + left := by
  induction left generalizing computedMax with
  | zero => exact ⟨Nat.le_refl _, Nat.le_refl _⟩
  | succ left ih =>
    rw [growMax]
    split
    · obtain ⟨h₁, h₂⟩ := ih (computedMax + 1)
      exact ⟨by omega, by omega⟩
    · exact ⟨Nat.le_refl _, Nat.le_add_right _ _⟩

/-- A new heap: no node but `FREE` ones, and the blocks up to the end of the region. -/
theorem mm_create_spec {r : Region} {bytes : Nat → UInt8} {m : Manager}
    (h : mm_create r bytes = some m) : Sound ⟨m, []⟩ ∧ m.used = 0 ∧
      (∀ i < m.totalNodes, m.tree i = FREE) ∧
      m.treeStart + m.size = r.startAddress + r.totalSize ∧
      m.maxExp = growMax r.totalSize (MAX_EXP - MIN_EXP) MIN_EXP := by
  unfold mm_create at h
  dsimp only at h
  split_ifs at h with h₀ h₁ h₂
  cases h
  obtain ⟨hlow, hhigh⟩ := growMax_spec r.totalSize (MAX_EXP - MIN_EXP) MIN_EXP
  have hsize := r.totalSize_le
  generalize growMax r.totalSize (MAX_EXP - MIN_EXP) MIN_EXP = e at *
  have hnodes : POW2 (e - MIN_EXP + 1) - 1 = 2 ^ (e - 3) - 1 := by
    rw [POW2_eq]
    unfold MIN_EXP at *
    congr 2
    omega
  have hfree : ∀ i < POW2 (e - MIN_EXP + 1) - 1,
      (if i < POW2 (e - MIN_EXP + 1) - 1 then FREE else bytes i) = FREE := fun i hi => if_pos hi
  have hroom : structSize + (POW2 (e - MIN_EXP + 1) - 1) ≤ r.totalSize := by omega
  refine ⟨⟨⟨⟨_, hnodes⟩, fun i hi => .inl (hfree i hi), fun i hi _ _ => hfree i hi,
    fun i hi hs => ?_⟩, ⟨hnodes, hlow, hhigh, ?_, ?_⟩, fun a ha => ?_, List.Pairwise.nil⟩,
    rfl, hfree, ?_, rfl⟩
  · exact absurd ((hfree i hi).symm.trans hs) (by decide)
  · unfold structSize at hroom ⊢
    dsimp only
    omega
  · exact Nat.lt_of_lt_of_le (Nat.pos_of_ne_zero h₂)
      ((Nat.le_add_right _ _).trans (Nat.le_add_right _ _))
  · cases ha
  · dsimp only
    rw [Nat.add_assoc, Nat.add_assoc, ← Nat.add_assoc structSize, Nat.add_sub_cancel' hroom]

end bare_bones.buddy_heap
