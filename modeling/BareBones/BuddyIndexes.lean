-- The indexes of `buddy.c`. The calls once more, with every access to the tree and every
-- level checked: a run that comes through is the run of the calls without the checks.
import BareBones.BuddyFailures

namespace bare_bones.buddy_heap

open bare_bones level_tree runs

/-! ## The calls, checked -/

/-- A read of `tree[node]`. -/
def readNode (m : Manager) (node : Nat) : Option UInt8 :=
  if node < m.totalNodes then some (m.tree node) else none

/-- A write to `tree[node]`. -/
def writeNode (m : Manager) (node : Nat) (state : UInt8) : Option Manager :=
  if node < m.totalNodes then some (m.setNode node state) else none

/-- `maxExp - exponent`. -/
def levelOf (m : Manager) (exponent : Nat) : Option Nat :=
  if exponent ≤ m.maxExp then some (m.maxExp - exponent) else none

def findFreeNode_checked (m : Manager) : Nat → Nat → Option (Option Nat)
  | 0, node => do
    let state ← readNode m node
    return if state = FREE then some node else none
  | left + 1, node => do
    let state ← readNode m node
    if state ≠ SPLIT ∧ state ≠ FREE then return none
    else match ← findFreeNode_checked m left (node * 2 + 1) with
      | some found => return some found
      | none => findFreeNode_checked m left (node * 2 + 2)

def splitLoop_checked : Nat → Nat → Manager → Option Manager
  | 0, _, m => some m
  | left + 1, node, m =>
    if node = 0 then some m
    else do
      let m ← writeNode m ((node - 1) / 2) SPLIT
      splitLoop_checked left ((node - 1) / 2) m

/-- It compares the index itself. -/
def setSplitedChildren_checked (node : Nat) (m : Manager) : Option Manager :=
  if node < m.totalNodes then writeNode m node USED else some m

def mm_alloc_checked (size : Nat) (m : Manager) : Option (Option Addr × Manager) :=
  if sub64 m.size m.used < size ∨ size = 0 ∨ POW2 17 < size then some (none, m)
  else do
    let exponent := getExponent size
    let targetLevel ← levelOf m exponent
    match ← findFreeNode_checked m targetLevel 0 with
    | none => return (none, m)
    | some nodo =>
      let m₁ ← setSplitedChildren_checked nodo (← splitLoop_checked nodo nodo m)
      let m₂ := { m₁ with used := add64 m₁.used (POW2 exponent) }
      let offset := (nodo - (POW2 (← levelOf m₂ exponent) - 1)) * POW2 exponent
      return if m₂.size ≤ offset then (none, m₂) else (some (m₂.treeStart + offset), m₂)

def getNodeIndex_checked (m : Manager) (ptr : Addr) : Nat → Nat → Option (Option (Nat × Nat))
  | 0, node => some (some (node, 0))
  | levelExponent + 1, node => do
    if (← readNode m node) = USED then return some (node, levelExponent + 1)
    else if ptr < m.treeStart then return none
    else if m.size ≤ ptr - m.treeStart then return none
    else
      let level ← levelOf m (levelExponent + 1)
      getNodeIndex_checked m ptr levelExponent
        ((ptr - m.treeStart) / POW2 (levelExponent + 1) + (POW2 level - 1))

def mergeLoop_checked : Nat → Nat → Manager → Option Manager
  | 0, _, m => some m
  | left + 1, node, m =>
    if node = 0 then some m
    else
      let buddy := if node % 2 = 0 then node - 1 else node + 1
      if buddy < m.totalNodes then do
        if (← readNode m buddy) = FREE then
          if (← readNode m node) = FREE then
            let parent := (node - 1) / 2
            if parent < m.totalNodes then
              if (← readNode m parent) = SPLIT then
                mergeLoop_checked left parent (← writeNode m parent FREE)
              else return m
            else return m
          else return m
        else return m
      else some m

def mm_free_checked (memoryToFree : Addr) (m : Manager) : Option Manager :=
  if memoryToFree = 0 then some m
  else do
    match ← getNodeIndex_checked m memoryToFree (getExponentPtr m memoryToFree) 0 with
    | none => return m
    | some (nodo, exponent) =>
      let m₁ ← mergeLoop_checked nodo nodo (← writeNode m nodo FREE)
      return { m₁ with used := sub64 m₁.used (POW2 exponent) }

/-! ## Where the checks pass -/

theorem readNode_of_lt {m : Manager} {node : Nat} (h : node < m.totalNodes) :
    readNode m node = some (m.tree node) := if_pos h

theorem writeNode_of_lt {m : Manager} {node : Nat} (state : UInt8) (h : node < m.totalNodes) :
    writeNode m node state = some (m.setNode node state) := if_pos h

/-- A search that does not go below the last level. -/
theorem findFreeNode_checked_eq {m : Manager} {height steps d k : Nat}
    (hn : m.totalNodes = 2 ^ height - 1) (hd : d + steps < height) (hk : k < 2 ^ d) :
    findFreeNode_checked m steps (index d k) = some (findFreeNode m steps (index d k)) := by
  have hlt : index d k < m.totalNodes := hn ▸ index_lt (by omega) hk
  induction steps generalizing d k with
  | zero => simp [findFreeNode_checked, findFreeNode, readNode_of_lt hlt]
  | succ steps ih =>
    have hpow := Nat.pow_succ 2 d
    have hl : index d k * 2 + 1 = index (d + 1) (2 * k) := by
      rw [← left_index, left, Nat.mul_comm]
    have hr : index d k * 2 + 2 = index (d + 1) (2 * k + 1) := by
      rw [← right_index, right, Nat.mul_comm]
    have hleft := ih (d := d + 1) (k := 2 * k) (by omega) (by omega)
      (hn ▸ index_lt (by omega) (by omega))
    have hright := ih (d := d + 1) (k := 2 * k + 1) (by omega) (by omega)
      (hn ▸ index_lt (by omega) (by omega))
    rw [findFreeNode_checked, findFreeNode, readNode_of_lt hlt, hl, hr]
    simp only [Option.bind_eq_bind, Option.bind_some, hleft]
    split
    · rfl
    · cases findFreeNode m steps (index (d + 1) (2 * k)) with
      | some found => rfl
      | none => exact hright

theorem splitLoop_checked_eq {left node : Nat} {m : Manager} (h : node < m.totalNodes) :
    splitLoop_checked left node m = some (splitLoop left node m) := by
  induction left generalizing node m with
  | zero => rfl
  | succ left ih =>
    rw [splitLoop_checked, splitLoop]
    split
    · rfl
    · next h0 =>
      have hparent : (node - 1) / 2 < m.totalNodes :=
        (parent_lt (Nat.pos_of_ne_zero h0)).trans h
      rw [writeNode_of_lt _ hparent]
      exact ih hparent

theorem mergeLoop_checked_eq {left node : Nat} {m : Manager} (h : node < m.totalNodes) :
    mergeLoop_checked left node m = some (mergeLoop left node m) := by
  induction left generalizing node m with
  | zero => rfl
  | succ left ih =>
    rw [mergeLoop_checked, mergeLoop]
    split
    · rfl
    dsimp only
    generalize (if node % 2 = 0 then node - 1 else node + 1) = buddy
    by_cases hb : buddy < m.totalNodes
    · rw [if_pos hb, readNode_of_lt hb, readNode_of_lt h]
      by_cases hp : (node - 1) / 2 < m.totalNodes
      · rw [readNode_of_lt hp, writeNode_of_lt _ hp]
        simp only [Option.bind_eq_bind, Option.bind_some]
        rw [ih (m := m.setNode ((node - 1) / 2) FREE) hp]
        by_cases hbf : m.tree buddy = FREE <;> by_cases hnf : m.tree node = FREE <;>
          simp [hb, hp, hbf, hnf]
        split <;> rfl
      · by_cases hbf : m.tree buddy = FREE <;> by_cases hnf : m.tree node = FREE <;>
          simp [hb, hp, hbf, hnf]
    · rw [if_neg hb, if_neg fun hc => hb hc.1]

/-- A descent that ends at a node with an exponent of 3 or more was in the tree all the way. -/
theorem getNodeIndex_checked_eq {m : Manager} (hm : Shaped m) {ptr : Addr}
    (hptr : ptr - m.treeStart < 2 ^ m.maxExp) {levelExponent node x e : Nat}
    (hle : levelExponent ≤ m.maxExp) (hnode : node < m.totalNodes)
    (hfound : getNodeIndex m ptr levelExponent node = some (x, e)) (he : 3 ≤ e) :
    getNodeIndex_checked m ptr levelExponent node = some (some (x, e)) ∧ x < m.totalNodes := by
  induction levelExponent generalizing node with
  | zero =>
    cases hfound
    exact absurd he (by decide)
  | succ le ih =>
    rw [getNodeIndex] at hfound
    rw [getNodeIndex_checked, readNode_of_lt hnode]
    simp only [Option.bind_eq_bind, Option.bind_some]
    split_ifs at hfound ⊢
    · cases hfound
      exact ⟨rfl, hnode⟩
    · have hlow : 3 ≤ le := he.trans (getNodeIndex_exponent_le hfound)
      have hplace : (ptr - m.treeStart) / 2 ^ (le + 1) < 2 ^ (m.maxExp - (le + 1)) := by
        rw [Nat.div_lt_iff_lt_mul (two_pow_pos _), ← Nat.pow_add, Nat.sub_add_cancel hle]
        exact hptr
      have hnext : index (m.maxExp - (le + 1)) ((ptr - m.treeStart) / 2 ^ (le + 1)) <
          m.totalNodes := by
        rw [hm.nodes]
        exact index_lt (by omega) hplace
      rw [levelOf, if_pos hle]
      unfold index at hnext
      rw [Nat.add_comm] at hnext
      exact ih (Nat.le_of_succ_le hle) hnext hfound

theorem setSplited_checked_eq {m : Manager} {node : Nat} (h : node < m.totalNodes) :
    setSplitedChildren_checked node (splitLoop node node m) =
        some (setSplitedChildren node (splitTree node m)) ∧
      SameShape m (setSplitedChildren node (splitTree node m)) := by
  have hs := (splitLoop_spec (Nat.le_refl node) m).1
  have hlt : node < (splitLoop node node m).totalNodes := hs.totalNodes ▸ h
  have hset : setSplitedChildren node (splitTree node m) =
      (splitLoop node node m).setNode node USED := if_pos hlt
  rw [hset, setSplitedChildren_checked, if_pos hlt, writeNode_of_lt _ hlt]
  exact ⟨rfl, hs.trans (setNode_shape ..)⟩

theorem mm_alloc_checked_eq {m : Manager} (hm : Shaped m) {bytes : Nat}
    (hexp : Admitted m bytes → getExponent bytes ≤ m.maxExp) :
    mm_alloc_checked bytes m = some (mm_alloc bytes m) := by
  unfold mm_alloc_checked mm_alloc
  by_cases hno : sub64 m.size m.used < bytes ∨ bytes = 0 ∨ POW2 17 < bytes
  · rw [if_pos hno, if_pos hno]
  rw [if_neg hno, if_neg hno]
  have hle := hexp hno
  have hleast := (getExponent_spec (Nat.not_lt.mp fun h => hno (.inr (.inr h)))).2.1
  have hmost := hm.most
  unfold MIN_EXP at hleast
  unfold MAX_EXP at hmost
  have hlevel : (m.maxExp + 2 ^ 8 - getExponent bytes) % 2 ^ 8 = m.maxExp - getExponent bytes := by
    omega
  have hfind : findFreeNode_checked m (m.maxExp - getExponent bytes) (index 0 0) = _ :=
    findFreeNode_checked_eq hm.nodes (by omega) (by decide)
  rw [index_zero] at hfind
  dsimp only
  rw [nodeFor, hlevel, levelOf, if_pos hle]
  simp only [Option.bind_eq_bind, Option.bind_some, hfind]
  cases hnode : findFreeNode m (m.maxExp - getExponent bytes) 0 with
  | none => rfl
  | some nodo =>
    obtain ⟨j, hj, rfl, -, -⟩ := findFreeNode_root hnode
    have hlt : index (m.maxExp - getExponent bytes) j < m.totalNodes :=
      hm.nodes ▸ index_lt (by omega) hj
    obtain ⟨hset, hs⟩ := setSplited_checked_eq hlt
    dsimp only
    rw [splitLoop_checked_eq hlt]
    simp only [Option.bind_some]
    rw [hset]
    simp only [Option.bind_some]
    rw [levelOf, if_pos (hs.maxExp.symm ▸ hle)]
    rfl

/-- A request that is larger than the tree has no level in it. -/
theorem mm_alloc_checked_none {m : Manager} {bytes : Nat} (had : Admitted m bytes)
    (hexp : m.maxExp < getExponent bytes) : mm_alloc_checked bytes m = none := by
  have hlevel : levelOf m (getExponent bytes) = none := if_neg (Nat.not_le.mpr hexp)
  unfold mm_alloc_checked
  rw [if_neg had]
  dsimp only
  rw [hlevel]
  rfl

/-- A live block is found, and freed, without an index past the last node. -/
theorem mm_free_checked_eq {m : Manager} (ht : Tidy m) (hm : Shaped m) {ptr : Addr} {d k : Nat}
    (hb : BlockAt m ptr d k) (hlt : index d k < m.totalNodes) :
    mm_free_checked ptr m = some (mm_free ptr m) := by
  have hlevel := hb.level
  unfold MIN_EXP at hlevel
  have hptr := hb.ptr_ne_zero hm
  have hinside : ptr - m.treeStart < 2 ^ m.maxExp := by
    have hlt := (Nat.mul_lt_mul_right (two_pow_pos (m.maxExp - d))).mpr hb.place
    rw [← Nat.pow_add, Nat.add_sub_cancel' (by omega)] at hlt
    rw [hb.ptr, Nat.add_sub_cancel_left]
    exact hlt
  have hlow : 3 ≤ freedExponent m d := by
    unfold freedExponent
    split <;> omega
  have hroot : 0 < m.totalNodes := Nat.lt_of_le_of_lt (Nat.zero_le _) hlt
  have hfound := getNodeIndex_live ht hm hb hlt
  obtain ⟨hchecked, -⟩ := getNodeIndex_checked_eq hm hinside (getExponentPtr_le m ptr) hroot hfound
    hlow
  have hlt' : index d k < (m.setNode (index d k) FREE).totalNodes := hlt
  unfold mm_free_checked mm_free
  rw [if_neg hptr, if_neg hptr, hfound, hchecked]
  simp only [Option.bind_eq_bind, Option.bind_some]
  rw [writeNode_of_lt FREE hlt]
  simp only [Option.bind_some]
  rw [mergeLoop_checked_eq hlt']
  rfl

/-! ## Every run -/

instance : ∀ (h : Heap) (call : HeapCall), Decidable (Fits h call)
  | h, .mm_alloc bytes => inferInstanceAs (Decidable (Admitted h.manager bytes → _))
  | h, .mm_free ptr => inferInstanceAs (Decidable (∃ a ∈ h.live, a.ptr = ptr))

/-- Each node index is one of the tree, and no level is negative. -/
def IndexSafe (h : Heap) : HeapCall → Prop
  | .mm_alloc bytes => mm_alloc_checked bytes h.manager = some (mm_alloc bytes h.manager)
  | .mm_free ptr => mm_free_checked ptr h.manager = some (mm_free ptr h.manager)

theorem indexSafe_iff {h : Heap} (hi : Sound h) {call : HeapCall} (hf : FreesLive h call) :
    IndexSafe h call ↔ Fits h call := by
  cases call with
  | mm_alloc bytes =>
    refine ⟨fun hsafe had => ?_, fun hfits => mm_alloc_checked_eq hi.shaped hfits⟩
    by_contra hexp
    have hnone := mm_alloc_checked_none had (Nat.not_le.mp hexp)
    cases hnone.symm.trans hsafe
  | mm_free ptr =>
    refine iff_of_true ?_ hf
    obtain ⟨a, ha, rfl⟩ := hf
    obtain ⟨k, hk, hb⟩ := (hi.placed a ha).block
    exact mm_free_checked_eq hi.tidy hi.shaped hb (hk ▸ (hi.placed a ha).node_lt hi.shaped)

/-- The indexes of a run of the heap `m`, with frees of live blocks. -/
structure IndexesStay (m : Manager) (calls : List HeapCall) : Prop where
  everywhere : Meets exec Fits ⟨m, []⟩ calls → Meets exec IndexSafe ⟨m, []⟩ calls
  exactly : Meets exec Fits ⟨m, []⟩ calls → ∀ call, FreesLive (run exec ⟨m, []⟩ calls) call →
    (IndexSafe (run exec ⟨m, []⟩ calls) call ↔ Fits (run exec ⟨m, []⟩ calls) call)
  large : 17 ≤ m.maxExp → Meets exec FreesLive ⟨m, []⟩ calls → Meets exec IndexSafe ⟨m, []⟩ calls

theorem every_index_is_a_node_while_requests_fit {r : Region} {bytes : Nat → UInt8} {m : Manager}
    (hm : mm_create r bytes = some m) (calls : List HeapCall) : IndexesStay m calls := by
  have hsound := (mm_create_spec hm).1
  have hlive : ∀ {h : Heap} {call : HeapCall}, Fits h call → FreesLive h call := by
    intro h call hf
    cases call with
    | mm_alloc bytes => trivial
    | mm_free ptr => exact hf
  refine ⟨fun hf => ?_, fun hf call hcall => ?_, fun hlarge hf => ?_⟩
  · exact run_steps (I := Sound) (fun _ _ hi hok => (sound_exec hi hok).1)
      (fun _ _ hi hok => (indexSafe_iff hi (hlive hok)).mpr hok) hsound hf
  · exact indexSafe_iff (sound_run hsound hf).1 hcall
  · refine run_steps (I := fun h => Sound h ∧ 17 ≤ h.manager.maxExp) (fun h call hi hok => ?_)
      (fun h call hi hok => (indexSafe_iff hi.1 hok).mpr (fits_of_large hi.2 hok))
      ⟨hsound, hlarge⟩ hf
    obtain ⟨hs, hshape⟩ := sound_exec hi.1 (fits_of_large hi.2 hok)
    exact ⟨hs, hshape.maxExp ▸ hi.2⟩

/-- In a heap of 72 bytes over a tree of 64. -/
theorem every_index_is_a_node_of_a_small_tree :
    IndexesStay (heapOver 127 (by decide) (by decide)).manager
        [.mm_alloc 16, .mm_alloc 20, .mm_free 119, .mm_alloc 200] ∧
      Meets exec IndexSafe (heapOver 127 (by decide) (by decide))
        [.mm_alloc 16, .mm_alloc 20, .mm_free 119, .mm_alloc 200] := by
  have hstay := every_index_is_a_node_while_requests_fit
    (heapOver_created 127 (by decide) (by decide))
    [.mm_alloc 16, .mm_alloc 20, .mm_free 119, .mm_alloc 200]
  exact ⟨hstay, hstay.everywhere (by decide +kernel)⟩

/-- The heap has 72 bytes and so admits a request for 65, but the tree has 64: the level is
6 - 7, which is 255 in eight bits, and the search reads on past the last node. -/
theorem a_request_larger_than_the_tree_reads_past_it :
    ¬ IndexSafe (heapOver 127 (by decide) (by decide)) (.mm_alloc 65) ∧
      levelOf (heapOver 127 (by decide) (by decide)).manager (getExponent 65) = none ∧
      findFreeNode_checked (heapOver 127 (by decide) (by decide)).manager 255 0 = none := by
  have had : Admitted (heapOver 127 (by decide) (by decide)).manager 65 := by decide +kernel
  refine ⟨fun hsafe => ?_, by decide +kernel, by decide +kernel⟩
  have hnone := mm_alloc_checked_none had (by decide +kernel)
  cases hnone.symm.trans hsafe

end bare_bones.buddy_heap
