-- `buddy.c`: a complete binary tree of blocks, with one byte for the state of
-- each node. A block of 2^e bytes is a node of level `maxExp - e`. The tree is
-- tidy between calls: a node is `SPLIT` when a node below it is not `FREE`.
import BareBones.Lib.LevelTree
import BareBones.MemoryManagement
import Mathlib.Logic.Function.Basic

namespace bare_bones.buddy_heap

open bare_bones level_tree

def FREE : UInt8 := 0

def USED : UInt8 := 1

def SPLIT : UInt8 := 2

def MIN_EXP : Nat := 4

def MAX_EXP : Nat := 28

/-- `MemoryManagerCDT`. The field `tree` is what the bytes from `tree` on hold.
Past the nodes they are bytes of the blocks, as `treeStart` is the next address. -/
structure Manager where
  treeStart : Addr
  tree : Nat → UInt8
  size : Nat
  used : Nat
  maxExp : Nat
  totalNodes : Nat

/-- `sizeof(MemoryManagerCDT)`. -/
def structSize : Nat := 48

def Manager.setNode (m : Manager) (node : Nat) (state : UInt8) : Manager :=
  { m with tree := Function.update m.tree node state }

/-! ## Creation -/

/-- The loop of `mm_create`, of at most `left` turns. -/
def growMax (totalSize : Nat) : Nat → Nat → Nat
  | 0, computedMax => computedMax
  | left + 1, computedMax =>
    if POW2 (computedMax + 1) ≤ totalSize then growMax totalSize left (computedMax + 1)
    else computedMax

/-- `bytes` is what the region holds after the nodes. `NULL` is `none`: also for a
region that starts at address 0, as the result is the start of the region. -/
def mm_create (r : Region) (bytes : Nat → UInt8) : Option Manager :=
  if r.totalSize < POW2 MIN_EXP then none
  else
    let computedMax := growMax r.totalSize (MAX_EXP - MIN_EXP) MIN_EXP
    let nodes := POW2 (computedMax - MIN_EXP + 1) - 1
    if r.totalSize < structSize + nodes + POW2 MIN_EXP then none
    else if r.startAddress = 0 then none
    else some
      { treeStart := r.startAddress + structSize + nodes
        tree := fun i => if i < nodes then FREE else bytes i
        size := r.totalSize - (structSize + nodes)
        used := 0
        maxExp := computedMax
        totalNodes := nodes }

/-! ## `mm_alloc` -/

/-- The loop of `getExponent`, of at most `left` turns. -/
def growExponent (size : Nat) : Nat → Nat → Nat
  | 0, exponent => exponent
  | left + 1, exponent =>
    if POW2 exponent < size then growExponent size left (exponent + 1) else exponent

/-- A `uint64_t` has no more than 64 powers of two. -/
def getExponent (size : Nat) : Nat := growExponent size 60 MIN_EXP

/-- With `left` for `targetLevel - level`. The result -1 is `none`. -/
def findFreeNode (m : Manager) : Nat → Nat → Option Nat
  | 0, node => if m.tree node = FREE then some node else none
  | left + 1, node =>
    if m.tree node ≠ SPLIT ∧ m.tree node ≠ FREE then none
    else match findFreeNode m left (node * 2 + 1) with
      | some found => some found
      | none => findFreeNode m left (node * 2 + 2)

def getNodeLevel (m : Manager) (exponent : Nat) : Nat := POW2 (m.maxExp - exponent) - 1

/-- Each turn goes to the parent, so `node` turns are enough. -/
def splitLoop : Nat → Nat → Manager → Manager
  | 0, _, m => m
  | left + 1, node, m =>
    if node = 0 then m else splitLoop left ((node - 1) / 2) (m.setNode ((node - 1) / 2) SPLIT)

def splitTree (node : Nat) (m : Manager) : Manager := splitLoop node node m

def setSplitedChildren (node : Nat) (m : Manager) : Manager :=
  if node < m.totalNodes then m.setNode node USED else m

/-- The node that `mm_alloc` chooses. The target level is a `uint8_t`. -/
def nodeFor (exponent : Nat) (m : Manager) : Option Nat :=
  findFreeNode m ((m.maxExp + 2 ^ 8 - exponent) % 2 ^ 8) 0

def mm_alloc (size : Nat) (m : Manager) : Option Addr × Manager :=
  if sub64 m.size m.used < size ∨ size = 0 ∨ POW2 17 < size then (none, m)
  else
    let exponent := getExponent size
    match nodeFor exponent m with
    | none => (none, m)
    | some nodo =>
      let m₁ := setSplitedChildren nodo (splitTree nodo m)
      let m₂ := { m₁ with used := add64 m₁.used (POW2 exponent) }
      let offset := (nodo - getNodeLevel m₂ exponent) * POW2 exponent
      if m₂.size ≤ offset then (none, m₂) else (some (m₂.treeStart + offset), m₂)

/-! ## `mm_free` -/

/-- The loop of `getExponentPtr`, from `exponent` on: the remainder is 0 at the
latest for a size of 1. -/
def exponentFrom (address : Nat) : Nat → Nat
  | 0 => 0
  | exponent + 1 =>
    if address % POW2 (exponent + 1) ≠ 0 then exponentFrom address exponent else exponent + 1

def getExponentPtr (m : Manager) (ptr : Addr) : Nat :=
  if ptr < m.treeStart then 0 else exponentFrom (ptr - m.treeStart) m.maxExp

/-- The loop of `getNodeIndex`: from an exponent and a node to the node and the
exponent it ends with. The result -1 is `none`. -/
def getNodeIndex (m : Manager) (ptr : Addr) : Nat → Nat → Option (Nat × Nat)
  | 0, node => some (node, 0)
  | levelExponent + 1, node =>
    if m.tree node = USED then some (node, levelExponent + 1)
    else if ptr < m.treeStart then none
    else if m.size ≤ ptr - m.treeStart then none
    else getNodeIndex m ptr levelExponent
      ((ptr - m.treeStart) / POW2 (levelExponent + 1) + getNodeLevel m (levelExponent + 1))

/-- With the same bound on the calls as `splitLoop`. -/
def mergeLoop : Nat → Nat → Manager → Manager
  | 0, _, m => m
  | left + 1, node, m =>
    if node = 0 then m
    else
      let buddy := if node % 2 = 0 then node - 1 else node + 1
      if buddy < m.totalNodes ∧ m.tree buddy = FREE ∧ m.tree node = FREE then
        let parent := (node - 1) / 2
        if parent < m.totalNodes ∧ m.tree parent = SPLIT then
          mergeLoop left parent (m.setNode parent FREE)
        else m
      else m

def setMerge (node : Nat) (m : Manager) : Manager := mergeLoop node node m

/-- `NULL` is the address 0. -/
def mm_free (memoryToFree : Addr) (m : Manager) : Manager :=
  if memoryToFree = 0 then m
  else match getNodeIndex m memoryToFree (getExponentPtr m memoryToFree) 0 with
    | none => m
    | some (nodo, exponent) =>
      let m₁ := setMerge nodo (m.setNode nodo FREE)
      { m₁ with used := sub64 m₁.used (POW2 exponent) }

def mm_info (m : Manager) : Mem := ⟨m.size, m.used, sub64 m.size m.used⟩

instance : MemoryManager Manager where
  mm_alloc := mm_alloc
  mm_free := mm_free

end bare_bones.buddy_heap
