-- `bitmap.c`: the manager that keeps one cell for each block of 64 bytes. The
-- length of an allocation is not stored: `mm_free` finds it on the cells. The
-- cells are always the drawing of a packed store of extents.
import BareBones.Lib.Extents
import BareBones.MemoryManagement
import Mathlib.Logic.Function.Basic

namespace bare_bones.bitmap_heap

open bare_bones extents

def BLOCK_SIZE : Nat := 64

inductive Cell
  | FREE
  | USED
  | BORDER
  deriving DecidableEq, Repr

/-- `MemoryManagerCDT`. The field `bitmap` is what the array of that name holds;
the array lies between the struct and `realMemStart`. -/
structure Manager where
  bitmap : Nat → Cell
  realMemStart : Addr
  blockCount : Nat
  usedBlocksCount : Nat

/-- `sizeof(MemoryManagerCDT)`. -/
def structSize : Nat := 32

def Manager.setCell (m : Manager) (i : Nat) (c : Cell) : Manager :=
  { m with bitmap := Function.update m.bitmap i c }

/-- `bitmap[i] = FREE` and `usedBlocksCount--`. -/
def Manager.freeCell (m : Manager) (i : Nat) : Manager :=
  { m.setCell i .FREE with usedBlocksCount := sub64 m.usedBlocksCount 1 }

/-! ## The calls -/

/-- `NULL` is `none`: also for a region that starts at address 0, as the result
is the start of the region. -/
def mm_create (r : Region) : Option Manager :=
  let blockCount := (r.totalSize - structSize) / (BLOCK_SIZE + 1)
  if r.totalSize ≤ structSize then none
  else if blockCount = 0 then none
  else if r.startAddress = 0 then none
  else some
    { bitmap := fun _ => .FREE
      realMemStart := r.startAddress + structSize + blockCount
      blockCount
      usedBlocksCount := 0 }

/-- The outer loop of `mm_alloc`: `left` turns from cell `i` on, after
`freeBlocks` free cells in a row. Gives the cell that completes the run. -/
def findRun (m : Manager) (blocksNeeded : Nat) : Nat → Nat → Nat → Option Nat
  | 0, _, _ => none
  | left + 1, i, freeBlocks =>
    if m.bitmap i = .FREE then
      if freeBlocks + 1 = blocksNeeded then some i
      else findRun m blocksNeeded left (i + 1) (freeBlocks + 1)
    else findRun m blocksNeeded left (i + 1) 0

/-- The inner loop of `mm_alloc`: `left` turns from cell `j` on. -/
def setUsed : Nat → Nat → Manager → Manager
  | 0, _, m => m
  | left + 1, j, m => setUsed left (j + 1) (m.setCell j .USED)

def blocksFor (bytes : Nat) : Nat := (bytes + (BLOCK_SIZE - 1)) / BLOCK_SIZE

def mm_alloc (bytes : Nat) (m : Manager) : Option Addr × Manager :=
  if bytes = 0 ∨ POW2 17 < bytes then (none, m)
  else
    let blocksNeeded := blocksFor bytes
    if sub64 m.blockCount m.usedBlocksCount < blocksNeeded then (none, m)
    else match findRun m blocksNeeded m.blockCount 0 0 with
      | none => (none, m)
      | some i =>
        -- `i - freeBlocks + 1`, where the difference may wrap around
        let start := i + 1 - blocksNeeded
        let m₁ := setUsed (i - start) (start + 1) (m.setCell start .BORDER)
        (some (m.realMemStart + start * BLOCK_SIZE),
          { m₁ with usedBlocksCount := add64 m₁.usedBlocksCount blocksNeeded })

/-- The index of `mm_free`. The difference of two pointers is signed, and its
quotient is rounded towards zero and converted to a `uint64_t`. -/
def indexOf (m : Manager) (ptr : Addr) : Nat :=
  let distance : Int := Int.bmod (ptr - m.realMemStart) (2 ^ 64)
  (distance.tdiv BLOCK_SIZE % 2 ^ 64).toNat

/-- `mm_free` up to its first write: the cell of the block it takes back. -/
def blockOf (m : Manager) (ptr : Addr) : Option Nat :=
  if ptr = 0 then none
  else if ptr < m.realMemStart then none
  else
    let index := indexOf m ptr
    if m.blockCount ≤ index then none
    else if m.bitmap index ≠ .BORDER then none
    else some index

/-- The loop of `mm_free`: at most `left` turns from cell `i` on. -/
def freeRun : Nat → Nat → Manager → Manager
  | 0, _, m => m
  | left + 1, i, m =>
    if m.bitmap i = .USED then freeRun left (i + 1) (m.freeCell i) else m

def mm_free (ptr : Addr) (m : Manager) : Manager :=
  match blockOf m ptr with
  | none => m
  | some index => freeRun (m.blockCount - (index + 1)) (index + 1) (m.freeCell index)

def mm_info (m : Manager) : Mem :=
  ⟨m.blockCount, m.usedBlocksCount, sub64 m.blockCount m.usedBlocksCount⟩

instance : MemoryManager Manager where
  mm_alloc := mm_alloc
  mm_free := mm_free

/-! ## The loops -/

/-- The cells `mm_create` counts and places: no call changes them. -/
structure SameShape (m m' : Manager) : Prop where
  realMemStart : m'.realMemStart = m.realMemStart
  blockCount : m'.blockCount = m.blockCount

theorem SameShape.refl (m : Manager) : SameShape m m := ⟨rfl, rfl⟩

theorem SameShape.trans {m m' m'' : Manager} (h : SameShape m m') (h' : SameShape m' m'') :
    SameShape m m'' :=
  ⟨h'.realMemStart.trans h.realMemStart, h'.blockCount.trans h.blockCount⟩

theorem setCell_same (m : Manager) (i : Nat) (c : Cell) :
    (m.setCell i c).bitmap i = c := Function.update_self ..

theorem setCell_ne (m : Manager) {i j : Nat} (c : Cell) (h : j ≠ i) :
    (m.setCell i c).bitmap j = m.bitmap j := Function.update_of_ne h ..

theorem freeCell_shape (m : Manager) (i : Nat) : SameShape m (m.freeCell i) := ⟨rfl, rfl⟩

theorem freeCell_same (m : Manager) (i : Nat) : (m.freeCell i).bitmap i = .FREE :=
  Function.update_self ..

theorem freeCell_ne (m : Manager) {i j : Nat} (h : j ≠ i) :
    (m.freeCell i).bitmap j = m.bitmap j := Function.update_of_ne h ..

theorem freeCell_used {m : Manager} (i : Nat) (hpos : 0 < m.usedBlocksCount)
    (hsmall : m.usedBlocksCount < 2 ^ 64) :
    (m.freeCell i).usedBlocksCount = m.usedBlocksCount - 1 := sub64_of_le hpos hsmall

/-- `findRun` ends at a run of free cells of the length asked for. -/
theorem findRun_spec {m : Manager} {blocksNeeded : Nat} :
    ∀ {left i freeBlocks last : Nat}, freeBlocks ≤ i →
      (∀ j, i - freeBlocks ≤ j → j < i → m.bitmap j = .FREE) →
      findRun m blocksNeeded left i freeBlocks = some last →
      last < i + left ∧ blocksNeeded ≤ last + 1 ∧ 0 < blocksNeeded ∧
        ∀ j, last + 1 - blocksNeeded ≤ j → j ≤ last → m.bitmap j = .FREE := by
  intro left
  induction left with
  | zero => intro i freeBlocks last _ _ h; cases h
  | succ left ih =>
    intro i freeBlocks last hle hfree h
    rw [findRun] at h
    split at h
    · next hi =>
      have hfree' : ∀ j, i + 1 - (freeBlocks + 1) ≤ j → j < i + 1 → m.bitmap j = .FREE := by
        intro j hj hji
        rcases Nat.lt_succ_iff_lt_or_eq.mp hji with hlt | rfl
        · exact hfree j (by omega) hlt
        · exact hi
      split at h
      · next hneed =>
        cases h
        subst hneed
        exact ⟨by omega, by omega, by omega, fun j hj hji => hfree' j hj (by omega)⟩
      · obtain ⟨h₁, h₂⟩ := ih (by omega) hfree' h
        exact ⟨by omega, h₂⟩
    · obtain ⟨h₁, h₂⟩ := ih (Nat.zero_le _) (fun j hj hji => by omega) h
      exact ⟨by omega, h₂⟩

/-- No `k` free cells in a row end before cell `stop`. -/
def NoneBefore (m : Manager) (k stop : Nat) : Prop :=
  ∀ i, i + k ≤ stop → ∃ j, i ≤ j ∧ j < i + k ∧ m.bitmap j ≠ .FREE

/-- `findRun` stops at the first run that is long enough: `freeBlocks` counts back to
the last cell that is not free. -/
theorem findRun_first {m : Manager} {k : Nat} :
    ∀ {left i freeBlocks : Nat}, freeBlocks < k → freeBlocks ≤ i →
      (freeBlocks < i → m.bitmap (i - freeBlocks - 1) ≠ .FREE) → NoneBefore m k i →
      NoneBefore m k ((findRun m k left i freeBlocks).getD (i + left)) := by
  intro left
  induction left with
  | zero => exact fun _ _ _ h => h
  | succ left ih =>
    intro i freeBlocks hlt hle hlast hnone
    rw [findRun, Nat.add_comm left 1, ← Nat.add_assoc]
    by_cases hi : m.bitmap i = .FREE
    · rw [if_pos hi]
      by_cases hk : freeBlocks + 1 = k
      · rw [if_pos hk]
        exact hnone
      · rw [if_neg hk]
        refine ih (by omega) (by omega) (fun h => ?_) fun j hj => ?_
        · rw [Nat.add_sub_add_right]
          exact hlast (Nat.lt_of_succ_lt_succ h)
        · rcases Nat.lt_or_ge i (j + k) with hend | hend
          · exact ⟨i - freeBlocks - 1, by omega, by omega, hlast (by omega)⟩
          · exact hnone j hend
    · rw [if_neg hi]
      refine ih (by omega) (Nat.zero_le _) (fun _ => hi) fun j hj => ?_
      rcases Nat.lt_or_ge i (j + k) with hend | hend
      · exact ⟨i, by omega, hend, hi⟩
      · exact hnone j hend

theorem setUsed_spec (left j : Nat) (m : Manager) :
    SameShape m (setUsed left j m) ∧ (setUsed left j m).usedBlocksCount = m.usedBlocksCount ∧
      ∀ c, (setUsed left j m).bitmap c = if j ≤ c ∧ c < j + left then .USED else m.bitmap c := by
  induction left generalizing j m with
  | zero => exact ⟨.refl m, rfl, fun c => (if_neg (by omega)).symm⟩
  | succ left ih =>
    obtain ⟨hs, hu, hc⟩ := ih (j + 1) (m.setCell j .USED)
    refine ⟨⟨hs.1, hs.2⟩, hu, fun c => ?_⟩
    rw [setUsed, hc c]
    by_cases hcj : c = j
    · subst hcj
      rw [if_neg (by omega), if_pos (by omega), setCell_same]
    · rw [setCell_ne m _ hcj]
      exact if_congr (by omega) rfl rfl

/-- `freeRun` clears the `USED` cells up to the first that is not. -/
theorem freeRun_spec {n i k : Nat} {m : Manager} (hk : k ≤ n)
    (hused : ∀ j, i ≤ j → j < i + k → m.bitmap j = .USED)
    (hend : k < n → m.bitmap (i + k) ≠ .USED) (hcount : k ≤ m.usedBlocksCount)
    (hsmall : m.usedBlocksCount < 2 ^ 64) :
    SameShape m (freeRun n i m) ∧
      (freeRun n i m).usedBlocksCount = m.usedBlocksCount - k ∧
      ∀ c, (freeRun n i m).bitmap c = if i ≤ c ∧ c < i + k then .FREE else m.bitmap c := by
  induction k generalizing n i m with
  | zero =>
    have hstop : freeRun n i m = m := by
      cases n with
      | zero => rfl
      | succ n => exact if_neg (hend (Nat.succ_pos n))
    rw [hstop]
    exact ⟨.refl m, rfl, fun c => (if_neg (by omega)).symm⟩
  | succ k ih =>
    obtain ⟨n, rfl⟩ : ∃ l, n = l + 1 := ⟨n - 1, by omega⟩
    have hstep : freeRun (n + 1) i m = freeRun n (i + 1) (m.freeCell i) :=
      if_pos (hused i (Nat.le_refl i) (by omega))
    have hsub := freeCell_used (m := m) i (by omega) hsmall
    obtain ⟨hs, hu, hc⟩ := ih (n := n) (i := i + 1) (m := m.freeCell i) (by omega)
      (fun j hj hji => by
        rw [freeCell_ne m (Nat.ne_of_gt hj)]
        exact hused j (by omega) (by omega))
      (fun hlt => by
        rw [freeCell_ne m (by omega), show i + 1 + k = i + (k + 1) by omega]
        exact hend (by omega))
      (by omega) (by omega)
    rw [hstep]
    refine ⟨(freeCell_shape m i).trans hs, by omega, fun c => ?_⟩
    rw [hc c]
    by_cases hci : c = i
    · rw [hci, if_neg (by omega), if_pos (by omega), freeCell_same]
    · rw [freeCell_ne m hci]
      exact if_congr (by omega) rfl rfl

end bare_bones.bitmap_heap
