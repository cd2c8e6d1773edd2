-- The heaps that calls of `bitmap.c` can leave, as a manager of their own: the proof
-- that the cells show some allocations is a part of the heap. On such a heap a free
-- takes back what an allocation did, in any order.
import BareBones.BitmapExact

namespace bare_bones

variable {H : Type}

/-- A manager whose calls can be taken back: a request that is refused changes nothing,
and the frees of blocks undo their allocations in any order. -/
class Reversible (H : Type) extends MemoryManager H where
  alloc_none : ∀ {bytes : Nat} {h h' : H}, mm_alloc bytes h = (none, h') → h' = h
  free_alloc : ∀ {bytes : Nat} {h h' : H} {a : Addr},
    mm_alloc bytes h = (some a, h') → mm_free a h' = h
  free_comm : ∀ (a b : Addr) (h : H), mm_free a (mm_free b h) = mm_free b (mm_free a h)

/-- From `h` on the blocks of a list were taken, the newest first in the list. -/
inductive Took [MemoryManager H] (h : H) : List (Addr × Nat) → H → Prop
  | nil : Took h [] h
  | cons {blocks : List (Addr × Nat)} {h₁ h₂ : H} {a : Addr} {bytes : Nat} (ht : Took h blocks h₁)
      (ha : mm_alloc bytes h₁ = (some a, h₂)) : Took h ((a, bytes) :: blocks) h₂

theorem freeAll_perm [Reversible H] {l l' : List Addr} (hp : l.Perm l') (h : H) :
    freeAll l h = freeAll l' h :=
  hp.foldl_eq' (fun a _ b _ h => Reversible.free_comm b a h) h

/-- The frees of all blocks that were taken, in any order, lead back. -/
theorem Took.freed [Reversible H] {h h' : H} {blocks : List (Addr × Nat)} (ht : Took h blocks h')
    {l : List Addr} (hp : l.Perm (blocks.map Prod.fst)) : freeAll l h' = h := by
  rw [freeAll_perm hp]
  clear hp
  induction ht with
  | nil => rfl
  | @cons blocks h₁ h₂ a bytes _ ha ih =>
    have hfirst : freeAll (a :: blocks.map Prod.fst) h₂ =
        freeAll (blocks.map Prod.fst) (mm_free a h₂) := rfl
    rw [List.map_cons, hfirst, Reversible.free_alloc ha, ih]

namespace bitmap_heap

/-- A heap of at most 2^63 bytes whose cells show some allocations. -/
structure Reached where
  manager : Manager
  shows_some : ∃ live, Shows ⟨manager, live⟩
  small : manager.blockCount * BLOCK_SIZE ≤ 2 ^ 63
  start : 0 < manager.realMemStart

namespace Reached

theorem ext {h h' : Reached} (hm : h.manager = h'.manager) : h = h' := by
  cases h
  cases h'
  cases hm
  rfl

theorem shows_allocated {m : Manager} {live : List Allocation} (hs : Shows ⟨m, live⟩)
    (bytes : Nat) : (∃ live', Shows ⟨(bitmap_heap.mm_alloc bytes m).2, live'⟩) ∧
      SameShape m (bitmap_heap.mm_alloc bytes m).2 := by
  have he : (exec ⟨m, live⟩ (.mm_alloc bytes)).manager = (bitmap_heap.mm_alloc bytes m).2 := by
    rw [exec]
    split <;> next hm => rw [hm]
  obtain ⟨hnew, hshape⟩ := shows_alloc hs bytes
  rw [he] at hshape
  exact ⟨⟨(exec ⟨m, live⟩ (.mm_alloc bytes)).live, he ▸ hnew⟩, hshape⟩

/-- What `mm_create` leaves. -/
def created {r : Region} {m : Manager} (hm : mm_create r = some m) (hr : r.totalSize ≤ 2 ^ 63) :
    Reached where
  manager := m
  shows_some := ⟨[], (mm_create_spec hm).1⟩
  small := by
    obtain ⟨-, -, hroom⟩ := mm_create_spec hm
    exact (Nat.mul_le_mul_left _ (Nat.le_succ _)).trans
      ((Nat.le_add_left _ _).trans (hroom.trans hr))
  start := by
    obtain ⟨-, hreal, -⟩ := mm_create_spec hm
    exact hreal ▸ Nat.lt_of_lt_of_le (by decide : 0 < structSize)
      ((Nat.le_add_left _ _).trans (Nat.le_add_right _ _))

/-- The heap after a call of `mm_alloc`, whatever it returns. -/
def allocated (bytes : Nat) (h : Reached) : Reached where
  manager := (bitmap_heap.mm_alloc bytes h.manager).2
  shows_some := by
    obtain ⟨live, hs⟩ := h.shows_some
    exact (shows_allocated hs bytes).1
  small := by
    obtain ⟨live, hs⟩ := h.shows_some
    exact (shows_allocated hs bytes).2.blockCount ▸ h.small
  start := by
    obtain ⟨live, hs⟩ := h.shows_some
    exact (shows_allocated hs bytes).2.realMemStart ▸ h.start

def freed (ptr : Addr) (h : Reached) : Reached where
  manager := bitmap_heap.mm_free ptr h.manager
  shows_some := by
    obtain ⟨live, hs⟩ := h.shows_some
    exact ⟨_, (shows_free hs ptr).1⟩
  small := by
    obtain ⟨live, hs⟩ := h.shows_some
    exact (shows_free hs ptr).2.blockCount ▸ h.small
  start := by
    obtain ⟨live, hs⟩ := h.shows_some
    exact (shows_free hs ptr).2.realMemStart ▸ h.start

end Reached

instance : Reversible Reached where
  mm_alloc bytes h := ((bitmap_heap.mm_alloc bytes h.manager).1, h.allocated bytes)
  mm_free := Reached.freed
  alloc_none := by
    intro bytes h h' ha
    obtain ⟨live, hs⟩ := h.shows_some
    obtain ⟨hnone, rfl⟩ := Prod.mk.inj ha
    apply Reached.ext
    rcases mm_alloc_cases hs.drawn bytes with ⟨he, -⟩ | ⟨i, m', he, -⟩
    · exact congrArg Prod.snd he
    · rw [he] at hnone
      cases hnone
  free_alloc := by
    intro bytes h h' a ha
    obtain ⟨live, hs⟩ := h.shows_some
    obtain ⟨hsome, rfl⟩ := Prod.mk.inj ha
    have hback := mm_free_alloc hs.drawn h.small h.start bytes
    rw [hsome] at hback
    exact Reached.ext hback
  free_comm := by
    intro a b h
    obtain ⟨live, hs⟩ := h.shows_some
    exact Reached.ext (mm_free_comm hs.drawn a b)

/-- The blocks that were taken are the only new allocations. -/
theorem shows_took {h h' : Reached} {blocks : List (Addr × Nat)} (ht : Took h blocks h')
    {live : List Allocation} (hs : Shows ⟨h.manager, live⟩) :
    Shows ⟨h'.manager, (blocks.map fun b => ⟨b.1, b.2⟩) ++ live⟩ := by
  induction ht with
  | nil => exact hs
  | @cons blocks h₁ h₂ a bytes _ ha ih =>
    obtain ⟨hsome, rfl⟩ := Prod.mk.inj ha
    have hnew := (shows_alloc ih bytes).1
    have he : bitmap_heap.mm_alloc bytes h₁.manager = (some a, (h₁.allocated bytes).manager) :=
      Prod.ext hsome rfl
    rw [exec, he] at hnew
    exact hnew

end bitmap_heap

end bare_bones
