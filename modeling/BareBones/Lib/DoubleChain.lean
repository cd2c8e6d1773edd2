-- Cells with two links in a heap: the segments that they form, and what a change of one
-- link at the border of a segment does to it.
import Mathlib.Data.List.Basic
import Mathlib.Data.List.Induction
import Mathlib.Logic.Function.Basic

namespace double_chain

variable {A D : Type}

structure Cell (A D : Type) where
  data : D
  prev : Option A
  next : Option A

/-- The cells of a heap; what was released is gone. -/
abbrev Heap (A D : Type) := A → Option (Cell A D)

/-- Where a list of cells starts, or what follows it. -/
def first (l : List (A × D)) (after : Option A) : Option A := (l.head?.map Prod.fst).or after

/-- Where a list of cells ends, or what comes before it. -/
def last (before : Option A) (l : List (A × D)) : Option A := (l.getLast?.map Prod.fst).or before

@[simp] theorem first_nil (after : Option A) : first ([] : List (A × D)) after = after := rfl

@[simp] theorem first_cons (n : A × D) (l : List (A × D)) (after : Option A) :
    first (n :: l) after = some n.1 := rfl

@[simp] theorem last_nil (before : Option A) : last before ([] : List (A × D)) = before := rfl

@[simp] theorem last_concat (before : Option A) (l : List (A × D)) (n : A × D) :
    last before (l ++ [n]) = some n.1 := by simp [last]

theorem first_append (l l' : List (A × D)) (after : Option A) :
    first (l ++ l') after = first l (first l' after) := by
  cases l <;> rfl

theorem last_cons (before : Option A) (n : A × D) (l : List (A × D)) :
    last before (n :: l) = last (some n.1) l := by
  cases l with
  | nil => rfl
  | cons n' l => simp [last, List.getLast?_cons]

theorem last_append (before : Option A) (l l' : List (A × D)) :
    last before (l ++ l') = last (last before l) l' := by
  induction l generalizing before with
  | nil => rfl
  | cons n l ih => rw [List.cons_append, last_cons, last_cons, ih]

/-- The cells of `l` are linked with each other, and their ends with `before` and `after`. -/
def Segment (heap : Heap A D) : Option A → List (A × D) → Option A → Prop
  | _, [], _ => True
  | before, n :: l, after =>
    heap n.1 = some ⟨n.2, before, first l after⟩ ∧ Segment heap (some n.1) l after

theorem segment_append {heap : Heap A D} {before after : Option A} {l l' : List (A × D)} :
    Segment heap before (l ++ l') after ↔
      Segment heap before l (first l' after) ∧ Segment heap (last before l) l' after := by
  induction l generalizing before with
  | nil => simp [Segment]
  | cons n l ih => rw [List.cons_append, Segment, Segment, ih, first_append, last_cons, and_assoc]

/-- A segment looks at its own cells only. -/
theorem Segment.congr {heap heap' : Heap A D} {before after : Option A} {l : List (A × D)}
    (h : Segment heap before l after) (hsame : ∀ a ∈ l.map Prod.fst, heap' a = heap a) :
    Segment heap' before l after := by
  induction l generalizing before with
  | nil => trivial
  | cons n l ih =>
    rw [List.map_cons, List.forall_mem_cons] at hsame
    exact ⟨hsame.1.trans h.1, ih h.2 hsame.2⟩

/-- Where a segment starts says which cells it has, when it ends nowhere else. -/
theorem Segment.unique {heap : Heap A D} {before before' : Option A} {l l' : List (A × D)}
    (h : Segment heap before l none) (h' : Segment heap before' l' none)
    (hfirst : first l none = first l' none) : l = l' := by
  induction l generalizing before before' l' with
  | nil =>
    cases l' with
    | nil => rfl
    | cons n' l' => cases hfirst
  | cons n l ih =>
    cases l' with
    | nil => cases hfirst
    | cons n' l' =>
      have haddress : n.1 = n'.1 := Option.some.inj hfirst
      have hcell := (haddress ▸ h.1).symm.trans h'.1
      rw [Option.some.injEq, Cell.mk.injEq] at hcell
      obtain ⟨hdata, -, hnext⟩ := hcell
      rw [ih h.2 h'.2 hnext, Prod.ext haddress hdata]

/-- The cells found from a link on, by one of the fields, at most `n` of them. -/
def follow (heap : Heap A D) (field : Cell A D → Option A) : Nat → Option A → List A
  | 0, _ => []
  | _ + 1, none => []
  | n + 1, some a =>
    match heap a with
    | none => [a]
    | some cell => a :: follow heap field n (field cell)

/-- Forwards, the cells of a segment come in their order. -/
theorem follow_next {heap : Heap A D} {before : Option A} {l : List (A × D)}
    (h : Segment heap before l none) {n : Nat} (hn : l.length ≤ n) :
    follow heap Cell.next n (first l none) = l.map Prod.fst := by
  induction l generalizing before n with
  | nil => cases n <;> rfl
  | cons c l ih =>
    obtain ⟨n, rfl⟩ := Nat.exists_eq_succ_of_ne_zero (Nat.ne_of_gt (Nat.zero_lt_of_lt hn))
    simp only [first_cons, follow, h.1, List.map_cons]
    rw [ih h.2 (Nat.le_of_succ_le_succ hn)]

/-- Backwards, they come in the reverse order. -/
theorem follow_prev {heap : Heap A D} {after : Option A} {l : List (A × D)}
    (h : Segment heap none l after) {n : Nat} (hn : l.length ≤ n) :
    follow heap Cell.prev n (last none l) = (l.map Prod.fst).reverse := by
  induction l using List.reverseRecOn generalizing after n with
  | nil => cases n <;> rfl
  | append_singleton l c ih =>
    rw [List.length_append, List.length_singleton] at hn
    obtain ⟨n, rfl⟩ := Nat.exists_eq_succ_of_ne_zero (Nat.ne_of_gt (Nat.zero_lt_of_lt hn))
    obtain ⟨hl, hc, -⟩ := segment_append.mp h
    simp only [last_concat, follow, hc, List.map_append, List.reverse_append]
    rw [ih hl (Nat.le_of_succ_le_succ hn)]
    simp

variable [DecidableEq A]

/-- `heap` with a change of the cell at `a`, which has to be there. -/
def modifyCell (heap : Heap A D) (a : A) (f : Cell A D → Cell A D) : Option (Heap A D) :=
  (heap a).map fun cell => Function.update heap a (some (f cell))

/-- The link forward of the last cell, or else the one that points to the segment. -/
theorem Segment.set_next {heap : Heap A D} {before after : Option A} {l : List (A × D)} {n : A × D}
    (h : Segment heap before (l ++ [n]) after) (hnodup : ((l ++ [n]).map Prod.fst).Nodup)
    (link : Option A) :
    ∃ heap', modifyCell heap n.1 (fun cell => { cell with next := link }) = some heap' ∧
      Segment heap' before (l ++ [n]) link ∧ ∀ a ≠ n.1, heap' a = heap a := by
  rw [segment_append] at h
  obtain ⟨hl, hn, -⟩ := h
  have hfresh : n.1 ∉ l.map Prod.fst := by
    rw [List.map_append, List.nodup_append] at hnodup
    exact fun hmem => hnodup.2.2 n.1 hmem n.1 (by simp) rfl
  refine ⟨Function.update heap n.1 (some ⟨n.2, last before l, link⟩), by simp [modifyCell, hn],
    segment_append.mpr ⟨hl.congr fun a ha => ?_, ?_, trivial⟩,
    fun a ha => Function.update_of_ne ha _ _⟩
  · exact Function.update_of_ne (ne_of_mem_of_not_mem ha hfresh) _ _
  · simp

/-- The link back of the first cell. -/
theorem Segment.set_prev {heap : Heap A D} {before after : Option A} {l : List (A × D)} {n : A × D}
    (h : Segment heap before (n :: l) after) (hnodup : ((n :: l).map Prod.fst).Nodup)
    (link : Option A) :
    ∃ heap', modifyCell heap n.1 (fun cell => { cell with prev := link }) = some heap' ∧
      Segment heap' link (n :: l) after ∧ ∀ a ≠ n.1, heap' a = heap a := by
  obtain ⟨hn, hl⟩ := h
  rw [List.map_cons, List.nodup_cons] at hnodup
  refine ⟨Function.update heap n.1 (some ⟨n.2, link, first l after⟩), by simp [modifyCell, hn],
    ⟨by simp, hl.congr fun a ha => ?_⟩, fun a ha => Function.update_of_ne ha _ _⟩
  exact Function.update_of_ne (ne_of_mem_of_not_mem ha hnodup.1) _ _

end double_chain
