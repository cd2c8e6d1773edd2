-- A terminal: an endless page of cells with a cursor, of which some rows are in view.
-- What is typed and erased again leaves the page as it was, though the view may have moved.
import Mathlib.Order.Basic
import Mathlib.Tactic.Common

namespace terminal

/-- A cell is a row and a column. `top` is the first row in view. -/
structure Page (α : Type*) where
  cells : Nat → Nat → Option α
  row : Nat
  column : Nat
  top : Nat

variable {α : Type*} (columns rows : Nat) {p q : Page α}

namespace Page

def blank : Page α := ⟨fun _ _ => none, 0, 0, 0⟩

/-- The cell under the cursor. -/
def mark (a : Option α) (p : Page α) : Page α :=
  { p with cells := fun r c => if r = p.row ∧ c = p.column then a else p.cells r c }

/-- The view follows the cursor down, and stays where it is otherwise. -/
def newline (p : Page α) : Page α :=
  { p with row := p.row + 1, column := 0, top := max p.top (p.row + 2 - rows) }

def advance (p : Page α) : Page α :=
  if p.column + 1 < columns then { p with column := p.column + 1 } else p.newline rows

def put (a : Option α) (p : Page α) : Page α := (p.mark a).advance columns rows

/-- From the first column, to the last one of the row above. -/
def retreat (p : Page α) : Page α :=
  if p.column = 0 then { p with row := p.row - 1, column := columns - 1 }
  else { p with column := p.column - 1 }

def back (p : Page α) : Page α := (p.retreat columns).mark none

end Page

open Page

/-! ## The cursor is in view, and nothing is written from it on -/

structure InView (p : Page α) : Prop where
  column : p.column < columns
  top : p.top ≤ p.row
  bottom : p.row < p.top + rows
  ahead : ∀ r c, p.row < r ∨ r = p.row ∧ p.column ≤ c → p.cells r c = none
  aside : ∀ r c, columns ≤ c → p.cells r c = none

variable {columns rows}

theorem inView_blank (hcolumns : 0 < columns) (hrows : 0 < rows) :
    InView columns rows (blank : Page α) where
  column := hcolumns
  top := Nat.le_refl 0
  bottom := by simpa [blank] using hrows
  ahead := fun _ _ _ => rfl
  aside := fun _ _ _ => rfl

theorem InView.newline (h : InView columns rows p) : InView columns rows (p.newline rows) := by
  have hcolumn := h.column
  have htop := h.top
  have hbottom := h.bottom
  constructor
  · exact Nat.zero_lt_of_lt hcolumn
  · dsimp only [Page.newline]
    omega
  · dsimp only [Page.newline]
    omega
  · intro r c hrc
    apply h.ahead
    dsimp only [Page.newline] at hrc
    omega
  · exact h.aside

/-- A cell written ahead of the cursor: the cursor has to move past it. -/
theorem InView.advance {a : Option α} (h : InView columns rows p) :
    InView columns rows ((p.mark a).advance columns rows) := by
  have hcolumn := h.column
  have hahead : ∀ r c, p.row < r ∨ r = p.row ∧ p.column < c → (p.mark a).cells r c = none := by
    intro r c hrc
    have hne : ¬ (r = p.row ∧ c = p.column) := by omega
    simp only [mark, if_neg hne]
    apply h.ahead
    omega
  have haside : ∀ r c, columns ≤ c → (p.mark a).cells r c = none := by
    intro r c hc
    have hne : ¬ (r = p.row ∧ c = p.column) := by omega
    simp only [mark, if_neg hne]
    exact h.aside r c hc
  unfold Page.advance
  split
  · rename_i hroom
    refine ⟨hroom, h.top, h.bottom, ?_, haside⟩
    intro r c hrc
    apply hahead
    dsimp only [mark] at hrc
    omega
  · have htop := h.top
    have hbottom := h.bottom
    refine ⟨Nat.zero_lt_of_lt hcolumn, ?_, ?_, ?_, haside⟩
    · dsimp only [Page.newline, mark]
      omega
    · dsimp only [Page.newline, mark]
      omega
    · intro r c hrc
      apply hahead
      dsimp only [Page.newline, mark] at hrc
      omega

theorem InView.put (h : InView columns rows p) (a : Option α) :
    InView columns rows (p.put columns rows a) := h.advance

/-- A step back with the cell there cleared. -/
theorem InView.clear (h : InView columns rows p) {row column : Nat} (hcolumn : column < columns)
    (htop : p.top ≤ row) (hrow : row ≤ p.row)
    (hstep : ∀ r c, row < r ∨ r = row ∧ column < c → c < columns →
      p.row < r ∨ r = p.row ∧ p.column ≤ c) :
    InView columns rows (({ p with row := row, column := column } : Page α).mark none) where
  column := hcolumn
  top := htop
  bottom := Nat.lt_of_le_of_lt hrow h.bottom
  ahead := by
    intro r c hrc
    simp only [mark] at hrc ⊢
    split
    · rfl
    · by_cases hc : c < columns
      · exact h.ahead r c (hstep r c (by omega) hc)
      · exact h.aside r c (by omega)
  aside := by
    intro r c hc
    simp only [mark]
    split
    · rfl
    · exact h.aside r c hc

theorem InView.back (h : InView columns rows p) (hback : 0 < p.column ∨ p.top < p.row) :
    InView columns rows (p.back columns) := by
  have hcolumn := h.column
  have htop := h.top
  unfold Page.back retreat
  split
  · apply h.clear
    · omega
    · omega
    · omega
    · intro r c hrc hc
      omega
  · apply h.clear
    · omega
    · exact htop
    · exact Nat.le_refl _
    · intro r c hrc hc
      omega

/-! ## The page without the view -/

/-- The same cells and cursor, seen from a row further down. -/
structure Scrolled (p q : Page α) : Prop where
  cells : q.cells = p.cells
  row : q.row = p.row
  column : q.column = p.column
  top : p.top ≤ q.top

namespace Scrolled

theorem refl (p : Page α) : Scrolled p p := ⟨rfl, rfl, rfl, Nat.le_refl _⟩

theorem trans {r : Page α} (h : Scrolled p q) (h' : Scrolled q r) : Scrolled p r :=
  ⟨h'.cells.trans h.cells, h'.row.trans h.row, h'.column.trans h.column, Nat.le_trans h.top h'.top⟩

theorem newline (h : Scrolled p q) : Scrolled (p.newline rows) (q.newline rows) := by
  have htop := h.top
  have hrow := h.row
  refine ⟨h.cells, congrArg (· + 1) hrow, rfl, ?_⟩
  dsimp only [Page.newline]
  omega

theorem mark (h : Scrolled p q) (a : Option α) : Scrolled (p.mark a) (q.mark a) := by
  refine ⟨?_, h.row, h.column, h.top⟩
  simp only [Page.mark, h.cells, h.row, h.column]

theorem put (h : Scrolled p q) (a : Option α) :
    Scrolled (p.put columns rows a) (q.put columns rows a) := by
  have hmark := h.mark a
  unfold Page.put Page.advance
  rw [hmark.column]
  split
  · exact ⟨hmark.cells, hmark.row, rfl, hmark.top⟩
  · exact hmark.newline

theorem back (h : Scrolled p q) : Scrolled (p.back columns) (q.back columns) := by
  unfold Page.back retreat
  rw [h.column]
  split
  · apply mark
    exact ⟨h.cells, congrArg (· - 1) h.row, rfl, h.top⟩
  · apply mark
    exact ⟨h.cells, h.row, rfl, h.top⟩

end Scrolled

/-- What is typed and erased is not there, though the view may have moved. -/
theorem InView.back_put (h : InView columns rows p) (a : Option α) :
    Scrolled p ((p.put columns rows a).back columns) := by
  have hcolumn := h.column
  have hblank := h.ahead p.row p.column (Or.inr ⟨rfl, Nat.le_refl _⟩)
  have hcells : ((p.mark a).mark none).cells = p.cells := by
    funext r c
    simp only [mark]
    split
    · rename_i hcursor
      rw [hcursor.1, hcursor.2, hblank]
    · rfl
  have hmark : (p.mark a).column = p.column := rfl
  unfold Page.put Page.advance
  split
  · have hback : ({ p.mark a with column := (p.mark a).column + 1 } : Page α).back columns =
        (p.mark a).mark none := by
      unfold Page.back retreat
      rw [if_neg (Nat.succ_ne_zero _)]
      rfl
    rw [hback]
    exact ⟨hcells, rfl, rfl, Nat.le_refl _⟩
  · -- Past the last column the step back is one to the row above.
    have hlast : p.column = columns - 1 := by omega
    have hback : ((p.mark a).newline rows).back columns =
        { (p.mark a).mark none with top := ((p.mark a).newline rows).top } := by
      have hfirst : ((p.mark a).newline rows).column = 0 := rfl
      unfold Page.back retreat
      rw [if_pos hfirst, ← hlast]
      rfl
    rw [hback]
    exact ⟨hcells, rfl, rfl, Nat.le_max_left _ _⟩

/-! ## Typing and erasing

Some cells behind where the cursor was, at most `limit` of them at any time. As long as they
do not fill the rows in view, the cursor never comes to the corner of the view. -/

/-- The number of the cell under the cursor. -/
def Page.position (columns : Nat) (p : Page α) : Nat := p.row * columns + p.column

def Page.putAll (columns rows : Nat) (p : Page α) (cells : List (Option α)) : Page α :=
  cells.foldl (fun p a => p.put columns rows a) p

theorem InView.position_put (h : InView columns rows p) (a : Option α) :
    (p.put columns rows a).position columns = p.position columns + 1 := by
  have hcolumn := h.column
  have hmark : (p.mark a).row = p.row ∧ (p.mark a).column = p.column := ⟨rfl, rfl⟩
  unfold Page.put Page.advance position
  rw [hmark.2]
  split
  · exact (Nat.add_assoc ..).symm
  · have hlast : p.column + 1 = columns := by omega
    simp only [Page.newline, hmark.1, Nat.add_mul, Nat.one_mul]
    omega

theorem InView.putAll (h : InView columns rows p) (cells : List (Option α)) :
    InView columns rows (p.putAll columns rows cells) ∧
      (p.putAll columns rows cells).position columns = p.position columns + cells.length := by
  induction cells generalizing p with
  | nil => exact ⟨h, rfl⟩
  | cons a cells ih =>
    obtain ⟨hview, hposition⟩ := ih (h.put a)
    refine ⟨hview, ?_⟩
    rw [Page.putAll, List.foldl_cons, ← Page.putAll, hposition, h.position_put, List.length_cons]
    omega

theorem putAll_concat (p : Page α) (cells : List (Option α)) (a : Option α) :
    p.putAll columns rows (cells ++ [a]) = (p.putAll columns rows cells).put columns rows a := by
  simp [Page.putAll]

/-- `q` is `p` with the cells written, seen from a row that `limit` cells may need. -/
structure Typed (columns rows limit : Nat) (p : Page α) (cells : List (Option α)) (q : Page α) :
    Prop where
  start : InView columns rows p
  inView : InView columns rows q
  scrolled : Scrolled (p.putAll columns rows cells) q
  few : cells.length ≤ limit
  bound : q.top ≤ max p.top ((p.position columns + limit) / columns + 1 - rows)

namespace Typed

variable {limit : Nat} {cells : List (Option α)} {a : Option α}

theorem nothing (h : InView columns rows p) (limit : Nat) : Typed columns rows limit p [] p :=
  ⟨h, h, Scrolled.refl p, Nat.zero_le limit, Nat.le_max_left _ _⟩

theorem position (h : Typed columns rows limit p cells q) :
    q.position columns = p.position columns + cells.length := by
  rw [← (h.start.putAll cells).2]
  unfold Page.position
  rw [h.scrolled.row, h.scrolled.column]

theorem put (h : Typed columns rows limit p cells q) (hroom : cells.length < limit)
    (a : Option α) : Typed columns rows limit p (cells ++ [a]) (q.put columns rows a) where
  start := h.start
  inView := h.inView.put a
  scrolled := by
    rw [putAll_concat]
    exact h.scrolled.put a
  few := by
    rw [List.length_append]
    exact hroom
  bound := by
    have hbound := h.bound
    have hcolumn := h.inView.column
    have hposition := h.inView.position_put a
    rw [h.position] at hposition
    have hrow : (q.put columns rows a).row ≤ (p.position columns + limit) / columns := by
      rw [Nat.le_div_iff_mul_le (by omega)]
      unfold Page.position at hposition ⊢
      omega
    unfold Page.put Page.advance at hrow ⊢
    split
    · exact hbound
    · rename_i hlast
      rw [if_neg hlast] at hrow
      have hmark : (q.mark a).row = q.row ∧ (q.mark a).top = q.top := ⟨rfl, rfl⟩
      simp only [Page.newline, hmark.1, hmark.2] at hrow ⊢
      omega

/-- The cursor is not in the corner when something was typed. -/
theorem not_corner (h : Typed columns rows limit p cells q) (hcells : cells ≠ [])
    (hfits : limit ≤ (rows - 1) * columns) : 0 < q.column ∨ q.top < q.row := by
  have hlength := List.length_pos_iff.mpr hcells
  have hfew := h.few
  have hposition := h.position
  have hbound := h.bound
  have hstart := h.start.top
  have hcolumns := Nat.zero_lt_of_lt h.inView.column
  by_contra hcorner
  have hcolumn : q.column = 0 := by omega
  unfold Page.position at hposition hbound
  rw [hcolumn] at hposition
  by_cases hrow : q.row ≤ p.row
  · -- The view has not moved: the cursor would be before where it was.
    have hcells := Nat.mul_le_mul_right columns hrow
    omega
  · -- The view has moved by no more than `limit` cells needed.
    have htop := h.inView.top
    have hbottom := h.inView.bottom
    have hneeded : q.row + (rows - 1) ≤ (p.row * columns + p.column + limit) / columns := by
      omega
    rw [Nat.le_div_iff_mul_le hcolumns, Nat.add_mul] at hneeded
    omega

theorem back (h : Typed columns rows limit p (cells ++ [a]) q)
    (hfits : limit ≤ (rows - 1) * columns) :
    Typed columns rows limit p cells (q.back columns) where
  start := h.start
  inView := h.inView.back (h.not_corner (by simp) hfits)
  scrolled := by
    have hscrolled := h.scrolled
    rw [putAll_concat] at hscrolled
    exact ((h.start.putAll cells).1.back_put a).trans hscrolled.back
  few := by
    have hfew := h.few
    rw [List.length_append] at hfew
    omega
  bound := by
    have htop : (q.back columns).top = q.top := by
      unfold Page.back retreat
      split <;> rfl
    rw [htop]
    exact h.bound

end Typed

end terminal
