-- What the screen shows: after any run of the driver the pixels in memory are the picture of
-- a page of characters.
import BareBones.Framebuffer
import BareBones.KernelLib
import BareBones.Lib.Terminal

namespace bare_bones.video

open runs terminal byte_memory
open bare_bones.lib (memcpy memcpy_spares memcpy_spec memset memset_wrote)
open bare_bones.pixels (bytesOf pixels_apart)

def setFontColor (color : Color) (v : Video) : Video := { v with fontColor := color }

/-- An effect in the memory of the screen. The buffer of characters lies elsewhere. -/
def replay (framebuffer : Nat) (m : Memory) : Effect → Memory
  | .setChar _ _ => m
  | .pixel pos color => m.store (framebuffer + pos) (bytesOf color)
  | .memset pos len => (memset (framebuffer + pos) 0 len m).2
  | .memcpy dst src len => (memcpy (framebuffer + dst) (framebuffer + src) len m).2
  | .minus _ _ => m

/-- The memory after all that the driver wrote. -/
def shown (framebuffer : Nat) (m : Memory) (v : Video) : Memory :=
  v.log.foldl (replay framebuffer) m

theorem shown_logs (framebuffer : Nat) (m : Memory) (v : Video) (effects : List Effect) :
    shown framebuffer m (v.logs effects) =
      effects.foldl (replay framebuffer) (shown framebuffer m v) :=
  List.foldl_append

/-! ## The page of characters -/

/-- What was printed and the page on which it stands. -/
structure Console where
  font : Fin 3
  fontColor : Color
  text : List UInt8
  page : Page (UInt8 × Color)

def columns (d : Screen) (f : Fin 3) : Nat := d.width / charWidths f

def rows (d : Screen) (f : Fin 3) : Nat := d.height / charHeights f

/-- What is not printable takes a cell and leaves it blank. -/
def cellOf (fontColor : Color) (c : UInt8) : Option (UInt8 × Color) :=
  if FIRST_CHAR ≤ c ∧ c ≤ LAST_CHAR then some (c, fontColor) else none

namespace Console

def clear (k : Console) : Console := { k with text := [], page := Page.blank }

def store (d : Screen) (k : Console) (c : UInt8) : Console :=
  { k with
    text := k.text ++ [c]
    page :=
      if c = 10 then k.page.newline (rows d k.font)
      else k.page.put (columns d k.font) (rows d k.font) (cellOf k.fontColor c) }

def erase (d : Screen) (k : Console) : Console :=
  { k with text := k.text.dropLast, page := k.page.back (columns d k.font) }

/-- A full console is cleared, and says so. -/
def print (d : Screen) (k : Console) (c : UInt8) : Console :=
  if c = 8 then k.erase d
  else if k.text.length = MAX_RESOLUTION then
    (MSG_BUFFER_EXCEEDED.foldl (store d) k.clear).store d c
  else k.store d c

/-- The text up to the first 0, written again. -/
def setFont (d : Screen) (k : Console) (f : Nat) : Console :=
  if h : f < 3 then
    (k.text.takeWhile (· ≠ 0)).foldl (store d) { k with font := ⟨f, h⟩ }.clear
  else k

end Console

inductive Action
  | call (call : Call)
  | setFontColor (color : Color)

def act (d : Screen) (v : Video) : Action → Video
  | .call call => exec d v call
  | .setFontColor color => setFontColor color v

def Console.act (d : Screen) (k : Console) : Action → Console
  | .call (.printChar c) => k.print d c
  | .call .printNewline => { k with page := k.page.newline (rows d k.font) }
  | .call (.setFontSize f) => k.setFont d f
  | .call .videoClear => k.clear
  | .setFontColor color => { k with fontColor := color }

/-- Each backspace erases something. -/
def Action.erases (v : Video) : Action → Prop
  | .call e => erasesSomething v e
  | .setFontColor _ => True

instance (v : Video) : ∀ a, Decidable (Action.erases v a)
  | .call e => inferInstanceAs (Decidable (erasesSomething v e))
  | .setFontColor _ => isTrue trivial

/-- The bit of column `i` and row `h` of a character in a font. -/
def lit (d : Screen) (f : Fin 3) (c : UInt8) (h i : Nat) : Bool :=
  glyphBit d (cleared BLACK f) c h i

/-- The pixel of a cell. -/
def cellPixel (d : Screen) (f : Fin 3) (h i : Nat) : Option (UInt8 × Color) → Color
  | some (c, color) => if lit d f c h i then color else BLACK
  | none => BLACK

/-- The picture of the rows in view. -/
def picture (d : Screen) (k : Console) (x y : Nat) : Color :=
  cellPixel d k.font (y % charHeights k.font) (x % charWidths k.font)
    (k.page.cells (k.page.top + y / charHeights k.font) (x / charWidths k.font))

/-! ## Pixels in memory -/

section Pixels

variable {d : Screen} {framebuffer : Nat} {m : Memory} {x y : Nat}

def pixel (framebuffer : Nat) (d : Screen) (m : Memory) (x y : Nat) : List UInt8 :=
  m.load (framebuffer + getPtrToPixel d x y) RGB_SIZE

theorem ptr_apart {x' y' : Nat} (hx : x < d.width) (hx' : x' < d.width)
    (h : ¬ (x = x' ∧ y = y')) :
    getPtrToPixel d x y + RGB_SIZE ≤ getPtrToPixel d x' y' ∨
      getPtrToPixel d x' y' + RGB_SIZE ≤ getPtrToPixel d x y := by
  have hwidth : (UInt16.ofNat d.width).toNat = d.width := by
    rw [UInt16.toNat_ofNat']
    exact Nat.mod_eq_of_lt d.width_lt
  have hapart := pixels_apart (d := ⟨0, UInt16.ofNat d.width, 0⟩)
    (hwidth.symm ▸ hx) (hwidth.symm ▸ hx') h
  simpa [pixels.getPtrToPixel, getPtrToPixel, hwidth] using hapart

theorem pixel_store {x' y' : Nat} (hx : x < d.width) (hx' : x' < d.width) (color : Color) :
    pixel framebuffer d (m.store (framebuffer + getPtrToPixel d x' y') (bytesOf color)) x y =
      if x = x' ∧ y = y' then bytesOf color else pixel framebuffer d m x y := by
  have hlen : (bytesOf color).length = RGB_SIZE := rfl
  split
  · rename_i hsame
    obtain ⟨rfl, rfl⟩ := hsame
    exact (wrote_store m _ (bytesOf color)).bytes
  · rename_i hne
    have hapart := ptr_apart hx hx' hne
    apply Memory.load_congr
    intro i hi
    apply Memory.store_outside
    omega

/-- Points drawn in one colour. -/
theorem pixel_draw {points : List (Nat × Nat)} (hin : ∀ p ∈ points, p.1 < d.width)
    (hx : x < d.width) (color : Color) (m : Memory) :
    pixel framebuffer d ((points.map fun p => Effect.pixel (getPtrToPixel d p.1 p.2) color).foldl
        (replay framebuffer) m) x y =
      if (x, y) ∈ points then bytesOf color else pixel framebuffer d m x y := by
  induction points generalizing m with
  | nil => simp
  | cons p points ih =>
    have hp := hin p List.mem_cons_self
    rw [List.map_cons, List.foldl_cons, ih fun q hq => hin q (List.mem_cons_of_mem p hq)]
    simp only [replay, pixel_store hx hp, List.mem_cons, Prod.ext_iff]
    by_cases htail : (x, y) ∈ points
    · simp [htail]
    · simp [htail]

/-- Rows cleared. -/
theorem pixel_memset (hx : x < d.width) (first n : Nat) :
    pixel framebuffer d (memset (framebuffer + getPtrToPixel d 0 first) 0
        (RGB_SIZE * d.width * n) m).2 x y =
      if first ≤ y ∧ y < first + n then bytesOf BLACK else pixel framebuffer d m x y := by
  obtain ⟨hbytes, hspared⟩ :=
    memset_wrote (framebuffer + getPtrToPixel d 0 first) 0 (RGB_SIZE * d.width * n) m
  have hone : bytesOf BLACK = List.replicate RGB_SIZE (UInt8.ofInt 0) := rfl
  rw [List.length_replicate] at hspared
  split
  · rename_i hin
    obtain ⟨j, rfl⟩ := Nat.exists_eq_add_of_le hin.1
    have hrow : (j + 1) * d.width ≤ n * d.width := Nat.mul_le_mul_right _ (by omega)
    have hcell := Memory.load_eq_iff.mp hbytes
    rw [hone]
    apply List.ext_getElem
    · simp [pixel]
    · intro i hi hi'
      have hi3 : i < RGB_SIZE := by simpa using hi'
      have hlt : RGB_SIZE * (x + j * d.width) + i < RGB_SIZE * d.width * n := by
        unfold RGB_SIZE at hi3 ⊢
        rw [Nat.add_mul, Nat.one_mul] at hrow
        rw [Nat.mul_assoc, Nat.mul_comm d.width n]
        omega
      have hat := hcell _ (by simpa using hlt)
      have hpos : framebuffer + getPtrToPixel d 0 first + (RGB_SIZE * (x + j * d.width) + i) =
          framebuffer + getPtrToPixel d x (first + j) + i := by
        unfold getPtrToPixel
        ring
      rw [hpos] at hat
      simpa [pixel, Memory.load] using hat
  · rename_i hout
    apply Memory.load_congr
    intro i hi
    apply hspared.bytes
    unfold getPtrToPixel RGB_SIZE at *
    by_cases habove : y < first
    · left
      have hrow : (y + 1) * d.width ≤ first * d.width := Nat.mul_le_mul_right _ habove
      rw [Nat.add_mul, Nat.one_mul] at hrow
      omega
    · right
      have hrow : (first + n) * d.width ≤ y * d.width := Nat.mul_le_mul_right _ (by omega)
      rw [Nat.add_mul] at hrow
      rw [Nat.mul_assoc, Nat.mul_comm d.width n]
      omega

/-- Rows moved up by `n`. -/
theorem pixel_memcpy {n : Nat} (hn : n ≤ d.height) (hx : x < d.width) :
    pixel framebuffer d (memcpy (framebuffer + getPtrToPixel d 0 0)
        (framebuffer + getPtrToPixel d 0 n) (RGB_SIZE * (d.width * (d.height - n))) m).2 x y =
      if y + n < d.height then pixel framebuffer d m x (y + n)
      else pixel framebuffer d m x y := by
  have hforward : framebuffer + getPtrToPixel d 0 0 ≤ framebuffer + getPtrToPixel d 0 n := by
    unfold getPtrToPixel
    exact Nat.add_le_add_left (Nat.mul_le_mul_left _ (by simp)) _
  have hcopied : Copied m _ _ _ (RGB_SIZE * (d.width * (d.height - n))) :=
    memcpy_spec (Or.inr hforward) m
  split
  · rename_i hin
    have hrow : (y + 1) * d.width ≤ (d.height - n) * d.width :=
      Nat.mul_le_mul_right _ (by omega)
    rw [Nat.add_mul, Nat.one_mul, Nat.mul_comm (d.height - n)] at hrow
    unfold pixel Memory.load
    refine List.map_congr_left fun i hi => ?_
    have hi3 := List.mem_range.mp hi
    have hat := hcopied.inside (RGB_SIZE * (x + y * d.width) + i) (by
      unfold RGB_SIZE at hi3 ⊢
      omega)
    have hto : framebuffer + getPtrToPixel d 0 0 + (RGB_SIZE * (x + y * d.width) + i) =
        framebuffer + getPtrToPixel d x y + i := by
      unfold getPtrToPixel
      ring
    have hfrom : framebuffer + getPtrToPixel d 0 n + (RGB_SIZE * (x + y * d.width) + i) =
        framebuffer + getPtrToPixel d x (y + n) + i := by
      unfold getPtrToPixel
      ring
    rwa [hto, hfrom] at hat
  · rename_i hout
    have hrow : (d.height - n) * d.width ≤ y * d.width := Nat.mul_le_mul_right _ (by omega)
    rw [Nat.mul_comm (d.height - n)] at hrow
    apply Memory.load_congr
    intro i hi
    apply hcopied.outside.bytes
    right
    unfold getPtrToPixel RGB_SIZE
    omega

/-- The rows that `printNewline` moves and clears when there is no room below. -/
theorem pixel_scroll {n : Nat} (hn : n ≤ d.height) (hx : x < d.width) (hy : y < d.height) :
    pixel framebuffer d
        ([.memcpy (getPtrToPixel d 0 0) (getPtrToPixel d 0 n)
            (RGB_SIZE * (d.width * (d.height - n))),
          .memset (getPtrToPixel d 0 (d.height - n)) (RGB_SIZE * d.width * n)].foldl
          (replay framebuffer) m) x y =
      if y + n < d.height then pixel framebuffer d m x (y + n) else bytesOf BLACK := by
  simp only [List.foldl_cons, List.foldl_nil, replay]
  rw [pixel_memset hx, pixel_memcpy hn hx]
  by_cases hmoved : y + n < d.height
  · rw [if_neg (by omega), if_pos hmoved, if_pos hmoved]
  · rw [if_pos (by omega), if_neg hmoved]

end Pixels

/-! ## Rectangles in memory -/

section Rectangles

open bare_bones.pixels (drawColumns drawRows)

theorem drawColumns_eq (color : Color) (width ptr : Nat) (m : Memory) :
    drawColumns color width ptr m = (ptr + RGB_SIZE * width,
      (List.range width).foldl (fun m c => m.store (ptr + RGB_SIZE * c) (bytesOf color)) m) := by
  induction width with
  | zero => rfl
  | succ width ih =>
    rw [drawColumns, List.range_succ, List.foldl_append, ← drawColumns, ih]
    simp [Nat.mul_succ, Nat.add_assoc]

theorem drawRows_eq (color : Color) (width lineDiff height ptr : Nat) (m : Memory) :
    drawRows color width lineDiff height ptr m =
      (ptr + RGB_SIZE * (height * (width + lineDiff)),
        (List.range height).foldl (fun m i => (List.range width).foldl
          (fun m c => m.store (ptr + RGB_SIZE * (i * (width + lineDiff) + c)) (bytesOf color)) m)
          m) := by
  induction height with
  | zero => simp [drawRows]
  | succ height ih =>
    rw [drawRows, List.range_succ, List.foldl_append, ← drawRows, ih]
    simp only [List.foldl_cons, List.foldl_nil, drawColumns_eq, List.foldl_append]
    rw [Prod.mk.injEq]
    constructor
    · ring
    · simp only [Nat.mul_add, Nat.add_assoc]

/-- A rectangle of the driver is in memory what `drawRect` writes. -/
theorem shown_drawRect {d : Screen} {s : pixels.ScreenData} (hwidth : d.width = s.width.toNat)
    (hheight : d.height = s.height.toNat) (m : Memory) (v : Video) (x y width height : UInt16)
    (color : Color) :
    shown s.framebuffer.toNat m (drawRect d x.toNat y.toNat width.toNat height.toNat color v) =
      pixels.drawRect s x y width height color (shown s.framebuffer.toNat m v) := by
  have hvalid : coordinatesValid d x.toNat y.toNat = pixels.coordinatesValid s x y := by
    simp [coordinatesValid, pixels.coordinatesValid, hwidth, hheight, UInt16.lt_iff_toNat_lt]
  have hminus (a b : UInt16) : minus16 a.toNat b.toNat = (a - b).toNat := by
    rw [minus16, u16, UInt16.toNat_sub]
    have := b.toNat_lt
    congr 1
    omega
  have hmin (a b : UInt16) : min a.toNat b.toNat = (if b < a then b else a).toNat := by
    split
    · rename_i hlt
      exact Nat.min_eq_right (Nat.le_of_lt (UInt16.lt_iff_toNat_lt.mp hlt))
    · rename_i hlt
      exact Nat.min_eq_left (Nat.not_lt.mp fun h => hlt (UInt16.lt_iff_toNat_lt.mpr h))
  unfold drawRect pixels.drawRect
  rw [hvalid]
  split
  · simp only [shown_logs, hwidth, hheight, hminus, hmin, List.foldl_append, List.foldl_cons,
      List.foldl_nil, replay, List.foldl_flatMap, List.foldl_map, drawRows_eq]
    simp only [getPtrToPixel, pixels.getPtrToPixel, hwidth, Nat.add_assoc]
  · rfl

end Rectangles

/-! ## The picture follows each part of the driver -/

/-- The cursor and the pixels are those of the page. -/
structure Shows (d : Screen) (framebuffer : Nat) (m : Memory) (v : Video) (k : Console) :
    Prop where
  font : k.font = v.font
  fontColor : k.fontColor = v.fontColor
  text : k.text = text v
  X : v.X = k.page.column * v.charWidth
  Y : v.Y = (k.page.row - k.page.top) * v.charHeight
  pixels : ∀ x < d.width, ∀ y < d.height,
    pixel framebuffer d (shown framebuffer m v) x y = bytesOf (picture d k x y)

structure Displays (d : Screen) (framebuffer : Nat) (m : Memory) (v : Video) (k : Console) :
    Prop where
  fits : Fits d v
  shows : Shows d framebuffer m v k
  inView : InView (columns d k.font) (rows d k.font) k.page

section Steps

variable {d : Screen} {framebuffer : Nat} {m : Memory} {v w : Video} {k : Console}

theorem charHeight_pos (v : Video) : 0 < v.charHeight := by
  have h : ∀ f, 0 < charHeights f := by decide
  exact h v.font

theorem displays_videoClear (hfits : Fits d (videoClear d v)) (hfont : k.font = v.font)
    (hcolor : k.fontColor = v.fontColor) :
    Displays d framebuffer m (videoClear d v) k.clear where
  fits := hfits
  shows := by
    refine ⟨hfont, hcolor, rfl, ?_, ?_, ?_⟩
    · simp [videoClear, Console.clear, Page.blank]
    · simp [videoClear, Console.clear, Page.blank]
    · intro x hx y hy
      have hcleared : shown framebuffer m (videoClear d v) =
          (memset (framebuffer + getPtrToPixel d 0 0) 0 (RGB_SIZE * d.width * d.height)
            (shown framebuffer m v)).2 := shown_logs framebuffer m v _
      rw [hcleared, pixel_memset hx, if_pos (by omega)]
      rfl
  inView := by
    apply inView_blank
    · exact Nat.div_pos (d.wide k.font) (charWidth_pos ⟨0, 0, BLACK, k.font, fun _ => 0, 0, []⟩)
    · exact Nat.div_pos (d.high k.font) (charHeight_pos ⟨0, 0, BLACK, k.font, fun _ => 0, 0, []⟩)

/-- A new line below the cursor, whether the rows move up or not. -/
theorem shows_printNewline (h : Shows d framebuffer m v k) (htop : k.page.top ≤ k.page.row)
    (hbottom : k.page.row < k.page.top + rows d k.font)
    (hbelow : ∀ r c, k.page.row < r → k.page.cells r c = none) :
    Shows d framebuffer m (printNewline d v)
      { k with page := k.page.newline (rows d k.font) } := by
  have hheight := d.height_lt
  have hpos := charHeight_pos v
  have hrows : rows d k.font = d.height / v.charHeight := by rw [h.font]; rfl
  have hroom : v.Y + 2 * v.charHeight ≤ d.height ↔ k.page.row + 1 < k.page.top + rows d k.font := by
    rw [h.Y, ← Nat.add_mul, hrows, ← Nat.le_div_iff_mul_le hpos]
    omega
  have hfirst : ∀ p : Page (UInt8 × Color), (p.newline (rows d k.font)).column = 0 := fun _ => rfl
  unfold printNewline
  dsimp only
  split
  · rename_i hfits
    have hroom' := hroom.mp hfits
    have htop' : max k.page.top (k.page.row + 2 - rows d k.font) = k.page.top := by omega
    have hY : u16 (v.Y + v.charHeight) = v.Y + v.charHeight := u16_of_lt (by omega)
    have hnext : (k.page.newline (rows d k.font)).row - (k.page.newline (rows d k.font)).top =
        k.page.row - k.page.top + 1 := by
      simp only [Page.newline, htop']
      omega
    refine ⟨h.font, h.fontColor, h.text, (Nat.zero_mul _).symm, ?_, ?_⟩
    · calc u16 (v.Y + v.charHeight) = v.Y + v.charHeight := u16_of_lt (by omega)
        _ = (k.page.row - k.page.top + 1) * v.charHeight := by
          rw [h.Y, Nat.add_mul, Nat.one_mul]
        _ = _ := by rw [← hnext]; rfl
    · intro x hx y hy
      simp only [picture, Page.newline, htop']
      exact h.pixels x hx y hy
  · rename_i hfull
    have hlast : ¬ k.page.row + 1 < k.page.top + rows d k.font := fun h => hfull (hroom.mpr h)
    have htop' : max k.page.top (k.page.row + 2 - rows d k.font) = k.page.top + 1 := by omega
    have hnext : (k.page.newline (rows d k.font)).row - (k.page.newline (rows d k.font)).top =
        k.page.row - k.page.top := by
      simp only [Page.newline, htop']
      omega
    refine ⟨h.font, h.fontColor, h.text, (Nat.zero_mul _).symm, ?_, ?_⟩
    · rw [hnext]
      exact h.Y
    · intro x hx y hy
      have hle : v.charHeight ≤ d.height := d.high v.font
      have hheights : charHeights k.font = v.charHeight := congrArg charHeights h.font
      refine (congrArg (pixel framebuffer d · x y) (shown_logs ..)).trans ?_
      refine (pixel_scroll hle hx hy).trans ?_
      split
      · rename_i hmoved
        have hup : (y + v.charHeight) / v.charHeight = y / v.charHeight + 1 :=
          Nat.add_div_right y hpos
        refine (h.pixels x hx _ hmoved).trans (congrArg bytesOf ?_)
        simp only [picture, Page.newline, htop', hheights, hup, Nat.add_mod_right]
        rw [Nat.add_right_comm, Nat.add_assoc]
      · rename_i hnew
        have hunder : d.height / v.charHeight ≤ y / v.charHeight + 1 := by
          rw [← Nat.add_div_right y hpos]
          exact Nat.div_le_div_right (by omega)
        have hnone := hbelow (k.page.top + 1 + y / v.charHeight) (x / charWidths k.font) (by omega)
        simp only [picture, Page.newline, htop', hheights, hnone, cellPixel]

/-- The pixels of the cell under the cursor. -/
def Over (v : Video) (x y : Nat) : Prop :=
  (v.X ≤ x ∧ x < v.X + v.charWidth) ∧ v.Y ≤ y ∧ y < v.Y + v.charHeight

theorem mod_of_div {x w c : Nat} (h : x / w = c) : x % w = x - c * w := by
  have hdiv := Nat.div_add_mod x w
  rw [h, Nat.mul_comm] at hdiv
  omega

theorem over_iff (h : Shows d framebuffer m v k) (htop : k.page.top ≤ k.page.row) (x y : Nat) :
    Over v x y ↔ k.page.top + y / v.charHeight = k.page.row ∧ x / v.charWidth = k.page.column := by
  have hwidth := charWidth_pos v
  have hheight := charHeight_pos v
  have hrow : k.page.top + y / v.charHeight = k.page.row ↔
      y / v.charHeight = k.page.row - k.page.top := by omega
  rw [hrow, Nat.div_eq_iff hheight, Nat.div_eq_iff hwidth, ← h.X, ← h.Y, Over]
  omega

/-- What is drawn over the cursor, one colour where there are points, is a new cell. -/
theorem shows_drawn (h : Shows d framebuffer m v k) (htop : k.page.top ≤ k.page.row)
    {points : List (Nat × Nat)} {color : Color} {a : Option (UInt8 × Color)}
    (hin : ∀ p ∈ points, p.1 < d.width) (hover : ∀ x y, (x, y) ∈ points → Over v x y)
    (hcell : ∀ x y, Over v x y → (if (x, y) ∈ points then color else picture d k x y) =
      cellPixel d k.font (y - v.Y) (x - v.X) a)
    {effects : List Effect} (heffects : ∀ m, effects.foldl (replay framebuffer) m =
      (points.map fun p => Effect.pixel (getPtrToPixel d p.1 p.2) color).foldl
        (replay framebuffer) m) :
    Shows d framebuffer m (v.logs effects) { k with page := k.page.mark a } := by
  refine ⟨h.font, h.fontColor, h.text, h.X, h.Y, ?_⟩
  intro x hx y hy
  have hwidths : charWidths k.font = v.charWidth := congrArg charWidths h.font
  have hheights : charHeights k.font = v.charHeight := congrArg charHeights h.font
  have hiff := over_iff h htop x y
  have hdrawn : pixel framebuffer d (shown framebuffer m (v.logs effects)) x y =
      bytesOf (if (x, y) ∈ points then color else picture d k x y) := by
    rw [shown_logs, heffects, pixel_draw hin hx, h.pixels x hx y hy, apply_ite bytesOf]
  rw [hdrawn]
  apply congrArg bytesOf
  by_cases hcursor : Over v x y
  · obtain ⟨hrow, hcolumn⟩ := hiff.mp hcursor
    have hi : x % v.charWidth = x - v.X := by rw [mod_of_div hcolumn, ← h.X]
    have hh : y % v.charHeight = y - v.Y := by
      rw [mod_of_div (c := k.page.row - k.page.top) (by omega), ← h.Y]
    rw [hcell x y hcursor]
    simp only [picture, Page.mark, hwidths, hheights, hrow, hcolumn, and_self, if_true, hi, hh]
  · have hpoint : (x, y) ∉ points := fun hp => hcursor (hover x y hp)
    rw [if_neg hpoint]
    simp only [picture, Page.mark, hwidths, hheights]
    rw [if_neg fun hcell => hcursor (hiff.mpr hcell)]

/-- The lit bits of a character at the cursor. -/
def glyphPoints (d : Screen) (c : UInt8) (v : Video) : List (Nat × Nat) :=
  (List.range v.charHeight).flatMap fun h =>
    ((List.range v.charWidth).filter (glyphBit d v c h)).map fun i => (v.X + i, v.Y + h)

theorem mem_glyphPoints (d : Screen) (c : UInt8) (v : Video) (x y : Nat) :
    (x, y) ∈ glyphPoints d c v ↔ Over v x y ∧ glyphBit d v c (y - v.Y) (x - v.X) := by
  simp only [glyphPoints, List.mem_flatMap, List.mem_range, List.mem_map, List.mem_filter,
    Prod.mk.injEq, Over]
  constructor
  · rintro ⟨h, hh, i, ⟨hi, hbit⟩, rfl, rfl⟩
    refine ⟨by omega, ?_⟩
    simpa using hbit
  · rintro ⟨hover, hbit⟩
    exact ⟨y - v.Y, by omega, x - v.X, ⟨by omega, hbit⟩, by omega, by omega⟩

theorem drawGlyph_eq (hbottom : v.Y + v.charHeight ≤ d.height) (c : UInt8) :
    drawGlyph d c v = v.logs ((glyphPoints d c v).map fun p =>
      Effect.pixel (getPtrToPixel d p.1 p.2) v.fontColor) := by
  have hheight := d.height_lt
  apply congrArg v.logs
  rw [glyphPoints, List.map_flatMap]
  apply List.flatMap_congr
  intro h hh
  rw [List.map_map]
  refine List.map_congr_left fun i hi => ?_
  have hlt := List.mem_range.mp hh
  have hrow : u16 (v.Y + h) = v.Y + h := u16_of_lt (by omega)
  simp only [Function.comp_apply, hrow, Effect.pixel.injEq, and_true]
  unfold getPtrToPixel
  ring

theorem shows_drawGlyph (h : Shows d framebuffer m v k)
    (hview : InView (columns d k.font) (rows d k.font) k.page)
    (hright : v.X + v.charWidth ≤ d.width) (hbottom : v.Y + v.charHeight ≤ d.height) (c : UInt8) :
    Shows d framebuffer m (drawGlyph d c v)
      { k with page := k.page.mark (some (c, k.fontColor)) } := by
  have hwidths : charWidths k.font = v.charWidth := congrArg charWidths h.font
  have hheights : charHeights k.font = v.charHeight := congrArg charHeights h.font
  rw [drawGlyph_eq hbottom]
  refine shows_drawn h hview.top ?_ ?_ ?_ fun m => rfl
  · rintro ⟨x, y⟩ hp
    have hover := ((mem_glyphPoints d c v x y).mp hp).1
    unfold Over at hover
    omega
  · intro x y hp
    exact ((mem_glyphPoints d c v x y).mp hp).1
  · intro x y hover
    obtain ⟨hrow, hcolumn⟩ := (over_iff h hview.top x y).mp hover
    have hblank := hview.ahead k.page.row k.page.column (Or.inr ⟨rfl, Nat.le_refl _⟩)
    have hbit : lit d k.font c (y - v.Y) (x - v.X) = glyphBit d v c (y - v.Y) (x - v.X) := by
      rw [h.font]
      rfl
    simp only [mem_glyphPoints, hover, true_and, picture, hwidths, hheights, hrow, hcolumn, hblank,
      cellPixel, hbit, h.fontColor]

theorem shows_advance (h : Shows d framebuffer m v k) (hcolumn : k.page.column < columns d k.font)
    (htop : k.page.top ≤ k.page.row) (hbottom : k.page.row < k.page.top + rows d k.font)
    (hbelow : ∀ r c, k.page.row < r → k.page.cells r c = none) :
    Shows d framebuffer m (advance d v)
      { k with page := k.page.advance (columns d k.font) (rows d k.font) } := by
  have hwidth := d.width_lt
  have hpos := charWidth_pos v
  have hline := lineWidth_le d v
  have hcolumns : columns d k.font = d.width / v.charWidth := by rw [h.font]; rfl
  have hnext : v.X + v.charWidth = (k.page.column + 1) * v.charWidth := by
    rw [h.X, Nat.add_mul, Nat.one_mul]
  have hlast : v.X + v.charWidth ≤ lineWidth d v := by
    rw [hnext, lineWidth, ← hcolumns]
    exact Nat.mul_le_mul_right _ hcolumn
  have hX : u16 (v.X + v.charWidth) = (k.page.column + 1) * v.charWidth := by
    rw [← hnext]
    exact u16_of_lt (by omega)
  have hend : d.width / v.charWidth * v.charWidth - v.charWidth <
      (k.page.column + 1) * v.charWidth ↔ ¬ k.page.column + 1 < columns d k.font := by
    rw [← hcolumns, ← Nat.sub_one_mul, Nat.mul_lt_mul_right hpos]
    omega
  have hmoved : Shows d framebuffer m { v with X := u16 (v.X + v.charWidth) }
      { k with page := { k.page with column := k.page.column + 1 } } :=
    ⟨h.font, h.fontColor, h.text, hX, h.Y, h.pixels⟩
  unfold advance Page.advance
  dsimp only
  rw [hX] at hmoved ⊢
  by_cases hroom : k.page.column + 1 < columns d k.font
  · have hnot := mt hend.mp (not_not.mpr hroom)
    rw [if_pos hroom]
    exact (if_neg hnot).symm ▸ hmoved
  · rw [if_neg hroom]
    have hnewline := shows_printNewline hmoved htop hbottom hbelow
    exact (if_pos (hend.mpr hroom)).symm ▸ hnewline

theorem mark_none_of_blank {p : Page (UInt8 × Color)} (h : p.cells p.row p.column = none) :
    p.mark none = p := by
  have hcells : (p.mark none).cells = p.cells := by
    funext r c
    simp only [Page.mark]
    split
    · rename_i hcursor
      rw [hcursor.1, hcursor.2, h]
    · rfl
  exact congrArg (fun cells => { p with cells := cells }) hcells

theorem shows_append (h : Shows d framebuffer m v k) (hroom : v.bufferIdx < MAX_RESOLUTION)
    (c : UInt8) : Shows d framebuffer m (append c v) { k with text := k.text ++ [c] } := by
  have hidx : (append c v).bufferIdx = v.bufferIdx + 1 := by
    apply u16_of_lt
    unfold MAX_RESOLUTION at hroom
    omega
  have hold : (List.range v.bufferIdx).map (append c v).charBuffer = text v := by
    refine List.map_congr_left fun i hi => ?_
    have hlt := List.mem_range.mp hi
    simp only [append, Function.update_of_ne (Nat.ne_of_lt hlt)]
  have hnew : (append c v).charBuffer v.bufferIdx = c := Function.update_self ..
  refine ⟨h.font, h.fontColor, ?_, h.X, h.Y, ?_⟩
  · calc k.text ++ [c] = text v ++ [c] := by rw [h.text]
      _ = text (append c v) := by
        rw [text, text, hidx, List.range_succ, List.map_append, List.map_singleton, hnew, hold,
          text]
  · intro x hx y hy
    have hsame : shown framebuffer m (append c v) = shown framebuffer m v :=
      shown_logs framebuffer m v _
    rw [hsame]
    exact h.pixels x hx y hy

/-- A character after the cursor, or a new line. -/
theorem displays_storeChar (h : Displays d framebuffer m v k) {c : UInt8} (hc : c ≠ 8)
    (hroom : v.bufferIdx < MAX_RESOLUTION) :
    Displays d framebuffer m (storeChar d c v) (k.store d c) := by
  have hfits := fits_storeChar h.fits hc hroom
  have happend := shows_append h.shows hroom c
  have hview := h.inView
  have hright := h.fits.right.trans (lineWidth_le d v)
  have hbottom := h.fits.bottom
  have hblank := hview.ahead k.page.row k.page.column (Or.inr ⟨rfl, Nat.le_refl _⟩)
  refine ⟨hfits, ?_, ?_⟩
  · unfold storeChar Console.store
    dsimp only
    split
    · apply shows_printNewline happend hview.top hview.bottom
      intro r c hr
      exact hview.ahead r c (Or.inl hr)
    · unfold Page.put cellOf
      -- The cell under the cursor is written before the cursor moves past it.
      have hbelow : ∀ a r c, k.page.row < r → (k.page.mark a).cells r c = none := by
        intro a r c hr
        simp only [Page.mark, if_neg fun h : r = k.page.row ∧ c = k.page.column => by omega]
        exact hview.ahead r c (Or.inl hr)
      split
      · have hdrawn := shows_drawGlyph happend hview hright hbottom c
        exact shows_advance hdrawn hview.column hview.top hview.bottom (hbelow _)
      · have hunwritten := shows_advance happend hview.column hview.top hview.bottom fun r c hr =>
          hview.ahead r c (Or.inl hr)
        rw [mark_none_of_blank hblank]
        exact hunwritten
  · unfold Console.store
    dsimp only
    split
    · exact hview.newline
    · exact hview.put _

theorem shows_retreat (h : Shows d framebuffer m v k) (hfits : Fits d v)
    (he : v.charWidth ≤ v.X ∨ 0 < v.Y) :
    Shows d framebuffer m (retreat d v)
      { k with page := k.page.retreat (columns d k.font) } := by
  have hwidth := d.width_lt
  have hheight := d.height_lt
  have hright := hfits.right.trans (lineWidth_le d v)
  have hbottom := hfits.bottom
  have hcolumns : columns d k.font = d.width / v.charWidth := by rw [h.font]; rfl
  have hfirst : v.X < v.charWidth ↔ k.page.column = 0 := by
    have hlt := Nat.mul_lt_mul_right (b := k.page.column) (c := 1) (charWidth_pos v)
    rw [← h.X, Nat.one_mul] at hlt
    rw [hlt]
    omega
  have hsame : ∀ a b, shown framebuffer m (v.logs [.minus a b]) = shown framebuffer m v :=
    fun a b => shown_logs framebuffer m v _
  unfold retreat Page.retreat
  by_cases hcolumn : k.page.column = 0
  · have hX := hfirst.mpr hcolumn
    have hY : 0 < v.Y := he.resolve_left (by omega)
    have hle : v.charHeight ≤ v.Y := Nat.le_of_dvd hY hfits.row
    rw [if_pos ⟨hX, hY⟩, if_pos hcolumn]
    refine ⟨h.font, h.fontColor, h.text, ?_, ?_, ?_⟩
    · dsimp only
      rw [hcolumns, Nat.sub_one_mul]
      rfl
    · dsimp only
      rw [minus16_of_le hle (by omega), Nat.sub_right_comm, Nat.sub_one_mul]
      exact congrArg (· - v.charHeight) h.Y
    · intro x hx y hy
      exact (congrArg (pixel framebuffer d · x y) (hsame ..)).trans (h.pixels x hx y hy)
  · have hX : ¬ v.X < v.charWidth := mt hfirst.mp hcolumn
    rw [if_neg fun habove => hX habove.1, if_neg hcolumn]
    refine ⟨h.font, h.fontColor, h.text, ?_, h.Y, ?_⟩
    · dsimp only
      rw [minus16_of_le (Nat.not_lt.mp hX) (by omega), Nat.sub_one_mul]
      exact congrArg (· - v.charWidth) h.X
    · intro x hx y hy
      exact (congrArg (pixel framebuffer d · x y) (hsame ..)).trans (h.pixels x hx y hy)

/-- The whole cell at the cursor. -/
def cellPoints (v : Video) : List (Nat × Nat) :=
  (List.range v.charHeight).flatMap fun i =>
    (List.range v.charWidth).map fun c => (v.X + c, v.Y + i)

theorem mem_cellPoints (v : Video) (x y : Nat) : (x, y) ∈ cellPoints v ↔ Over v x y := by
  simp only [cellPoints, List.mem_flatMap, List.mem_range, List.mem_map, Prod.mk.injEq, Over]
  constructor
  · rintro ⟨i, hi, c, hc, rfl, rfl⟩
    omega
  · intro hover
    exact ⟨y - v.Y, by omega, x - v.X, by omega, by omega, by omega⟩

theorem drawRect_eq (hright : v.X + v.charWidth ≤ d.width) (hbottom : v.Y + v.charHeight ≤ d.height)
    (color : Color) :
    drawRect d v.X v.Y v.charWidth v.charHeight color v =
      v.logs ([.minus d.width v.X, .minus d.height v.Y, .minus d.width v.charWidth] ++
        (cellPoints v).map fun p => Effect.pixel (getPtrToPixel d p.1 p.2) color) := by
  have hwidth := d.width_lt
  have hheight := d.height_lt
  have hvalid : coordinatesValid d v.X v.Y = true := by
    have hw := charWidth_pos v
    have hh := charHeight_pos v
    simp only [coordinatesValid, Bool.and_eq_true, decide_eq_true_eq]
    omega
  have hcolumns : min v.charWidth (minus16 d.width v.X) = v.charWidth := by
    rw [minus16_of_le (by omega) hwidth]
    omega
  have hrows : min v.charHeight (minus16 d.height v.Y) = v.charHeight := by
    rw [minus16_of_le (by omega) hheight]
    omega
  have hline : v.charWidth + minus16 d.width v.charWidth = d.width := by
    rw [minus16_of_le (by omega) hwidth]
    omega
  unfold drawRect
  simp only [hvalid, hcolumns, hrows, hline, if_true, cellPoints, List.map_flatMap, List.map_map]
  congr 2
  apply List.flatMap_congr
  intro i hi
  refine List.map_congr_left fun c hc => ?_
  simp only [Function.comp_apply, Effect.pixel.injEq, and_true]
  unfold getPtrToPixel
  ring

theorem shows_blanked (h : Shows d framebuffer m v k) (htop : k.page.top ≤ k.page.row)
    (hright : v.X + v.charWidth ≤ d.width) (hbottom : v.Y + v.charHeight ≤ d.height) :
    Shows d framebuffer m (drawRect d v.X v.Y v.charWidth v.charHeight BLACK v)
      { k with page := k.page.mark none } := by
  rw [drawRect_eq hright hbottom]
  refine shows_drawn h htop ?_ ?_ ?_ fun m => rfl
  · rintro ⟨x, y⟩ hp
    have hover := (mem_cellPoints v x y).mp hp
    unfold Over at hover
    omega
  · intro x y hp
    exact (mem_cellPoints v x y).mp hp
  · intro x y hover
    rw [if_pos ((mem_cellPoints v x y).mpr hover)]
    rfl

theorem shows_shortened (h : Shows d framebuffer m v k) (hpos : 0 < v.bufferIdx)
    (hroom : v.bufferIdx ≤ MAX_RESOLUTION) :
    Shows d framebuffer m
      { v.logs [.minus v.bufferIdx 1] with bufferIdx := minus16 v.bufferIdx 1 }
      { k with text := k.text.dropLast } := by
  have hminus : minus16 v.bufferIdx 1 = v.bufferIdx - 1 :=
    minus16_of_le hpos (hroom.trans_lt (by decide))
  have hsame : shown framebuffer m (v.logs [.minus v.bufferIdx 1]) = shown framebuffer m v :=
    shown_logs framebuffer m v _
  rw [hminus]
  refine ⟨h.font, h.fontColor, ?_, h.X, h.Y, ?_⟩
  · obtain ⟨n, hn⟩ := Nat.exists_eq_add_of_le' hpos
    calc k.text.dropLast = (text v).dropLast := by rw [h.text]
      _ = (List.range n).map v.charBuffer := by
        rw [text, hn, List.range_succ, List.map_append, List.map_singleton, List.dropLast_concat]
      _ = _ := by rw [text, hn]; rfl
  · intro x hx y hy
    exact (congrArg (pixel framebuffer d · x y) hsame).trans (h.pixels x hx y hy)

theorem Displays.length (h : Displays d framebuffer m v k) : k.text.length = v.bufferIdx := by
  rw [h.shows.text]
  simp [text]

/-- Something was printed, and the cursor is not in the corner. -/
theorem erases_iff (h : Displays d framebuffer m v k) :
    erases v ↔ 0 < k.text.length ∧ (0 < k.page.column ∨ k.page.top < k.page.row) := by
  have hX := h.shows.X
  have hY := h.shows.Y
  have hwidth := charWidth_pos v
  have hheight := charHeight_pos v
  have hleft : v.charWidth ≤ v.X ↔ 0 < k.page.column := by
    have hle := Nat.mul_le_mul_right_iff (n := 1) (m := k.page.column) hwidth
    rw [Nat.one_mul] at hle
    rw [hX, hle]
    exact Nat.succ_le_iff
  have hup : 0 < v.Y ↔ k.page.top < k.page.row := by
    rw [hY, Nat.mul_pos_iff_of_pos_right hheight]
    omega
  rw [erases, h.length, hleft, hup]

/-- A step back over what was typed. -/
theorem displays_eraseChar (h : Displays d framebuffer m v k) (he : erases v) :
    Displays d framebuffer m (eraseChar d v) (k.erase d) := by
  have hback := (erases_iff h).mp he |>.2
  have hview := h.inView.back hback
  have hmoved := shows_retreat h.shows h.fits he.2
  have hfits := fits_retreat h.fits he.2
  have hright := hfits.right.trans (lineWidth_le d _)
  have hblanked := shows_blanked hmoved hview.top hright hfits.bottom
  refine ⟨fits_eraseChar h.fits he, ?_, hview⟩
  have hidx : (drawRect d (retreat d v).X (retreat d v).Y (retreat d v).charWidth
      (retreat d v).charHeight BLACK (retreat d v)).bufferIdx = v.bufferIdx := by
    rw [drawRect_bufferIdx, retreat_bufferIdx]
  unfold eraseChar
  dsimp only
  generalize drawRect d _ _ _ _ BLACK (retreat d v) = w at hidx hblanked ⊢
  exact shows_shortened hblanked (hidx ▸ he.1) (hidx ▸ h.fits.room)

/-! ## Runs -/

theorem displays_store_all (h : Displays d framebuffer m v k) {s : List UInt8}
    (hs : ∀ c ∈ s, c ≠ 8) (hroom : v.bufferIdx + s.length ≤ MAX_RESOLUTION) :
    Displays d framebuffer m (s.foldl (fun v c => storeChar d c v) v)
      (s.foldl (Console.store d) k) := by
  induction s generalizing v k with
  | nil => exact h
  | cons c s ih =>
    rw [List.length_cons] at hroom
    have hidx : (storeChar d c v).bufferIdx = v.bufferIdx + 1 := storeChar_bufferIdx (by omega)
    have hstored := displays_storeChar h (hs c List.mem_cons_self) (by omega)
    have hroom' : (storeChar d c v).bufferIdx + s.length ≤ MAX_RESOLUTION := by omega
    exact ih hstored (fun c hc => hs c (List.mem_cons_of_mem _ hc)) hroom'

theorem displays_printChar (h : Displays d framebuffer m v k) {c : UInt8}
    (he : c = 8 → erases v) : Displays d framebuffer m (printChar d c v) (k.print d c) := by
  unfold printChar Console.print
  rw [h.length]
  split
  · rename_i hc
    exact displays_eraseChar h (he hc)
  · rename_i hc
    split
    · have hcleared : Displays d framebuffer m (videoClear d v) k.clear :=
        displays_videoClear (fits_videoClear h.fits.text h.fits.safe) h.shows.font
          h.shows.fontColor
      have hmessage := displays_store_all hcleared (fun c hc => (message_fits.2 c hc).1)
        ((Nat.zero_add _).trans_le message_fits.1.le)
      exact displays_storeChar hmessage hc (fits_bufferExceeded h.fits).2
    · rename_i hfull
      exact displays_storeChar h hc (Nat.lt_of_le_of_ne h.fits.room hfull)

/-- What a rendering reads is the text as it was, up to the first 0. -/
theorem printN_eq_store {n s : Nat} (htext : ∀ i, v.charBuffer i ≠ 8) (hidx : v.bufferIdx = s)
    (hroom : s + n ≤ MAX_RESOLUTION) :
    printN d s n v =
      (((List.range' s n).map v.charBuffer).takeWhile (· ≠ 0)).foldl
        (fun v c => storeChar d c v) v := by
  induction n generalizing s v with
  | zero => rfl
  | succ n ih =>
    rw [printN, List.range'_succ, List.map_cons]
    split
    · rename_i hnul
      simp [hnul]
    · rename_i hchar
      have hstore : printChar d (v.charBuffer s) v = storeChar d (v.charBuffer s) v := by
        rw [printChar, if_neg (htext s), if_neg (by omega)]
      obtain ⟨-, hbuffer, -⟩ := storeChar_text d (v.charBuffer s) v
      have hsame : (storeChar d (v.charBuffer s) v).charBuffer = v.charBuffer := by
        rw [hbuffer, hidx, Function.update_eq_self]
      have hone : (storeChar d (v.charBuffer s) v).bufferIdx = s + 1 := by
        rw [storeChar_bufferIdx (by omega), hidx]
      have htext' : ∀ i, (storeChar d (v.charBuffer s) v).charBuffer i ≠ 8 := by
        rw [hsame]
        exact htext
      rw [hstore, ih htext' hone (by omega), hsame,
        List.takeWhile_cons_of_pos (by simpa using hchar), List.foldl_cons]

theorem displays_setFontSize (h : Displays d framebuffer m v k) (f : Nat) :
    Displays d framebuffer m (setFontSize d f v) (k.setFont d f) := by
  unfold setFontSize Console.setFont
  split
  · rename_i hf
    have hroom := h.fits.room
    have hcleared : Displays d framebuffer m (videoClear d { v with font := ⟨f, hf⟩ })
        { k with font := ⟨f, hf⟩ }.clear :=
      displays_videoClear (fits_videoClear h.fits.text h.fits.safe) rfl h.shows.fontColor
    have hstore := printN_eq_store (d := d) (v := videoClear d { v with font := ⟨f, hf⟩ })
      (n := v.bufferIdx) (s := 0) h.fits.text rfl (by omega)
    rw [← List.range_eq_range'] at hstore
    have htext : k.text.takeWhile (· ≠ 0) = (text v).takeWhile (· ≠ 0) := by rw [h.shows.text]
    have hlen : (k.text.takeWhile (· ≠ 0)).length ≤ v.bufferIdx := by
      rw [← h.length]
      exact (List.takeWhile_prefix _).length_le
    have hall := displays_store_all hcleared (s := k.text.takeWhile (· ≠ 0)) (by
      intro c hc
      have hin := (List.takeWhile_prefix _).subset hc
      rw [h.shows.text, text, List.mem_map] at hin
      obtain ⟨i, -, rfl⟩ := hin
      exact h.fits.text i) ((Nat.zero_add _).trans_le (hlen.trans hroom))
    refine Eq.mp ?_ hall
    congr 1
    rw [htext]
    exact hstore.symm
  · exact h

theorem displays_act (h : Displays d framebuffer m v k) (a : Action) (he : a.erases v) :
    Displays d framebuffer m (act d v a) (k.act d a) := by
  cases a with
  | setFontColor color =>
    have hshows := h.shows
    have hfits := h.fits
    exact ⟨⟨hfits.column, hfits.right, hfits.row, hfits.bottom, hfits.room, hfits.text, hfits.safe⟩,
      ⟨hshows.font, rfl, hshows.text, hshows.X, hshows.Y, hshows.pixels⟩, h.inView⟩
  | call e =>
    cases e with
    | printChar c => exact displays_printChar h he
    | printNewline =>
      have hview := h.inView
      have hbelow : ∀ r c, k.page.row < r → k.page.cells r c = none :=
        fun r c hr => hview.ahead r c (Or.inl hr)
      exact ⟨fits_exec v .printNewline h.fits trivial,
        shows_printNewline h.shows hview.top hview.bottom hbelow, hview.newline⟩
    | setFontSize f => exact displays_setFontSize h f
    | videoClear =>
      exact displays_videoClear (fits_videoClear h.fits.text h.fits.safe) h.shows.font
        h.shows.fontColor

theorem displays_run (h : Displays d framebuffer m v k) {actions : List Action}
    (hm : Meets (act d) Action.erases v actions) :
    Displays d framebuffer m (run (act d) v actions) (run (Console.act d) k actions) := by
  induction actions generalizing v k with
  | nil => exact h
  | cons a actions ih => exact ih (displays_act h a hm.1) hm.2

/-- Nothing is written outside of the screen. -/
theorem spares_shown (h : v.Safe d) :
    Spares (fun a => a < framebuffer ∨ framebuffer + RGB_SIZE * d.width * d.height ≤ a) m
      (shown framebuffer m v) := by
  unfold shown
  unfold Video.Safe at h
  generalize v.log = effects at h
  induction effects generalizing m with
  | nil => exact Spares.refl m
  | cons e effects ih =>
    have hin := h e List.mem_cons_self
    have hrest := ih (m := replay framebuffer m e) fun e' he' => h e' (List.mem_cons_of_mem e he')
    refine Spares.trans ?_ hrest
    cases e with
    | setChar i c => exact Spares.refl m
    | minus a b => exact Spares.refl m
    | pixel pos color =>
      have hlen : (bytesOf color).length = RGB_SIZE := rfl
      unfold Effect.Inside at hin
      apply Spares.store
      intro a ha
      omega
    | memset pos len =>
      unfold Effect.Inside at hin
      have hspared := (memset_wrote (framebuffer + pos) 0 len m).spared
      rw [List.length_replicate] at hspared
      apply hspared.mono
      intro a ha
      omega
    | memcpy dst src len =>
      unfold Effect.Inside at hin
      apply (memcpy_spares (framebuffer + dst) (framebuffer + src) len m).mono
      intro a ha
      omega

end Steps

theorem displays_start (d : Screen) (framebuffer : Nat) (m : Memory) (fontColor : Color)
    (font : Fin 3) :
    Displays d framebuffer m (videoClear d (cleared fontColor font))
      ⟨font, fontColor, [], Page.blank⟩ := by
  have hcleared := fits_cleared d fontColor font
  have hfits := fits_videoClear hcleared.text hcleared.safe
  exact displays_videoClear (k := ⟨font, fontColor, [], Page.blank⟩) hfits rfl rfl

/-- After any run from a cleared screen each pixel in memory is that of the page, the buffer has
the text of it, and nothing else was written. A rectangle is what `drawRect` writes in memory,
and a full buffer is cleared and told of by `print`. -/
theorem the_screen_shows_the_page (d : Screen) (framebuffer : Nat) (m : Memory) (fontColor : Color)
    (font : Fin 3) {actions : List Action}
    (hm : Meets (act d) Action.erases (videoClear d (cleared fontColor font)) actions) :
    let v := run (act d) (videoClear d (cleared fontColor font)) actions
    let k := run (Console.act d) ⟨font, fontColor, [], Page.blank⟩ actions
    (∀ x < d.width, ∀ y < d.height,
      pixel framebuffer d (shown framebuffer m v) x y = bytesOf (picture d k x y)) ∧
    text v = k.text ∧
    Spares (fun a => a < framebuffer ∨ framebuffer + RGB_SIZE * d.width * d.height ≤ a) m
      (shown framebuffer m v) ∧
    (∀ s : pixels.ScreenData, d.width = s.width.toNat → d.height = s.height.toNat →
      ∀ x y width height color,
        shown s.framebuffer.toNat m
            (drawRect d x.toNat y.toNat width.toNat height.toNat color v) =
          pixels.drawRect s x y width height color (shown s.framebuffer.toNat m v)) ∧
    bufferExceeded d v = print d MSG_BUFFER_EXCEEDED (videoClear d v) := by
  have hdisplays := displays_run (displays_start d framebuffer m fontColor font) hm
  exact ⟨hdisplays.shows.pixels, hdisplays.shows.text.symm, spares_shown hdisplays.fits.safe,
    fun s hwidth hheight => shown_drawRect hwidth hheight m _, bufferExceeded_eq d _⟩

/-- A letter, a new line, a change of colour and a backspace. -/
theorem the_screen_shows_the_page_of_a_letter :
    let m : Memory := ⟨fun _ => 0, []⟩
    let actions : List Action :=
      [.call (.printChar 65), .call .printNewline, .setFontColor ⟨0, 0, 255⟩, .call (.printChar 8)]
    let v := run (act vesa) (videoClear vesa (cleared BLACK 0)) actions
    let k := run (Console.act vesa) ⟨0, BLACK, [], Page.blank⟩ actions
    (∀ x < vesa.width, ∀ y < vesa.height,
      pixel 0xFD000000 vesa (shown 0xFD000000 m v) x y = bytesOf (picture vesa k x y)) ∧
    text v = k.text ∧
    Spares (fun a => a < 0xFD000000 ∨ 0xFD000000 + RGB_SIZE * vesa.width * vesa.height ≤ a) m
      (shown 0xFD000000 m v) := by
  intro m actions v k
  have herases : Meets (act vesa) Action.erases (videoClear vesa (cleared BLACK 0)) actions :=
    ⟨by decide, trivial, trivial, by decide, trivial⟩
  obtain ⟨hpixels, htext, hspares, -⟩ :=
    the_screen_shows_the_page vesa 0xFD000000 m BLACK 0 herases
  exact ⟨hpixels, htext, hspares⟩

end bare_bones.video
