-- The text screen: the cursor, the buffer of what was printed and the pixels.
-- What the driver writes is logged, with each `uint16_t` difference it stores.
import BareBones.Lib.Runs
import Mathlib.Data.Fin.VecNotation
import Mathlib.Data.List.TakeWhile
import Mathlib.Logic.Function.Basic
import Mathlib.Tactic.Linarith
import Mathlib.Tactic.Ring

namespace bare_bones.video

open runs

def RGB_SIZE : Nat := 3

def MAX_RESOLUTION : Nat := 64 * 128

def FIRST_CHAR : UInt8 := 33

def LAST_CHAR : UInt8 := 126

def MSG_BUFFER_EXCEEDED : List UInt8 :=
  ("Buffer de video excedido, la pantalla ha sido limpiada\n".toList).map
    fun c => UInt8.ofNat c.toNat

structure Color where
  b : UInt8
  g : UInt8
  r : UInt8
  deriving DecidableEq, Repr

def BLACK : Color := ⟨0, 0, 0⟩

/-- Of `FONT_12`, `FONT_24` and `FONT_36`. -/
def charWidths : Fin 3 → Nat := ![8, 16, 24]

def charHeights : Fin 3 → Nat := ![16, 32, 48]

/-- `_screenData` and the bitmaps of `font.h`. The screen has room for one character
of each font. -/
structure Screen where
  width : Nat
  height : Nat
  fonts : Fin 3 → Nat → UInt8
  width_lt : width < 2 ^ 16
  height_lt : height < 2 ^ 16
  wide (f : Fin 3) : charWidths f ≤ width
  high (f : Fin 3) : charHeights f ≤ height

/-- Positions are those of bytes from `framebuffer` on. -/
inductive Effect
  | setChar (i : Nat) (c : UInt8)
  | pixel (pos : Nat) (color : Color)
  | memset (pos len : Nat)
  | memcpy (dst src len : Nat)
  | minus (a b : Nat)
  deriving DecidableEq, Repr

/-- The globals. `font` stands for `_font`, `_charWidth` and `_charHeight`, which are
set together, and `charBuffer` also for the bytes that follow the buffer in memory. -/
structure Video where
  X : Nat
  Y : Nat
  fontColor : Color
  font : Fin 3
  charBuffer : Nat → UInt8
  bufferIdx : Nat
  log : List Effect

namespace Video

def charWidth (v : Video) : Nat := charWidths v.font

def charHeight (v : Video) : Nat := charHeights v.font

def logs (v : Video) (effects : List Effect) : Video := { v with log := v.log ++ effects }

end Video

open Video

/-- The conversion to `uint16_t`. -/
def u16 (n : Nat) : Nat := n % 2 ^ 16

def minus16 (a b : Nat) : Nat := u16 (a + 2 ^ 16 - b)

def getPtrToPixel (d : Screen) (x y : Nat) : Nat := RGB_SIZE * (x + y * d.width)

def videoClear (d : Screen) (v : Video) : Video :=
  { v.logs [.memset (getPtrToPixel d 0 0) (RGB_SIZE * d.width * d.height)] with
    X := 0, Y := 0, bufferIdx := 0 }

def coordinatesValid (d : Screen) (x y : Nat) : Bool := x < d.width && y < d.height

def drawRect (d : Screen) (x y width height : Nat) (color : Color) (v : Video) : Video :=
  if coordinatesValid d x y then
    let maxWidth := minus16 d.width x
    let columns := min width maxWidth
    let maxHeight := minus16 d.height y
    let rows := min height maxHeight
    let lineDiff := minus16 d.width columns
    let ptr := getPtrToPixel d x y
    v.logs ([.minus d.width x, .minus d.height y, .minus d.width columns] ++
      (List.range rows).flatMap fun i => (List.range columns).map fun c =>
        .pixel (ptr + RGB_SIZE * (i * (columns + lineDiff) + c)) color)
  else v

def printNewline (d : Screen) (v : Video) : Video :=
  let v := { v with X := 0 }
  if v.Y + 2 * v.charHeight ≤ d.height then
    { v with Y := u16 (v.Y + v.charHeight) }
  else
    v.logs [.memcpy (getPtrToPixel d 0 0) (getPtrToPixel d 0 v.charHeight)
        (RGB_SIZE * (d.width * (d.height - v.charHeight))),
      .memset (getPtrToPixel d 0 (d.height - v.charHeight))
        (RGB_SIZE * d.width * v.charHeight)]

/-- The bit of column `i` and row `h` in the bitmap of `c`. A row of a character is a
whole number of bytes, the lowest bit to the left. -/
def glyphBit (d : Screen) (v : Video) (c : UInt8) (h i : Nat) : Bool :=
  let data := v.charHeight * v.charWidth * (c.toNat - FIRST_CHAR.toNat) / 8
  (d.fonts v.font (data + h * (v.charWidth / 8) + i / 8)).toNat.testBit (i % 8)

/-- The bitmap of `c`, in the colour of the font. -/
def drawGlyph (d : Screen) (c : UInt8) (v : Video) : Video :=
  v.logs ((List.range v.charHeight).flatMap fun h =>
    ((List.range v.charWidth).filter (glyphBit d v c h)).map fun i =>
      .pixel (getPtrToPixel d v.X (u16 (v.Y + h)) + RGB_SIZE * i) v.fontColor)

/-- The move back over a character, and to the end of the line above. -/
def retreat (d : Screen) (v : Video) : Video :=
  if v.X < v.charWidth ∧ 0 < v.Y then
    { v.logs [.minus v.Y v.charHeight] with
      Y := minus16 v.Y v.charHeight
      X := d.width / v.charWidth * v.charWidth - v.charWidth }
  else
    { v.logs [.minus v.X v.charWidth] with X := minus16 v.X v.charWidth }

/-- The branch of `printChar` for a backspace. -/
def eraseChar (d : Screen) (v : Video) : Video :=
  let v := retreat d v
  let v := drawRect d v.X v.Y v.charWidth v.charHeight BLACK v
  { v.logs [.minus v.bufferIdx 1] with bufferIdx := minus16 v.bufferIdx 1 }

/-- `_charBuffer[_bufferIdx++] = c`. -/
def append (c : UInt8) (v : Video) : Video :=
  { v.logs [.setChar v.bufferIdx c] with
    charBuffer := Function.update v.charBuffer v.bufferIdx c
    bufferIdx := u16 (v.bufferIdx + 1) }

/-- The move past a character, and to the next line at the end of one. -/
def advance (d : Screen) (v : Video) : Video :=
  let v := { v with X := u16 (v.X + v.charWidth) }
  if d.width / v.charWidth * v.charWidth - v.charWidth < v.X then printNewline d v else v

/-- `printChar` of another character once the buffer has room. -/
def storeChar (d : Screen) (c : UInt8) (v : Video) : Video :=
  let v := append c v
  if c = 10 then printNewline d v
  else advance d (if FIRST_CHAR ≤ c ∧ c ≤ LAST_CHAR then drawGlyph d c v else v)

/-- What `printChar` does on a full buffer. The message itself never fills it, see
`bufferExceeded_eq`. -/
def bufferExceeded (d : Screen) (v : Video) : Video :=
  MSG_BUFFER_EXCEEDED.foldl (fun v c => storeChar d c v) (videoClear d v)

def printChar (d : Screen) (c : UInt8) (v : Video) : Video :=
  if c = 8 then eraseChar d v
  else storeChar d c (if v.bufferIdx = MAX_RESOLUTION then bufferExceeded d v else v)

def print (d : Screen) (s : List UInt8) (v : Video) : Video :=
  (s.takeWhile (· ≠ 0)).foldl (fun v c => printChar d c v) v

/-- `printN` of the text that starts at `s` in the buffer. It reads each character
after the ones before it were printed. -/
def printN (d : Screen) (s : Nat) : Nat → Video → Video
  | 0, v => v
  | n + 1, v =>
    if v.charBuffer s = 0 then v
    else printN d (s + 1) n (printChar d (v.charBuffer s) v)

def renderFonts (d : Screen) (v : Video) : Video := printN d 0 v.bufferIdx (videoClear d v)

def setFontSize (d : Screen) (f : Nat) (v : Video) : Video :=
  if h : f < 3 then renderFonts d { v with font := ⟨f, h⟩ } else v

/-! ## What each part touches -/

/-- In the buffer or on the screen, and a difference that does not wrap. -/
def Effect.Inside (d : Screen) : Effect → Prop
  | .setChar i _ => i < MAX_RESOLUTION
  | .pixel pos _ => pos + RGB_SIZE ≤ RGB_SIZE * d.width * d.height
  | .memset pos len => pos + len ≤ RGB_SIZE * d.width * d.height
  | .memcpy dst src len => dst + len ≤ RGB_SIZE * d.width * d.height ∧
      src + len ≤ RGB_SIZE * d.width * d.height
  | .minus a b => b ≤ a

def Video.Safe (d : Screen) (v : Video) : Prop := ∀ e ∈ v.log, e.Inside d

@[simp] theorem safe_logs (d : Screen) (v : Video) (effects : List Effect) :
    (v.logs effects).Safe d ↔ v.Safe d ∧ ∀ e ∈ effects, e.Inside d := by
  simp [Safe, logs, or_imp, forall_and]

theorem Video.Safe.logged {d : Screen} {v w : Video} (h : v.Safe d) {effects : List Effect}
    (hlog : w.log = v.log ++ effects) (he : ∀ e ∈ effects, e.Inside d) : w.Safe d := by
  intro e hin
  rw [hlog, List.mem_append] at hin
  exact hin.elim (h e) (he e)

/-! What `printChar` changes of the text: one character at the index, and the index. -/

@[simp] theorem printNewline_text (d : Screen) (v : Video) :
    (printNewline d v).bufferIdx = v.bufferIdx ∧
      (printNewline d v).charBuffer = v.charBuffer ∧ (printNewline d v).font = v.font := by
  unfold printNewline
  dsimp only
  split <;> simp [logs]

@[simp] theorem advance_text (d : Screen) (v : Video) :
    (advance d v).bufferIdx = v.bufferIdx ∧
      (advance d v).charBuffer = v.charBuffer ∧ (advance d v).font = v.font := by
  unfold advance
  dsimp only
  split <;> simp

theorem storeChar_text (d : Screen) (c : UInt8) (v : Video) :
    (storeChar d c v).bufferIdx = u16 (v.bufferIdx + 1) ∧
      (storeChar d c v).charBuffer = Function.update v.charBuffer v.bufferIdx c ∧
      (storeChar d c v).font = v.font := by
  unfold storeChar
  dsimp only
  split
  · simp [append, logs]
  · split <;> simp [append, drawGlyph, logs]

theorem u16_of_lt {n : Nat} (h : n < 2 ^ 16) : u16 n = n := Nat.mod_eq_of_lt h

theorem storeChar_bufferIdx {d : Screen} {c : UInt8} {v : Video}
    (hroom : v.bufferIdx < MAX_RESOLUTION) : (storeChar d c v).bufferIdx = v.bufferIdx + 1 := by
  rw [(storeChar_text d c v).1]
  apply u16_of_lt
  unfold MAX_RESOLUTION at hroom
  omega

/-! The log only grows. -/

theorem printNewline_grows (d : Screen) (v : Video) : v.log <+: (printNewline d v).log := by
  unfold printNewline
  dsimp only
  split <;> simp [logs]

theorem advance_grows (d : Screen) (v : Video) : v.log <+: (advance d v).log := by
  unfold advance
  dsimp only
  split
  · exact printNewline_grows d _
  · simp

theorem storeChar_grows (d : Screen) (c : UInt8) (v : Video) :
    v.log <+: (storeChar d c v).log := by
  have happend : v.log <+: (append c v).log := by simp [append, logs]
  unfold storeChar
  dsimp only
  split
  · exact happend.trans (printNewline_grows d _)
  · apply List.IsPrefix.trans ?_ (advance_grows d _)
    split
    · exact happend.trans (List.prefix_append _ _)
    · exact happend

theorem videoClear_grows (d : Screen) (v : Video) : v.log <+: (videoClear d v).log :=
  List.prefix_append _ _

theorem eraseChar_grows (d : Screen) (v : Video) :
    (retreat d v).log <+: (eraseChar d v).log := by
  have hdraw : ∀ x y width height color, (retreat d v).log <+:
      (drawRect d x y width height color (retreat d v)).log := by
    intro x y width height color
    unfold drawRect
    dsimp only
    split <;> simp [logs]
  exact (hdraw _ _ _ _ _).trans (List.prefix_append _ _)

theorem retreat_grows (d : Screen) (v : Video) : v.log <+: (retreat d v).log := by
  unfold retreat
  split <;> simp [logs]

theorem bufferExceeded_grows (d : Screen) (v : Video) : v.log <+: (bufferExceeded d v).log := by
  have hall : ∀ (s : List UInt8) (v : Video),
      v.log <+: (s.foldl (fun v c => storeChar d c v) v).log := by
    intro s
    induction s with
    | nil => exact fun v => List.prefix_refl _
    | cons c s ih => exact fun v => (storeChar_grows d c v).trans (ih _)
  exact (videoClear_grows d v).trans (hall _ _)

theorem printChar_grows (d : Screen) (c : UInt8) (v : Video) :
    v.log <+: (printChar d c v).log := by
  unfold printChar
  split
  · exact (retreat_grows d v).trans (eraseChar_grows d v)
  · apply List.IsPrefix.trans ?_ (storeChar_grows d c _)
    split
    · exact bufferExceeded_grows d v
    · exact List.prefix_refl _

theorem printN_grows (d : Screen) (s n : Nat) (v : Video) : v.log <+: (printN d s n v).log := by
  induction n generalizing s v with
  | zero => exact List.prefix_refl _
  | succ n ih =>
    rw [printN]
    split
    · exact List.prefix_refl _
    · exact (printChar_grows d _ v).trans (ih _ _)

theorem setFontSize_grows (d : Screen) (f : Nat) (v : Video) :
    v.log <+: (setFontSize d f v).log := by
  unfold setFontSize
  split
  · rename_i hf
    exact (videoClear_grows d { v with font := ⟨f, hf⟩ }).trans (printN_grows d _ _ _)
  · exact List.prefix_refl _

/-! ## The cursor on its grid -/

def lineWidth (d : Screen) (v : Video) : Nat := d.width / v.charWidth * v.charWidth

theorem charWidth_pos (v : Video) : 0 < v.charWidth := by
  have h : ∀ f, 0 < charWidths f := by decide
  exact h v.font

theorem lineWidth_le (d : Screen) (v : Video) : lineWidth d v ≤ d.width := Nat.div_mul_le_self _ _

theorem charWidth_le_lineWidth (d : Screen) (v : Video) : v.charWidth ≤ lineWidth d v :=
  Nat.le_mul_of_pos_left _ (Nat.div_pos (d.wide v.font) (charWidth_pos v))

theorem dvd_lineWidth (d : Screen) (v : Video) : v.charWidth ∣ lineWidth d v :=
  Nat.dvd_mul_left _ _

theorem minus16_of_le {a b : Nat} (h : b ≤ a) (ha : a < 2 ^ 16) : minus16 a b = a - b := by
  unfold minus16 u16
  omega

/-- The pixel at `(x, y)` and the ones before it are on the screen. -/
theorem ptr_inside {d : Screen} {x y : Nat} (hx : x < d.width) (hy : y < d.height) :
    getPtrToPixel d x y + RGB_SIZE ≤ RGB_SIZE * d.width * d.height := by
  have hrows : (y + 1) * d.width ≤ d.height * d.width := Nat.mul_le_mul_right _ hy
  calc getPtrToPixel d x y + RGB_SIZE = RGB_SIZE * (x + 1 + y * d.width) := by
        unfold getPtrToPixel; ring
    _ ≤ RGB_SIZE * (d.height * d.width) := Nat.mul_le_mul_left _ (by linarith)
    _ = RGB_SIZE * d.width * d.height := by ring

/-- The cursor stands on a character of the grid of its font, and the text is one
that `printChar` stored. -/
structure Fits (d : Screen) (v : Video) : Prop where
  column : v.charWidth ∣ v.X
  right : v.X + v.charWidth ≤ lineWidth d v
  row : v.charHeight ∣ v.Y
  bottom : v.Y + v.charHeight ≤ d.height
  room : v.bufferIdx ≤ MAX_RESOLUTION
  text : ∀ i, v.charBuffer i ≠ 8
  safe : v.Safe d

/-- The same text with the cursor elsewhere on the grid. -/
theorem Fits.moved {d : Screen} {v w : Video} (h : Fits d v) (hfont : w.font = v.font)
    (hidx : w.bufferIdx = v.bufferIdx) (hbuffer : w.charBuffer = v.charBuffer)
    (hcolumn : v.charWidth ∣ w.X) (hright : w.X + v.charWidth ≤ lineWidth d v)
    (hrow : v.charHeight ∣ w.Y) (hbottom : w.Y + v.charHeight ≤ d.height) (hsafe : w.Safe d) :
    Fits d w := by
  have hwidth : w.charWidth = v.charWidth := congrArg charWidths hfont
  have hheight : w.charHeight = v.charHeight := congrArg charHeights hfont
  have hline : lineWidth d w = lineWidth d v := by rw [lineWidth, lineWidth, hwidth]
  refine ⟨hwidth ▸ hcolumn, ?_, hheight ▸ hrow, hheight ▸ hbottom, hidx ▸ h.room, ?_, hsafe⟩
  · rw [hwidth, hline]
    exact hright
  · rw [hbuffer]
    exact h.text

theorem fits_videoClear {d : Screen} {v : Video} (htext : ∀ i, v.charBuffer i ≠ 8)
    (hsafe : v.Safe d) : Fits d (videoClear d v) where
  column := Nat.dvd_zero _
  right := (Nat.zero_add _).trans_le (charWidth_le_lineWidth d v)
  row := Nat.dvd_zero _
  bottom := (Nat.zero_add _).trans_le (d.high v.font)
  room := Nat.zero_le _
  text := htext
  safe := by
    apply (safe_logs d v _).mpr
    simpa [Effect.Inside, getPtrToPixel] using hsafe

theorem fits_printNewline {d : Screen} {v : Video} (hrow : v.charHeight ∣ v.Y)
    (hbottom : v.Y + v.charHeight ≤ d.height) (hroom : v.bufferIdx ≤ MAX_RESOLUTION)
    (htext : ∀ i, v.charBuffer i ≠ 8) (hsafe : v.Safe d) : Fits d (printNewline d v) := by
  have hheight := d.height_lt
  unfold printNewline
  dsimp only
  split
  · rename_i hbelow
    change v.Y + 2 * v.charHeight ≤ d.height at hbelow
    have hY : u16 (v.Y + v.charHeight) = v.Y + v.charHeight := u16_of_lt (by omega)
    constructor
    · exact Nat.dvd_zero _
    · exact (Nat.zero_add _).trans_le (charWidth_le_lineWidth d v)
    · change v.charHeight ∣ u16 (v.Y + v.charHeight)
      rw [hY]
      exact Nat.dvd_add hrow (Nat.dvd_refl _)
    · change u16 (v.Y + v.charHeight) + v.charHeight ≤ d.height
      omega
    · exact hroom
    · exact htext
    · exact hsafe
  · constructor
    · exact Nat.dvd_zero _
    · exact (Nat.zero_add _).trans_le (charWidth_le_lineWidth d v)
    · exact hrow
    · exact hbottom
    · exact hroom
    · exact htext
    · apply (safe_logs d _ _).mpr
      refine ⟨hsafe, ?_⟩
      obtain ⟨k, hk⟩ := Nat.exists_eq_add_of_le (d.high v.font)
      have hsub : d.height - charHeights v.font = k := by omega
      simp only [List.mem_cons, List.not_mem_nil, or_false, forall_eq_or_imp, forall_eq,
        Effect.Inside, getPtrToPixel, charHeight, hsub]
      rw [hk]
      have hrest := Nat.zero_le (RGB_SIZE * d.width * charHeights v.font)
      refine ⟨⟨?_, ?_⟩, ?_⟩ <;> linarith

theorem safe_drawGlyph {d : Screen} {v : Video} (c : UInt8)
    (hright : v.X + v.charWidth ≤ d.width) (hbottom : v.Y + v.charHeight ≤ d.height)
    (hsafe : v.Safe d) : (drawGlyph d c v).Safe d := by
  have hheight := d.height_lt
  apply (safe_logs d v _).mpr
  refine ⟨hsafe, fun e he => ?_⟩
  simp only [List.mem_flatMap, List.mem_range, List.mem_map, List.mem_filter] at he
  obtain ⟨h, hh, i, ⟨hi, -⟩, rfl⟩ := he
  have hin := ptr_inside (d := d) (x := v.X + i) (y := v.Y + h) (by omega) (by omega)
  rw [u16_of_lt (by omega)]
  simp only [Effect.Inside, getPtrToPixel, RGB_SIZE] at hin ⊢
  omega

/-- With a rectangle whose origin is on the screen no difference wraps, and what is
drawn is cut at the edges. -/
theorem safe_drawRect {d : Screen} {v : Video} (x y width height : Nat) (color : Color)
    (hsafe : v.Safe d) : (drawRect d x y width height color v).Safe d := by
  have hwidth := d.width_lt
  have hheight := d.height_lt
  unfold drawRect
  dsimp only
  split
  · rename_i hvalid
    obtain ⟨hx, hy⟩ : x < d.width ∧ y < d.height := by simpa [coordinatesValid] using hvalid
    have hcolumns : min width (minus16 d.width x) ≤ d.width - x := by
      rw [minus16_of_le hx.le hwidth]
      exact Nat.min_le_right _ _
    have hrows : min height (minus16 d.height y) ≤ d.height - y := by
      rw [minus16_of_le hy.le hheight]
      exact Nat.min_le_right _ _
    generalize min width (minus16 d.width x) = columns at hcolumns ⊢
    generalize min height (minus16 d.height y) = rows at hrows ⊢
    have hline : columns + minus16 d.width columns = d.width := by
      rw [minus16_of_le (by omega) hwidth]
      omega
    apply (safe_logs d v _).mpr
    refine ⟨hsafe, fun e he => ?_⟩
    rw [List.mem_append] at he
    rcases he with he | he
    · simp only [List.mem_cons, List.not_mem_nil, or_false] at he
      rcases he with rfl | rfl | rfl
      · exact hx.le
      · exact hy.le
      · exact hcolumns.trans (Nat.sub_le _ _)
    · simp only [List.mem_flatMap, List.mem_range, List.mem_map] at he
      obtain ⟨i, hi, c, hc, rfl⟩ := he
      have hin := ptr_inside (d := d) (x := x + c) (y := y + i) (by omega) (by omega)
      rw [hline]
      simp only [Effect.Inside, getPtrToPixel] at hin ⊢
      linarith
  · exact hsafe

theorem fits_advance {d : Screen} {v : Video} (h : Fits d v) : Fits d (advance d v) := by
  have hwidth := d.width_lt
  have hline := lineWidth_le d v
  have hright := h.right
  have hX : u16 (v.X + v.charWidth) = v.X + v.charWidth := u16_of_lt (by omega)
  unfold advance
  dsimp only
  split
  · exact fits_printNewline h.row h.bottom h.room h.text h.safe
  · rename_i hinside
    change ¬ lineWidth d v - v.charWidth < u16 (v.X + v.charWidth) at hinside
    have hone := charWidth_le_lineWidth d v
    apply h.moved
    · rfl
    · rfl
    · rfl
    · dsimp only
      rw [hX]
      exact Nat.dvd_add h.column (Nat.dvd_refl _)
    · dsimp only
      omega
    · exact h.row
    · exact h.bottom
    · exact h.safe

theorem fits_storeChar {d : Screen} {v : Video} (h : Fits d v) {c : UInt8} (hc : c ≠ 8)
    (hroom : v.bufferIdx < MAX_RESOLUTION) : Fits d (storeChar d c v) := by
  have hidx : u16 (v.bufferIdx + 1) = v.bufferIdx + 1 := by
    apply u16_of_lt
    unfold MAX_RESOLUTION at hroom
    omega
  have happend : Fits d (append c v) := by
    constructor
    · exact h.column
    · exact h.right
    · exact h.row
    · exact h.bottom
    · change u16 (v.bufferIdx + 1) ≤ MAX_RESOLUTION
      omega
    · intro i
      change Function.update v.charBuffer v.bufferIdx c i ≠ 8
      rw [Function.update_apply]
      split
      · exact hc
      · exact h.text i
    · apply (safe_logs d v _).mpr
      simpa [Effect.Inside] using ⟨h.safe, hroom⟩
  unfold storeChar
  dsimp only
  generalize append c v = w at happend ⊢
  split
  · exact fits_printNewline happend.row happend.bottom happend.room happend.text happend.safe
  · apply fits_advance
    split
    · have hright := happend.right.trans (lineWidth_le d w)
      have hsafe := safe_drawGlyph c hright happend.bottom happend.safe
      exact { happend with safe := hsafe }
    · exact happend

/-- A backspace has a character to erase, and a place to go back to. -/
def erases (v : Video) : Prop := 0 < v.bufferIdx ∧ (v.charWidth ≤ v.X ∨ 0 < v.Y)

instance (v : Video) : Decidable (erases v) := inferInstanceAs (Decidable (_ ∧ _))

theorem fits_retreat {d : Screen} {v : Video} (h : Fits d v) (he : v.charWidth ≤ v.X ∨ 0 < v.Y) :
    Fits d (retreat d v) := by
  have hwidth := d.width_lt
  have hheight := d.height_lt
  have hline := lineWidth_le d v
  have hright := h.right
  have hbottom := h.bottom
  have hone := charWidth_le_lineWidth d v
  unfold retreat
  split
  · rename_i habove
    have hle : v.charHeight ≤ v.Y := Nat.le_of_dvd habove.2 h.row
    have hY : minus16 v.Y v.charHeight = v.Y - v.charHeight := minus16_of_le hle (by omega)
    apply h.moved
    · rfl
    · rfl
    · rfl
    · exact Nat.dvd_sub (dvd_lineWidth d v) (Nat.dvd_refl _)
    · exact (Nat.sub_add_cancel hone).le
    · dsimp only
      rw [hY]
      exact Nat.dvd_sub h.row (Nat.dvd_refl _)
    · dsimp only
      omega
    · exact h.safe.logged rfl (by simpa [Effect.Inside] using hle)
  · rename_i hsame
    have hle : v.charWidth ≤ v.X := by omega
    have hX : minus16 v.X v.charWidth = v.X - v.charWidth := minus16_of_le hle (by omega)
    apply h.moved
    · rfl
    · rfl
    · rfl
    · dsimp only
      rw [hX]
      exact Nat.dvd_sub h.column (Nat.dvd_refl _)
    · dsimp only
      omega
    · exact h.row
    · exact h.bottom
    · exact h.safe.logged rfl (by simpa [Effect.Inside] using hle)

theorem fits_drawRect {d : Screen} {v : Video} (h : Fits d v) (x y width height : Nat)
    (color : Color) : Fits d (drawRect d x y width height color v) := by
  have hsafe := safe_drawRect x y width height color h.safe
  unfold drawRect at hsafe ⊢
  dsimp only at hsafe ⊢
  split
  · rename_i hvalid
    rw [if_pos hvalid] at hsafe
    exact { h with safe := hsafe }
  · exact h

theorem drawRect_bufferIdx (d : Screen) (x y width height : Nat) (color : Color) (v : Video) :
    (drawRect d x y width height color v).bufferIdx = v.bufferIdx := by
  unfold drawRect
  dsimp only
  split <;> rfl

theorem retreat_bufferIdx (d : Screen) (v : Video) : (retreat d v).bufferIdx = v.bufferIdx := by
  unfold retreat
  split <;> rfl

theorem fits_eraseChar {d : Screen} {v : Video} (h : Fits d v) (he : erases v) :
    Fits d (eraseChar d v) := by
  have hmoved := fits_retreat h he.2
  have hidx : (drawRect d (retreat d v).X (retreat d v).Y (retreat d v).charWidth
      (retreat d v).charHeight BLACK (retreat d v)).bufferIdx = v.bufferIdx := by
    rw [drawRect_bufferIdx, retreat_bufferIdx]
  have hdrawn := fits_drawRect hmoved (retreat d v).X (retreat d v).Y (retreat d v).charWidth
    (retreat d v).charHeight BLACK
  unfold eraseChar
  dsimp only
  generalize drawRect d _ _ _ _ BLACK (retreat d v) = w at hidx hdrawn ⊢
  have hpos : 1 ≤ w.bufferIdx := hidx ▸ he.1
  have hroom := hdrawn.room
  have hminus : minus16 w.bufferIdx 1 = w.bufferIdx - 1 :=
    minus16_of_le hpos (hroom.trans_lt (by decide))
  rw [hminus]
  constructor
  · exact hdrawn.column
  · exact hdrawn.right
  · exact hdrawn.row
  · exact hdrawn.bottom
  · exact (Nat.sub_le _ _).trans hroom
  · exact hdrawn.text
  · apply (safe_logs d w _).mpr
    simpa [Effect.Inside] using ⟨hdrawn.safe, hpos⟩

/-! ## Printing and rendering -/

/-- The message fits in the empty buffer. -/
theorem message_fits : MSG_BUFFER_EXCEEDED.length < MAX_RESOLUTION ∧
    ∀ c ∈ MSG_BUFFER_EXCEEDED, c ≠ 8 ∧ c ≠ 0 := by decide +kernel

theorem print_eq_store {d : Screen} {s : List UInt8} (hs : ∀ c ∈ s, c ≠ 8 ∧ c ≠ 0) {v : Video}
    (hroom : v.bufferIdx + s.length ≤ MAX_RESOLUTION) :
    print d s v = s.foldl (fun v c => storeChar d c v) v := by
  have hall : s.takeWhile (· ≠ 0) = s := by
    rw [List.takeWhile_eq_self_iff]
    intro c hc
    simpa using (hs c hc).2
  rw [print, hall]
  clear hall
  induction s generalizing v with
  | nil => rfl
  | cons c s ih =>
    rw [List.length_cons] at hroom
    have hstore : printChar d c v = storeChar d c v := by
      rw [printChar, if_neg (hs c List.mem_cons_self).1, if_neg (by omega)]
    have hidx : (storeChar d c v).bufferIdx = v.bufferIdx + 1 :=
      storeChar_bufferIdx (by omega)
    rw [List.foldl_cons, List.foldl_cons, hstore]
    apply ih (fun c hc => hs c (List.mem_cons_of_mem _ hc))
    omega

/-- The message goes through `printChar` as any other text. -/
theorem bufferExceeded_eq (d : Screen) (v : Video) :
    bufferExceeded d v = print d MSG_BUFFER_EXCEEDED (videoClear d v) := by
  symm
  apply print_eq_store message_fits.2
  exact (Nat.zero_add _).trans_le message_fits.1.le

theorem fits_store_all {d : Screen} {s : List UInt8} (hs : ∀ c ∈ s, c ≠ 8) {v : Video}
    (h : Fits d v) (hroom : v.bufferIdx + s.length ≤ MAX_RESOLUTION) :
    Fits d (s.foldl (fun v c => storeChar d c v) v) ∧
      (s.foldl (fun v c => storeChar d c v) v).bufferIdx = v.bufferIdx + s.length := by
  induction s generalizing v with
  | nil => exact ⟨h, rfl⟩
  | cons c s ih =>
    rw [List.length_cons] at hroom
    have hidx : (storeChar d c v).bufferIdx = v.bufferIdx + 1 :=
      storeChar_bufferIdx (by omega)
    have hstored := fits_storeChar h (hs c List.mem_cons_self) (by omega)
    obtain ⟨hfits, hlen⟩ := ih (fun c hc => hs c (List.mem_cons_of_mem _ hc)) hstored (by omega)
    refine ⟨hfits, ?_⟩
    rw [List.foldl_cons, hlen, hidx, List.length_cons]
    omega

/-- A full buffer is emptied, and the message leaves room in it. -/
theorem fits_bufferExceeded {d : Screen} {v : Video} (h : Fits d v) :
    Fits d (bufferExceeded d v) ∧ (bufferExceeded d v).bufferIdx < MAX_RESOLUTION := by
  obtain ⟨hfits, hidx⟩ := fits_store_all (fun c hc => (message_fits.2 c hc).1)
    (fits_videoClear h.text h.safe) ((Nat.zero_add _).trans_le message_fits.1.le)
  refine ⟨hfits, ?_⟩
  rw [bufferExceeded, hidx]
  exact (Nat.zero_add _).trans_lt message_fits.1

theorem fits_printChar {d : Screen} {v : Video} (h : Fits d v) {c : UInt8}
    (he : c = 8 → erases v) : Fits d (printChar d c v) := by
  unfold printChar
  split
  · rename_i hc
    exact fits_eraseChar h (he hc)
  · rename_i hc
    split
    · obtain ⟨hfits, hroom⟩ := fits_bufferExceeded h
      exact fits_storeChar hfits hc hroom
    · rename_i hfull
      exact fits_storeChar h hc (Nat.lt_of_le_of_ne h.room hfull)

/-- The characters shown, and the ones a rendering comes back to. -/
def text (v : Video) : List UInt8 := (List.range v.bufferIdx).map v.charBuffer

/-- While the index follows the reader, each character is stored where it was read, up
to the first 0. -/
theorem printN_replays {d : Screen} {n s : Nat} {v : Video} (h : Fits d v)
    (hidx : v.bufferIdx = s) (hroom : s + n ≤ MAX_RESOLUTION) :
    Fits d (printN d s n v) ∧ (printN d s n v).charBuffer = v.charBuffer ∧
      (printN d s n v).bufferIdx =
        s + (((List.range' s n).map v.charBuffer).takeWhile (· ≠ 0)).length := by
  induction n generalizing s v with
  | zero => simp [printN, h, hidx]
  | succ n ih =>
    rw [printN, List.range'_succ, List.map_cons]
    split
    · rename_i hnul
      simp [h, hidx, hnul]
    · rename_i hchar
      have hstore : printChar d (v.charBuffer s) v = storeChar d (v.charBuffer s) v := by
        rw [printChar, if_neg (h.text s), if_neg (by omega)]
      obtain ⟨-, hbuffer, -⟩ := storeChar_text d (v.charBuffer s) v
      have hsame : (storeChar d (v.charBuffer s) v).charBuffer = v.charBuffer := by
        rw [hbuffer, hidx, Function.update_eq_self]
      have hone : (storeChar d (v.charBuffer s) v).bufferIdx = s + 1 := by
        rw [storeChar_bufferIdx (by omega), hidx]
      rw [hstore]
      obtain ⟨hfits, hkept, hlen⟩ :=
        ih (fits_storeChar h (h.text s) (by omega)) hone (by omega)
      refine ⟨hfits, hkept.trans hsame, ?_⟩
      rw [hlen, hsame, List.takeWhile_cons_of_pos (by simpa using hchar), List.length_cons]
      omega

theorem text_take {v : Video} {n : Nat} (h : n ≤ v.bufferIdx) :
    (text v).take n = (List.range n).map v.charBuffer := by
  rw [text, ← List.map_take, List.take_range, Nat.min_eq_left h]

/-- A rendering comes back to the text before the first 0, in the same place. -/
theorem renderFonts_replays {d : Screen} {v : Video} (htext : ∀ i, v.charBuffer i ≠ 8)
    (hsafe : v.Safe d) (hroom : v.bufferIdx ≤ MAX_RESOLUTION) :
    Fits d (renderFonts d v) ∧ (renderFonts d v).charBuffer = v.charBuffer ∧
      text (renderFonts d v) = (text v).takeWhile (· ≠ 0) := by
  obtain ⟨hfits, hkept, hlen⟩ := printN_replays (s := 0) (n := v.bufferIdx)
    (fits_videoClear htext hsafe) rfl (by omega)
  rw [Nat.zero_add, ← List.range_eq_range'] at hlen
  change (renderFonts d v).bufferIdx = ((text v).takeWhile (· ≠ 0)).length at hlen
  change (renderFonts d v).charBuffer = v.charBuffer at hkept
  have hprefix : (text v).takeWhile (· ≠ 0) <+: text v := List.takeWhile_prefix _
  have hle : ((text v).takeWhile (· ≠ 0)).length ≤ v.bufferIdx := by
    simpa [text] using hprefix.length_le
  refine ⟨hfits, hkept, ?_⟩
  calc text (renderFonts d v)
      = (List.range ((text v).takeWhile (· ≠ 0)).length).map v.charBuffer := by
        rw [text, hkept, hlen]
    _ = (text v).take ((text v).takeWhile (· ≠ 0)).length := (text_take hle).symm
    _ = (text v).takeWhile (· ≠ 0) := (List.prefix_iff_eq_take.mp hprefix).symm

theorem setFontSize_replays {d : Screen} {v : Video} (h : Fits d v) (f : Nat) :
    Fits d (setFontSize d f v) ∧ (setFontSize d f v).charBuffer = v.charBuffer ∧
      text (setFontSize d f v) = if f < 3 then (text v).takeWhile (· ≠ 0) else text v := by
  by_cases hf : f < 3
  · rw [setFontSize, dif_pos hf, if_pos hf]
    exact renderFonts_replays (v := { v with font := ⟨f, hf⟩ }) h.text h.safe h.room
  · rw [setFontSize, dif_neg hf, if_neg hf]
    exact ⟨h, rfl, rfl⟩

/-! ## Runs -/

inductive Call
  | printChar (c : UInt8)
  | printNewline
  | setFontSize (f : Nat)
  | videoClear

def exec (d : Screen) (v : Video) : Call → Video
  | .printChar c => printChar d c v
  | .printNewline => printNewline d v
  | .setFontSize f => setFontSize d f v
  | .videoClear => videoClear d v

/-- The screen after boot, with its colour and its font. -/
def cleared (fontColor : Color) (font : Fin 3) : Video :=
  ⟨0, 0, fontColor, font, fun _ => 0, 0, []⟩

/-- Each backspace erases something. -/
def erasesSomething (v : Video) : Call → Prop
  | .printChar c => c = 8 → erases v
  | _ => True

instance (v : Video) : ∀ call, Decidable (erasesSomething v call)
  | .printChar c => inferInstanceAs (Decidable (c = 8 → erases v))
  | .printNewline => isTrue trivial
  | .setFontSize _ => isTrue trivial
  | .videoClear => isTrue trivial

theorem fits_cleared (d : Screen) (fontColor : Color) (font : Fin 3) :
    Fits d (cleared fontColor font) where
  column := Nat.dvd_zero _
  right := (Nat.zero_add _).trans_le (charWidth_le_lineWidth d (cleared fontColor font))
  row := Nat.dvd_zero _
  bottom := (Nat.zero_add _).trans_le (d.high font)
  room := Nat.zero_le _
  text := fun _ h => nomatch h
  safe := by simp [Safe, cleared]

theorem fits_exec {d : Screen} (v : Video) (call : Call) (h : Fits d v)
    (he : erasesSomething v call) : Fits d (exec d v call) := by
  cases call with
  | printChar c => exact fits_printChar h he
  | printNewline => exact fits_printNewline h.row h.bottom h.room h.text h.safe
  | setFontSize f => exact (setFontSize_replays h f).1
  | videoClear => exact fits_videoClear h.text h.safe

theorem fits_run {d : Screen} {fontColor : Color} {font : Fin 3} {calls : List Call}
    (hm : Meets (exec d) erasesSomething (cleared fontColor font) calls) :
    Fits d (run (exec d) (cleared fontColor font) calls) :=
  run_invariant fits_exec (fits_cleared d fontColor font) hm

theorem exec_grows (d : Screen) (v : Video) (call : Call) : v.log <+: (exec d v call).log := by
  cases call with
  | printChar c => exact printChar_grows d c v
  | printNewline => exact printNewline_grows d v
  | setFontSize f => exact setFontSize_grows d f v
  | videoClear => exact videoClear_grows d v

theorem run_grows (d : Screen) (v : Video) (calls : List Call) :
    v.log <+: (run (exec d) v calls).log :=
  run_keeps (I := fun w => v.log <+: w.log) (fun w call h => h.trans (exec_grows d w call))
    (List.prefix_refl _) calls

theorem Video.Safe.before {d : Screen} {v w : Video} (h : w.Safe d) (hlog : v.log <+: w.log) :
    v.Safe d := fun e he => h e (hlog.subset he)

/-- A backspace that erases nothing wraps the cursor or the index. -/
theorem erases_of_safe {d : Screen} {v : Video} (h : (eraseChar d v).Safe d) : erases v := by
  constructor
  · have hlast : Effect.minus v.bufferIdx 1 ∈ (eraseChar d v).log := by
      simp [eraseChar, logs, drawRect_bufferIdx, retreat_bufferIdx]
    exact h _ hlast
  · have hmoved := h.before (eraseChar_grows d v)
    by_cases habove : v.X < v.charWidth ∧ 0 < v.Y
    · exact Or.inr habove.2
    · have hlast : Effect.minus v.X v.charWidth ∈ (retreat d v).log := by
        simp [retreat, habove, logs]
      exact Or.inl (hmoved _ hlast)

theorem meets_of_safe {d : Screen} {v : Video} (h : Fits d v) {calls : List Call}
    (hsafe : (run (exec d) v calls).Safe d) : Meets (exec d) erasesSomething v calls := by
  induction calls generalizing v with
  | nil => trivial
  | cons call calls ih =>
    have hnow : (exec d v call).Safe d := hsafe.before (run_grows d _ calls)
    have he : erasesSomething v call := by
      cases call with
      | printChar c =>
        intro hc
        apply erases_of_safe (d := d)
        rwa [exec, printChar, if_pos hc] at hnow
      | printNewline => trivial
      | setFontSize f => trivial
      | videoClear => trivial
    exact ⟨he, ih (fits_exec v call h he) hsafe⟩

/-- The cursor and the index of a state, and every write and difference so far. -/
structure InBounds (d : Screen) (v : Video) : Prop where
  room : v.bufferIdx ≤ MAX_RESOLUTION
  right : v.X + v.charWidth ≤ d.width
  bottom : v.Y + v.charHeight ≤ d.height
  safe : v.Safe d

/-- A run from the cleared screen stays in bounds exactly when each of its backspaces
has a character to erase and is not made at the top left corner. -/
theorem run_inBounds_iff (d : Screen) (fontColor : Color) (font : Fin 3) (calls : List Call) :
    InBounds d (run (exec d) (cleared fontColor font) calls) ↔
      Meets (exec d) erasesSomething (cleared fontColor font) calls := by
  constructor
  · intro h
    exact meets_of_safe (fits_cleared d fontColor font) h.safe
  · intro hm
    have h := fits_run hm
    exact ⟨h.room, h.right.trans (lineWidth_le d _), h.bottom, h.safe⟩

/-- A text screen of 1024 by 768 pixels. -/
def vesa : Screen where
  width := 1024
  height := 768
  fonts := fun _ _ => 0
  width_lt := by decide
  height_lt := by decide
  wide := by decide
  high := by decide

/-- One backspace on the cleared screen leaves the column 8 to the left of 0. -/
theorem backspace_leaves_the_screen :
    ¬ InBounds vesa (run (exec vesa) (cleared BLACK 0) [.printChar 8]) := by
  intro h
  have hright : 65528 + 8 ≤ 1024 := h.right
  omega

/-! ## The text over changes of font -/

/-- The index and the characters before it are the same. -/
def keepsText (v w : Video) : Prop :=
  w.bufferIdx = v.bufferIdx ∧ ∀ i < v.bufferIdx, w.charBuffer i = v.charBuffer i

theorem keepsText_iff (v w : Video) : keepsText v w ↔ text w = text v := by
  constructor
  · rintro ⟨hidx, hsame⟩
    rw [text, hidx]
    exact List.map_congr_left fun i hi => hsame i (List.mem_range.mp hi)
  · intro h
    have hidx : w.bufferIdx = v.bufferIdx := by simpa [text] using congrArg List.length h
    refine ⟨hidx, fun i hi => ?_⟩
    rw [text, text, hidx, List.map_inj_left] at h
    exact h i (List.mem_range.mpr hi)

/-- The text after changes of font: each one to a font there is stops at the first 0. -/
theorem text_changes {d : Screen} {v : Video} (h : Fits d v) (sizes : List Nat) :
    text (run (exec d) v (sizes.map .setFontSize)) =
      if ∃ f ∈ sizes, f < 3 then (text v).takeWhile (· ≠ 0) else text v := by
  induction sizes generalizing v with
  | nil => simp
  | cons f sizes ih =>
    obtain ⟨hfits, -, htext⟩ := setFontSize_replays h f
    rw [List.map_cons, run_cons, exec, ih hfits, htext]
    by_cases hf : f < 3
    · have hidem : ((text v).takeWhile (· ≠ 0)).takeWhile (· ≠ 0) = (text v).takeWhile (· ≠ 0) :=
        List.takeWhile_idem
      rw [if_pos hf, hidem, ite_self, if_pos ⟨f, List.mem_cons_self, hf⟩]
    · simp [hf]

/-- Changes of font keep the text exactly when none of them is to a font there is, or
no 0 was printed. -/
theorem fonts_keep_text_iff (d : Screen) (fontColor : Color) (font : Fin 3) (calls : List Call)
    (hm : Meets (exec d) erasesSomething (cleared fontColor font) calls) (sizes : List Nat) :
    keepsText (run (exec d) (cleared fontColor font) calls)
        (run (exec d) (cleared fontColor font) (calls ++ sizes.map .setFontSize)) ↔
      (∀ f ∈ sizes, 3 ≤ f) ∨ 0 ∉ text (run (exec d) (cleared fontColor font) calls) := by
  have h := fits_run hm
  rw [run_append, keepsText_iff, text_changes h]
  split
  · rename_i hchange
    obtain ⟨f, hf, hlt⟩ := hchange
    rw [List.takeWhile_eq_self_iff]
    constructor
    · intro hall
      refine Or.inr fun hnul => ?_
      simpa using hall 0 hnul
    · rintro (hnone | hnul) c hc
      · exact absurd (hnone f hf) (by omega)
      · simpa using ne_of_mem_of_not_mem hc hnul
  · rename_i hnone
    simp only [true_iff]
    left
    intro f hf
    exact Nat.not_lt.mp fun hlt => hnone ⟨f, hf, hlt⟩

theorem fonts_keep_a_letter :
    keepsText (run (exec vesa) (cleared BLACK 0) [.printChar 65])
      (run (exec vesa) (cleared BLACK 0) ([.printChar 65] ++ [2, 0].map .setFontSize)) :=
  (fonts_keep_text_iff vesa BLACK 0 [.printChar 65] ⟨by decide, trivial⟩ [2, 0]).mpr
    (Or.inr (by decide +kernel))

/-- A letter printed after a 0 is not rendered again. -/
theorem text_after_nul_is_lost :
    ¬ keepsText (run (exec vesa) (cleared BLACK 0) [.printChar 0, .printChar 65])
      (run (exec vesa) (cleared BLACK 0) [.printChar 0, .printChar 65, .setFontSize 1]) := by
  intro h
  have hidx : 0 = 2 := h.1
  omega

end bare_bones.video
