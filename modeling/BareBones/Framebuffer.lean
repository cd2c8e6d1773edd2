-- The bytes of the screen: what `drawRect` writes to the linear frame buffer, whatever the
-- size of the screen.
import BareBones.Lib.Copies
import BareBones.Video
import Mathlib.Tactic.Ring

namespace bare_bones.pixels

open byte_memory
open bare_bones.video (Color RGB_SIZE)

/-- The fields of `vbe_mode_info_structure` that the driver reads. -/
structure ScreenData where
  framebuffer : UInt32
  width : UInt16
  height : UInt16

/-- A `Color` in memory. -/
def bytesOf (color : Color) : List UInt8 := [color.b, color.g, color.r]

def getPtrToPixel (d : ScreenData) (x y : Nat) : Nat :=
  d.framebuffer.toNat + RGB_SIZE * (x + y * d.width.toNat)

def coordinatesValid (d : ScreenData) (x y : UInt16) : Bool := x < d.width && y < d.height

/-- `*(ptr++) = color`, for each column. -/
def drawColumns (color : Color) (width : Nat) (ptr : Nat) (m : Memory) : Nat × Memory :=
  (List.range width).foldl
    (fun (ptr, m) _ => (ptr + RGB_SIZE, m.store ptr (bytesOf color))) (ptr, m)

/-- The rows, `lineDiff` pixels behind each of them. -/
def drawRows (color : Color) (width lineDiff height : Nat) (ptr : Nat) (m : Memory) :
    Nat × Memory :=
  (List.range height).foldl
    (fun (ptr, m) _ =>
      let (ptr, m) := drawColumns color width ptr m
      (ptr + RGB_SIZE * lineDiff, m)) (ptr, m)

def drawRect (d : ScreenData) (x y width height : UInt16) (color : Color) (m : Memory) : Memory :=
  if coordinatesValid d x y then
    let maxWidth := d.width - x
    let width := if maxWidth < width then maxWidth else width
    let maxHeight := d.height - y
    let height := if maxHeight < height then maxHeight else height
    let ptr := getPtrToPixel d x.toNat y.toNat
    let lineDiff := d.width - width
    (drawRows color width.toNat lineDiff.toNat height.toNat ptr m).2
  else m

/-! ## Pixels -/

section
variable {d : ScreenData} {color : Color} {m m' : Memory}

/-- Two pixels of a screen have no byte in common. -/
theorem pixels_apart {i j i' j' : Nat} (hi : i < d.width.toNat) (hi' : i' < d.width.toNat)
    (h : ¬ (i = i' ∧ j = j')) :
    getPtrToPixel d i j + RGB_SIZE ≤ getPtrToPixel d i' j' ∨
      getPtrToPixel d i' j' + RGB_SIZE ≤ getPtrToPixel d i j := by
  have hne : i + j * d.width.toNat ≠ i' + j' * d.width.toNat := by
    intro heq
    have hcolumn := congrArg (· % d.width.toNat) heq
    have hrow := congrArg (· / d.width.toNat) heq
    have hpos := Nat.zero_lt_of_lt hi
    simp only [Nat.add_mul_mod_self_right, Nat.mod_eq_of_lt hi, Nat.mod_eq_of_lt hi'] at hcolumn
    simp only [Nat.add_mul_div_right _ _ hpos, Nat.div_eq_of_lt hi, Nat.div_eq_of_lt hi',
      Nat.zero_add] at hrow
    exact h ⟨hcolumn, hrow⟩
  unfold getPtrToPixel RGB_SIZE
  omega

/-- The pixels of `P` have the colour, and no byte of anything else was written. -/
structure Filled (d : ScreenData) (color : Color) (P : Nat → Nat → Prop) (m m' : Memory) :
    Prop where
  painted : ∀ i j, P i j → m'.load (getPtrToPixel d i j) RGB_SIZE = bytesOf color
  spared : Spares (fun a => ∀ i j, P i j →
    a < getPtrToPixel d i j ∨ getPtrToPixel d i j + RGB_SIZE ≤ a) m m'

namespace Filled

variable {P Q : Nat → Nat → Prop}

theorem nothing (h : ∀ i j, ¬ P i j) : Filled d color P m m :=
  ⟨fun i j hp => absurd hp (h i j), Spares.refl m⟩

theorem congr (h : Filled d color P m m') (hQ : ∀ i j, Q i j ↔ P i j) :
    Filled d color Q m m' :=
  ⟨fun i j hq => h.painted i j ((hQ i j).mp hq),
    h.spared.mono fun _ ha i j hp => ha i j ((hQ i j).mpr hp)⟩

/-- One pixel more. -/
theorem store (h : Filled d color P m m') (hP : ∀ i j, P i j → i < d.width.toNat) {i j : Nat}
    (hi : i < d.width.toNat) :
    Filled d color (fun i' j' => P i' j' ∨ i' = i ∧ j' = j) m
      (m'.store (getPtrToPixel d i j) (bytesOf color)) where
  painted i' j' hp := by
    have hstored := (wrote_store m' (getPtrToPixel d i j) (bytesOf color)).bytes
    by_cases hsame : i = i' ∧ j = j'
    · obtain ⟨rfl, rfl⟩ := hsame
      exact hstored
    · have hp' : P i' j' := hp.resolve_right fun h => hsame ⟨h.1.symm, h.2.symm⟩
      refine Eq.trans ?_ (h.painted i' j' hp')
      have hapart := pixels_apart hi (hP i' j' hp') hsame
      have hlen : (bytesOf color).length = RGB_SIZE := rfl
      exact Memory.load_congr (n := RGB_SIZE) fun k hk => Memory.store_outside (by omega)
  spared := by
    refine (h.spared.mono fun a ha i' j' hp => ha i' j' (Or.inl hp)).trans ?_
    exact Spares.store (fun a ha => ha i j (Or.inr ⟨rfl, rfl⟩)) m'

end Filled

theorem drawColumns_filled {P : Nat → Nat → Prop} (hP : ∀ i j, P i j → i < d.width.toNat)
    (h : Filled d color P m m') {x j width : Nat} (hfits : x + width ≤ d.width.toNat) :
    (drawColumns color width (getPtrToPixel d x j) m').1 = getPtrToPixel d (x + width) j ∧
      Filled d color (fun i' j' => P i' j' ∨ (x ≤ i' ∧ i' < x + width) ∧ j' = j) m
        (drawColumns color width (getPtrToPixel d x j) m').2 := by
  induction width with
  | zero => exact ⟨rfl, h.congr fun i' j' => by simp⟩
  | succ width ih =>
    obtain ⟨hptr, hfilled⟩ := ih (by omega)
    have hstep := hfilled.store (i := x + width) (j := j)
      (fun i' j' hp => hp.elim (hP i' j') (by omega)) (by omega)
    rw [drawColumns, List.range_succ, List.foldl_append, ← drawColumns]
    simp only [List.foldl_cons, List.foldl_nil, hptr]
    refine ⟨?_, hstep.congr fun i' j' => ?_⟩
    · unfold getPtrToPixel
      ring
    · by_cases hp : P i' j'
      · simp [hp]
      · simp only [hp, false_or]
        omega

/-- The rows from `y` on, each as wide as `width` from `x` on. -/
theorem drawRows_filled {P : Nat → Nat → Prop} (hP : ∀ i j, P i j → i < d.width.toNat)
    (h : Filled d color P m m') {x y width lineDiff : Nat} (height : Nat)
    (hfits : x + width ≤ d.width.toNat) (hline : width + lineDiff = d.width.toNat) :
    (drawRows color width lineDiff height (getPtrToPixel d x y) m').1 =
        getPtrToPixel d x (y + height) ∧
      Filled d color (fun i j => P i j ∨ (x ≤ i ∧ i < x + width) ∧ y ≤ j ∧ j < y + height) m
        (drawRows color width lineDiff height (getPtrToPixel d x y) m').2 := by
  induction height with
  | zero => exact ⟨rfl, h.congr fun i j => by simp⟩
  | succ height ih =>
    obtain ⟨hptr, hfilled⟩ := ih
    obtain ⟨hend, hrow⟩ := drawColumns_filled (fun i j hp => hp.elim (hP i j) (by omega))
      hfilled (j := y + height) hfits
    rw [drawRows, List.range_succ, List.foldl_append, ← drawRows]
    simp only [List.foldl_cons, List.foldl_nil, hptr, hend]
    refine ⟨?_, hrow.congr fun i j => ?_⟩
    · unfold getPtrToPixel
      rw [← hline]
      ring
    · by_cases hp : P i j
      · simp [hp]
      · simp only [hp, false_or]
        omega

end

/-! ## Rectangles -/

/-- The pixels of a rectangle that are on the screen. The sums are those of numbers, that
do not wrap. -/
def Clipped (d : ScreenData) (x y width height : UInt16) (i j : Nat) : Prop :=
  (x.toNat ≤ i ∧ i < min (x.toNat + width.toNat) d.width.toNat) ∧
    y.toNat ≤ j ∧ j < min (y.toNat + height.toNat) d.height.toNat

/-- `if (n > limit) n = limit`, of what is left on the screen. -/
theorem clip_toNat {a n limit : UInt16} (h : a < limit) :
    (if limit - a < n then limit - a else n).toNat = min n.toNat (limit.toNat - a.toNat) := by
  have hsub := UInt16.toNat_sub_of_le limit a (UInt16.le_of_lt h)
  split
  · rename_i hlt
    rw [UInt16.lt_iff_toNat_lt, hsub] at hlt
    omega
  · rename_i hlt
    rw [UInt16.lt_iff_toNat_lt, hsub] at hlt
    omega

theorem drawRect_filled (d : ScreenData) (x y width height : UInt16) (color : Color)
    (m : Memory) :
    Filled d color (Clipped d x y width height) m (drawRect d x y width height color m) := by
  unfold drawRect
  split
  · rename_i hvalid
    simp only [coordinatesValid, Bool.and_eq_true, decide_eq_true_eq] at hvalid
    have hx := UInt16.lt_iff_toNat_lt.mp hvalid.1
    have hy := UInt16.lt_iff_toNat_lt.mp hvalid.2
    dsimp only
    have hcolumns := clip_toNat (n := width) hvalid.1
    have hrows := clip_toNat (n := height) hvalid.2
    generalize (if d.width - x < width then d.width - x else width) = columns at hcolumns ⊢
    generalize (if d.height - y < height then d.height - y else height) = rows at hrows ⊢
    have hle : columns ≤ d.width := UInt16.le_iff_toNat_le.mpr (by omega)
    have hline := UInt16.toNat_sub_of_le d.width columns hle
    have hnothing : Filled d color (fun _ _ => False) m m := Filled.nothing fun _ _ hp => hp
    have hfits : x.toNat + columns.toNat ≤ d.width.toNat := by omega
    have hwhole : columns.toNat + (d.width - columns).toNat = d.width.toNat := by omega
    have hall := drawRows_filled (fun _ _ hp => hp.elim) hnothing (y := y.toNat) rows.toNat
      hfits hwhole
    refine hall.2.congr fun i j => ?_
    simp only [Clipped, false_or]
    omega
  · rename_i hoff
    apply Filled.nothing
    intro i j hin
    simp only [coordinatesValid, Bool.and_eq_true, decide_eq_true_eq, UInt16.lt_iff_toNat_lt]
      at hoff
    unfold Clipped at hin
    omega

/-- A pixel of the screen is painted exactly when it is in the clipped rectangle, and no
byte of anything else is written. From a corner off the screen nothing is. -/
theorem drawRect_paints (d : ScreenData) (x y width height : UInt16) (color : Color)
    (m : Memory) :
    (∀ i j, i < d.width.toNat → j < d.height.toNat →
      (Clipped d x y width height i j →
        (drawRect d x y width height color m).load (getPtrToPixel d i j) RGB_SIZE =
          bytesOf color) ∧
      (¬ Clipped d x y width height i j →
        (drawRect d x y width height color m).load (getPtrToPixel d i j) RGB_SIZE =
          m.load (getPtrToPixel d i j) RGB_SIZE)) ∧
    Spares (fun a => ∀ i j, Clipped d x y width height i j →
      a < getPtrToPixel d i j ∨ getPtrToPixel d i j + RGB_SIZE ≤ a) m
      (drawRect d x y width height color m) ∧
    (¬ coordinatesValid d x y → drawRect d x y width height color m = m) := by
  have hfilled := drawRect_filled d x y width height color m
  refine ⟨fun i j hi _ => ⟨hfilled.painted i j, fun hout => ?_⟩, hfilled.spared, fun hoff => ?_⟩
  · refine Memory.load_congr fun k hk => hfilled.spared.bytes _ fun i' j' hin => ?_
    have hi' : i' < d.width.toNat := by
      unfold Clipped at hin
      omega
    have hne : ¬ (i = i' ∧ j = j') := fun h => hout (h.1 ▸ h.2 ▸ hin)
    have := pixels_apart hi hi' hne
    omega
  · rw [drawRect, if_neg hoff]

end bare_bones.pixels
