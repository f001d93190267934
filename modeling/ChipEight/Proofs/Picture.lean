import ChipEight.Window.Viewport
import Mathlib.Tactic.NormNum
import Mathlib.Tactic.SplitIfs

/-!
# Pictures

What a window shows once a display has been painted in it. Painting starts by clearing
the window, so nothing of the old picture is left, and each pixel is on if its cell is.
-/

namespace ChipEight

/-- Whether a canvas paints what a viewport asks for: the surface, or the part of the
square that is on it. -/
structure Canvas.Exact (c : Canvas) (v : Viewport) : Prop where
  clear_eq : ∀ s, c.clear s = s.clear
  square_eq : ∀ s, ∀ cell ∈ v.cells,
    c.square (cell.1 * v.ratio) (cell.2 * v.ratio) v.ratio true s =
      s.fillRectangle (cell.1 * v.ratio) (cell.2 * v.ratio) v.ratio.toNat v.ratio.toNat true

namespace Viewport

theorem exact_standard_of_small {v : Viewport} (hpos : 1 ≤ v.ratio)
    (hwidth : v.width * v.ratio < 0x80000000) (hheight : v.height * v.ratio < 0x80000000) :
    Canvas.standard.Exact v where
  clear_eq _ := rfl
  square_eq := by
    rintro s ⟨x, y⟩ hcell
    obtain ⟨hx, hy⟩ := mem_cells.mp hcell
    have hnonneg : 0 ≤ v.ratio := by omega
    have hxlow : 0 ≤ (x : Int) * v.ratio := Int.mul_nonneg (by omega) hnonneg
    have hylow : 0 ≤ (y : Int) * v.ratio := Int.mul_nonneg (by omega) hnonneg
    -- the far edge of a cell lies in the window, and so does the cell as a whole
    have hxhigh : ((x : Int) + 1) * v.ratio ≤ v.width * v.ratio :=
      Int.mul_le_mul_of_nonneg_right hx hnonneg
    have hyhigh : ((y : Int) + 1) * v.ratio ≤ v.height * v.ratio :=
      Int.mul_le_mul_of_nonneg_right hy hnonneg
    rw [Int.add_mul, Int.one_mul] at hxhigh hyhigh
    have hxsmall : (x : Int) * v.ratio < 0x80000000 := by omega
    have hysmall : (y : Int) * v.ratio < 0x80000000 := by omega
    have hsmall : v.ratio < 0x80000000 := by omega
    exact Canvas.square_standard_of_small true s ⟨hxlow, hxsmall⟩ ⟨hylow, hysmall⟩
      ⟨hnonneg, hsmall⟩

theorem exact_standard {ratio : Int} (hpos : 1 ≤ ratio) (hsmall : ratio ≤ 0x1FFFFFF) :
    Canvas.standard.Exact (ofRatio ratio) := by
  apply exact_standard_of_small hpos
  · simp only [ofRatio, Display.width]
    omega
  · simp only [ofRatio, Display.height]
    omega

def covers (v : Viewport) (d : Display) (px py : Nat) (cell : Nat × Nat) : Bool :=
  d.isLit cell.1 cell.2 &&
    decide ((cell.1 * v.ratio ≤ px ∧ px < cell.1 * v.ratio + v.ratio.toNat) ∧
      (cell.2 * v.ratio ≤ py ∧ py < cell.2 * v.ratio + v.ratio.toNat))

variable {v : Viewport} {c : Canvas}

theorem pixel?_paintLit (hc : c.Exact v) (d : Display) {cell : Nat × Nat}
    (hcell : cell ∈ v.cells) (window : Surface) (px py : Nat) :
    (v.paintLit c d window cell).pixel? px py =
      (window.pixel? px py).map fun old => v.covers d px py cell || old := by
  unfold paintLit covers
  cases d.isLit cell.1 cell.2 with
  | false => simp
  | true =>
    rw [if_pos rfl, paintCell, hc.square_eq window cell hcell, Surface.pixel?_fillRectangle]
    congr 1
    funext old
    split_ifs with hinside
    · rw [decide_eq_true hinside]
      rfl
    · rw [decide_eq_false hinside]
      rfl

theorem pixel?_foldl_paintLit (hc : c.Exact v) (d : Display) {cells : List (Nat × Nat)}
    (hcells : ∀ cell ∈ cells, cell ∈ v.cells) (window : Surface) (px py : Nat) :
    (cells.foldl (v.paintLit c d) window).pixel? px py =
      (window.pixel? px py).map fun old => cells.any (v.covers d px py) || old := by
  induction cells generalizing window with
  | nil => simp
  | cons cell cells ih =>
    obtain ⟨hfirst, hrest⟩ := List.forall_mem_cons.mp hcells
    rw [List.foldl_cons, ih hrest, pixel?_paintLit hc d hfirst, Option.map_map]
    congr 1
    funext old
    simp only [Function.comp_apply, List.any_cons]
    cases v.covers d px py cell <;> simp

theorem size_paintLit (hc : c.Exact v) (d : Display) {cell : Nat × Nat}
    (hcell : cell ∈ v.cells) (window : Surface) :
    (v.paintLit c d window cell).width = window.width ∧
      (v.paintLit c d window cell).height = window.height := by
  unfold paintLit
  split
  · rw [paintCell, hc.square_eq window cell hcell]
    exact ⟨rfl, rfl⟩
  · exact ⟨rfl, rfl⟩

theorem size_foldl_paintLit (hc : c.Exact v) (d : Display) {cells : List (Nat × Nat)}
    (hcells : ∀ cell ∈ cells, cell ∈ v.cells) (window : Surface) :
    (cells.foldl (v.paintLit c d) window).width = window.width ∧
      (cells.foldl (v.paintLit c d) window).height = window.height := by
  induction cells generalizing window with
  | nil => exact ⟨rfl, rfl⟩
  | cons cell cells ih =>
    obtain ⟨hfirst, hrest⟩ := List.forall_mem_cons.mp hcells
    obtain ⟨hwidth, hheight⟩ := size_paintLit hc d hfirst window
    obtain ⟨hwidths, hheights⟩ := ih hrest (v.paintLit c d window cell)
    exact ⟨hwidths.trans hwidth, hheights.trans hheight⟩

end Viewport

namespace Display

theorem lt_of_isLit {d : Display} {x y : Nat} (h : d.isLit x y = true) :
    x < width ∧ y < height := by
  unfold isLit at h
  split at h
  · rename_i hy
    constructor
    · by_contra hx
      have hge : 64 ≤ x := Nat.le_of_not_lt hx
      rw [BitVec.getMsbD_of_ge _ _ hge] at h
      cases h
    · exact hy
  · cases h

end Display

namespace Viewport

variable {v : Viewport} {c : Canvas}

theorem ediv_lt_of_lt (hpos : 1 ≤ v.ratio) {p : Nat} {n : Int} (h : (p : Int) < n * v.ratio) :
    0 ≤ (p : Int) / v.ratio ∧ (p : Int) / v.ratio < n :=
  ⟨Int.ediv_nonneg (by omega) (by omega), Int.ediv_lt_of_lt_mul (by omega) h⟩

/-- A pixel lies in one cell only, the one with the quotients by the ratio as its place. -/
theorem any_covers_iff (hpos : 1 ≤ v.ratio) (d : Display) (px py : Nat) :
    v.cells.any (v.covers d px py) = true ↔
      (px / v.ratio.toNat, py / v.ratio.toNat) ∈ v.cells ∧
        d.isLit (px / v.ratio.toNat) (py / v.ratio.toNat) = true := by
  obtain ⟨n, hratio⟩ := Int.eq_ofNat_of_zero_le (Int.le_trans Int.one_nonneg hpos)
  have hn : 0 < n := by omega
  rw [hratio, Int.toNat_natCast, List.any_eq_true]
  constructor
  · rintro ⟨⟨x, y⟩, hcell, hcover⟩
    obtain ⟨hlit, hinside⟩ := Bool.and_eq_true_iff.mp hcover
    obtain ⟨⟨hxlow, hxhigh⟩, hylow, hyhigh⟩ := of_decide_eq_true hinside
    simp only [hratio, Int.toNat_natCast] at hxlow hxhigh hylow hyhigh
    norm_cast at hxlow hxhigh hylow hyhigh
    have hx : px / n = x := Nat.div_eq_of_lt_le hxlow (by rwa [Nat.succ_mul])
    have hy : py / n = y := Nat.div_eq_of_lt_le hylow (by rwa [Nat.succ_mul])
    rw [hx, hy]
    exact ⟨hcell, hlit⟩
  · rintro ⟨hcell, hlit⟩
    refine ⟨(px / n, py / n), hcell, Bool.and_eq_true_iff.mpr ⟨hlit, decide_eq_true ?_⟩⟩
    simp only [hratio, Int.toNat_natCast]
    norm_cast
    exact ⟨⟨Nat.div_mul_le_self px n, Nat.lt_div_mul_add hn⟩,
      Nat.div_mul_le_self py n, Nat.lt_div_mul_add hn⟩

theorem any_covers {ratio : Int} (hpos : 1 ≤ ratio) (d : Display) (px py : Nat) :
    (ofRatio ratio).cells.any ((ofRatio ratio).covers d px py) =
      d.isLit (px / ratio.toNat) (py / ratio.toNat) := by
  rw [Bool.eq_iff_iff, any_covers_iff hpos]
  refine and_iff_right_of_imp fun hlit => ?_
  obtain ⟨hx, hy⟩ := Display.lt_of_isLit hlit
  exact mem_cells.mpr ⟨Int.ofNat_lt.mpr hx, Int.ofNat_lt.mpr hy⟩

theorem size_renderOn (hc : c.Exact v) (d : Display) (window : Surface) :
    (v.renderOn c d window).width = window.width ∧
      (v.renderOn c d window).height = window.height := by
  rw [renderOn, hc.clear_eq]
  exact size_foldl_paintLit hc d (fun _ hcell => hcell) window.clear

/-- Once a display is painted, a pixel of the window is on if a cell that is on covers it. -/
theorem pixel?_renderOn (hc : c.Exact v) (d : Display) (window : Surface) (px py : Nat) :
    (v.renderOn c d window).pixel? px py =
      if px < window.width ∧ py < window.height then some (v.cells.any (v.covers d px py))
      else none := by
  rw [renderOn, hc.clear_eq, pixel?_foldl_paintLit hc d (fun _ hcell => hcell), Surface.clear,
    Surface.pixel?_blank]
  split_ifs <;> simp

/-- A window that shows a display: it has the given size, and each pixel is on if its
cell is. -/
structure Shows (ratio : Int) (width height : Nat) (d : Display) (window : Surface) : Prop where
  width_eq : window.width = width
  height_eq : window.height = height
  pixel?_eq : ∀ px py, window.pixel? px py =
    if px < width ∧ py < height then some (d.isLit (px / ratio.toNat) (py / ratio.toNat))
    else none

/-- Painting shows the display, whatever the window showed before. -/
theorem shows_renderOn {ratio : Int} (hpos : 1 ≤ ratio) (hc : c.Exact (ofRatio ratio))
    (d : Display) (window : Surface) :
    Shows ratio window.width window.height d ((ofRatio ratio).renderOn c d window) := by
  obtain ⟨hwidth, hheight⟩ := size_renderOn hc d window
  refine ⟨hwidth, hheight, ?_⟩
  intro px py
  rw [pixel?_renderOn hc, any_covers hpos]

theorem blank_of_opened {window : Surface} (h : v.opened = .ok window) :
    window = Surface.blank window.width window.height := by
  unfold opened at h
  dsimp only at h
  split_ifs at h
  cases h
  unfold blankWindow
  split_ifs <;> rfl

theorem shows_opened {ratio : Int} {window : Surface} (h : (ofRatio ratio).opened = .ok window) :
    Shows ratio window.width window.height Display.blank window := by
  refine ⟨rfl, rfl, ?_⟩
  intro px py
  rw [Display.isLit_blank]
  conv_lhs => rw [blank_of_opened h]
  exact Surface.pixel?_blank _ _ _ _

theorem size_of_opened {ratio : Int} (hpos : 1 ≤ ratio) (hsmall : 64 * ratio ≤ maximalSide)
    {window : Surface} (h : (ofRatio ratio).opened = .ok window) :
    (window.width : Int) = 64 * ratio ∧ (window.height : Int) = 32 * ratio := by
  have hwidth : (ofRatio ratio).width = 64 := rfl
  have hheight : (ofRatio ratio).height = 32 := rfl
  have hratio : (ofRatio ratio).ratio = ratio := rfl
  have hopened : (ofRatio ratio).opened =
      .ok (Surface.blank (64 * ratio).toNat (32 * ratio).toNat) := by
    have hblank := opened_of_small (v := ofRatio ratio)
    rw [hwidth, hheight, hratio] at hblank
    exact hblank (by omega) (by omega) hsmall (by omega)
  rw [hopened] at h
  cases h
  simp only [Surface.blank]
  omega

end Viewport
end ChipEight
