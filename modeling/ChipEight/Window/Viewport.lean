import ChipEight.Machine.Display
import ChipEight.Window.Canvas
import ChipEight.Window.Error

/-!
# Viewports

A viewport shows cells in a window, each cell a square of pixels. Showing a
display paints the window anew: it is cleared, and then every cell that is on is
filled. Of the numbers that place a cell, and of those that give a cell or a
window its size, the low 32 bits are kept.
-/

namespace ChipEight

/-- A window of cells, each `ratio` pixels wide and high. -/
structure Viewport where
  ratio : Int
  width : Int
  height : Int
  deriving DecidableEq

namespace Viewport

def caption : String := "CHIP8 Emulator"

def color (lit : Bool) : List Nat :=
  if lit then [250, 250, 250] else [0, 0, 0]

/-- Whether a pixel in the colour with the given number is on. -/
def colorNumber (n : Int) : Except WindowError Bool :=
  if n = 0 then .ok false else if n = 1 then .ok true else .error (.unknownColor n)

def ofRatio (ratio : Int) : Viewport := ⟨ratio, Display.width, Display.height⟩

def maximalSide : Nat := 16384

/-- The side that a window gets instead of the one asked for. -/
def side (wanted : Int) : Nat := max 1 (min wanted.toNat maximalSide)

/-- The window that is opened for a width and a height. Without either it fills
the desktop. -/
def blankWindow (width height : Int) : Surface :=
  if width = 0 ∧ height = 0 then Surface.blank 1024 768
  else Surface.blank (side width) (side height)

def opened (v : Viewport) : Except WindowError Surface :=
  let width := v.width * v.ratio
  let height := v.height * v.ratio
  if !(Width.fits64 width && Width.fits64 height) then .error .sizeTooWide
  else if Width.low32 width < 0 ∨ Width.low32 height < 0 then .error .sizeNegative
  else .ok (blankWindow (Width.low32 width) (Width.low32 height))

/-- One cell painted; cells outside the window are not seen. -/
def paintCell (v : Viewport) (canvas : Canvas) (x y : Int) (lit : Bool) (window : Surface) :
    Surface :=
  canvas.square (x * v.ratio) (y * v.ratio) v.ratio lit window

def cells (v : Viewport) : List (Nat × Nat) :=
  (List.range v.width.toNat).flatMap fun x =>
    (List.range v.height.toNat).map fun y => (x, y)

def fits (v : Viewport) : Bool :=
  v.width ≤ 0 ∨ v.height ≤ 0 ∨ (v.width ≤ Display.width ∧ v.height ≤ Display.height)

/-- A cell filled if its pixel of the display is on. -/
def paintLit (v : Viewport) (canvas : Canvas) (d : Display) (window : Surface)
    (cell : Nat × Nat) : Surface :=
  if d.isLit cell.1 cell.2 then v.paintCell canvas (cell.1 : Int) (cell.2 : Int) true window
  else window

def renderOn (v : Viewport) (canvas : Canvas) (d : Display) (window : Surface) : Surface :=
  v.cells.foldl (v.paintLit canvas d) (canvas.clear window)

def render (v : Viewport) (d : Display) (window : Surface) : Surface :=
  v.renderOn Canvas.standard d window

inductive Request
  | paint (x y : Int) (color : Int)
  | clear
  | update
  deriving DecidableEq

def reaches (v : Viewport) (x y : Int) : Bool :=
  Width.fits64 (x * v.ratio) && Width.fits64 (y * v.ratio) && Width.fits64 v.ratio

/-- The window after a request. Bringing what is painted to the front changes
nothing of it. -/
def answer (v : Viewport) (window : Surface) : Request → Except WindowError Surface
  | .paint x y color => do
    let lit ← colorNumber color
    if v.reaches x y then return v.paintCell Canvas.standard x y lit window
    else throw .coordinateTooWide
  | .clear => .ok window.clear
  | .update => .ok window

/-- The window after several requests, each refused one left out. -/
def answerAll (v : Viewport) (window : Surface) (requests : List Request) : Surface :=
  requests.foldl
    (fun w r => match v.answer w r with | .ok next => next | .error _ => w) window

theorem mem_cells {v : Viewport} {x y : Nat} :
    (x, y) ∈ v.cells ↔ (x : Int) < v.width ∧ (y : Int) < v.height := by
  simp only [cells, List.mem_flatMap, List.mem_map, List.mem_range, Prod.mk.injEq]
  constructor
  · rintro ⟨a, ha, b, hb, rfl, rfl⟩
    omega
  · rintro ⟨hx, hy⟩
    exact ⟨x, by omega, y, by omega, rfl, rfl⟩

/-- A window of a usual size opens with a pixel for every part of every cell. -/
theorem opened_of_small {v : Viewport} (hw : 0 < v.width * v.ratio)
    (hh : 0 < v.height * v.ratio) (hw' : v.width * v.ratio ≤ maximalSide)
    (hh' : v.height * v.ratio ≤ maximalSide) :
    v.opened =
      .ok (Surface.blank (v.width * v.ratio).toNat (v.height * v.ratio).toNat) := by
  simp only [maximalSide] at hw' hh'
  have hlow := Width.low32_of_small (n := v.width * v.ratio) (by omega) (by omega)
  have hlow' := Width.low32_of_small (n := v.height * v.ratio) (by omega) (by omega)
  have hfit := Width.fits64_of_small (n := v.width * v.ratio) (by omega) (by omega)
  have hfit' := Width.fits64_of_small (n := v.height * v.ratio) (by omega) (by omega)
  have hneg : ¬(v.width * v.ratio < 0 ∨ v.height * v.ratio < 0) := by omega
  have hzero : ¬(v.width * v.ratio = 0 ∧ v.height * v.ratio = 0) := by omega
  have hside : side (v.width * v.ratio) = (v.width * v.ratio).toNat := by
    simp only [side, maximalSide]
    omega
  have hside' : side (v.height * v.ratio) = (v.height * v.ratio).toNat := by
    simp only [side, maximalSide]
    omega
  simp only [opened, hlow, hlow', hfit, hfit', hneg, Bool.and_self, Bool.not_true,
    Bool.false_eq_true, if_false, blankWindow, if_neg hzero, hside, hside']

end Viewport
end ChipEight
