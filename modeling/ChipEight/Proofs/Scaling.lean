import ChipEight.Emulator.Session
import ChipEight.Proofs.Picture
import ChipEight.Proofs.WellFormed

/-!
# Scaled pictures

A window with the size of a viewport shows each pixel of the display as a square of its
own, and nothing of what it showed before. The squares tile the window: every pixel of
it lies in exactly one of them, in the one with the quotients by the ratio as its place.
-/

namespace ChipEight
namespace Viewport

variable {v : Viewport} {c : Canvas}

theorem renderOn_congr (hc : c.Exact v) (d : Display) {window other : Surface}
    (hwidth : other.width = window.width) (hheight : other.height = window.height) :
    v.renderOn c d other = v.renderOn c d window := by
  rw [renderOn, renderOn, hc.clear_eq, hc.clear_eq, Surface.clear, Surface.clear, hwidth, hheight]

/-- Every pixel of a window with the size of a viewport lies in one of the cells. -/
theorem mem_cells_of_lt (hratio : 1 ≤ v.ratio) {window : Surface}
    (hwidth : (window.width : Int) = v.width * v.ratio)
    (hheight : (window.height : Int) = v.height * v.ratio) {px py : Nat}
    (hx : px < window.width) (hy : py < window.height) :
    (px / v.ratio.toNat, py / v.ratio.toNat) ∈ v.cells := by
  obtain ⟨-, hcolumn⟩ := ediv_lt_of_lt hratio (p := px) (n := v.width) (by omega)
  obtain ⟨-, hrow⟩ := ediv_lt_of_lt hratio (p := py) (n := v.height) (by omega)
  have hnat : (v.ratio.toNat : Int) = v.ratio := by omega
  rw [mem_cells, Int.natCast_ediv, Int.natCast_ediv, hnat]
  exact ⟨hcolumn, hrow⟩

theorem pixel?_renderOn_of_lt (hratio : 1 ≤ v.ratio) (hc : c.Exact v) (d : Display)
    {window : Surface} (hwidth : (window.width : Int) = v.width * v.ratio)
    (hheight : (window.height : Int) = v.height * v.ratio) {px py : Nat}
    (hx : px < window.width) (hy : py < window.height) :
    (v.renderOn c d window).pixel? px py =
      some (d.isLit (px / v.ratio.toNat) (py / v.ratio.toNat)) := by
  rw [pixel?_renderOn hc, if_pos ⟨hx, hy⟩, Option.some_inj, Bool.eq_iff_iff,
    any_covers_iff hratio]
  exact and_iff_right (mem_cells_of_lt hratio hwidth hheight hx hy)

/-- A display that has a pixel for every cell is shown, and then nothing is left to show. -/
theorem apply_render (hfits : v.fits = true) {window : Surface} (hopened : v.opened = .ok window)
    (m : Machine) (threshold : Level) :
    m.apply threshold (.render v) =
      ⟨{ m with drawn := false }, [], .ok (.window (v.render m.display window))⟩ := by
  simp only [Machine.apply, Machine.outcome, Machine.picture, hopened, hfits, if_true,
    List.filter_nil]

/-- On a canvas that paints what it is asked to, a viewport with cells for a part of the
display shows an exact copy of that part at its scale. Each pixel of the window is on if
the pixel of the display at the quotients by the ratio is, whatever the window showed
before, and showing the display once more changes nothing. Of the machine only the flag
changes, which says that something is still to be shown. -/
theorem picture_is_scaled_copy (hratio : 1 ≤ v.ratio) (hwidth : 1 ≤ v.width ∧ v.width ≤ 64)
    (hheight : 1 ≤ v.height ∧ v.height ≤ 32) (hc : c.Exact v) (m : Machine) {window : Surface}
    (hwide : (window.width : Int) = v.width * v.ratio)
    (hhigh : (window.height : Int) = v.height * v.ratio) :
    let shown := v.renderOn c m.display window
    ((shown.width : Int) = v.width * v.ratio ∧ (shown.height : Int) = v.height * v.ratio) ∧
    (∀ px py : Nat, px < shown.width → py < shown.height →
      ∃ lit, m.pixel (px / v.ratio) (py / v.ratio) = .ok lit ∧ shown.pixel? px py = some lit) ∧
    (∀ other : Surface, other.width = window.width → other.height = window.height →
      v.renderOn c m.display other = shown) ∧
    v.renderOn c m.display shown = shown ∧
    (∀ log, m.drawn = true → Session.refresh (v.renderOn c) m window log =
      ⟨{ m with drawn := false }, shown, log, true⟩) ∧
    ∀ threshold opened, v.opened = .ok opened → m.apply threshold (.render v) =
      ⟨{ m with drawn := false }, [],
        .ok (.window (v.renderOn Canvas.standard m.display opened))⟩ := by
  intro shown
  obtain ⟨hsame, hsame'⟩ := size_renderOn hc m.display window
  refine ⟨?_, ?_, ?_, renderOn_congr hc m.display hsame hsame', ?_, ?_⟩
  · rw [hsame, hsame']
    exact ⟨hwide, hhigh⟩
  · intro px py hpx hpy
    rw [hsame] at hpx
    rw [hsame'] at hpy
    obtain ⟨hx, hy⟩ := mem_cells.mp (mem_cells_of_lt hratio hwide hhigh hpx hpy)
    have hnat : v.ratio = (v.ratio.toNat : Int) := by omega
    refine ⟨_, ?_, pixel?_renderOn_of_lt hratio hc m.display hwide hhigh hpx hpy⟩
    rw [hnat]
    exact m.pixel_of_lt (by omega) (by omega)
  · intro other hother hother'
    exact renderOn_congr hc m.display hother hother'
  · intro log hdrawn
    rw [Session.refresh, if_pos hdrawn]
  · intro threshold opened hopened
    have hfits : v.fits = true := decide_eq_true (Or.inr (Or.inr ⟨hwidth.2, hheight.2⟩))
    exact apply_render hfits hopened m threshold

/-- The corner of a glyph at scale three in a window that was on all over: one pixel of
the top row of the glyph, one beside it, and one of the gap in its second row. -/
theorem picture_is_scaled_copy_at_scale_three :
    let v : Viewport := ⟨3, 5, 2⟩
    let m := (Machine.initial ⟨.int 600, .int 1, .absent, ⟨[]⟩⟩).after .info [.execute 0xD015]
    let window : Surface := ⟨15, 6, Array.replicate 6 (Array.replicate 15 true)⟩
    let shown := v.renderOn Canvas.standard m.display window
    shown.pixel? 11 2 = some true ∧ shown.pixel? 12 2 = some false ∧
      shown.pixel? 3 3 = some false ∧ v.renderOn Canvas.standard m.display shown = shown ∧
      Session.refresh (v.renderOn Canvas.standard) m window [] =
        ⟨{ m with drawn := false }, shown, [], true⟩ := by
  intro v m window shown
  have hexact : Canvas.standard.Exact v :=
    exact_standard_of_small (by decide) (by decide) (by decide)
  have hwide : (window.width : Int) = v.width * v.ratio := rfl
  have hhigh : (window.height : Int) = v.height * v.ratio := rfl
  obtain ⟨⟨hwidth, hheight⟩, hpixel, -, htwice, hrefresh, -⟩ :=
    picture_is_scaled_copy (by decide) (by decide) (by decide) hexact m hwide hhigh
  have hshown : ∀ px py : Nat, px < 15 → py < 6 → ∀ lit,
      m.pixel (px / v.ratio) (py / v.ratio) = .ok lit → shown.pixel? px py = some lit := by
    intro px py hpx hpy lit hlit
    have hpx' : px < shown.width := Int.ofNat_lt.mp (hwidth ▸ Int.ofNat_lt.mpr hpx)
    have hpy' : py < shown.height := Int.ofNat_lt.mp (hheight ▸ Int.ofNat_lt.mpr hpy)
    obtain ⟨lit', hlit', hsame⟩ := hpixel px py hpx' hpy'
    cases hlit.symm.trans hlit'
    exact hsame
  exact ⟨hshown 11 2 (by decide) (by decide) true (by decide +kernel),
    hshown 12 2 (by decide) (by decide) false (by decide +kernel),
    hshown 3 3 (by decide) (by decide) false (by decide +kernel), htwice,
    hrefresh [] (by decide +kernel)⟩

end Viewport
end ChipEight
