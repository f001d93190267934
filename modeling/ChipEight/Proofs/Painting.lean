import ChipEight.Proofs.Picture
import Mathlib.Data.List.DropRight

/-!
# Painting cell by cell

A request paints one cell, and no other: the squares of two cells have no pixel in common,
wherever they lie. So what a pixel of the window shows after any requests is decided by the
last of them since the last clearing that painted its cell, and requests for different
cells can change places.
-/

namespace ChipEight

namespace Width

theorem low32_lt (n : Int) : low32 n < 0x80000000 := Int.bmod_lt (by decide)

theorem low32_le {n : Int} (h : 0 ≤ n) : low32 n ≤ n := by
  rw [low32, Int.bmod_def]
  split <;> omega

/-- A number above zero whose low 32 bits are zero has more than 32 bits. -/
theorem le_of_low32_eq_zero {n : Int} (hpos : 1 ≤ n) (h : low32 n = 0) : 0x100000000 ≤ n := by
  rw [low32, Int.bmod_def] at h
  split at h <;> omega

end Width

namespace Surface

def sizes (s : Surface) : Nat × Nat × Nat := (s.width, s.height, s.rows.size)

theorem ext_pixel? {s t : Surface} (hsizes : s.sizes = t.sizes)
    (hpixels : ∀ x y, s.pixel? x y = t.pixel? x y) : s = t := by
  obtain ⟨width, height, rows⟩ := s
  obtain ⟨width', height', rows'⟩ := t
  simp only [sizes, Prod.mk.injEq] at hsizes
  obtain ⟨rfl, rfl, hcount⟩ := hsizes
  congr 1
  apply Array.ext hcount
  intro y hy hy'
  apply Array.ext_getElem?
  intro x
  have hpixel := hpixels x y
  simpa [pixel?, hy, hy'] using hpixel

theorem size_paintRows (lit : Bool) (left right top count : Nat) (rows : Array (Array Bool)) :
    (paintRows lit left right top count rows).size = rows.size := by
  induction count generalizing rows with
  | zero => rfl
  | succ count ih => rw [paintRows, ih, Array.size_modify]

theorem sizes_fillRectangle (s : Surface) (x y : Int) (width height : Nat) (lit : Bool) :
    (s.fillRectangle x y width height lit).sizes = s.sizes := by
  simp only [sizes, fillRectangle, size_paintRows]

end Surface

namespace Viewport

/-- Whether 32 bits, one of them for the sign, hold the corner of a cell and, with it, the
side or the opposite corner. -/
@[mk_iff]
structure HasRoom (v : Viewport) (x y : Int) : Prop where
  left : -0x80000000 ≤ x * v.ratio ∧ x * v.ratio < 0x80000000
  top : -0x80000000 ≤ y * v.ratio ∧ y * v.ratio < 0x80000000
  far : v.ratio < 0x80000000 ∨
    (x * v.ratio + v.ratio < 0x80000000 ∧ y * v.ratio + v.ratio < 0x80000000)

instance (v : Viewport) (x y : Int) : Decidable (v.HasRoom x y) :=
  decidable_of_iff' _ (hasRoom_iff v x y)

namespace Request

def HasRoom (v : Viewport) : Request → Prop
  | paint x y _ => v.HasRoom x y
  | clear => True
  | update => True

instance (v : Viewport) : DecidablePred (HasRoom v)
  | paint x y _ => inferInstanceAs (Decidable (v.HasRoom x y))
  | clear => isTrue trivial
  | update => isTrue trivial

def color? (x y : Int) : Request → Option Bool
  | paint x' y' color => if x' = x ∧ y' = y then (colorNumber color).toOption else none
  | clear => none
  | update => none

end Request

def sinceClear (requests : List Request) : List Request :=
  requests.rtakeWhile fun r => r ≠ .clear

/-- The value that the last painting of a cell since the last clearing gave it. -/
def lastColor? (x y : Int) (requests : List Request) : Option Bool :=
  ((sinceClear requests).filterMap (Request.color? x y)).getLast?

theorem lastColor?_concat_clear (x y : Int) (requests : List Request) :
    lastColor? x y (requests ++ [.clear]) = none := by
  rw [lastColor?, sinceClear, List.rtakeWhile_concat_neg _ _ _ (by simp)]
  rfl

/-- A request that does not clear the window decides where it paints, and leaves the rest
to those before it. -/
theorem lastColor?_concat (x y : Int) (requests : List Request) {r : Request}
    (hr : r ≠ .clear) :
    lastColor? x y (requests ++ [r]) = (r.color? x y).or (lastColor? x y requests) := by
  rw [lastColor?, sinceClear, List.rtakeWhile_concat_pos _ _ _ (by simpa using hr),
    List.filterMap_append, List.getLast?_append]
  cases hcolor : r.color? x y with
  | none => simp [hcolor, lastColor?, sinceClear]
  | some lit => simp [hcolor]

section Cells

variable {v : Viewport} {x y : Int}

/-- Where the ratio itself has no room, a cell that has lies off the window. -/
theorem HasRoom.mul_le_neg (hroom : v.HasRoom x y) (hlarge : 0x80000000 ≤ v.ratio) :
    x * v.ratio ≤ -v.ratio := by
  have hratio : 0 ≤ v.ratio := by omega
  have hfar : x * v.ratio + v.ratio < 0x80000000 := (hroom.far.resolve_left (by omega)).1
  have hneg : x ≤ -1 := by
    by_contra hx
    have hcorner : 0 ≤ x * v.ratio := Int.mul_nonneg (by omega) hratio
    omega
  have hmul := Int.mul_le_mul_of_nonneg_right hneg hratio
  rwa [Int.neg_mul, Int.one_mul] at hmul

theorem HasRoom.reaches (hratio : 1 ≤ v.ratio) (hroom : v.HasRoom x y) :
    v.reaches x y = true := by
  have hside : Width.fits64 v.ratio = true := by
    rcases lt_or_ge v.ratio 0x80000000 with hsmall | hlarge
    · exact Width.fits64_of_small (by omega) hsmall
    · have hcorner := hroom.mul_le_neg hlarge
      have hleft := hroom.left
      exact decide_eq_true (by omega)
  rw [Viewport.reaches, Width.fits64_of_small hroom.left.1 hroom.left.2,
    Width.fits64_of_small hroom.top.1 hroom.top.2, hside]
  rfl

/-- The part of the plane that is filled for a cell is the one with the quotients by the
ratio as its place. -/
theorem HasRoom.mem_square_iff (hratio : 1 ≤ v.ratio) (hroom : v.HasRoom x y) (px py : Nat) :
    ((x * v.ratio ≤ px ∧ (px : Int) < x * v.ratio + (Width.low32 v.ratio).toNat) ∧
      (y * v.ratio ≤ py ∧ (py : Int) < y * v.ratio + (Width.low32 v.ratio).toNat)) ↔
      x = px / v.ratio ∧ y = py / v.ratio := by
  rcases lt_or_ge v.ratio 0x80000000 with hsmall | hlarge
  · have hside : ((Width.low32 v.ratio).toNat : Int) = v.ratio := by
      rw [Width.low32_of_small (by omega) hsmall]
      omega
    rw [hside, eq_comm, Int.ediv_eq_iff_of_pos (by omega), eq_comm (a := y),
      Int.ediv_eq_iff_of_pos (by omega)]
  · -- the square ends before the window begins, and quotients are not negative
    have hcorner := hroom.mul_le_neg hlarge
    have hside := Width.low32_lt v.ratio
    have hneg : x < 0 := by
      by_contra hx
      have hproduct : 0 ≤ x * v.ratio := Int.mul_nonneg (by omega) (by omega)
      omega
    have hquotient : 0 ≤ (px : Int) / v.ratio := Int.ediv_nonneg (by omega) (by omega)
    constructor
    · rintro ⟨⟨-, hfar⟩, -⟩
      omega
    · rintro ⟨hplace, -⟩
      omega

/-- Painting a cell changes the pixels whose quotients by the ratio are its place. -/
theorem pixel?_paintCell (hratio : 1 ≤ v.ratio) (hroom : v.HasRoom x y) (lit : Bool)
    (window : Surface) (px py : Nat) :
    (v.paintCell Canvas.standard x y lit window).pixel? px py =
      (window.pixel? px py).map fun old =>
        if x = px / v.ratio ∧ y = py / v.ratio then lit else old := by
  simp only [paintCell, Canvas.standard, Surface.pixel?_fillRectangle,
    Width.low32_of_small hroom.left.1 hroom.left.2, Width.low32_of_small hroom.top.1 hroom.top.2,
    hroom.mem_square_iff hratio]

end Cells

section Requests

variable {v : Viewport} {x y : Int} {window : Surface} {r : Request}

theorem answerAll_concat (window : Surface) (requests : List Request) (r : Request) :
    v.answerAll window (requests ++ [r]) = v.answerAll (v.answerAll window requests) [r] :=
  List.foldl_append

theorem answer_paint_of_unknown {color : Int} (hoff : color ≠ 0) (hon : color ≠ 1)
    (window : Surface) :
    v.answer window (.paint x y color) = .error (.unknownColor color) := by
  have hcolor : colorNumber color = .error (.unknownColor color) := by
    rw [colorNumber, if_neg hoff, if_neg hon]
  rw [answer, hcolor]
  rfl

theorem answerAll_paint (hratio : 1 ≤ v.ratio) (hroom : v.HasRoom x y) (color : Int)
    (window : Surface) :
    v.answerAll window [.paint x y color] =
      match (colorNumber color).toOption with
      | some lit => v.paintCell Canvas.standard x y lit window
      | none => window := by
  cases hcolor : colorNumber color with
  | error e =>
    have hanswer : v.answer window (.paint x y color) = .error e := by rw [answer, hcolor]; rfl
    simp only [answerAll, List.foldl_cons, List.foldl_nil, hanswer]
    rfl
  | ok lit =>
    have hanswer : v.answer window (.paint x y color) =
        .ok (v.paintCell Canvas.standard x y lit window) := by
      rw [answer, hcolor, hroom.reaches hratio]
      rfl
    simp only [answerAll, List.foldl_cons, List.foldl_nil, hanswer]
    rfl

theorem sizes_answerAll (hratio : 1 ≤ v.ratio) (hroom : r.HasRoom v) (window : Surface)
    (hr : r ≠ .clear) : (v.answerAll window [r]).sizes = window.sizes := by
  cases r with
  | clear => exact absurd rfl hr
  | update => rfl
  | paint x y color =>
    rw [answerAll_paint hratio hroom]
    split
    · exact Surface.sizes_fillRectangle _ _ _ _ _ _
    · rfl

theorem pixel?_answerAll (hratio : 1 ≤ v.ratio) (hroom : r.HasRoom v) (window : Surface)
    (hr : r ≠ .clear) (px py : Nat) :
    (v.answerAll window [r]).pixel? px py =
      (window.pixel? px py).map fun old =>
        (r.color? (px / v.ratio) (py / v.ratio)).getD old := by
  cases r with
  | clear => exact absurd rfl hr
  | update => exact Option.map_id'.symm
  | paint x y color =>
    rw [answerAll_paint hratio hroom]
    simp only [Request.color?]
    cases (colorNumber color).toOption with
    | none => simp
    | some lit =>
      rw [pixel?_paintCell hratio hroom]
      congr 1
      funext old
      split_ifs <;> rfl

/-- A window that shows what is left of some requests: a pixel has the value that its cell
was last given. -/
structure Painted (v : Viewport) (width height : Nat) (requests : List Request)
    (window : Surface) : Prop where
  sizes_eq : window.sizes = (width, height, height)
  pixel?_eq : ∀ px py : Nat, window.pixel? px py =
    if px < width ∧ py < height then
      some ((lastColor? (px / v.ratio) (py / v.ratio) requests).getD false)
    else none

namespace Painted

variable {width height : Nat} {requests : List Request}

theorem blank : Painted v width height [] (Surface.blank width height) where
  sizes_eq := by simp [Surface.sizes, Surface.blank]
  pixel?_eq := Surface.pixel?_blank width height

theorem answer (hratio : 1 ≤ v.ratio) (h : Painted v width height requests window)
    (hroom : r.HasRoom v) :
    Painted v width height (requests ++ [r]) (v.answerAll window [r]) := by
  by_cases hr : r = .clear
  · -- a cleared window shows what a new one shows
    subst hr
    have hsizes := h.sizes_eq
    simp only [Surface.sizes, Prod.mk.injEq] at hsizes
    have hclear : v.answerAll window [.clear] = Surface.blank width height := by
      rw [← hsizes.1, ← hsizes.2.1]
      rfl
    rw [hclear]
    refine ⟨blank.sizes_eq (v := v), fun px py => ?_⟩
    rw [lastColor?_concat_clear]
    exact Surface.pixel?_blank width height px py
  · refine ⟨(sizes_answerAll hratio hroom window hr).trans h.sizes_eq, fun px py => ?_⟩
    rw [pixel?_answerAll hratio hroom window hr, h.pixel?_eq, lastColor?_concat _ _ _ hr]
    split_ifs
    · cases r.color? (px / v.ratio) (py / v.ratio) <;> rfl
    · rfl

theorem answerAll (hratio : 1 ≤ v.ratio) (hroom : ∀ r ∈ requests, r.HasRoom v) :
    Painted v width height requests
      (v.answerAll (Surface.blank width height) requests) := by
  induction requests using List.reverseRecOn with
  | nil => exact blank
  | append_singleton requests r ih =>
    rw [answerAll_concat]
    exact (ih fun r' hr' => hroom r' (List.mem_append_left _ hr')).answer hratio
      (hroom r (List.mem_append_right _ List.mem_cons_self))

end Painted

theorem answerAll_of_outside (hratio : 1 ≤ v.ratio) (hroom : v.HasRoom x y) (color : Int)
    (hinside : ∀ px py old, window.pixel? px py = some old →
      ¬(x = px / v.ratio ∧ y = py / v.ratio)) :
    v.answerAll window [.paint x y color] = window := by
  have hroom' : Request.HasRoom v (.paint x y color) := hroom
  have hpaint : Request.paint x y color ≠ .clear := nofun
  apply Surface.ext_pixel? (sizes_answerAll hratio hroom' window hpaint)
  intro px py
  rw [pixel?_answerAll hratio hroom' window hpaint]
  cases hold : window.pixel? px py with
  | none => rfl
  | some old =>
    rw [Option.map_some, Request.color?, if_neg (hinside px py old hold)]
    rfl

/-- Two requests for different cells can change places. -/
theorem answerAll_comm (hratio : 1 ≤ v.ratio) {x' y' color color' : Int}
    (hroom : v.HasRoom x y) (hroom' : v.HasRoom x' y') (hne : (x, y) ≠ (x', y'))
    (window : Surface) :
    v.answerAll window [.paint x y color, .paint x' y' color'] =
      v.answerAll window [.paint x' y' color', .paint x y color] := by
  have hfirst : Request.HasRoom v (.paint x y color) := hroom
  have hsecond : Request.HasRoom v (.paint x' y' color') := hroom'
  change v.answerAll (v.answerAll window [.paint x y color]) [.paint x' y' color'] =
    v.answerAll (v.answerAll window [.paint x' y' color']) [.paint x y color]
  apply Surface.ext_pixel?
  · rw [sizes_answerAll hratio hsecond _ nofun, sizes_answerAll hratio hfirst _ nofun,
      sizes_answerAll hratio hfirst _ nofun, sizes_answerAll hratio hsecond _ nofun]
  · intro px py
    rw [pixel?_answerAll hratio hsecond _ nofun, pixel?_answerAll hratio hfirst _ nofun,
      pixel?_answerAll hratio hfirst _ nofun, pixel?_answerAll hratio hsecond _ nofun,
      Option.map_map, Option.map_map]
    congr 1
    funext old
    simp only [Function.comp_apply, Request.color?]
    -- no pixel lies in both cells
    split_ifs with hin hin'
    · exact absurd (Prod.ext (hin'.1.trans hin.1.symm) (hin'.2.trans hin.2.symm)) hne
    all_goals rfl

end Requests

/-- A window is never larger than the cells that it is opened for. -/
theorem size_le_of_opened {v : Viewport} (hwidth : 1 ≤ v.width * v.ratio)
    (hheight : 1 ≤ v.height * v.ratio) {window : Surface} (h : v.opened = .ok window) :
    (window.width : Int) ≤ v.width * v.ratio ∧ (window.height : Int) ≤ v.height * v.ratio := by
  have hlow := Width.low32_le (n := v.width * v.ratio) (by omega)
  have hlow' := Width.low32_le (n := v.height * v.ratio) (by omega)
  unfold opened at h
  dsimp only at h
  split_ifs at h
  cases h
  unfold blankWindow
  split_ifs with hdesktop
  · have hlarge := Width.le_of_low32_eq_zero hwidth hdesktop.1
    have hlarge' := Width.le_of_low32_eq_zero hheight hdesktop.2
    simp only [Surface.blank]
    omega
  · simp only [Surface.blank, side, maximalSide]
    omega

/-- The last painting of a cell wins. After any requests that there is room for, a pixel of
the window has the colour that the last of them since the last clearing gave to the cell at
its quotients by the ratio, and is off if there is none. A request in an unknown colour is
refused, and it changes no pixel, nor does one for a cell beside the window; so requests
for different cells can change places. -/
theorem last_painting_wins {v : Viewport} (hratio : 1 ≤ v.ratio) (hwidth : 1 ≤ v.width)
    (hheight : 1 ≤ v.height) {first : Surface}
    (hfirst : v.opened = .ok first ∨
      first = Surface.blank (v.width * v.ratio).toNat (v.height * v.ratio).toNat)
    {requests : List Request} (hroom : ∀ r ∈ requests, r.HasRoom v) :
    let now := v.answerAll first requests
    (now.width = first.width ∧ now.height = first.height ∧
      (v.width * v.ratio ≤ maximalSide → v.height * v.ratio ≤ maximalSide →
        (first.width : Int) = v.width * v.ratio ∧ (first.height : Int) = v.height * v.ratio)) ∧
    (∀ px py : Nat, now.pixel? px py =
      if px < now.width ∧ py < now.height then
        some ((lastColor? (px / v.ratio) (py / v.ratio) requests).getD false)
      else none) ∧
    (∀ x y color, color ≠ 0 → color ≠ 1 →
      v.answer now (.paint x y color) = .error (.unknownColor color) ∧
      v.answerAll now [.paint x y color] = now) ∧
    (∀ x y color, v.HasRoom x y → (x < 0 ∨ v.width ≤ x ∨ y < 0 ∨ v.height ≤ y) →
      v.answerAll now [.paint x y color] = now) ∧
    ∀ x y color x' y' color', v.HasRoom x y → v.HasRoom x' y' → (x, y) ≠ (x', y') →
      v.answerAll now [.paint x y color, .paint x' y' color'] =
        v.answerAll now [.paint x' y' color', .paint x y color] := by
  intro now
  have hwide : 1 ≤ v.width * v.ratio := one_le_mul_of_one_le_of_one_le hwidth hratio
  have hhigh : 1 ≤ v.height * v.ratio := one_le_mul_of_one_le_of_one_le hheight hratio
  have hblank : first = Surface.blank first.width first.height := by
    rcases hfirst with hopened | rfl
    · exact blank_of_opened hopened
    · rfl
  have hle : (first.width : Int) ≤ v.width * v.ratio ∧
      (first.height : Int) ≤ v.height * v.ratio := by
    rcases hfirst with hopened | rfl
    · exact size_le_of_opened hwide hhigh hopened
    · simp only [Surface.blank]
      omega
  have hpainted : Painted v first.width first.height requests now := by
    have hall : Painted v first.width first.height requests
        (v.answerAll (Surface.blank first.width first.height) requests) :=
      Painted.answerAll hratio hroom
    rwa [← hblank] at hall
  have hsizes := hpainted.sizes_eq
  simp only [Surface.sizes, Prod.mk.injEq] at hsizes
  obtain ⟨hsame, hsame', -⟩ := hsizes
  refine ⟨⟨hsame, hsame', ?_⟩, ?_, ?_, ?_, ?_⟩
  · intro hsmall hsmall'
    rcases hfirst with hopened | rfl
    · rw [opened_of_small (by omega) (by omega) hsmall hsmall'] at hopened
      cases hopened
      simp only [Surface.blank]
      omega
    · simp only [Surface.blank]
      omega
  · rw [hsame, hsame']
    exact hpainted.pixel?_eq
  · intro x y color hoff hon
    have hanswer := answer_paint_of_unknown (v := v) (x := x) (y := y) hoff hon now
    refine ⟨hanswer, ?_⟩
    simp only [answerAll, List.foldl_cons, List.foldl_nil, hanswer]
  · intro x y color hcell houtside
    apply answerAll_of_outside hratio hcell
    rintro px py old hold ⟨rfl, rfl⟩
    rw [hpainted.pixel?_eq] at hold
    split_ifs at hold with hin
    -- the quotients of a pixel are those of a cell of the window
    obtain ⟨hleft, hright⟩ := ediv_lt_of_lt hratio (p := px) (n := v.width) (by omega)
    obtain ⟨htop, hbottom⟩ := ediv_lt_of_lt hratio (p := py) (n := v.height) (by omega)
    omega
  · intro x y color x' y' color' hcell hcell' hne
    exact answerAll_comm hratio hcell hcell' hne now

/-- Cells painted before and after a clearing, painted over, painted in an unknown colour
and painted beside the window on either side. -/
theorem last_painting_wins_at_scale_three :
    let v : Viewport := ⟨3, 4, 2⟩
    let requests : List Request := [.paint 1 0 1, .clear, .paint 2 1 1, .paint (-1) 0 1,
      .paint 3 1 1, .paint 3 1 7, .paint 4 0 1, .paint 2 1 0]
    let now := v.answerAll (Surface.blank 12 6) requests
    now.pixel? 3 0 = some false ∧ now.pixel? 9 3 = some true ∧ now.pixel? 8 3 = some false ∧
      now.pixel? 0 0 = some false ∧ now.pixel? 12 0 = none ∧
      v.answer now (.paint 3 1 7) = .error (.unknownColor 7) ∧
      v.answerAll now [.paint (-1) 0 1] = now := by
  intro v requests now
  have hopened : v.opened = .ok (Surface.blank 12 6) := by decide +kernel
  have hroom : ∀ r ∈ requests, r.HasRoom v := by decide
  obtain ⟨⟨hwidth, hheight, -⟩, hpixel, hunknown, hbeside, -⟩ :=
    last_painting_wins (v := v) (by decide) (by decide) (by decide) (.inl hopened) hroom
  have hcell : ∀ px py : Nat, px < 12 ∧ py < 6 → now.pixel? px py =
      some ((lastColor? (px / v.ratio) (py / v.ratio) requests).getD false) := by
    intro px py hin
    exact (hpixel px py).trans (if_pos (by rw [hwidth, hheight]; exact hin))
  refine ⟨hcell 3 0 (by decide), hcell 9 3 (by decide), hcell 8 3 (by decide),
    hcell 0 0 (by decide), (hpixel 12 0).trans (if_neg ?_),
    (hunknown 3 1 7 (by decide) (by decide)).1,
    hbeside (-1) 0 1 (by decide) (by decide)⟩
  rw [hwidth]
  decide

end Viewport
end ChipEight
