import ChipEight.Proofs.Frame
import Mathlib.Tactic.SplitIfs

/-!
# Drawing

A sprite is drawn in one step, row by row as a whole. Here it is painted pixel by pixel,
with each row and the sprite itself broken off at the edge of the display and with a mark
that stays once a pixel has been switched off. Both come to the same, and what they come to
is told pixel by pixel from the registers, the index and the memory.
-/

namespace ChipEight

namespace Display

def toggle (d : Display) (x y : Nat) : Display :=
  if h : y < 32 then d.set y (d[y] ^^^ BitVec.twoPow 64 (63 - x)) else d

theorem getMsbD_twoPow {x px : Nat} (hx : x < 64) (hpx : px < 64) :
    (BitVec.twoPow 64 (63 - x)).getMsbD px = decide (px = x) := by
  rw [BitVec.getMsbD_eq_getLsbD, BitVec.getLsbD_twoPow]
  simp only [hpx, decide_true, Bool.true_and]
  rw [Bool.eq_iff_iff]
  simp only [Bool.and_eq_true, decide_eq_true_eq]
  omega

theorem isLit_toggle (d : Display) {x y : Nat} (hx : x < 64) (hy : y < 32) {px py : Nat}
    (hpx : px < 64) :
    (d.toggle x y).isLit px py = (d.isLit px py ^^ decide (px = x ∧ py = y)) := by
  unfold isLit toggle
  rw [dif_pos hy]
  by_cases hpy : py < 32
  · by_cases hsame : y = py
    · subst hsame
      simp [hy, BitVec.getMsbD_xor, getMsbD_twoPow hx hpx]
    · have hne : py ≠ y := fun h => hsame h.symm
      simp [hpy, hsame, hne]
  · have hne : py ≠ y := by omega
    simp [hpy, hne]

end Display

def Byte.pixels (b : Byte) : List Bool := List.ofFn fun k : Fin 8 => b.getMsbD k

theorem Byte.getD_pixels (b : Byte) (k : Nat) : b.pixels.getD k false = b.getMsbD k := by
  rw [pixels, List.getD_eq_getElem?_getD, List.getElem?_ofFn]
  split_ifs with hk
  · rfl
  · exact (BitVec.getMsbD_of_ge _ _ (Nat.le_of_not_lt hk)).symm

/-- A display in the middle of being drawn on, and whether a pixel has been switched off. -/
structure Painting where
  display : Display
  hit : Bool

namespace Painting

/-- One pixel of a sprite: if it is set, the display's pixel is switched over. -/
def touch (p : Painting) (bit : Bool) (x y : Nat) : Painting :=
  if bit then ⟨p.display.toggle x y, p.hit || p.display.isLit x y⟩ else p

/-- A row of pixels from a column on, up to the right edge. -/
def paintRow (y : Nat) : Nat → List Bool → Painting → Painting
  | _, [], p => p
  | x, bit :: bits, p => if 64 ≤ x then p else paintRow y (x + 1) bits (p.touch bit x y)

/-- The rows of a sprite from a row on, up to the bottom edge. -/
def paintRows (x : Nat) : Nat → List Byte → Painting → Painting
  | _, [], p => p
  | y, b :: rows, p =>
    if 32 ≤ y then p else paintRows x (y + 1) rows (paintRow y x (Byte.pixels b) p)

def sets (x : Nat) (bits : List Bool) (px : Nat) : Bool :=
  decide (x ≤ px) && bits.getD (px - x) false

theorem sets_nil (x px : Nat) : sets x [] px = false := by
  simp [sets]

theorem sets_of_lt {x px : Nat} (h : px < x) (bits : List Bool) : sets x bits px = false := by
  simp [sets, Nat.not_le.mpr h]

theorem le_of_sets {x px : Nat} {bits : List Bool} (h : sets x bits px = true) : x ≤ px :=
  of_decide_eq_true (Bool.and_elim_left h)

theorem sets_cons (x : Nat) (bit : Bool) (bits : List Bool) (px : Nat) :
    sets x (bit :: bits) px = ((decide (px = x) && bit) || sets (x + 1) bits px) := by
  rcases Nat.lt_trichotomy px x with hlt | rfl | hgt
  · have hne : px ≠ x := Nat.ne_of_lt hlt
    rw [sets_of_lt hlt, sets_of_lt (Nat.lt_succ_of_lt hlt), decide_eq_false hne]
    rfl
  · rw [sets_of_lt (Nat.lt_succ_self px)]
    simp [sets]
  · have hne : px ≠ x := Nat.ne_of_gt hgt
    have hsub : px - x = (px - (x + 1)) + 1 := by omega
    simp [sets, hne, hsub, Nat.le_of_lt hgt, Nat.succ_le_of_lt hgt]

theorem exists_sets_cons {x : Nat} (hx : x < 64) (bit : Bool) (bits : List Bool)
    (P : Nat → Prop) :
    (∃ px < 64, sets x (bit :: bits) px = true ∧ P px) ↔
      (bit = true ∧ P x) ∨ ∃ px < 64, sets (x + 1) bits px = true ∧ P px := by
  simp only [sets_cons, Bool.or_eq_true, Bool.and_eq_true, decide_eq_true_eq]
  constructor
  · rintro ⟨px, hpx, ⟨rfl, hbit⟩ | hrest, hP⟩
    · exact Or.inl ⟨hbit, hP⟩
    · exact Or.inr ⟨px, hpx, hrest, hP⟩
  · rintro (⟨hbit, hP⟩ | ⟨px, hpx, hrest, hP⟩)
    · exact ⟨x, hx, Or.inl ⟨rfl, hbit⟩, hP⟩
    · exact ⟨px, hpx, Or.inr hrest, hP⟩

theorem isLit_touch (p : Painting) (bit : Bool) {x y : Nat} (hx : x < 64) (hy : y < 32)
    {px : Nat} (hpx : px < 64) (py : Nat) :
    (p.touch bit x y).display.isLit px py =
      (p.display.isLit px py ^^ (bit && decide (px = x ∧ py = y))) := by
  cases bit with
  | false => simp [touch]
  | true => simp [touch, Display.isLit_toggle p.display hx hy hpx]

theorem hit_touch (p : Painting) (bit : Bool) (x y : Nat) :
    (p.touch bit x y).hit = true ↔
      p.hit = true ∨ bit = true ∧ p.display.isLit x y = true := by
  cases bit <;> simp [touch]

variable {y : Nat}

theorem isLit_paintRow (hy : y < 32) (x : Nat) (bits : List Bool) (p : Painting) {px : Nat}
    (hpx : px < 64) (py : Nat) :
    (paintRow y x bits p).display.isLit px py =
      (p.display.isLit px py ^^ (decide (py = y) && sets x bits px)) := by
  induction bits generalizing x p with
  | nil => simp [paintRow, sets_nil]
  | cons bit bits ih =>
    rw [paintRow]
    by_cases hedge : 64 ≤ x
    · rw [if_pos hedge, sets_of_lt (Nat.lt_of_lt_of_le hpx hedge)]
      simp
    · have hx : x < 64 := Nat.lt_of_not_le hedge
      rw [if_neg hedge, ih, isLit_touch p bit hx hy hpx, sets_cons]
      by_cases hsame : px = x
      · rw [hsame, sets_of_lt (Nat.lt_succ_self x)]
        simp [Bool.and_comm]
      · simp [hsame]

theorem hit_paintRow (hy : y < 32) (x : Nat) (bits : List Bool) (p : Painting) :
    (paintRow y x bits p).hit = true ↔
      p.hit = true ∨ ∃ px < 64, sets x bits px = true ∧ p.display.isLit px y = true := by
  induction bits generalizing x p with
  | nil => simp [paintRow, sets_nil]
  | cons bit bits ih =>
    rw [paintRow]
    by_cases hedge : 64 ≤ x
    · rw [if_pos hedge]
      refine ⟨Or.inl, ?_⟩
      rintro (hhit | ⟨px, hpx, hset, _⟩)
      · exact hhit
      · exact absurd (hedge.trans (le_of_sets hset)) (Nat.not_le.mpr hpx)
    · have hx : x < 64 := Nat.lt_of_not_le hedge
      rw [if_neg hedge, ih, hit_touch, exists_sets_cons hx, or_assoc]
      -- what comes further right has not been touched yet
      have hrest : ∀ px < 64, sets (x + 1) bits px = true →
          (p.touch bit x y).display.isLit px y = p.display.isLit px y := by
        intro px hpx hset
        have hne : px ≠ x := Nat.ne_of_gt (le_of_sets hset)
        simp [isLit_touch p bit hx hy hpx, hne]
      refine or_congr_right (or_congr_right (exists_congr fun px => ?_))
      refine and_congr_right fun hpx => and_congr_right fun hset => ?_
      rw [hrest px hpx hset]

end Painting

namespace Sprite

theorem covers_nil (x y px py : Nat) : covers ⟨x, y, []⟩ px py = false := by
  simp [covers]

theorem covers_of_lt {s : Sprite} {py : Nat} (h : py < s.y) (px : Nat) :
    s.covers px py = false := by
  simp [covers, Nat.not_le.mpr h]

theorem le_of_covers {s : Sprite} {px py : Nat} (h : s.covers px py = true) : s.y ≤ py := by
  by_contra hlt
  rw [covers_of_lt (Nat.lt_of_not_le hlt)] at h
  cases h

theorem covers_cons (x y : Nat) (b : Byte) (rows : List Byte) (px py : Nat) :
    covers ⟨x, y, b :: rows⟩ px py =
      ((decide (py = y) && Painting.sets x b.pixels px) || covers ⟨x, y + 1, rows⟩ px py) := by
  rw [Painting.sets, Byte.getD_pixels]
  rcases Nat.lt_trichotomy py y with hlt | rfl | hgt
  · have hne : py ≠ y := Nat.ne_of_lt hlt
    rw [covers_of_lt (s := ⟨x, y, b :: rows⟩) hlt,
      covers_of_lt (s := ⟨x, y + 1, rows⟩) (Nat.lt_succ_of_lt hlt), decide_eq_false hne]
    rfl
  · rw [covers_of_lt (s := ⟨x, py + 1, rows⟩) (Nat.lt_succ_self py)]
    by_cases hx : x ≤ px <;> simp [covers, hx]
  · have hne : py ≠ y := Nat.ne_of_gt hgt
    have hsub : py - y = (py - (y + 1)) + 1 := by omega
    simp [covers, hne, hsub, Nat.le_of_lt hgt, Nat.succ_le_of_lt hgt]

end Sprite

namespace Painting

/-- What the rows of a sprite cover is switched over, and nothing else. -/
theorem isLit_paintRows (x y : Nat) (rows : List Byte) (p : Painting) {px py : Nat}
    (hpx : px < 64) (hpy : py < 32) :
    (paintRows x y rows p).display.isLit px py =
      (p.display.isLit px py ^^ Sprite.covers ⟨x, y, rows⟩ px py) := by
  induction rows generalizing y p with
  | nil => simp [paintRows, Sprite.covers_nil]
  | cons b rows ih =>
    rw [paintRows]
    by_cases hedge : 32 ≤ y
    · rw [if_pos hedge, Sprite.covers_of_lt (Nat.lt_of_lt_of_le hpy hedge), Bool.xor_false]
    · have hy : y < 32 := Nat.lt_of_not_le hedge
      rw [if_neg hedge, ih, isLit_paintRow hy x b.pixels p hpx, Sprite.covers_cons]
      by_cases hsame : py = y
      · rw [hsame, Sprite.covers_of_lt (Nat.lt_succ_self y)]
        simp
      · simp [hsame]

/-- After the rows of a sprite, a pixel has been switched off if one had been before, or if
a pixel that they cover was on. -/
theorem hit_paintRows (x y : Nat) (rows : List Byte) (p : Painting) :
    (paintRows x y rows p).hit = true ↔
      p.hit = true ∨ ∃ px py, px < 64 ∧ py < 32 ∧ p.display.isLit px py = true ∧
        Sprite.covers ⟨x, y, rows⟩ px py = true := by
  induction rows generalizing y p with
  | nil => simp [paintRows, Sprite.covers_nil]
  | cons b rows ih =>
    rw [paintRows]
    by_cases hedge : 32 ≤ y
    · rw [if_pos hedge]
      refine ⟨Or.inl, ?_⟩
      rintro (hhit | ⟨px, py, _, hpy, _, hcovers⟩)
      · exact hhit
      · exact absurd (hedge.trans (Sprite.le_of_covers hcovers)) (Nat.not_le.mpr hpy)
    · have hy : y < 32 := Nat.lt_of_not_le hedge
      rw [if_neg hedge, ih, hit_paintRow hy, or_assoc]
      refine or_congr_right ?_
      simp only [Sprite.covers_cons, Bool.or_eq_true, Bool.and_eq_true, decide_eq_true_eq]
      -- what comes further down has not been touched yet
      have hrest : ∀ px py, px < 64 → Sprite.covers ⟨x, y + 1, rows⟩ px py = true →
          (paintRow y x b.pixels p).display.isLit px py = p.display.isLit px py := by
        intro px py hpx hcovers
        have hne : py ≠ y := Nat.ne_of_gt (Sprite.le_of_covers hcovers)
        simp [isLit_paintRow hy x b.pixels p hpx, hne]
      constructor
      · rintro (⟨px, hpx, hset, hlit⟩ | ⟨px, py, hpx, hpy, hlit, hcovers⟩)
        · exact ⟨px, y, hpx, hy, hlit, Or.inl ⟨rfl, hset⟩⟩
        · rw [hrest px py hpx hcovers] at hlit
          exact ⟨px, py, hpx, hpy, hlit, Or.inr hcovers⟩
      · rintro ⟨px, py, hpx, hpy, hlit, ⟨rfl, hset⟩ | hcovers⟩
        · exact Or.inl ⟨px, hpx, hset, hlit⟩
        · rw [← hrest px py hpx hcovers] at hlit
          exact Or.inr ⟨px, py, hpx, hpy, hlit, hcovers⟩

/-- Painting pixel by pixel comes to drawing all at once. -/
theorem paintRows_eq (s : Sprite) (d : Display) :
    paintRows s.x s.y s.rows ⟨d, false⟩ = ⟨d.draw s, d.collides s⟩ := by
  have hdisplay : (paintRows s.x s.y s.rows ⟨d, false⟩).display = d.draw s := by
    apply Machine.display_ext
    intro px py
    rw [isLit_paintRows s.x s.y s.rows _ px.isLt py.isLt, d.isLit_draw s _ _ px.isLt py.isLt]
  have hhit : (paintRows s.x s.y s.rows ⟨d, false⟩).hit = d.collides s := by
    rw [Bool.eq_iff_iff, hit_paintRows, d.collides_iff]
    simp
  rw [← hdisplay, ← hhit]

end Painting

namespace Machine

/-- Whether the sprite of a draw instruction has a pixel set in a place: the registers hold
its left column and its top row, and the index its first byte. -/
def spriteBit (m : Machine) (x y : Register) (rows px py : Nat) : Bool :=
  let column := (m.register x).toNat
  let row := (m.register y).toNat
  decide ((column ≤ px ∧ px < column + 8) ∧ row ≤ py ∧ py < row + rows) &&
    (m.memory.read ((m.index + (py - row : Nat)) % 4096).toNat).getLsbD (7 - (px - column))

theorem getElem?_rows_sprite (m : Machine) (x y : Register) (rows k : Nat) :
    (m.sprite x y rows).rows[k]? =
      if k < rows then some (m.memory.read ((m.index + k) % 4096).toNat) else none := by
  rw [sprite, Memory.readBlock, List.getElem?_map]
  split_ifs with hk
  · rw [List.getElem?_range hk, Option.map_some, read_base_add]
  · rw [List.getElem?_eq_none (by simpa using hk), Option.map_none]

theorem covers_sprite (m : Machine) (x y : Register) (rows : Nat) :
    (m.sprite x y rows).covers = m.spriteBit x y rows := by
  funext px py
  have hcolumn : (m.sprite x y rows).x = (m.register x).toNat := rfl
  have hrow : (m.sprite x y rows).y = (m.register y).toNat := rfl
  rw [Sprite.covers, hcolumn, hrow, getElem?_rows_sprite, Bool.eq_iff_iff, spriteBit]
  simp only [Bool.and_eq_true, decide_eq_true_eq]
  split_ifs with hcorner hrows
  · simp only [BitVec.getMsbD_eq_getLsbD, Bool.and_eq_true, decide_eq_true_eq]
    refine and_congr_left fun _ => ?_
    omega
  · simp only [false_iff]
    omega
  · simp only [false_iff]
    omega

section Draw

variable (m : Machine) {word : Int} {x y : Register} {n : Fin 16}

theorem executeWord_draw (h : Instruction.ofInt? word = some (.draw x y n)) :
    m.executeWord word = { m.setFlag (m.display.collides (m.sprite x y n)) with
      display := m.display.draw (m.sprite x y n), drawn := true
      pc := Word.address (m.pc + 2), operand := word } := by
  rw [executeWord_eq, h]
  rfl

theorem display_executeWord_draw (h : Instruction.ofInt? word = some (.draw x y n)) :
    (m.executeWord word).display = m.display.draw (m.sprite x y n) :=
  congrArg display (m.executeWord_draw h)

theorem flag_executeWord_draw (h : Instruction.ofInt? word = some (.draw x y n)) :
    (m.executeWord word).register flagRegister =
      if m.display.collides (m.sprite x y n) then 1 else 0 :=
  (congrArg (register · flagRegister) (m.executeWord_draw h)).trans (m.flag_setFlag _)

end Draw

/-- A pixel is on after a draw instruction if it was on or the sprite has it set, and not
both. The flag register tells whether it was both anywhere on the display. What the sprite
has set past the right or the bottom edge does not show. Besides, the display counts as
drawn on and the program counter moves on; nothing else changes. Painting the sprite pixel by
pixel leads to the same display and the same flag. -/
theorem draw_switches_over (m : Machine) {word : Int} {x y : Register} {n : Fin 16}
    (h : Instruction.ofInt? word = some (.draw x y n)) :
    let after := m.executeWord word
    let bit := m.spriteBit x y n
    let collision := ∃ px py, px < 64 ∧ py < 32 ∧ m.display.isLit px py = true ∧
      bit px py = true
    let painted := Painting.paintRows (m.register x).toNat (m.register y).toNat
      (m.memory.readBlock m.base n) ⟨m.display, false⟩
    (∀ px py, px < 64 → py < 32 →
      after.display.isLit px py = (m.display.isLit px py ^^ bit px py)) ∧
    (collision → after.register flagRegister = 1) ∧
    (¬collision → after.register flagRegister = 0) ∧
    after.pc.toNat = (m.pc.toNat + 2) % 4096 ∧
    after = { m.setRegister flagRegister (after.register flagRegister) with
      display := after.display, drawn := true, pc := after.pc, operand := word } ∧
    after.display = painted.display ∧
    after.register flagRegister = if painted.hit then 1 else 0 := by
  intro after bit collision painted
  have hafter := m.executeWord_draw h
  have hdisplay := m.display_executeWord_draw h
  have hflag := m.flag_executeWord_draw h
  have hpc : after.pc = Word.address (m.pc + 2) := congrArg pc hafter
  have hpainted : painted =
      ⟨m.display.draw (m.sprite x y n), m.display.collides (m.sprite x y n)⟩ :=
    Painting.paintRows_eq (m.sprite x y n) m.display
  have hcollision : m.display.collides (m.sprite x y n) = true ↔ collision := by
    simp only [Display.collides_iff, covers_sprite]
    rfl
  refine ⟨?_, ?_, ?_, ?_, ?_, ?_, ?_⟩
  · intro px py hpx hpy
    rw [hdisplay, Display.isLit_draw _ _ _ _ hpx hpy, covers_sprite]
  · intro hhit
    rw [hflag, if_pos (hcollision.mpr hhit)]
  · intro hmiss
    rw [hflag, if_neg (mt hcollision.mp hmiss)]
  · rw [hpc]
    exact m.pc_wrap_advance
  · rw [hflag, hdisplay, hpc]
    exact hafter
  · rw [hdisplay, hpainted]
  · rw [hflag, hpainted]

/-- A sprite whose column is read from the flag register and whose bytes go on at the start
of memory, drawn in the lower right corner where it has been drawn before. -/
theorem draw_switches_over_in_corner :
    let m := [0x6F3E, 0x611E, 0xAFFF, 0xDF1F, 0x6F3E].foldl executeWord
      (initial ⟨.int 600, .int 1, .absent, ⟨[7]⟩⟩)
    let after := m.executeWord 0xDF12
    Instruction.ofInt? 0xDF12 = some (.draw 0xF 1 2) ∧ m.display.isLit 63 31 = true ∧
      after.display.isLit 63 31 = false ∧ after.display.isLit 0 31 = false ∧
      after.register flagRegister = 1 ∧ after.pc.toNat = 0x20C := by
  intro m after
  have hword : Instruction.ofInt? 0xDF12 = some (.draw 0xF 1 2) := by decide
  have hlit : m.display.isLit 63 31 = true := by decide +kernel
  have hleft : m.display.isLit 0 31 = false := by decide +kernel
  have hset : m.spriteBit 0xF 1 2 63 31 = true := by decide +kernel
  have hclear : m.spriteBit 0xF 1 2 0 31 = false := by decide +kernel
  have hcounter : m.pc.toNat = 0x20A := by decide +kernel
  obtain ⟨hpixel, hhit, _, hpc, _⟩ := m.draw_switches_over hword
  refine ⟨hword, hlit, ?_, ?_, ?_, ?_⟩
  · rw [hpixel 63 31 (by decide) (by decide), hlit]
    exact congrArg (Bool.xor true) hset
  · rw [hpixel 0 31 (by decide) (by decide), hleft]
    exact hclear
  · exact hhit ⟨63, 31, by decide, by decide, hlit, hset⟩
  · rw [hpc, hcounter]

end Machine
end ChipEight
