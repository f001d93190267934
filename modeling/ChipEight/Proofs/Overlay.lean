import ChipEight.Proofs.Action
import ChipEight.Proofs.Coding
import ChipEight.Proofs.Drawing
import Mathlib.Data.List.Perm.Basic

/-!
# Sprites laid over each other

Drawing switches pixels over, so it does not matter in which order sprites are drawn, and
the same sprite drawn twice is as good as not drawn. A program draws a sprite by pointing at
its bytes and naming the registers of its place; as long as these are not the flag register,
what it draws leaves the sprites that are still to come as they are.
-/

namespace ChipEight

namespace Display

theorem draw_comm (d : Display) (s t : Sprite) : (d.draw s).draw t = (d.draw t).draw s := by
  apply Machine.display_ext
  intro x y
  simp only [isLit_draw _ _ _ _ x.isLt y.isLt]
  exact Bool.xor_right_comm _ _ _

theorem draw_draw (d : Display) (s : Sprite) : (d.draw s).draw s = d := by
  apply Machine.display_ext
  intro x y
  simp only [isLit_draw _ _ _ _ x.isLt y.isLt, Bool.xor_assoc, Bool.xor_self, Bool.xor_false]

/-- A sprite drawn again switches off what it has switched on. -/
theorem collides_draw_iff (d : Display) (s : Sprite) :
    (d.draw s).collides s = true ↔
      ∃ x y, x < 64 ∧ y < 32 ∧ d.isLit x y = false ∧ s.covers x y = true := by
  rw [collides_iff]
  refine exists_congr fun x => exists_congr fun y => ?_
  refine and_congr_right fun hx => and_congr_right fun hy => and_congr_left fun hcovers => ?_
  rw [isLit_draw d s x y hx hy, hcovers, Bool.xor_true, Bool.not_eq_true']

end Display

/-- A sprite as a program draws it: the address of its bytes, the registers of its place, and
the number of its rows. -/
structure Stamp where
  address : Fin 4096
  x : Register
  y : Register
  rows : Fin 16
  x_ne : x ≠ flagRegister
  y_ne : y ≠ flagRegister

namespace Stamp

def pointing (s : Stamp) : Instruction := .loadIndex (BitVec.ofNat 16 s.address)

def drawing (s : Stamp) : Instruction := .draw s.x s.y s.rows

def operations (s : Stamp) : List Operation :=
  [.execute s.pointing.encode.toNat, .execute s.drawing.encode.toNat]

def sprite (s : Stamp) (m : Machine) : Sprite :=
  Machine.sprite { m with index := s.address } s.x s.y s.rows

theorem ofInt?_pointing (s : Stamp) :
    Instruction.ofInt? s.pointing.encode.toNat = some s.pointing := by
  apply Instruction.ofInt?_encode
  have hlt := s.address.isLt
  change (BitVec.ofNat 16 s.address).toNat < 4096
  rw [BitVec.toNat_ofNat]
  omega

theorem ofInt?_drawing (s : Stamp) :
    Instruction.ofInt? s.drawing.encode.toNat = some (.draw s.x s.y s.rows) :=
  Instruction.ofInt?_encode trivial

end Stamp

namespace Machine

/-- Two machines that have the same sprites to draw: at most the flag register tells their
registers and their memories apart. -/
structure SameSprites (m n : Machine) : Prop where
  memory_eq : n.memory = m.memory
  register_eq : ∀ x, x ≠ flagRegister → n.register x = m.register x

namespace SameSprites

variable {m n o : Machine}

theorem trans (h : SameSprites m n) (h' : SameSprites n o) : SameSprites m o where
  memory_eq := h'.memory_eq.trans h.memory_eq
  register_eq x hx := (h'.register_eq x hx).trans (h.register_eq x hx)

theorem sprite_eq (h : SameSprites m n) (hindex : n.index = m.index) {x y : Register}
    (hx : x ≠ flagRegister) (hy : y ≠ flagRegister) (rows : Nat) :
    n.sprite x y rows = m.sprite x y rows := by
  simp only [sprite, base, hindex, h.memory_eq, h.register_eq x hx, h.register_eq y hy]

theorem stamp_eq (h : SameSprites m n) (s : Stamp) : s.sprite n = s.sprite m := by
  have hpointed : SameSprites { m with index := s.address } { n with index := s.address } :=
    ⟨h.memory_eq, h.register_eq⟩
  exact hpointed.sprite_eq rfl s.x_ne s.y_ne s.rows

end SameSprites

variable (m : Machine)

theorem sameSprites_draw {word : Int} {x y : Register} {n : Fin 16}
    (h : Instruction.ofInt? word = some (.draw x y n)) :
    SameSprites m (m.executeWord word) := by
  rw [m.executeWord_draw h]
  exact ⟨rfl, fun _ hz => m.register_setFlag _ hz⟩

theorem executeWord_pointing (s : Stamp) : m.executeWord s.pointing.encode.toNat =
    { m with index := s.address, pc := Word.address (m.pc + 2)
             operand := s.pointing.encode.toNat } := by
  have hindex : ((BitVec.ofNat 16 s.address : Word).toNat : Int) = s.address := by
    have hlt := s.address.isLt
    rw [BitVec.toNat_ofNat]
    omega
  rw [executeWord_eq, s.ofInt?_pointing, ← hindex]
  rfl

def stamp (s : Stamp) : Machine :=
  (m.executeWord s.pointing.encode.toNat).executeWord s.drawing.encode.toNat

theorem sameSprites_stamp (s : Stamp) : SameSprites m (m.stamp s) := by
  apply SameSprites.trans _ (sameSprites_draw _ s.ofInt?_drawing)
  rw [executeWord_pointing]
  exact ⟨rfl, fun _ _ => rfl⟩

theorem display_stamp (s : Stamp) :
    (m.stamp s).display = m.display.draw (s.sprite m) := by
  rw [stamp, display_executeWord_draw _ s.ofInt?_drawing, executeWord_pointing]
  rfl

theorem flag_stamp (s : Stamp) : (m.stamp s).register flagRegister =
    if m.display.collides (s.sprite m) then 1 else 0 := by
  rw [stamp, flag_executeWord_draw _ s.ofInt?_drawing, executeWord_pointing]
  rfl

theorem after_operations_append (threshold : Level) (s : Stamp) (ops : List Operation) :
    m.after threshold (s.operations ++ ops) = (m.stamp s).after threshold ops := rfl

/-- Sprites drawn one after the other are laid over the display as the machine would have
drawn them at first. -/
theorem display_after_stamps (threshold : Level) (stamps : List Stamp) :
    (m.after threshold (stamps.flatMap Stamp.operations)).display =
      stamps.foldl (fun d s => d.draw (s.sprite m)) m.display := by
  induction stamps generalizing m with
  | nil => rfl
  | cons s stamps ih =>
    have hsame := (m.sameSprites_stamp s).stamp_eq
    rw [List.flatMap_cons, after_operations_append, ih, display_stamp, List.foldl_cons]
    simp only [hsame]

/-- What drawing a sprite once and twice leaves of the display and in the flag register. -/
structure DrawnTwice (bit : Nat → Nat → Bool) (m once twice : Machine) : Prop where
  display_eq : twice.display = m.display
  flag_once : once.register flagRegister = 1 ↔
    ∃ px py, px < 64 ∧ py < 32 ∧ m.display.isLit px py = true ∧ bit px py = true
  flag_twice : twice.register flagRegister = 1 ↔
    ∃ px py, px < 64 ∧ py < 32 ∧ m.display.isLit px py = false ∧ bit px py = true
  flag_either : once.register flagRegister = 1 ∨ twice.register flagRegister = 1 ↔
    ∃ px py, px < 64 ∧ py < 32 ∧ bit px py = true

/-- The flag is set the first time or the second, since a pixel is on or off before. -/
theorem exists_isLit_or (d : Display) (bit : Nat → Nat → Bool) :
    (∃ px py, px < 64 ∧ py < 32 ∧ d.isLit px py = true ∧ bit px py = true) ∨
      (∃ px py, px < 64 ∧ py < 32 ∧ d.isLit px py = false ∧ bit px py = true) ↔
    ∃ px py, px < 64 ∧ py < 32 ∧ bit px py = true := by
  constructor
  · rintro (⟨px, py, hpx, hpy, _, hbit⟩ | ⟨px, py, hpx, hpy, _, hbit⟩) <;>
      exact ⟨px, py, hpx, hpy, hbit⟩
  · rintro ⟨px, py, hpx, hpy, hbit⟩
    cases hlit : d.isLit px py with
    | true => exact Or.inl ⟨px, py, hpx, hpy, hlit, hbit⟩
    | false => exact Or.inr ⟨px, py, hpx, hpy, hlit, hbit⟩

theorem flag_eq_one_iff (flag : Bool) : (if flag then 1 else 0 : Byte) = 1 ↔ flag = true := by
  cases flag <;> decide

theorem DrawnTwice.of_draw {m once twice : Machine} {s : Sprite}
    (honce : once.display = m.display.draw s) (htwice : twice.display = once.display.draw s)
    (hflag : once.register flagRegister = if m.display.collides s then 1 else 0)
    (hflag' : twice.register flagRegister = if once.display.collides s then 1 else 0) :
    DrawnTwice s.covers m once twice := by
  rw [honce] at htwice hflag'
  have hfirst := (flag_eq_one_iff _).trans (m.display.collides_iff s)
  have hsecond := (flag_eq_one_iff _).trans (m.display.collides_draw_iff s)
  rw [← hflag] at hfirst
  rw [← hflag'] at hsecond
  refine ⟨htwice.trans (m.display.draw_draw s), hfirst, hsecond, ?_⟩
  rw [hfirst, hsecond]
  exact exists_isLit_or m.display s.covers

theorem drawnTwice_stamp (s : Stamp) :
    DrawnTwice (spriteBit { m with index := s.address } s.x s.y s.rows) m (m.stamp s)
      ((m.stamp s).stamp s) := by
  have hsame := (m.sameSprites_stamp s).stamp_eq s
  have hdisplay := (m.stamp s).display_stamp s
  have hflag := (m.stamp s).flag_stamp s
  rw [hsame] at hdisplay hflag
  rw [← covers_sprite]
  exact DrawnTwice.of_draw (m.display_stamp s) hdisplay (m.flag_stamp s) hflag

theorem drawnTwice_draw {word : Int} {x y : Register} {n : Fin 16}
    (h : Instruction.ofInt? word = some (.draw x y n)) (hx : x ≠ flagRegister)
    (hy : y ≠ flagRegister) :
    DrawnTwice (m.spriteBit x y n) m (m.executeWord word)
      ((m.executeWord word).executeWord word) := by
  have hindex : (m.executeWord word).index = m.index := by
    rw [m.executeWord_draw h]
    rfl
  have hsame := (m.sameSprites_draw h).sprite_eq hindex hx hy n
  have hdisplay := (m.executeWord word).display_executeWord_draw h
  have hflag := (m.executeWord word).flag_executeWord_draw h
  rw [hsame] at hdisplay hflag
  rw [← covers_sprite]
  exact DrawnTwice.of_draw (m.display_executeWord_draw h) hdisplay (m.flag_executeWord_draw h)
    hflag

/-- Sprites drawn one after the other leave the same display in any order, and without two
equal ones among them. A sprite drawn a second time restores the display, and one of the two
flags is set if any pixel of the sprite is on the display at all. -/
theorem sprites_commute_and_cancel (m : Machine) (threshold : Level) :
    let shown := fun stamps : List Stamp =>
      (m.after threshold (stamps.flatMap Stamp.operations)).display
    (∀ stamps others, stamps.Perm others → shown stamps = shown others) ∧
    (∀ s before between rest,
      shown (before ++ s :: between ++ s :: rest) = shown (before ++ between ++ rest)) ∧
    (∀ s : Stamp,
      let once := m.after threshold s.operations
      DrawnTwice (spriteBit { m with index := s.address } s.x s.y s.rows) m once
        (once.after threshold s.operations)) ∧
    ∀ word x y n, Instruction.ofInt? word = some (.draw x y n) → x ≠ flagRegister →
      y ≠ flagRegister →
      let once := m.executeWord word
      DrawnTwice (m.spriteBit x y n) m once (once.executeWord word) := by
  intro shown
  have hshown (stamps : List Stamp) : shown stamps =
      stamps.foldl (fun d s => d.draw (s.sprite m)) m.display :=
    m.display_after_stamps threshold stamps
  have hcomm : RightCommutative fun (d : Display) (s : Stamp) => d.draw (s.sprite m) :=
    ⟨fun d s t => d.draw_comm (s.sprite m) (t.sprite m)⟩
  have hperm {stamps others : List Stamp} (h : stamps.Perm others) :
      shown stamps = shown others := by
    rw [hshown, hshown, h.foldl_eq]
  refine ⟨fun _ _ => hperm, ?_, m.drawnTwice_stamp, ?_⟩
  · intro s before between rest
    have hfront : (before ++ s :: between ++ s :: rest).Perm
        (s :: s :: (before ++ between ++ rest)) :=
      List.perm_middle.trans ((List.perm_middle.append_right rest).cons s)
    rw [hperm hfront, hshown, hshown, List.foldl_cons, List.foldl_cons, Display.draw_draw]
  · intro word x y n h hx hy
    exact m.drawnTwice_draw h hx hy

/-- Two sprites cut off at the right edge, one of which is at the bottom edge as well and is
drawn twice. -/
theorem sprites_commute_and_cancel_at_edge :
    let m := [0x603E, 0x611E].foldl executeWord (initial ⟨.int 600, .int 1, .absent, ⟨[7]⟩⟩)
    let a : Stamp := ⟨0, 0, 1, 5, by decide, by decide⟩
    let b : Stamp := ⟨0xFFF, 0, 2, 15, by decide, by decide⟩
    let shown := fun stamps : List Stamp =>
      (m.after .debug (stamps.flatMap Stamp.operations)).display
    let once := m.executeWord 0xD015
    [a, b].Perm [b, a] ∧ shown [a, b] = shown [b, a] ∧ shown [a, b, a] = shown [b] ∧
      (once.executeWord 0xD015).display = m.display ∧
      (once.executeWord 0xD015).register flagRegister = 1 := by
  intro m a b shown once
  obtain ⟨hperm, hcancel, _, htwice⟩ := m.sprites_commute_and_cancel .debug
  have hword : Instruction.ofInt? 0xD015 = some (.draw 0 1 5) := by decide
  have hdrawn := htwice 0xD015 0 1 5 hword (by decide) (by decide)
  have hswap : [a, b].Perm [b, a] := List.Perm.swap b a []
  refine ⟨hswap, hperm _ _ hswap, hcancel a [] [b] [], hdrawn.display_eq, ?_⟩
  exact hdrawn.flag_twice.mpr
    ⟨62, 30, by decide, by decide, by decide +kernel, by decide +kernel⟩

end Machine
end ChipEight
