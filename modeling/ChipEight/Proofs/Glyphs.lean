import ChipEight.Proofs.BlockTransfer
import ChipEight.Proofs.Likeness
import ChipEight.Proofs.Loading

/-!
# Digits and their glyphs

A number is shown by its decimal digits: these are written to memory, loaded into registers,
and each of them points the index at a glyph of the font. The glyph is there as long as
nothing was written over the font since the machine was made or reset.
-/

namespace ChipEight

namespace Memory

/-- The bytes from an address on, which after the last address go on at the first. -/
def span (a count : Nat) : Set (Fin 4096) := {c | ∃ k < count, (a + k) % 4096 = c.val}

def glyph (digit : Nat) : List Byte := (font.drop (glyphSize * digit)).take glyphSize

theorem lt_size_of_lt_length_font {a : Nat} (ha : a < font.length) : a < 4096 := by
  rw [length_font] at ha
  omega

theorem read_writeBlock_of_notMem_span (mem : Memory) {a : Nat} {bytes : List Byte}
    {c : Fin 4096} (hc : c ∉ span a bytes.length) :
    (mem.writeBlock a bytes).read c = mem.read c := by
  apply read_writeBlock_of_forall_ne
  intro k hk hplace
  rw [Nat.mod_eq_of_lt c.isLt] at hplace
  exact hc ⟨k, hk, hplace⟩

end Memory

namespace Machine

/-- The addresses that an action writes to, whatever it writes there. -/
def writes (m : Machine) : Action → Set (Fin 4096)
  | .execute (some (.instruction (.decimal _))) => Memory.span m.base 3
  | .execute (some (.instruction (.store x))) => Memory.span m.base (x.val + 1)
  | .execute (some (.store last)) => Memory.span m.base (min (last + 1).toNat 16)
  | .load bytes offset => Memory.span offset.toNat bytes.length
  | .adjust (.memory a bytes) => Memory.span a bytes.length
  | .reset => Set.univ
  | _ => ∅

theorem memory_afterBlock (m : Machine) (last : Int) :
    (m.afterBlock last).memory = m.memory := by
  unfold afterBlock
  split <;> rfl

/-- What an instruction or a call does not write to, it leaves as it is. -/
theorem read_carryOut_of_notMem_writes (m : Machine) {c : Option Call} {a : Fin 4096}
    (ha : a ∉ m.writes (.execute c)) : (m.carryOut c).memory.read a = m.memory.read a := by
  match c with
  | some (.instruction i) =>
    change (m.perform i).memory.read a = m.memory.read a
    rw [perform_memory]
    cases i with
    | decimal x => exact m.memory.read_writeBlock_of_notMem_span ha
    | store x =>
      apply m.memory.read_writeBlock_of_notMem_span
      rw [m.length_take_registers x]
      exact ha
    | _ => rfl
  | some (.store last) =>
    change ((m.storeRegisters (last + 1).toNat).afterBlock last).memory.read a = _
    rw [memory_afterBlock]
    apply m.memory.read_writeBlock_of_notMem_span
    rw [List.length_take, Vector.length_toList]
    exact ha
  | some (.load last) => exact congrArg (Memory.read · a) (memory_afterBlock _ last)
  | none | some (.compare _ _ _) | some (.drawRows _ _ _) | some (.pointAt _)
  | some (.waitFor _) | some (.randomInVain _) => rfl

theorem read_act_of_notMem_writes (m : Machine) {act : Action} {a : Fin 4096}
    (ha : a ∉ m.writes act) : (m.act act).memory.read a = m.memory.read a := by
  cases act with
  | execute c => exact m.read_carryOut_of_notMem_writes ha
  | tick => rw [Machine.act, tick_eq]
  | press k =>
    obtain ⟨registers, blocked, hpress⟩ := m.exists_press k
    rw [Machine.act, hpress]
  | reset => exact absurd (Set.mem_univ a) ha
  | load bytes offset => exact m.memory.read_writeBlock_of_notMem_span ha
  | adjust b =>
    cases b with
    | memory place bytes => exact m.memory.read_writeBlock_of_notMem_span ha
    | _ => rfl
  | note _ | trace _ | decrement | release _ | shown => rfl

/-- What lies below everything that a list of actions writes to is still there after it. -/
theorem read_actAll_of_below {m : Machine} {as : List Action} {limit : Nat}
    (h : Along (fun n act => ∀ c ∈ n.writes act, limit ≤ c.val) m as) {a : Fin 4096}
    (ha : a.val < limit) : (m.actAll as).memory.read a = m.memory.read a := by
  induction as generalizing m with
  | nil => rfl
  | cons act as ih =>
    have hnot : a ∉ m.writes act := fun hmem => Nat.not_le.mpr ha (h.1 a hmem)
    exact (ih h.2).trans (m.read_act_of_notMem_writes hnot)

/-- Whether the font is where it was put at first. -/
def FontIntact (m : Machine) : Prop :=
  ∀ a (ha : a < Memory.font.length), m.memory.read a = Memory.font[a]

/-- Whether nothing was written over the font since the machine was last reset. A new
machine is a machine after a reset. -/
def FontUntouched (m : Machine) : Prop :=
  ∃ (before : Machine) (threshold : Level) (ops : List Operation),
    m = before.reset.after threshold ops ∧
      Along (fun n act => ∀ c ∈ n.writes act, Memory.font.length ≤ c.val) before.reset
        (before.reset.history ops)

theorem fontIntact_reset (m : Machine) : m.reset.FontIntact := by
  intro a ha
  refine (Memory.read_initial (Memory.lt_size_of_lt_length_font ha)).trans ?_
  rw [List.getD_eq_getElem?_getD, List.getElem?_eq_getElem ha, Option.getD_some]

theorem FontUntouched.fontIntact {m : Machine} (h : m.FontUntouched) : m.FontIntact := by
  obtain ⟨before, threshold, ops, rfl, halong⟩ := h
  intro a ha
  have hkept := read_actAll_of_below halong (a := ⟨a, Memory.lt_size_of_lt_length_font ha⟩) ha
  rw [after_eq_actAll]
  exact hkept.trans (before.fontIntact_reset a ha)

/-- The glyph of a digit is found at five times the digit. -/
theorem FontIntact.readBlock_glyph {m : Machine} (h : m.FontIntact) {digit : Nat}
    (hdigit : digit < 16) : m.memory.readBlock (Memory.glyphSize * digit) Memory.glyphSize =
      Memory.glyph digit := by
  apply List.ext_getElem
  · simp only [Memory.length_readBlock, Memory.glyph, List.length_take, List.length_drop,
      Memory.length_font, Memory.glyphSize]
    omega
  · intro k hk _
    rw [Memory.length_readBlock, Memory.glyphSize] at hk
    simp only [Memory.readBlock, Memory.glyph, List.getElem_map, List.getElem_range,
      List.getElem_take, List.getElem_drop]
    apply h

section Digits

variable {m : Machine} {x : Register} {word next : Int}

theorem executeWord_decimal (h : Instruction.ofInt? word = some (.decimal x)) :
    m.executeWord word = { m with
      memory := m.memory.writeBlock m.base (decimalDigits (m.register x))
      pc := m.advance.wrap.pc
      operand := word } := by
  rw [executeWord_eq, h]
  rfl

theorem executeWord_glyph (h : Instruction.ofInt? word = some (.glyph x)) :
    m.executeWord word = { m with
      index := ((m.register x).toNat * Memory.glyphSize : Nat)
      pc := m.advance.wrap.pc
      operand := word } := by
  rw [executeWord_eq, h]
  rfl

theorem decimalDigits_eq (b : Byte) : ∃ h t o : Byte, decimalDigits b = [h, t, o] ∧
    (h.toNat ≤ 9 ∧ t.toNat ≤ 9 ∧ o.toNat ≤ 9) ∧
      100 * h.toNat + 10 * t.toNat + o.toNat = b.toNat := by
  have hb := b.isLt
  refine ⟨_, _, _, rfl, ?_⟩
  simp only [BitVec.toNat_ofNat]
  omega

theorem read_executeWord_decimal (h : Instruction.ofInt? word = some (.decimal x)) {k : Nat}
    {b : Byte} (hb : (decimalDigits (m.register x))[k]? = some b) :
    (m.executeWord word).memory.read ((m.index + k) % 4096).toNat = b := by
  obtain ⟨hk, rfl⟩ := List.getElem?_eq_some_iff.mp hb
  have hsize : (decimalDigits (m.register x)).length ≤ 4096 := Nat.le_add_right 3 4093
  rw [executeWord_decimal h]
  exact m.read_writeBlock_base hsize hk

theorem read_executeWord_decimal_of_ne (h : Instruction.ofInt? word = some (.decimal x))
    {a : Nat} (ha : a < 4096) (hout : ∀ k < 3, (a : Int) ≠ (m.index + (k : Nat)) % 4096) :
    (m.executeWord word).memory.read a = m.memory.read a := by
  have hblock : m.wordFootprint word = m.block 3 := by
    rw [wordFootprint, h]
    rfl
  exact read_executeWord_of_block hblock ha hout

theorem index_executeWord_glyph (h : Instruction.ofInt? word = some (.glyph x)) :
    (m.executeWord word).index = 5 * (m.register x).toNat := by
  rw [executeWord_glyph h]
  change (((m.register x).toNat * 5 : Nat) : Int) = _
  omega

theorem readBlock_executeWord_glyph (h : Instruction.ofInt? word = some (.glyph x))
    (hfont : m.FontIntact) (hdigit : (m.register x).toNat < 16) :
    (m.executeWord word).memory.readBlock (m.executeWord word).base 5 =
      Memory.glyph (m.register x).toNat := by
  have hbase : (m.executeWord word).base = Memory.glyphSize * (m.register x).toNat := by
    rw [base, index_executeWord_glyph h, Memory.glyphSize]
    omega
  have hmemory : (m.executeWord word).memory = m.memory := by rw [executeWord_glyph h]
  rw [hbase, hmemory]
  exact hfont.readBlock_glyph hdigit

theorem register_load_decimal (hword : Instruction.ofInt? word = some (.decimal x))
    (hnext : Instruction.ofInt? next = some (.load 2)) {d : Register} (hd : d ≤ 2) {b : Byte}
    (hb : (decimalDigits (m.register x))[d.val]? = some b) :
    ((m.executeWord word).executeWord next).register d = b := by
  have hindex : (m.executeWord word).index = m.index := by rw [executeWord_decimal hword]
  rw [register_executeWord_load hnext, if_pos hd, hindex]
  exact read_executeWord_decimal hword hb

theorem register_load_decimal_le (hword : Instruction.ofInt? word = some (.decimal x))
    (hnext : Instruction.ofInt? next = some (.load 2)) {d : Register} (hd : d ≤ 2) :
    (((m.executeWord word).executeWord next).register d).toNat ≤ 9 := by
  obtain ⟨h, t, o, hdigits, ⟨hh, ht, ho⟩, -⟩ := decimalDigits_eq (m.register x)
  have hregister := fun b => register_load_decimal (m := m) (b := b) hword hnext hd
  rw [hdigits] at hregister
  have hcases : ∀ d : Register, d ≤ 2 → d = 0 ∨ d = 1 ∨ d = 2 := by decide
  rcases hcases d hd with rfl | rfl | rfl
  · rwa [hregister h rfl]
  · rwa [hregister t rfl]
  · rwa [hregister o rfl]

theorem FontIntact.decimal (h : m.FontIntact)
    (hword : Instruction.ofInt? word = some (.decimal x))
    (haway : ∀ k < 3, Memory.font.length ≤ ((m.index + (k : Nat)) % 4096).toNat) :
    (m.executeWord word).FontIntact := by
  intro a ha
  refine Eq.trans ?_ (h a ha)
  apply read_executeWord_decimal_of_ne hword (Memory.lt_size_of_lt_length_font ha)
  intro k hk hplace
  have hfar := haway k hk
  omega

theorem FontIntact.load (h : m.FontIntact)
    (hword : Instruction.ofInt? word = some (.load x)) : (m.executeWord word).FontIntact := by
  intro a ha
  rw [executeWord_load hword]
  exact h a ha

end Digits

/-- The decimal digits of a register are written to memory and loaded into the first three
registers, also into the one they came from, and nothing else changes on the way. Each of
them then points the index at five times itself, and there lies its glyph: the font stays
where it is until something is written over it, and the digits are not if they are put
elsewhere. -/
theorem digits_find_their_glyphs (m : Machine) (x : Register) {bcd load : Int}
    (hbcd : Instruction.ofInt? bcd = some (.decimal x))
    (hload : Instruction.ofInt? load = some (.load 2)) :
    let address := fun k : Nat => ((m.index + k) % 4096).toNat
    let scored := m.executeWord bcd
    let loaded := scored.executeWord load
    (∃ h t o : Byte, (h.toNat ≤ 9 ∧ t.toNat ≤ 9 ∧ o.toNat ≤ 9) ∧
      100 * h.toNat + 10 * t.toNat + o.toNat = (m.register x).toNat ∧
      (scored.memory.read (address 0) = h ∧ scored.memory.read (address 1) = t ∧
        scored.memory.read (address 2) = o) ∧
      loaded.register 0 = h ∧ loaded.register 1 = t ∧ loaded.register 2 = o) ∧
    (scored = { m with memory := scored.memory, pc := scored.pc, operand := bcd } ∧
      ∀ a < 4096, (∀ k < 3, a ≠ address k) → scored.memory.read a = m.memory.read a) ∧
    (∀ (n : Machine) (d : Register), d ≤ 2 → n.register d = loaded.register d →
      ∀ word, Instruction.ofInt? word = some (.glyph d) →
      let shown := n.executeWord word
      shown.index = 5 * (loaded.register d).toNat ∧
        (n.FontIntact → shown.memory.readBlock shown.base 5 =
          Memory.glyph (loaded.register d).toNat)) ∧
    (∀ n : Machine, n.FontUntouched → n.FontIntact) ∧
    (m.FontIntact → (∀ k < 3, Memory.font.length ≤ address k) →
      scored.FontIntact ∧ loaded.FontIntact) := by
  intro address scored loaded
  refine ⟨?_, ⟨?_, ?_⟩, ?_, fun _ => FontUntouched.fontIntact, ?_⟩
  · obtain ⟨h, t, o, hdigits, hbounds, hvalue⟩ := decimalDigits_eq (m.register x)
    have hread := fun k b => read_executeWord_decimal (m := m) (k := k) (b := b) hbcd
    have hregister := fun d b hd => register_load_decimal (m := m) (d := d) (b := b) hbcd hload hd
    rw [hdigits] at hread hregister
    exact ⟨h, t, o, hbounds, hvalue, ⟨hread 0 h rfl, hread 1 t rfl, hread 2 o rfl⟩,
      hregister 0 h (by decide) rfl, hregister 1 t (by decide) rfl,
      hregister 2 o (by decide) rfl⟩
  · simp only [scored, executeWord_decimal hbcd]
  · intro a ha hout
    apply read_executeWord_decimal_of_ne hbcd ha
    intro k hk hplace
    apply hout k hk
    change a = ((m.index + (k : Nat)) % 4096).toNat
    rw [← hplace, Int.toNat_natCast]
  · intro n d hd hsame word hword shown
    have hdigit : (n.register d).toNat < 16 := by
      rw [hsame]
      exact Nat.lt_of_le_of_lt (register_load_decimal_le hbcd hload hd) (by decide)
    rw [← hsame]
    exact ⟨index_executeWord_glyph hword,
      fun hfont => readBlock_executeWord_glyph hword hfont hdigit⟩
  · intro hfont haway
    have hscored : scored.FontIntact := hfont.decimal hbcd haway
    exact ⟨hscored, hscored.load hload⟩

/-- The digits of 195 are written at 0x300 and loaded, one of them into the register that
held the number, where it finds its glyph. -/
theorem digits_find_their_glyphs_of_195 :
    let m := (initial ⟨.int 600, .int 1, .absent, ⟨[7]⟩⟩).reset.after .error
      [.execute 0x61C3, .execute 0xA300]
    let loaded := (m.executeWord 0xF133).executeWord 0xF265
    let shown := loaded.executeWord 0xF129
    loaded.register 0 = 1 ∧ loaded.register 1 = 9 ∧ loaded.register 2 = 5 ∧
      shown.index = 45 ∧ shown.memory.readBlock shown.base 5 = [0xF0, 0x90, 0xF0, 0x10, 0xF0] := by
  intro m loaded shown
  have huntouched : m.FontUntouched := by
    refine ⟨initial ⟨.int 600, .int 1, .absent, ⟨[7]⟩⟩, .error,
      [.execute 0x61C3, .execute 0xA300], rfl, ?_⟩
    exact ⟨fun _ h => h.elim, fun _ h => h.elim, fun _ h => h.elim, fun _ h => h.elim, trivial⟩
  have hindex : m.index = 0x300 := by decide +kernel
  have hregister : (m.register 1).toNat = 195 := by decide +kernel
  obtain ⟨⟨h, t, o, hbounds, hvalue, -, hh, ht, ho⟩, -, hshown, hfont, haway⟩ :=
    digits_find_their_glyphs m 1 (show Instruction.ofInt? 0xF133 = _ by decide)
      (show Instruction.ofInt? 0xF265 = _ by decide)
  rw [hregister] at hvalue
  have hdigits : h.toNat = 1 ∧ t.toNat = 9 ∧ o.toNat = 5 := by omega
  obtain rfl : h = 1 := BitVec.eq_of_toNat_eq hdigits.1
  obtain rfl : t = 9 := BitVec.eq_of_toNat_eq hdigits.2.1
  obtain rfl : o = 5 := BitVec.eq_of_toNat_eq hdigits.2.2
  have hnine : loaded.register 1 = 9 := ht
  obtain ⟨hindexed, hglyph⟩ := hshown loaded 1 (by decide) rfl 0xF129 (by decide)
  have hintact : loaded.FontIntact := by
    apply And.right (haway (hfont m huntouched) ?_)
    intro k hk
    change Memory.font.length ≤ ((m.index + (k : Nat)) % 4096).toNat
    rw [hindex, Memory.length_font]
    omega
  refine ⟨hh, ht, ho, hindexed.trans ?_, (hglyph hintact).trans ?_⟩
  · exact congrArg (fun b : Byte => 5 * (b.toNat : Int)) hnine
  · exact (congrArg (fun b : Byte => Memory.glyph b.toNat) hnine).trans (by decide)

end Machine
end ChipEight
