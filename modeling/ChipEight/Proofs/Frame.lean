import ChipEight.Proofs.Footprint
import Mathlib.Data.Set.Insert

/-!
# Frames

Besides its settings a machine consists of cells, and an instruction has a set of cells
that it may change. Each step that instructions are made of is framed once, and an
instruction is framed by the steps it is made of.
-/

namespace ChipEight

/-- A place in a machine that holds one value. -/
inductive Cell
  | pc
  | operand
  | index
  | register (x : Register)
  | memory (a : Fin 4096)
  | slot (k : Fin 16)
  | pointer
  | depth
  | delay
  | sound
  | counter
  | pixel (x : Fin 64) (y : Fin 32)
  | drawn
  | key (k : Key)
  | blocked
  | beeps
  | randomCount

def Cell.Value : Cell → Type
  | pc => Word
  | operand => Int
  | index => Int
  | register _ => Byte
  | memory _ => Byte
  | slot _ => Word
  | pointer => Fin 16
  | depth => Nat
  | delay => Byte
  | sound => Byte
  | counter => Nat
  | pixel _ _ => Bool
  | drawn => Bool
  | key _ => Bool
  | blocked => Option Int
  | beeps => Nat
  | randomCount => Nat

namespace Machine

def get (m : Machine) : (c : Cell) → c.Value
  | .pc => m.pc
  | .operand => m.operand
  | .index => m.index
  | .register x => m.register x
  | .memory a => m.memory[a]
  | .slot k => m.stack.slots.get k
  | .pointer => m.stack.pointer
  | .depth => m.stack.depth
  | .delay => m.timers.delay
  | .sound => m.timers.sound
  | .counter => m.timers.counter
  | .pixel x y => m.display.isLit x y
  | .drawn => m.drawn
  | .key k => m.isDown k
  | .blocked => m.blocked
  | .beeps => m.beeps
  | .randomCount => m.randomCount

/-- Two machines with the same settings that differ in nothing but some cells. -/
structure ChangesOnly (S : Set Cell) (m n : Machine) : Prop where
  settings_eq : n.settings = m.settings
  get_eq : ∀ c, c ∉ S → n.get c = m.get c

theorem display_ext {d e : Display}
    (h : ∀ (x : Fin 64) (y : Fin 32), d.isLit x y = e.isLit x y) : d = e := by
  apply Vector.ext
  intro y hy
  apply BitVec.eq_of_getMsbD_eq
  intro x hx
  simpa [Display.isLit, hy] using h ⟨x, hx⟩ ⟨y, hy⟩

theorem ChangesOnly.eq {m n : Machine} (h : ChangesOnly ∅ m n) : n = m := by
  have hget : ∀ c, n.get c = m.get c := fun c => h.get_eq c (Set.notMem_empty c)
  have hmemory : n.memory = m.memory :=
    Vector.ext fun a ha => hget (.memory ⟨a, ha⟩)
  have hregisters : n.registers = m.registers :=
    Vector.ext fun x hx => hget (.register ⟨x, hx⟩)
  have hslots : n.stack.slots = m.stack.slots :=
    Vector.ext fun k hk => hget (.slot ⟨k, hk⟩)
  have hkeys : n.keys = m.keys :=
    Vector.ext fun k hk => hget (.key ⟨k, hk⟩)
  have hdisplay : n.display = m.display :=
    display_ext fun x y => hget (.pixel x y)
  have hstack : n.stack = m.stack :=
    (CallStack.mk.injEq _ _ _ _ _ _).mpr ⟨hslots, hget .pointer, hget .depth⟩
  have htimers : n.timers = m.timers :=
    (Timers.mk.injEq _ _ _ _ _ _).mpr ⟨hget .delay, hget .sound, hget .counter⟩
  exact (Machine.mk.injEq _ _ _ _ _ _ _ _ _ _ _ _ _ _ _ _ _ _ _ _ _ _ _ _ _ _ _ _).mpr
    ⟨h.settings_eq, hmemory, hregisters, hget .index, hget .pc, hstack, htimers, hdisplay,
      hget .drawn, hkeys, hget .blocked, hget .operand, hget .beeps, hget .randomCount⟩

/-- As many bytes from the index on; past the last address they go on at the first. -/
def block (m : Machine) (count : Nat) : Set Cell :=
  {c | ∃ (a : Fin 4096) (k : Nat), c = .memory a ∧ k < count ∧
    (a.val : Int) = (m.index + k) % 4096}

/-- The part on the display of a rectangle that is eight pixels wide. -/
def rectangle (x y rows : Nat) : Set Cell :=
  {c | ∃ (column : Fin 64) (row : Fin 32), c = .pixel column row ∧
    (x ≤ column.val ∧ column.val < x + 8) ∧ y ≤ row.val ∧ row.val < y + rows}

/-- The cells that an instruction may change besides the program counter. -/
def footprint (m : Machine) : Instruction → Set Cell
  | .clear => {c | c = .drawn ∨ ∃ x y, c = .pixel x y}
  | .ret => {.pointer, .depth}
  | .call _ => {.slot m.stack.pointer, .pointer, .depth}
  | .loadByte x _ | .addByte x _ | .copy x _ | .or x _ | .and x _ | .xor x _
  | .readDelay x => {.register x}
  | .random x _ => {.register x, .randomCount}
  | .addReg x _ | .sub x _ | .subFrom x _ | .shiftRight x _ | .shiftLeft x _ =>
    {.register x, .register flagRegister}
  | .loadIndex _ | .addIndex _ | .glyph _ => {.index}
  | .draw x y rows =>
    {.register flagRegister, .drawn} ∪
      rectangle (m.register x).toNat (m.register y).toNat rows.val
  | .waitKey _ => {.blocked}
  | .setDelay _ => {.delay}
  | .setSound _ => {.sound}
  | .decimal _ => m.block 3
  | .store x => m.block (x.val + 1)
  | .load x => {c | ∃ y, y ≤ x ∧ c = .register y}
  | .sys _ | .jump _ | .jumpOffset _ | .skipEqByte _ _ | .skipNeByte _ _ | .skipEqReg _ _
  | .skipNeReg _ _ | .skipPressed _ | .skipReleased _ => ∅

/-- The cells that an operation word may change when it is executed, besides the program
counter and the noted word. A word that is no instruction changes no others. -/
def wordFootprint (m : Machine) (word : Int) : Set Cell :=
  match Instruction.ofInt? word with
  | some i => m.footprint i
  | none => ∅

namespace ChangesOnly

variable {S : Set Cell} {m n o : Machine}

theorem trans (h : ChangesOnly S m n) (h' : ChangesOnly S n o) : ChangesOnly S m o where
  settings_eq := h'.settings_eq.trans h.settings_eq
  get_eq c hc := (h'.get_eq c hc).trans (h.get_eq c hc)

theorem pc (hpc : Cell.pc ∈ S) (a : Word) : ChangesOnly S m { m with pc := a } := by
  refine ⟨rfl, ?_⟩
  intro c hc
  cases c with
  | pc => exact absurd hpc hc
  | _ => rfl

theorem advance (h : ChangesOnly S m n) (hpc : Cell.pc ∈ S) : ChangesOnly S m n.advance :=
  h.trans (pc hpc _)

theorem operand (hoperand : Cell.operand ∈ S) (word : Int) :
    ChangesOnly S m (m.withOperand word) := by
  refine ⟨rfl, ?_⟩
  intro c hc
  cases c with
  | operand => exact absurd hoperand hc
  | _ => rfl

theorem setRegister {x : Register} (hx : Cell.register x ∈ S) (b : Byte) :
    ChangesOnly S m (m.setRegister x b) := by
  refine ⟨rfl, ?_⟩
  intro c hc
  cases c with
  | register y =>
    have hne : x ≠ y := by
      rintro rfl
      exact hc hx
    exact (register_setRegister m x y b).trans (if_neg hne)
  | _ => rfl

theorem setFlag (h : ChangesOnly S m n) (hflag : Cell.register flagRegister ∈ S)
    (flag : Bool) : ChangesOnly S m (n.setFlag flag) :=
  h.trans (setRegister hflag _)

theorem randomCount (h : ChangesOnly S m n) (hcount : Cell.randomCount ∈ S) (count : Nat) :
    ChangesOnly S m { n with randomCount := count } := by
  apply h.trans
  refine ⟨rfl, ?_⟩
  intro c hc
  cases c with
  | randomCount => exact absurd hcount hc
  | _ => rfl

theorem index (hindex : Cell.index ∈ S) (address : Int) :
    ChangesOnly S m { m with index := address } := by
  refine ⟨rfl, ?_⟩
  intro c hc
  cases c with
  | index => exact absurd hindex hc
  | _ => rfl

theorem blocked (hblocked : Cell.blocked ∈ S) (slot : Option Int) :
    ChangesOnly S m { m with blocked := slot } := by
  refine ⟨rfl, ?_⟩
  intro c hc
  cases c with
  | blocked => exact absurd hblocked hc
  | _ => rfl

theorem delay (hdelay : Cell.delay ∈ S) (b : Byte) :
    ChangesOnly S m { m with timers := { m.timers with delay := b } } := by
  refine ⟨rfl, ?_⟩
  intro c hc
  cases c with
  | delay => exact absurd hdelay hc
  | _ => rfl

theorem sound (hsound : Cell.sound ∈ S) (b : Byte) :
    ChangesOnly S m { m with timers := { m.timers with sound := b } } := by
  refine ⟨rfl, ?_⟩
  intro c hc
  cases c with
  | sound => exact absurd hsound hc
  | _ => rfl

theorem pop (hpointer : Cell.pointer ∈ S) (hdepth : Cell.depth ∈ S) :
    ChangesOnly S m { m with stack := m.stack.pop } := by
  refine ⟨rfl, ?_⟩
  intro c hc
  cases c with
  | pointer => exact absurd hpointer hc
  | depth => exact absurd hdepth hc
  | _ => rfl

theorem push (hslot : Cell.slot m.stack.pointer ∈ S) (hpointer : Cell.pointer ∈ S)
    (hdepth : Cell.depth ∈ S) (a : Word) :
    ChangesOnly S m { m with stack := m.stack.push a } := by
  refine ⟨rfl, ?_⟩
  intro c hc
  cases c with
  | slot k =>
    have hne : m.stack.pointer.val ≠ k.val := by
      intro hk
      rw [Fin.ext hk] at hslot
      exact hc hslot
    exact Vector.getElem_set_ne m.stack.pointer.isLt k.isLt hne
  | pointer => exact absurd hpointer hc
  | depth => exact absurd hdepth hc
  | _ => rfl

theorem blank (hdrawn : Cell.drawn ∈ S) (hpixel : ∀ x y, Cell.pixel x y ∈ S) :
    ChangesOnly S m { m with display := Display.blank, drawn := true } := by
  refine ⟨rfl, ?_⟩
  intro c hc
  cases c with
  | pixel x y => exact absurd (hpixel x y) hc
  | drawn => exact absurd hdrawn hc
  | _ => rfl

end ChangesOnly

theorem pixel_mem_rectangle {s : Sprite} {x : Fin 64} {y : Fin 32}
    (h : s.covers x y = true) : Cell.pixel x y ∈ rectangle s.x s.y s.rows.length := by
  unfold Sprite.covers at h
  split at h
  · rename_i hle
    split at h
    · rename_i b hrow
      have hx : x.val - s.x < 8 := BitVec.lt_of_getMsbD h
      have hy : y.val - s.y < s.rows.length := (List.getElem?_eq_some_iff.mp hrow).1
      exact ⟨x, y, rfl, by omega, by omega⟩
    · cases h
  · cases h

theorem mem_block {m : Machine} {a : Fin 4096} {k count : Nat} (hk : k < count)
    (ha : (m.base + k) % 4096 = a.val % 4096) : Cell.memory a ∈ m.block count := by
  refine ⟨a, k, rfl, hk, ?_⟩
  simp only [base] at ha
  omega

namespace ChangesOnly

variable {S : Set Cell} {m n : Machine}

theorem draw (h : ChangesOnly S m n) (hdrawn : Cell.drawn ∈ S) {s : Sprite}
    (hS : rectangle s.x s.y s.rows.length ⊆ S) :
    ChangesOnly S m { n with display := n.display.draw s, drawn := true } := by
  apply h.trans
  refine ⟨rfl, ?_⟩
  intro c hc
  cases c with
  | pixel x y =>
    have hnot : s.covers x y = false := by
      rw [← Bool.not_eq_true]
      intro hcovers
      exact hc (hS (pixel_mem_rectangle hcovers))
    change (n.display.draw s).isLit x y = n.display.isLit x y
    rw [Display.isLit_draw _ _ _ _ x.isLt y.isLt, hnot, Bool.xor_false]
  | drawn => exact absurd hdrawn hc
  | _ => rfl

theorem writeBlock {bytes : List Byte} (hS : m.block bytes.length ⊆ S) :
    ChangesOnly S m { m with memory := m.memory.writeBlock m.base bytes } := by
  refine ⟨rfl, ?_⟩
  intro c hc
  cases c with
  | memory a =>
    -- a byte that the block reaches would have its cell in the block
    have hread : (m.memory.writeBlock m.base bytes).read a = m.memory.read a := by
      apply Memory.read_writeBlock_of_forall_ne
      intro k hk ha
      exact hc (hS (mem_block hk ha))
    simp only [Memory.read, Nat.mod_eq_of_lt a.isLt] at hread
    exact hread
  | _ => rfl

theorem loadRegisters {count : Nat} (hS : ∀ x : Register, x.val < count → Cell.register x ∈ S) :
    ChangesOnly S m (m.loadRegisters count) := by
  refine ⟨rfl, ?_⟩
  intro c hc
  cases c with
  | register x =>
    have hnot : ¬x.val < count := fun hx => hc (hS x hx)
    change (m.loadRegisters count).register x = m.register x
    simp [register, Machine.loadRegisters, hnot]
  | _ => rfl

end ChangesOnly

variable {S : Set Cell} {m : Machine}

theorem length_take_registers (m : Machine) (x : Register) :
    (m.registers.toList.take (x.val + 1)).length = x.val + 1 := by
  have hlt := x.isLt
  rw [List.length_take, Vector.length_toList]
  omega

/-- An instruction changes the program counter and what is in its footprint. -/
theorem perform_changesOnly (hpc : Cell.pc ∈ S) {i : Instruction} (hS : m.footprint i ⊆ S) :
    ChangesOnly S m (m.perform i) := by
  cases i with
  | sys a | jump a | jumpOffset a => exact ChangesOnly.pc hpc _
  | skipEqByte x b | skipNeByte x b | skipEqReg x y | skipNeReg x y | skipPressed x
  | skipReleased x => exact ChangesOnly.pc hpc _
  | clear =>
    have hpixel : ∀ x y, Cell.pixel x y ∈ S := fun x y => hS (Or.inr ⟨x, y, rfl⟩)
    exact (ChangesOnly.blank (hS (Or.inl rfl)) hpixel).advance hpc
  | ret =>
    have hstack := ChangesOnly.pop (m := m) (hS (Or.inl rfl)) (hS (Or.inr rfl))
    exact hstack.trans (ChangesOnly.pc hpc _)
  | call a =>
    have hstack := ChangesOnly.push (m := m) (hS (Or.inl rfl)) (hS (Or.inr (Or.inl rfl)))
      (hS (Or.inr (Or.inr rfl))) m.pc
    exact hstack.trans (ChangesOnly.pc hpc a)
  | loadByte x b | addByte x b | copy x y | or x y | and x y | xor x y | readDelay x =>
    exact (ChangesOnly.setRegister (hS rfl) _).advance hpc
  | addReg x y | sub x y | subFrom x y | shiftRight x y | shiftLeft x y =>
    have hresult := ChangesOnly.setRegister (m := m) (hS (Or.inl rfl))
    exact ((hresult _).setFlag (hS (Or.inr rfl)) _).advance hpc
  | random x b =>
    have hresult := ChangesOnly.setRegister (m := m) (hS (Or.inl rfl))
    exact ((hresult _).randomCount (hS (Or.inr rfl)) _).advance hpc
  | loadIndex a | addIndex x | glyph x => exact (ChangesOnly.index (hS rfl) _).advance hpc
  | draw x y rows =>
    have hflag := ChangesOnly.setRegister (m := m) (hS (Or.inl (Or.inl rfl)))
    have hdrawn : Cell.drawn ∈ S := hS (Or.inl (Or.inr rfl))
    have hcells : rectangle (m.sprite x y rows).x (m.sprite x y rows).y
        (m.sprite x y rows).rows.length ⊆ S := by
      rw [sprite, Memory.length_readBlock]
      intro c hc
      exact hS (Or.inr hc)
    exact ((hflag _).draw hdrawn hcells).advance hpc
  | waitKey x => exact (ChangesOnly.blocked (hS rfl) _).advance hpc
  | setDelay x => exact (ChangesOnly.delay (hS rfl) _).advance hpc
  | setSound x => exact (ChangesOnly.sound (hS rfl) _).advance hpc
  | decimal x => exact (ChangesOnly.writeBlock hS).advance hpc
  | store x =>
    have hblock : m.block (m.registers.toList.take (x.val + 1)).length ⊆ S := by
      rw [m.length_take_registers x]
      exact hS
    exact (ChangesOnly.writeBlock hblock).advance hpc
  | load x =>
    have hloaded : ∀ y : Register, y.val < x.val + 1 → Cell.register y ∈ S := by
      intro y hy
      exact hS ⟨y, Nat.le_of_lt_succ hy, rfl⟩
    exact (ChangesOnly.loadRegisters hloaded).advance hpc

theorem execute_changesOnly (hpc : Cell.pc ∈ S) {i : Option Instruction}
    (hS : ∀ j, i = some j → m.footprint j ⊆ S) : ChangesOnly S m (m.execute i) := by
  cases i with
  | none => exact (ChangesOnly.pc hpc _).trans (ChangesOnly.pc hpc _)
  | some i => exact (perform_changesOnly hpc (hS i rfl)).trans (ChangesOnly.pc hpc _)

theorem executeWord_operand (m : Machine) (word : Int) : (m.executeWord word).operand = word :=
  congrArg operand (m.executeWord_eq word)

theorem executeWord_changesOnly (m : Machine) (word : Int) :
    ChangesOnly ({.pc, .operand} ∪ m.wordFootprint word) m (m.executeWord word) := by
  have hnoted : ChangesOnly ({.pc, .operand} ∪ m.wordFootprint word) m (m.withOperand word) :=
    ChangesOnly.operand (Or.inl (Or.inr rfl)) word
  apply hnoted.trans
  apply execute_changesOnly (Or.inl (Or.inl rfl))
  intro i hi c hc
  right
  rw [wordFootprint, hi]
  exact hc

/-- The keys, the counter of cycles and the beeps are outside every footprint. -/
theorem notMem_footprint (m : Machine) (i : Instruction) :
    (∀ k, Cell.key k ∉ m.footprint i) ∧ Cell.counter ∉ m.footprint i ∧
      Cell.beeps ∉ m.footprint i := by
  cases i <;> simp [footprint, block, rectangle]

theorem notMem_wordFootprint (m : Machine) (word : Int) :
    (∀ k, Cell.key k ∉ m.wordFootprint word) ∧ Cell.counter ∉ m.wordFootprint word ∧
      Cell.beeps ∉ m.wordFootprint word := by
  unfold wordFootprint
  split
  · exact notMem_footprint m _
  · simp

/-- Whatever word is executed, the machine changes in the footprint of its instruction
only. Where the footprint is empty only the program counter moves on, and no instruction
changes the keys, the counter of cycles or the beeps. -/
theorem executeWord_within_footprint (m : Machine) (word : Int) :
    ChangesOnly ({.pc, .operand} ∪ m.wordFootprint word) m (m.executeWord word) ∧
      (m.wordFootprint word = ∅ →
        m.executeWord word = { m with pc := (m.executeWord word).pc, operand := word }) ∧
      (m.executeWord word).keys = m.keys ∧
      (m.executeWord word).timers.counter = m.timers.counter ∧
      (m.executeWord word).beeps = m.beeps := by
  have hframe := m.executeWord_changesOnly word
  obtain ⟨hkey, hcounter, hbeeps⟩ := m.notMem_wordFootprint word
  refine ⟨hframe, ?_, ?_, ?_, ?_⟩
  · intro hempty
    rw [hempty, Set.union_empty] at hframe
    apply ChangesOnly.eq
    refine ⟨hframe.settings_eq, ?_⟩
    intro c _
    cases c with
    | pc => rfl
    | operand => exact m.executeWord_operand word
    | _ => exact (hframe.get_eq _ (by simp)).trans rfl
  · apply Vector.ext
    intro k hk
    exact hframe.get_eq (.key ⟨k, hk⟩) (by simp [hkey])
  · exact hframe.get_eq .counter (by simp [hcounter])
  · exact hframe.get_eq .beeps (by simp [hbeeps])

end Machine
end ChipEight
