import ChipEight.Proofs.Coding
import ChipEight.Proofs.KeyHistory

/-!
# Program counter

Every instruction moves the program counter itself. Where a word leads is said here once
more, from its digits alone and in numbers that no width cuts off, and each instruction is
shown to go there.
-/

namespace ChipEight

/-- Instructions with the same operands, of which one skips where the other does not. -/
inductive Instruction.Opposite : Instruction → Instruction → Prop
  | byte (x : Register) (byte : Byte) : Opposite (skipEqByte x byte) (skipNeByte x byte)
  | registers (x y : Register) : Opposite (skipEqReg x y) (skipNeReg x y)
  | key (x : Register) : Opposite (skipPressed x) (skipReleased x)

namespace Machine

/-- Where a word of sixteen bits leads, before that is brought back into memory: to an
address, after the last call, past the next instruction, or on to it. -/
def destination (m : Machine) (word : Nat) : Nat :=
  let address := word % 4096
  let byte := word % 256
  let vx := (m.register (Fin.ofNat 16 (word / 256))).toNat
  let vy := (m.register (Fin.ofNat 16 (word / 16))).toNat
  let pressed := ∃ k : Key, vx = k.val ∧ m.isDown k = true
  let lastSlot := Fin.ofNat 16 (m.stack.pointer.val + 15)
  match word / 4096 with
  | 0x0 => if word = 0x00EE then (m.stack.slots[lastSlot]).toNat + 2 else m.pc.toNat + 2
  | 0x1 => address
  | 0x2 => address
  | 0x3 => m.pc.toNat + if vx = byte then 4 else 2
  | 0x4 => m.pc.toNat + if vx ≠ byte then 4 else 2
  | 0x5 => m.pc.toNat + if vx = vy then 4 else 2
  | 0x9 => m.pc.toNat + if vx ≠ vy then 4 else 2
  | 0xB => address + (m.register 0).toNat
  | 0xE => m.pc.toNat + if byte = 0x9E ∧ pressed ∨ byte = 0xA1 ∧ ¬pressed then 4 else 2
  | _ => m.pc.toNat + 2

section Words

variable (m : Machine) (w : Word)

/-- An instruction that skips on a condition, with the condition put in other words. -/
theorem pc_of_skipIf {i : Instruction} {c : Bool} (hi : m.perform i = m.skipIf c) {p : Prop}
    [Decidable p] (hc : c = true ↔ p) :
    (m.execute (some i)).pc.toNat = (m.pc.toNat + if p then 4 else 2) % 4096 := by
  rw [execute, hi, pc_wrap_skipIf]
  simp only [hc]

theorem pc_ret : (m.execute (some .ret)).pc.toNat =
    ((m.stack.slots[Fin.ofNat 16 (m.stack.pointer.val + 15)]).toNat + 2) % 4096 := by
  have hslot : m.stack.pointer - 1 = Fin.ofNat 16 (m.stack.pointer.val + 15) :=
    Fin.ext (congrArg (· % 16) (Nat.add_comm 15 m.stack.pointer.val))
  have htop := congrArg (fun k : Fin 16 => m.stack.slots[k]) hslot
  exact (Word.address_add_toNat m.stack.top 2).trans
    (congrArg (fun a : Word => (a.toNat + 2) % 4096) htop)

theorem pc_jump : (m.execute (some (.jump w.address))).pc.toNat = w.toNat % 4096 % 4096 := by
  rw [← Word.address_toNat]
  exact Word.address_toNat _

theorem pc_jumpOffset : (m.execute (some (.jumpOffset w.address))).pc.toNat =
    (w.toNat % 4096 + (m.register 0).toNat) % 4096 := by
  rw [← Word.address_toNat, ← BitVec.toNat_setWidth_of_le (show 8 ≤ 16 by decide)]
  exact Word.address_add_toNat _ _

theorem pc_decodeArithmetic (x y : Register) (n : Nat) :
    (m.execute (Instruction.decodeArithmetic x y n)).pc.toNat = (m.pc.toNat + 2) % 4096 := by
  unfold Instruction.decodeArithmetic
  split <;> exact m.pc_wrap_advance

theorem pc_decodeTransfer (x : Register) (n : Nat) :
    (m.execute (Instruction.decodeTransfer x n)).pc.toNat = (m.pc.toNat + 2) % 4096 := by
  unfold Instruction.decodeTransfer
  split <;> exact m.pc_wrap_advance

theorem pc_decodeKeypad (x : Register) (n : Nat) :
    let pressed := ∃ k : Key, (m.register x).toNat = k.val ∧ m.isDown k = true
    (m.execute (Instruction.decodeKeypad x n)).pc.toNat =
      (m.pc.toNat + if n = 0x9E ∧ pressed ∨ n = 0xA1 ∧ ¬pressed then 4 else 2) % 4096 := by
  intro pressed
  have hpressed : m.keyDown x = true ↔ pressed := m.keyDown_iff x
  unfold Instruction.decodeKeypad
  split
  · exact m.pc_of_skipIf rfl (by simpa using hpressed)
  · exact m.pc_of_skipIf rfl (by simpa using not_congr hpressed)
  · rename_i hskp hsknp
    rw [if_neg (by tauto)]
    exact m.pc_wrap_advance

theorem pc_execute_decode :
    (m.execute (Instruction.decode w)).pc.toNat = m.destination w.toNat % 4096 := by
  -- One arm for each family, in which the same family is then looked up in the destination.
  unfold Instruction.decode Word.family
  dsimp only
  split
  case h_16 =>
    -- Of the sixteen families only the last one is left for the last arm.
    have hlt := w.family_lt
    unfold Word.family at hlt
    have hfamily : w.toNat / 4096 = 0xF := by grind
    simp only [destination, hfamily]
    exact m.pc_decodeTransfer _ _
  all_goals
    rename_i hfamily
    simp only [destination, hfamily]
  case h_1 =>
    split_ifs with hclear hret hret
    · omega
    · exact m.pc_wrap_advance
    · exact m.pc_ret
    · exact m.pc_wrap_advance
  case h_2 | h_3 => exact m.pc_jump w
  case h_4 =>
    refine m.pc_of_skipIf rfl ?_
    rw [beq_iff_eq, ← BitVec.toNat_inj, Word.byte_toNat]
    rfl
  case h_5 =>
    refine m.pc_of_skipIf rfl ?_
    rw [bne_iff_ne, ne_eq, ← BitVec.toNat_inj, Word.byte_toNat]
    rfl
  case h_6 =>
    refine m.pc_of_skipIf rfl ?_
    rw [beq_iff_eq, ← BitVec.toNat_inj]
    rfl
  case h_10 =>
    refine m.pc_of_skipIf rfl ?_
    rw [bne_iff_ne, ne_eq, ← BitVec.toNat_inj]
    rfl
  case h_9 => exact m.pc_decodeArithmetic _ _ _
  case h_12 => exact m.pc_jumpOffset w
  case h_15 => exact m.pc_decodeKeypad w.x _
  all_goals exact m.pc_wrap_advance

theorem pc_executeWord (word : Int) :
    (m.executeWord word).pc.toNat = m.destination (word % 65536).toNat % 4096 := by
  rw [executeWord_eq, ← Word.toNat_ofInt, ← pc_execute_decode]
  rfl

end Words

theorem perform_of_opposite (m : Machine) {i j : Instruction} (h : i.Opposite j) :
    ∃ c, m.perform i = m.skipIf c ∧ m.perform j = m.skipIf (!c) := by
  cases h <;> exact ⟨_, rfl, rfl⟩

/-- Comparisons of registers pass over their low nibble, and report nothing. -/
theorem exists_comparison {v w : Word} (hcompare : v.family = 0x5 ∨ v.family = 0x9)
    (hsame : v.toNat / 16 = w.toNat / 16) :
    ∃ i, Instruction.decode v = some i ∧ Instruction.decode w = some i ∧
      ∀ m : Machine, m.executeLog (some i) = [] := by
  have hfamily : w.family = v.family := by
    unfold Word.family
    omega
  have hx : w.x = v.x := Fin.ext (by rw [Word.x_val, Word.x_val]; omega)
  have hy : w.y = v.y := Fin.ext (by rw [Word.y_val, Word.y_val]; omega)
  unfold Instruction.decode
  rcases hcompare with h | h
  · exact ⟨.skipEqReg v.x v.y, by simp only [h], by simp only [hfamily, h, hx, hy], fun _ => rfl⟩
  · exact ⟨.skipNeReg v.x v.y, by simp only [h], by simp only [hfamily, h, hx, hy], fun _ => rfl⟩

theorem executeWord_of_comparison (m : Machine) {v w : Int}
    (hcompare : v % 65536 / 4096 ∈ [0x5, 0x9]) (hsame : v % 65536 / 16 = w % 65536 / 16) :
    m.executeWord w = { m.executeWord v with operand := w } ∧
      m.executeWordLog w = m.executeWordLog v := by
  have hv := Word.toNat_ofInt v
  have hw := Word.toNat_ofInt w
  have hfamily : Word.family (BitVec.ofInt 16 v) = 0x5 ∨ Word.family (BitVec.ofInt 16 v) = 0x9 := by
    simp only [List.mem_cons, List.not_mem_nil, or_false] at hcompare
    unfold Word.family
    omega
  obtain ⟨i, hiv, hiw, hlog⟩ := exists_comparison hfamily (w := BitVec.ofInt 16 w) (by omega)
  have hdecoded : Instruction.ofInt? v = some i ∧ Instruction.ofInt? w = some i := ⟨hiv, hiw⟩
  constructor
  · rw [executeWord_eq, executeWord_eq, hdecoded.1, hdecoded.2]
    rfl
  · rw [executeWordLog, executeWordLog, hdecoded.1, hdecoded.2, hlog, hlog]

theorem pc_executeWord_of_skipIf {m : Machine} {word : Int} {i : Instruction} {c : Bool}
    (h : Instruction.ofInt? word = some i) (hi : m.perform i = m.skipIf c) :
    (m.executeWord word).pc.toNat = (m.pc.toNat + if c then 4 else 2) % 4096 := by
  rw [executeWord_eq, h]
  exact m.pc_of_skipIf hi Iff.rfl

/-- Every word leads where its digits say, and into memory. Of two skips on opposite
conditions exactly one skips, and comparisons of two registers do the same with any low
nibble, which nothing but the noted word shows. -/
theorem program_counter_law (m : Machine) (word : Int) :
    let after := fun w => (m.executeWord w).pc.toNat
    after word = m.destination (word % 65536).toNat % 4096 ∧ after word < 4096 ∧
    (∀ i j, i.Opposite j → ∀ v w, Instruction.ofInt? v = some i → Instruction.ofInt? w = some j →
      Xor (after v = (m.pc.toNat + 4) % 4096) (after w = (m.pc.toNat + 4) % 4096)) ∧
    (∀ other, word % 65536 / 4096 ∈ [0x5, 0x9] → word % 65536 / 16 = other % 65536 / 16 →
      m.executeWord other = { m.executeWord word with operand := other } ∧
        m.executeWordLog other = m.executeWordLog word) := by
  intro after
  refine ⟨m.pc_executeWord word, ?_, ?_, fun _ => m.executeWord_of_comparison⟩
  · exact (m.pc_executeWord word).trans_lt (Nat.mod_lt _ (by decide))
  · intro i j hopposite v w hv hw
    obtain ⟨c, hi, hj⟩ := m.perform_of_opposite hopposite
    have hdiffer : (m.pc.toNat + 2) % 4096 ≠ (m.pc.toNat + 4) % 4096 := by omega
    simp only [after, pc_executeWord_of_skipIf hv hi, pc_executeWord_of_skipIf hw hj]
    cases c with
    | false => exact Or.inr ⟨rfl, hdiffer⟩
    | true => exact Or.inl ⟨rfl, hdiffer⟩

/-- From the last words of memory: a skip and a jump past its end, a return to its start, a
skip on the opposite condition and a comparison with a low nibble. -/
theorem program_counter_law_at_wrap :
    let m := [0x60FF, 0x1FFE, 0x2300, 0x1FFF].foldl executeWord
      (initial ⟨.int 600, .int 1, .absent, ⟨[7]⟩⟩)
    m.pc.toNat = 0xFFF ∧ (m.executeWord 0x30FF).pc.toNat = 0x003 ∧
      (m.executeWord 0xBFFF).pc.toNat = 0x0FE ∧ (m.executeWord 0x00EE).pc.toNat = 0x000 ∧
      (m.executeWord 0x40FF).pc.toNat ≠ 0x003 ∧
      m.executeWord 0x5127 = { m.executeWord 0x5120 with operand := 0x5127 } := by
  intro m
  have hpc : m.pc.toNat = 0xFFF := by decide +kernel
  obtain ⟨hskip, _, hopposite, _⟩ := m.program_counter_law 0x30FF
  obtain ⟨hjump, _⟩ := m.program_counter_law 0xBFFF
  obtain ⟨hreturn, _⟩ := m.program_counter_law 0x00EE
  obtain ⟨_, _, _, hnibble⟩ := m.program_counter_law 0x5120
  have hskipped : (m.executeWord 0x30FF).pc.toNat = 0x003 := hskip.trans (by decide +kernel)
  have hxor := hopposite _ _ (.byte 0 0xFF) 0x30FF 0x40FF (by decide) (by decide)
  rw [hpc] at hxor
  refine ⟨hpc, hskipped, hjump.trans (by decide +kernel), hreturn.trans (by decide +kernel), ?_,
    (hnibble 0x5127 (by decide) (by decide)).1⟩
  rcases hxor with ⟨-, hother⟩ | ⟨-, hother⟩
  · exact hother
  · exact absurd hskipped hother

end Machine
end ChipEight
