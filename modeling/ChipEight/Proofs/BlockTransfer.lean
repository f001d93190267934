import ChipEight.Proofs.Frame

/-!
# Block transfers

Registers are stored to a block of memory and loaded from one. A block is shorter than
memory, so it does not overtake itself where it runs past the last address, and each of the
two transfers takes back what the other has done.
-/

namespace ChipEight

namespace Memory

theorem write_read (mem : Memory) (a : Nat) : mem.write a (mem.read a) = mem :=
  Vector.set_getElem_self _

/-- Writing what is there already changes nothing. -/
theorem writeBlock_readBlock (mem : Memory) (a count : Nat) :
    mem.writeBlock a (mem.readBlock a count) = mem := by
  induction count generalizing a with
  | zero => rfl
  | succ count ih =>
    have hblock : mem.readBlock a (count + 1) = mem.read a :: mem.readBlock (a + 1) count := by
      simp only [readBlock, List.range_succ_eq_map, List.map_cons, List.map_map, Nat.add_zero]
      congr 1
      apply List.map_congr_left
      intro k _
      exact congrArg mem.read (by simp only [Nat.succ_eq_add_one]; omega)
    rw [hblock, writeBlock_cons, write_read, ih]

end Memory

namespace Machine

section Transfers

variable {m n : Machine} {x : Register} {word : Int}

theorem executeWord_store (h : Instruction.ofInt? word = some (.store x)) :
    m.executeWord word = { m with
      memory := m.memory.writeBlock m.base (m.registers.toList.take (x.val + 1))
      pc := m.advance.wrap.pc
      operand := word } := by
  rw [executeWord_eq, h]
  rfl

theorem executeWord_load (h : Instruction.ofInt? word = some (.load x)) :
    m.executeWord word = { m with
      registers := (m.loadRegisters (x.val + 1)).registers
      pc := m.advance.wrap.pc
      operand := word } := by
  rw [executeWord_eq, h]
  rfl

theorem read_writeBlock_base (m : Machine) {bytes : List Byte} (hsize : bytes.length ≤ 4096)
    {k : Nat} (hk : k < bytes.length) :
    (m.memory.writeBlock m.base bytes).read ((m.index + k) % 4096).toNat = bytes[k] := by
  have hplace := read_base_add { m with memory := m.memory.writeBlock m.base bytes } k
  exact hplace.symm.trans (m.memory.read_writeBlock m.base k bytes hsize hk)

/-- A byte that is not in the block of an instruction is not written. -/
theorem read_executeWord_of_block {count : Nat} (h : m.wordFootprint word = m.block count)
    {a : Nat} (ha : a < 4096) (hout : ∀ k < count, (a : Int) ≠ (m.index + k) % 4096) :
    (m.executeWord word).memory.read a = m.memory.read a := by
  have hframe : (m.executeWord word).get (.memory ⟨a, ha⟩) = m.get (.memory ⟨a, ha⟩) := by
    apply (m.executeWord_changesOnly word).get_eq
    rw [h]
    rintro (hnoted | ⟨b, k, hb, hk, hplace⟩)
    · rcases hnoted with hpc | hoperand
      · cases hpc
      · cases hoperand
    · cases hb
      exact hout k hk hplace
  simp only [Memory.read, Nat.mod_eq_of_lt ha]
  exact hframe

theorem read_executeWord_store (h : Instruction.ofInt? word = some (.store x)) {k : Register}
    (hk : k ≤ x) :
    (m.executeWord word).memory.read ((m.index + k.val) % 4096).toNat = m.register k := by
  have hlength := m.length_take_registers x
  have hx := x.isLt
  have hin : k.val < (m.registers.toList.take (x.val + 1)).length := by
    rw [hlength]
    exact Nat.lt_succ_of_le hk
  rw [executeWord_store h]
  refine (m.read_writeBlock_base (by omega) hin).trans ?_
  rw [List.getElem_take, Vector.getElem_toList]
  rfl

theorem read_executeWord_store_of_ne (h : Instruction.ofInt? word = some (.store x)) {a : Nat}
    (ha : a < 4096) (hout : ∀ k ≤ x, (a : Int) ≠ (m.index + k.val) % 4096) :
    (m.executeWord word).memory.read a = m.memory.read a := by
  have hblock : m.wordFootprint word = m.block (x.val + 1) := by
    rw [wordFootprint, h]
    rfl
  apply read_executeWord_of_block hblock ha
  intro k hk
  have hx := x.isLt
  exact hout ⟨k, by omega⟩ (Nat.le_of_lt_succ hk)

theorem register_executeWord_load (h : Instruction.ofInt? word = some (.load x))
    (k : Register) : (m.executeWord word).register k =
      if k ≤ x then m.memory.read ((m.index + k.val) % 4096).toNat else m.register k := by
  rw [executeWord_load h, ← read_base_add]
  have hbound : k.val < x.val + 1 ↔ k ≤ x := Nat.lt_succ_iff
  simp only [register, loadRegisters, Fin.getElem_fin, Vector.getElem_mapIdx, hbound]

theorem register_load_of_stored {store load : Int}
    (hstore : Instruction.ofInt? store = some (.store x))
    (hload : Instruction.ofInt? load = some (.load x))
    (hmemory : n.memory = (m.executeWord store).memory)
    (hindex : n.index = (m.executeWord store).index) {k : Register} (hk : k ≤ x) :
    (n.executeWord load).register k = m.register k := by
  have hsame : (m.executeWord store).index = m.index := by rw [executeWord_store hstore]
  rw [register_executeWord_load hload, if_pos hk, hmemory, hindex, hsame,
    read_executeWord_store hstore hk]

theorem take_loadRegisters (m : Machine) {count : Nat} (hcount : count ≤ 16) :
    (m.loadRegisters count).registers.toList.take count = m.memory.readBlock m.base count := by
  apply List.ext_getElem
  · rw [List.length_take, Vector.length_toList, Memory.length_readBlock]
    omega
  · intro k hk hread
    rw [Memory.length_readBlock] at hread
    simp only [List.getElem_take, Vector.getElem_toList, loadRegisters, Vector.getElem_mapIdx,
      if_pos hread, Memory.readBlock, List.getElem_map, List.getElem_range]

theorem memory_store_of_loaded {store load : Int}
    (hstore : Instruction.ofInt? store = some (.store x))
    (hload : Instruction.ofInt? load = some (.load x)) :
    ((m.executeWord load).executeWord store).memory = m.memory := by
  rw [executeWord_store hstore, executeWord_load hload]
  change m.memory.writeBlock m.base
    ((m.loadRegisters (x.val + 1)).registers.toList.take (x.val + 1)) = m.memory
  rw [m.take_loadRegisters x.isLt, Memory.writeBlock_readBlock]

end Transfers

/-- The registers up to one of them are stored from the index on and loaded from there, and
nothing but the block and these registers changes. Whatever happens to the registers in
between, what was stored is loaded again; and what was loaded changes no byte when it is
stored. So it is for blocks that run past the last address as well. -/
theorem block_transfers_inverse (m : Machine) (x : Register) {store load : Int}
    (hstore : Instruction.ofInt? store = some (.store x))
    (hload : Instruction.ofInt? load = some (.load x)) :
    let stored := m.executeWord store
    let loaded := m.executeWord load
    (stored = { m with memory := stored.memory, pc := stored.pc, operand := store } ∧
      (∀ k ≤ x, stored.memory.read ((m.index + k.val) % 4096).toNat = m.register k) ∧
      ∀ a : Nat, a < 4096 → (∀ k ≤ x, (a : Int) ≠ (m.index + k.val) % 4096) →
        stored.memory.read a = m.memory.read a) ∧
    (loaded = { m with registers := loaded.registers, pc := loaded.pc, operand := load } ∧
      (∀ k ≤ x, loaded.register k = m.memory.read ((m.index + k.val) % 4096).toNat) ∧
      ∀ k, x < k → loaded.register k = m.register k) ∧
    (∀ n : Machine, n.memory = stored.memory → n.index = stored.index →
      ∀ k ≤ x, (n.executeWord load).register k = m.register k) ∧
    (loaded.executeWord store).memory = m.memory := by
  intro stored loaded
  refine ⟨⟨?_, ?_, ?_⟩, ⟨?_, ?_, ?_⟩, ?_, memory_store_of_loaded hstore hload⟩
  · simp only [stored, executeWord_store hstore]
  · intro k hk
    exact read_executeWord_store hstore hk
  · intro a ha hout
    exact read_executeWord_store_of_ne hstore ha hout
  · simp only [loaded, executeWord_load hload]
  · intro k hk
    rw [register_executeWord_load hload, if_pos hk]
  · intro k hk
    rw [register_executeWord_load hload, if_neg (Fin.not_le.mpr hk)]
  · intro n hmemory hindex k hk
    exact register_load_of_stored hstore hload hmemory hindex hk

/-- Four registers stored over the end of memory, cleared, and loaded again; and a block that
is loaded from there before anything was stored. -/
theorem block_transfers_inverse_over_end_of_memory :
    let m := { [0x60A1, 0x61B2, 0x62C3, 0x63D4].foldl executeWord
      (initial ⟨.int 600, .int 1, .absent, ⟨[7]⟩⟩) with index := 0x1FFE }
    let stored := m.executeWord 0xF355
    let cleared := { stored with registers := Vector.replicate 16 0 }
    stored.memory.read 0xFFF = 0xB2 ∧ stored.memory.read 0x001 = 0xD4 ∧
      (cleared.executeWord 0xF365).register 2 = 0xC3 ∧
      (m.executeWord 0xF365).register 3 = 0x90 ∧
      ((m.executeWord 0xF365).executeWord 0xF355).memory = m.memory := by
  intro m stored cleared
  have hstore : Instruction.ofInt? 0xF355 = some (.store 3) := by decide
  have hload : Instruction.ofInt? 0xF365 = some (.load 3) := by decide
  obtain ⟨⟨-, hread, -⟩, ⟨-, hloaded, -⟩, hagain, hback⟩ :=
    m.block_transfers_inverse 3 hstore hload
  refine ⟨(hread 1 (by decide)).trans (by decide +kernel),
    (hread 3 (by decide)).trans (by decide +kernel), ?_,
    (hloaded 3 (by decide)).trans (by decide +kernel), hback⟩
  exact (hagain cleared rfl rfl 2 (by decide)).trans (by decide +kernel)

end Machine
end ChipEight
