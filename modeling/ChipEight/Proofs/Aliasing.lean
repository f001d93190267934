import ChipEight.Proofs.Likeness

/-!
# Aliased indices

The index reaches memory by its low twelve bits alone. Machines that differ in the other
bits only go on doing so, whatever is done to them, and nothing but a dump tells them apart.
-/

namespace ChipEight
namespace Machine

/-- Two machines that differ at most in the index, and not in its low twelve bits. -/
def SameButHighIndex (m n : Machine) : Prop :=
  ∃ index, index % 4096 = m.index % 4096 ∧ n = { m with index := index }

/-- The index wraps at sixteen bits, which leaves its low twelve alone. -/
theorem emod_addIndex {i j : Int} (h : i % 4096 = j % 4096) (b : Int) :
    (i + b) % 65536 % 4096 = (j + b) % 65536 % 4096 := by
  have hdvd : (4096 : Int) ∣ 65536 := by decide
  rw [Int.emod_emod_of_dvd _ hdvd, Int.emod_emod_of_dvd _ hdvd, Int.add_emod, h, ← Int.add_emod]

section Aliased

variable {m : Machine} {index : Int}

theorem base_of_emod_eq (h : index % 4096 = m.index % 4096) :
    base { m with index := index } = m.base := by
  rw [base, base, h]

theorem drawRows_of_emod_eq (h : index % 4096 = m.index % 4096) (x y : Register) (rows : Nat) :
    drawRows { m with index := index } x y rows =
      { m.drawRows x y rows with index := index } := by
  have hsprite : sprite { m with index := index } x y rows = m.sprite x y rows := by
    simp only [sprite, base_of_emod_eq h]
    rfl
  simp only [drawRows, hsprite]
  rfl

theorem storeRegisters_of_emod_eq (h : index % 4096 = m.index % 4096) (count : Nat) :
    storeRegisters { m with index := index } count =
      { m.storeRegisters count with index := index } := by
  simp only [storeRegisters, base_of_emod_eq h]

theorem loadRegisters_of_emod_eq (h : index % 4096 = m.index % 4096) (count : Nat) :
    loadRegisters { m with index := index } count =
      { m.loadRegisters count with index := index } := by
  simp only [loadRegisters, base_of_emod_eq h]

end Aliased

namespace SameButHighIndex

variable {m n : Machine}

theorem alike (h : m.SameButHighIndex n) : Alike m n := by
  obtain ⟨index, _, rfl⟩ := h
  exact ⟨rfl, rfl, rfl, rfl⟩

theorem perform (h : m.SameButHighIndex n) (i : Instruction) :
    (m.perform i).SameButHighIndex (n.perform i) := by
  obtain ⟨index, hindex, rfl⟩ := h
  cases i with
  | loadIndex _ | glyph _ => exact ⟨_, rfl, rfl⟩
  | addIndex x => exact ⟨_, emod_addIndex hindex _, rfl⟩
  | draw x y rows => exact ⟨index, hindex, drawRows_of_emod_eq hindex x y rows.val⟩
  | decimal x =>
    refine ⟨index, hindex, ?_⟩
    simp only [Machine.perform, base_of_emod_eq hindex]
    rfl
  | store x =>
    refine ⟨index, hindex, ?_⟩
    simp only [Machine.perform, storeRegisters_of_emod_eq hindex]
    rfl
  | load x =>
    refine ⟨index, hindex, ?_⟩
    simp only [Machine.perform, loadRegisters_of_emod_eq hindex]
    rfl
  | _ => exact ⟨index, hindex, rfl⟩

theorem wrap (h : m.SameButHighIndex n) : m.wrap.SameButHighIndex n.wrap := by
  obtain ⟨index, hindex, rfl⟩ := h
  exact ⟨index, hindex, rfl⟩

theorem carryOut (h : m.SameButHighIndex n) (c : Option Call) :
    (m.carryOut c).SameButHighIndex (n.carryOut c) := by
  match c with
  | some (.instruction i) => exact (h.perform i).wrap
  | some (.drawRows x y rows) =>
    obtain ⟨index, hindex, rfl⟩ := h
    exact wrap ⟨index, hindex, drawRows_of_emod_eq hindex x y rows⟩
  | some (.store last) =>
    obtain ⟨index, hindex, rfl⟩ := h
    simp only [Machine.carryOut, call, afterBlock, storeRegisters_of_emod_eq hindex]
    split_ifs <;> exact ⟨index, hindex, rfl⟩
  | some (.load last) =>
    obtain ⟨index, hindex, rfl⟩ := h
    simp only [Machine.carryOut, call, afterBlock, loadRegisters_of_emod_eq hindex]
    split_ifs <;> exact ⟨index, hindex, rfl⟩
  | some (.pointAt _) =>
    obtain ⟨index, hindex, rfl⟩ := h
    exact ⟨_, rfl, rfl⟩
  | none | some (.compare _ _ _) | some (.waitFor _) | some (.randomInVain _) =>
    obtain ⟨index, hindex, rfl⟩ := h
    exact ⟨index, hindex, rfl⟩

theorem press (h : m.SameButHighIndex n) (k : Key) :
    (m.press k).SameButHighIndex (n.press k) := by
  obtain ⟨registers, blocked, hpress⟩ := m.exists_press_of_same k
  obtain ⟨index, hindex, rfl⟩ := h
  rw [hpress m rfl rfl]
  exact ⟨index, hindex, hpress _ rfl rfl⟩

theorem act (h : m.SameButHighIndex n) (a : Action) : (m.act a).SameButHighIndex (n.act a) := by
  cases a with
  | execute c => exact h.carryOut c
  | press k => exact h.press k
  | tick =>
    obtain ⟨index, hindex, rfl⟩ := h
    simp only [Machine.act, tick_eq]
    exact ⟨index, hindex, rfl⟩
  | reset =>
    obtain ⟨index, hindex, rfl⟩ := h
    exact ⟨0, rfl, rfl⟩
  | adjust b =>
    obtain ⟨index, hindex, rfl⟩ := h
    cases b with
    | index w => exact ⟨_, rfl, rfl⟩
    | _ => exact ⟨index, hindex, rfl⟩
  | note _ | trace _ | decrement | release _ | load _ _ | shown =>
    obtain ⟨index, hindex, rfl⟩ := h
    exact ⟨index, hindex, rfl⟩

theorem reports (h : m.SameButHighIndex n) (a : Action) : m.reports a = n.reports a := by
  obtain ⟨index, _, rfl⟩ := h
  exact congrArg₂ (· ++ ·) (timersReport_congr rfl rfl rfl a) (processorReport_congr rfl rfl rfl a)

end SameButHighIndex

theorem sameButHighIndex_bisimulation :
    Bisimulation (fun _ => True) (fun _ => true) SameButHighIndex where
  alike := SameButHighIndex.alike
  act := by
    intro m n a _ h
    exact h.act a
  reports := by
    intro m n a _ h
    rw [h.reports a]

/-- Machines that differ at most in the index above its low twelve bits differ in nothing
more after any operations, and each operation reports the same on both and, but for the
dump, answers the same. -/
theorem high_index_unobservable {m n : Machine} (h : m.SameButHighIndex n) (threshold : Level)
    (ops : List Operation) (op : Operation) :
    let o := (m.after threshold ops).apply threshold op
    let o' := (n.after threshold ops).apply threshold op
    o.machine.SameButHighIndex o'.machine ∧ o.log = o'.log ∧
      (op ≠ .dump → o.answer = o'.answer) := by
  have hbisim := sameButHighIndex_bisimulation
  have hsame := hbisim.after h threshold threshold ops fun _ _ => trivial
  refine ⟨hbisim.apply hsame threshold threshold op fun _ _ => trivial,
    hbisim.log_eq hsame threshold op fun _ _ => trivial, ?_⟩
  intro hop
  exact hsame.alike.answer threshold threshold op fun hdump => absurd hdump hop

/-- Four registers stored from the last byte of memory on, by an index that fits into twelve
bits and by one that does not. The dumps differ. -/
theorem high_index_unobservable_at_end_of_memory :
    let m := { initial ⟨.int 600, .int 1, .absent, ⟨[5]⟩⟩ with
      registers := Vector.ofFn fun k => BitVec.ofNat 8 (k.val + 1), index := 0x0FFF }
    let n := { m with index := 0x7FFF }
    let o := (m.after .debug [.execute 0xF355]).apply .debug (.execute 0xD125)
    let o' := (n.after .debug [.execute 0xF355]).apply .debug (.execute 0xD125)
    o.machine.memory.read 4095 = 1 ∧ o.machine.memory.read 2 = 4 ∧
      o.machine.SameButHighIndex o'.machine ∧ o.answer = o'.answer ∧
      o.machine.dump ≠ o'.machine.dump := by
  intro m n o o'
  have hmn : m.SameButHighIndex n := ⟨0x7FFF, rfl, rfl⟩
  obtain ⟨hmachine, _, hanswer⟩ :=
    high_index_unobservable hmn .debug [.execute 0xF355] (.execute 0xD125)
  exact ⟨by decide +kernel, by decide +kernel, hmachine, hanswer nofun, by decide +kernel⟩

end Machine
end ChipEight
