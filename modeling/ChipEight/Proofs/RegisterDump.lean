import ChipEight.Machine.Dump
import ChipEight.Proofs.Hexadecimal

/-!
# Reading a register dump

The first line of a dump has the program counter in a column of its own width and the
operation word up to a blank, which no number contains. The assembly behind them follows
from the word, and each line below holds one number. So machines that look alike agree in
everything a dump shows, and nothing else has a part in it.
-/

namespace ChipEight

section Marks

variable {α : Type} [BEq α] [LawfulBEq α] {mark : α}

/-- Texts that end at the first mark are the same if the marked texts are. -/
theorem append_cons_inj_of_unmarked {a b c d : List α} (ha : mark ∉ a) (hb : mark ∉ b)
    (h : a ++ mark :: c = b ++ mark :: d) : a = b ∧ c = d := by
  have hcut : ∀ {a : List α}, mark ∉ a → ∀ c, (a ++ mark :: c).takeWhile (· != mark) = a := by
    intro a ha c
    have hunmarked : ∀ x ∈ a, (x != mark) = true :=
      fun x hx => bne_iff_ne.mpr fun hmark => ha (hmark ▸ hx)
    rw [List.takeWhile_append_of_pos hunmarked]
    simp
  have hsame : a = b := by rw [← hcut ha c, h, hcut hb]
  subst hsame
  exact ⟨rfl, (List.cons.inj (List.append_cancel_left h)).2⟩

/-- Lines with a mark behind each are told apart by the marks. -/
theorem eq_of_flatMap_concat {a b : List (List α)} (ha : ∀ line ∈ a, mark ∉ line)
    (hb : ∀ line ∈ b, mark ∉ line)
    (h : a.flatMap (· ++ [mark]) = b.flatMap (· ++ [mark])) : a = b := by
  induction a generalizing b with
  | nil =>
    cases b with
    | nil => rfl
    | cons => simp at h
  | cons line rest ih =>
    cases b with
    | nil => simp at h
    | cons other others =>
      simp only [List.flatMap_cons, List.append_assoc, List.singleton_append] at h
      obtain ⟨hline, hrest⟩ := append_cons_inj_of_unmarked (ha line List.mem_cons_self)
        (hb other List.mem_cons_self) h
      rw [hline, ih (fun l hl => ha l (List.mem_cons_of_mem _ hl))
        (fun l hl => hb l (List.mem_cons_of_mem _ hl)) hrest]

end Marks

namespace Machine

def registerLine (m : Machine) (x : Register) : List Char :=
  (Instruction.registerText x ++ ": " ++ Hex.spaced 2 (m.register x).toNat).toList

def pointerLines (m : Machine) : List (List Char) :=
  [("I: " ++ Hex.spaced 4 m.index).toList, ("SP: " ++ Hex.plain m.stack.pointer.val).toList]

def lowerLines (m : Machine) : List (List Char) :=
  (List.finRange 16).map m.registerLine ++ m.pointerLines

theorem toList_dump (m : Machine) :
    m.dump.toList =
      "PC: ".toList ++ ((Hex.spaced 4 m.pc.toNat).toList ++ ("  OP: ".toList ++
        ((Hex.padded 4 m.operand).toList ++ ' ' ::
          (' ' :: (Word.disassemble (BitVec.ofInt 16 m.operand)).toList ++
            '\n' :: m.lowerLines.flatMap (· ++ ['\n']))))) := by
  simp [dump, dumpCounter, dumpRegister, lowerLines, registerLine, pointerLines,
    List.flatMap_map]

theorem newline_notMem_lowerLines (m : Machine) : ∀ line ∈ m.lowerLines, '\n' ∉ line := by
  have hdigits : ∀ n, '\n' ∉ Hex.digits n := by
    intro n hn
    cases Hex.isDigit_of_mem_digits hn
  have hspaced : ∀ width n, '\n' ∉ (Hex.spaced width n).toList :=
    Hex.notMem_spaced (by decide) (by decide) (by decide)
  intro line hline
  simp only [lowerLines, pointerLines, List.mem_append, List.mem_map, List.mem_cons,
    List.not_mem_nil, or_false] at hline
  rcases hline with ⟨x, -, rfl⟩ | rfl | rfl
  · simp [registerLine, Instruction.registerText, Hex.plain, hdigits, hspaced]
  · simp [hspaced]
  · simp [Hex.plain, hdigits]

theorem eq_of_lowerLines_eq {m n : Machine} (h : m.lowerLines = n.lowerLines) :
    m.registers = n.registers ∧ m.index = n.index ∧ m.stack.pointer = n.stack.pointer := by
  obtain ⟨hregisters, hpointers⟩ := List.append_inj h (by simp)
  simp only [pointerLines, List.cons.injEq, and_true, String.toList_inj,
    String.append_right_inj] at hpointers
  refine ⟨?_, Hex.spaced_injective 4 hpointers.1, Fin.ext (Hex.plain_injective hpointers.2)⟩
  apply Vector.ext
  intro i hi
  have hline : m.registerLine ⟨i, hi⟩ = n.registerLine ⟨i, hi⟩ :=
    List.map_inj_left.mp hregisters _ (List.mem_finRange _)
  simp only [registerLine, String.toList_inj, String.append_right_inj] at hline
  exact BitVec.toNat_inj.mp (Int.ofNat_inj.mp (Hex.spaced_injective 2 hline))

theorem eq_of_dump_eq {m n : Machine} (h : m.dump = n.dump) :
    m.pc = n.pc ∧ m.operand = n.operand ∧ m.registers = n.registers ∧ m.index = n.index ∧
      m.stack.pointer = n.stack.pointer := by
  have hwidth : ∀ m : Machine, (Hex.spaced 4 m.pc.toNat).toList.length = 4 :=
    fun m => Hex.length_spaced (k := 3) m.pc.isLt
  have hblank : ∀ m : Machine, ' ' ∉ (Hex.padded 4 m.operand).toList := by
    intro m
    rw [Hex.padded, String.toList_ofList]
    exact Hex.notMem_zeroFilled (by decide) (by decide) 4 m.operand
  have htext := congrArg String.toList h
  rw [toList_dump, toList_dump, List.append_cancel_left_eq] at htext
  obtain ⟨hcounter, htext⟩ := List.append_inj htext ((hwidth m).trans (hwidth n).symm)
  rw [List.append_cancel_left_eq] at htext
  obtain ⟨hword, htext⟩ := append_cons_inj_of_unmarked (hblank m) (hblank n) htext
  have hpc : m.pc = n.pc :=
    BitVec.toNat_inj.mp (Int.ofNat_inj.mp (Hex.spaced_injective 4 (String.toList_inj.mp hcounter)))
  have hoperand : m.operand = n.operand := Hex.padded_injective 4 (String.toList_inj.mp hword)
  -- the assembly is the same text now, so it can be cut off whatever characters it has
  rw [hoperand, List.append_cancel_left_eq, List.cons.injEq] at htext
  have hlines : m.lowerLines = n.lowerLines :=
    eq_of_flatMap_concat m.newline_notMem_lowerLines n.newline_notMem_lowerLines htext.2
  exact ⟨hpc, hoperand, eq_of_lowerLines_eq hlines⟩

/-- Two machines look alike in a dump if they agree on the program counter, the operation
word, every register, the index and the stack pointer, and only then; the word and the index
may be any integers. Whatever else a machine holds, its dump is the same. -/
theorem dump_loses_nothing (m n : Machine) :
    (m.dump = n.dump ↔ m.pc = n.pc ∧ m.operand = n.operand ∧
      (∀ x, m.register x = n.register x) ∧ m.index = n.index ∧
      m.stack.pointer = n.stack.pointer) ∧
    { n with
      pc := m.pc
      operand := m.operand
      registers := m.registers
      index := m.index
      stack := { n.stack with pointer := m.stack.pointer } }.dump = m.dump := by
  refine ⟨⟨?_, ?_⟩, rfl⟩
  · intro h
    obtain ⟨hpc, hoperand, hregisters, hindex, hpointer⟩ := eq_of_dump_eq h
    exact ⟨hpc, hoperand, fun x => by rw [register, hregisters, register], hindex, hpointer⟩
  · rintro ⟨hpc, hoperand, hregisters, hindex, hpointer⟩
    have hsame : m.dumpRegister = n.dumpRegister :=
      funext fun x => by rw [dumpRegister, hregisters, dumpRegister]
    rw [dump, dump, dumpCounter, dumpCounter, hpc, hoperand, hsame, hindex, hpointer]

end Machine
end ChipEight
