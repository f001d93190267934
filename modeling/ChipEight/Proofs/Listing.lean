import ChipEight.Proofs.Coding
import ChipEight.Proofs.Dispatch
import ChipEight.Proofs.Hexadecimal
import Mathlib.Data.List.Basic

/-!
# Reading the assembly listing

A line of assembly is a name in a column of its own, followed by operands with commas
between them. Reading it gives back the instruction but for the second register of a shift,
which is not shown and not used. So words that look alike are executed alike.
-/

namespace ChipEight

/-- An operand as a line of assembly shows it. The letters that stand for the glyphs and for
decimal digits are shown like digits. -/
inductive Operand
  | register (x : Register)
  | byte (b : Byte)
  | address (a : Word)
  | digit (n : Fin 16)
  | index
  | memory
  | delay
  | sound
  | key

namespace Operand

def text : Operand → String
  | register x => Instruction.registerText x
  | byte b => Instruction.byteText b
  | address a => Instruction.addressText a
  | digit n => Hex.plain n.val
  | index => "I"
  | memory => "[I]"
  | delay => "DT"
  | sound => "ST"
  | key => "K"

/-- A number by its width: one digit, a byte or an address. -/
def readNumber (cs : List Char) : Option Operand :=
  match cs.length with
  | 0 => none
  | 1 => some (digit (Fin.ofNat 16 (Hex.value cs)))
  | 2 => some (byte (BitVec.ofNat 8 (Hex.value cs)))
  | _ + 3 => some (address (BitVec.ofNat 16 (Hex.value cs)))

def readWord : List Char → Option Operand
  | 'V' :: cs => some (register (Fin.ofNat 16 (Hex.value cs)))
  | ['I'] => some index
  | ['[', 'I', ']'] => some memory
  | ['D', 'T'] => some delay
  | ['S', 'T'] => some sound
  | ['K'] => some key
  | _ => none

/-- The operand with the given text. No register and no word is all digits. -/
def read (cs : List Char) : Option Operand :=
  if cs.all Hex.isDigit then readNumber cs else readWord cs

theorem toList_text_register (x : Register) :
    (register x).text.toList = 'V' :: Hex.digits x.val := by
  simp [text, Instruction.registerText, Hex.plain]

theorem toList_text_byte (b : Byte) :
    (byte b).text.toList = Hex.fill '0' 2 (Hex.digits b.toNat) :=
  String.toList_ofList

theorem toList_text_address (a : Word) :
    (address a).text.toList = Hex.fill '0' 3 (Hex.digits a.toNat) :=
  String.toList_ofList

theorem toList_text_digit (n : Fin 16) :
    (digit n).text.toList = Hex.fill '0' 1 (Hex.digits n.val) := by
  rw [text, Hex.plain, String.toList_ofList, Hex.digits_of_lt n.isLt]
  rfl

theorem read_fill (width n : Nat) :
    read (Hex.fill '0' width (Hex.digits n)) =
      readNumber (Hex.fill '0' width (Hex.digits n)) := by
  rw [read, if_pos]
  apply List.all_eq_true.mpr
  intro c hc
  exact Hex.isDigit_of_mem_fill hc fun c => Hex.isDigit_of_mem_digits

theorem read_text (o : Operand) : read o.text.toList = some o := by
  cases o with
  | index | memory | delay | sound | key => rfl
  | register x =>
    have hnone : ('V' :: Hex.digits x.val).all Hex.isDigit = false := rfl
    rw [toList_text_register, read, hnone]
    change some (register (Fin.ofNat 16 (Hex.value (Hex.digits x.val)))) = _
    rw [Hex.value_digits, Fin.ofNat_val_eq_self]
  | byte b =>
    have hlength := Hex.length_fill_digits (k := 1) b.isLt
    simp [toList_text_byte, read_fill, readNumber, hlength, Hex.value_fill, Hex.value_digits]
  | address a =>
    obtain ⟨k, hlength⟩ : ∃ k, (Hex.fill '0' 3 (Hex.digits a.toNat)).length = k + 3 := by
      rw [Hex.length_fill]
      exact Nat.exists_eq_add_of_le' (Nat.le_max_left _ _)
    simp [toList_text_address, read_fill, readNumber, hlength, Hex.value_fill, Hex.value_digits]
  | digit n =>
    have hlength := Hex.length_fill_digits (k := 0) n.isLt
    simp [toList_text_digit, read_fill, readNumber, hlength, Hex.value_fill, Hex.value_digits]

/-- The character of a digit is neither a blank nor a comma. -/
theorem ne_of_isDigit {c : Char} (h : Hex.isDigit c = true) : c ≠ ' ' ∧ c ≠ ',' := by
  constructor <;> rintro rfl <;> cases h

theorem ne_of_mem_fill {width n : Nat} {c : Char} (h : c ∈ Hex.fill '0' width (Hex.digits n)) :
    c ≠ ' ' ∧ c ≠ ',' :=
  ne_of_isDigit (Hex.isDigit_of_mem_fill h fun _ => Hex.isDigit_of_mem_digits)

theorem ne_of_all {cs : List Char} (h : cs.all (fun c => c ≠ ' ' ∧ c ≠ ',') = true) {c : Char}
    (hc : c ∈ cs) : c ≠ ' ' ∧ c ≠ ',' :=
  of_decide_eq_true (List.all_eq_true.mp h c hc)

theorem ne_of_mem_text {o : Operand} {c : Char} (h : c ∈ o.text.toList) : c ≠ ' ' ∧ c ≠ ',' := by
  cases o with
  | index | memory | delay | sound | key => exact ne_of_all rfl h
  | register x =>
    rw [toList_text_register] at h
    rcases List.mem_cons.mp h with rfl | hdigit
    · decide
    · exact ne_of_isDigit (Hex.isDigit_of_mem_digits hdigit)
  | byte b => exact ne_of_mem_fill (toList_text_byte b ▸ h)
  | address a => exact ne_of_mem_fill (toList_text_address a ▸ h)
  | digit n => exact ne_of_mem_fill (toList_text_digit n ▸ h)

theorem text_ne_nil (o : Operand) : o.text.toList ≠ [] := by
  intro hnil
  have hread := read_text o
  rw [hnil] at hread
  cases hread

end Operand

namespace Instruction

/-! ### Lines -/

def name : Instruction → String
  | clear => "CLS"
  | ret => "RET"
  | sys _ => "SYS  "
  | jump _ | jumpOffset _ => "JP   "
  | call _ => "CALL "
  | skipEqByte _ _ | skipEqReg _ _ => "SE   "
  | skipNeByte _ _ | skipNeReg _ _ => "SNE  "
  | addByte _ _ | addReg _ _ | addIndex _ => "ADD  "
  | or _ _ => "OR   "
  | and _ _ => "AND  "
  | xor _ _ => "XOR  "
  | sub _ _ => "SUB  "
  | shiftRight _ _ => "SHR  "
  | subFrom _ _ => "SUBN "
  | shiftLeft _ _ => "SHL  "
  | random _ _ => "RND  "
  | draw _ _ _ => "DRW  "
  | skipPressed _ => "SKP  "
  | skipReleased _ => "SKNP "
  | loadByte _ _ | copy _ _ | loadIndex _ | readDelay _ | waitKey _ | setDelay _ | setSound _
  | glyph _ | decimal _ | store _ | load _ => "LD   "

def shown : Instruction → List Operand
  | clear | ret => []
  | sys a | jump a | call a => [.address a]
  | skipEqByte x b | skipNeByte x b | loadByte x b | addByte x b | random x b =>
    [.register x, .byte b]
  | skipEqReg x y | skipNeReg x y | copy x y | or x y | and x y | xor x y | addReg x y
  | sub x y | subFrom x y => [.register x, .register y]
  | shiftRight x _ | shiftLeft x _ | skipPressed x | skipReleased x => [.register x]
  | loadIndex a => [.index, .address a]
  | jumpOffset a => [.register 0, .address a]
  | draw x y n => [.register x, .register y, .digit n]
  | readDelay x => [.register x, .delay]
  | waitKey x => [.register x, .key]
  | setDelay x => [.delay, .register x]
  | setSound x => [.sound, .register x]
  | addIndex x => [.index, .register x]
  | glyph x => [.digit 0xF, .register x]
  | decimal x => [.digit 0xB, .register x]
  | store x => [.memory, .register x]
  | load x => [.register x, .memory]

theorem toList_assembly (i : Instruction) :
    i.assembly.toList =
      i.name.toList ++ [',', ' '].intercalate (i.shown.map fun o => o.text.toList) := by
  have hplain : ∀ n < 16, (Hex.plain n).toList = [Hex.upperDigit n] := by
    intro n hn
    rw [Hex.plain, String.toList_ofList, Hex.digits_of_lt hn]
  cases i with
  -- The register zero and the two letters are written out in the line.
  | jumpOffset a =>
    have hfirst : (registerText 0).toList = ['V', '0'] := by
      rw [registerText, String.toList_append, hplain _ (by decide)]
      rfl
    simp [assembly, name, shown, Operand.text, hfirst]
  | glyph x =>
    have hletter : (Operand.digit 0xF).text.toList = ['F'] := hplain 0xF (by decide)
    have hregister : (Operand.register x).text = registerText x := rfl
    simp [assembly, name, shown, hletter, hregister]
  | decimal x =>
    have hletter : (Operand.digit 0xB).text.toList = ['B'] := hplain 0xB (by decide)
    have hregister : (Operand.register x).text = registerText x := rfl
    simp [assembly, name, shown, hletter, hregister]
  | _ => simp [assembly, name, shown, Operand.text]

theorem length_name (i : Instruction) :
    i.name.toList.length = 5 ∨ i.name.toList.length ≤ 5 ∧ i.shown = [] := by
  cases i with
  | clear | ret => exact Or.inr ⟨by decide, rfl⟩
  | _ => simp [name]

/-! ### Reading a line -/

theorem filter_intercalate {α : Type} {p : α → Bool} (sep : List α) (texts : List (List α)) :
    (sep.intercalate texts).filter p = (sep.filter p).intercalate (texts.map (List.filter p)) := by
  induction texts with
  | nil => rfl
  | cons a rest ih =>
    cases rest with
    | nil => simp
    | cons b rest => simp [List.intercalate_cons_cons, ih]

/-- The operands of a line, found between the commas behind the name. -/
def readOperands (line : List Char) : List (Option Operand) :=
  match (line.drop 5).filter (· ≠ ' ') with
  | [] => []
  | rest => (rest.splitOn ',').map Operand.read

/-- The name fills its column, unless there is nothing behind it. -/
theorem column_assembly (i : Instruction) :
    i.assembly.toList.take 5 = i.name.toList ∧
      i.assembly.toList.drop 5 =
        [',', ' '].intercalate (i.shown.map fun o => o.text.toList) := by
  rw [toList_assembly]
  rcases i.length_name with hfull | ⟨hshort, hshown⟩
  · exact ⟨List.take_left' hfull, List.drop_left' hfull⟩
  · rw [hshown, List.map_nil, List.intercalate_nil, List.append_nil]
    exact ⟨List.take_of_length_le hshort, List.drop_of_length_le hshort⟩

theorem filter_texts (operands : List Operand) :
    ([',', ' '].intercalate (operands.map fun o => o.text.toList)).filter (· ≠ ' ') =
      [','].intercalate (operands.map fun o => o.text.toList) := by
  have hkept : ∀ o : Operand, o.text.toList.filter (· ≠ ' ') = o.text.toList := by
    intro o
    apply List.filter_eq_self.mpr
    intro c hc
    exact decide_eq_true (Operand.ne_of_mem_text hc).1
  rw [filter_intercalate, List.map_map]
  congr 1
  apply List.map_congr_left
  intro o _
  exact hkept o

theorem intercalate_texts_ne_nil (o : Operand) (rest : List Operand) :
    [','].intercalate ((o :: rest).map fun o => o.text.toList) ≠ [] := by
  have ho := o.text_ne_nil
  cases rest with
  | nil => simpa using ho
  | cons => simp [ho]

theorem readOperands_assembly (i : Instruction) :
    readOperands i.assembly.toList = i.shown.map some := by
  rw [readOperands, i.column_assembly.2, filter_texts]
  cases hshown : i.shown with
  | nil => rfl
  | cons o rest =>
    have hne := intercalate_texts_ne_nil o rest
    have hcommas : ∀ text ∈ (o :: rest).map (fun o => o.text.toList), ',' ∉ text := by
      intro text htext hcomma
      obtain ⟨a, _, rfl⟩ := List.mem_map.mp htext
      exact (Operand.ne_of_mem_text hcomma).2 rfl
    have hsplit := List.splitOn_intercalate ',' hcommas (List.cons_ne_nil _ _)
    split
    · contradiction
    · rw [hsplit, List.map_map]
      apply List.map_congr_left
      intro a _
      exact a.read_text

/-- The instruction with a name and operands; the second register of a shift is unknown. -/
def ofLine? (name : String) (operands : List Operand) : Option Instruction :=
  match name, operands with
  | "CLS", [] => some clear
  | "RET", [] => some ret
  | "SYS  ", [.address a] => some (sys a)
  | "JP   ", [.address a] => some (jump a)
  | "CALL ", [.address a] => some (call a)
  | "SE   ", [.register x, .byte b] => some (skipEqByte x b)
  | "SNE  ", [.register x, .byte b] => some (skipNeByte x b)
  | "SE   ", [.register x, .register y] => some (skipEqReg x y)
  | "LD   ", [.register x, .byte b] => some (loadByte x b)
  | "ADD  ", [.register x, .byte b] => some (addByte x b)
  | "LD   ", [.register x, .register y] => some (copy x y)
  | "OR   ", [.register x, .register y] => some (or x y)
  | "AND  ", [.register x, .register y] => some (and x y)
  | "XOR  ", [.register x, .register y] => some (xor x y)
  | "ADD  ", [.register x, .register y] => some (addReg x y)
  | "SUB  ", [.register x, .register y] => some (sub x y)
  | "SHR  ", [.register x] => some (shiftRight x 0)
  | "SUBN ", [.register x, .register y] => some (subFrom x y)
  | "SHL  ", [.register x] => some (shiftLeft x 0)
  | "SNE  ", [.register x, .register y] => some (skipNeReg x y)
  | "LD   ", [.index, .address a] => some (loadIndex a)
  | "JP   ", [.register _, .address a] => some (jumpOffset a)
  | "RND  ", [.register x, .byte b] => some (random x b)
  | "DRW  ", [.register x, .register y, .digit n] => some (draw x y n)
  | "SKP  ", [.register x] => some (skipPressed x)
  | "SKNP ", [.register x] => some (skipReleased x)
  | "LD   ", [.register x, .delay] => some (readDelay x)
  | "LD   ", [.register x, .key] => some (waitKey x)
  | "LD   ", [.delay, .register x] => some (setDelay x)
  | "LD   ", [.sound, .register x] => some (setSound x)
  | "ADD  ", [.index, .register x] => some (addIndex x)
  | "LD   ", [.digit n, .register x] => some (if n = 0xF then glyph x else decimal x)
  | "LD   ", [.memory, .register x] => some (store x)
  | "LD   ", [.register x, .memory] => some (load x)
  | _, _ => none

/-- An instruction with the operand that it does not use, if any, as zero. -/
def essential : Instruction → Instruction
  | shiftRight x _ => shiftRight x 0
  | shiftLeft x _ => shiftLeft x 0
  | i => i

theorem ofLine?_name_shown (i : Instruction) : ofLine? i.name i.shown = some i.essential := by
  cases i <;> rfl

theorem assembly_essential (i : Instruction) : i.essential.assembly = i.assembly := by
  cases i <;> rfl

/-- Two lines are alike if the instructions are, but for what they do not use. -/
theorem assembly_eq_iff {i j : Instruction} :
    i.assembly = j.assembly ↔ i.essential = j.essential := by
  constructor
  · intro h
    have hname : i.name = j.name := by
      apply String.toList_injective
      rw [← i.column_assembly.1, ← j.column_assembly.1, h]
    have hshown : i.shown = j.shown := by
      apply List.map_injective_iff.mpr (Option.some_injective _)
      rw [← readOperands_assembly, ← readOperands_assembly, h]
    apply Option.some_injective
    rw [← ofLine?_name_shown, ← ofLine?_name_shown, hname, hshown]
  · intro h
    rw [← assembly_essential i, ← assembly_essential j, h]

/-! ### Mnemonics and operands -/

def usedOperands (i : Instruction) : List Nat :=
  if i.mnemonic = "SHR" ∨ i.mnemonic = "SHL" then i.operands.take 1 else i.operands

/-- The instruction that asks for a call. No instruction asks for a random byte that no
register can take. -/
def ofRequest : Call → Instruction
  | .instruction i => i
  | .compare x value equal =>
    if equal then skipEqByte x (BitVec.ofInt 8 value) else skipNeByte x (BitVec.ofInt 8 value)
  | .drawRows x y rows => draw x y (Fin.ofNat 16 rows)
  | .pointAt address => loadIndex (BitVec.ofInt 16 address)
  | .waitFor slot => waitKey (Fin.ofNat 16 slot.toNat)
  | .store last => store (Fin.ofNat 16 last.toNat)
  | .load last => load (Fin.ofNat 16 last.toNat)
  | .randomInVain _ => random 0 0

theorem ofRequest_request (i : Instruction) : ofRequest i.request = i.essential := by
  cases i <;> simp [request, ofRequest, essential]

/-- The mnemonic and the operands tell any two instructions apart that differ in more than
an operand that is not used. -/
theorem essential_eq_of_operands {i j : Instruction} (hmnemonic : i.mnemonic = j.mnemonic)
    (hoperands : i.operands = j.operands) : i.essential = j.essential := by
  have hrequest : (Except.ok i.request : Except MachineError Call) = .ok j.request := by
    rw [← i.ofOperands_mnemonic, ← j.ofOperands_mnemonic, hmnemonic, hoperands]
  rw [← ofRequest_request, ← ofRequest_request, Except.ok.inj hrequest]

theorem mnemonic_essential (i : Instruction) : i.essential.mnemonic = i.mnemonic := by
  cases i <;> rfl

theorem essential_essential (i : Instruction) : i.essential.essential = i.essential := by
  cases i <;> rfl

theorem usedOperands_essential (i : Instruction) :
    i.essential.usedOperands = i.usedOperands := by
  cases i <;> rfl

theorem operands_essential (i : Instruction) :
    i.essential.operands =
      if i.mnemonic = "SHR" ∨ i.mnemonic = "SHL" then i.usedOperands ++ [0]
      else i.usedOperands := by
  cases i <;> rfl

theorem essential_eq_iff {i j : Instruction} :
    i.essential = j.essential ↔ i.mnemonic = j.mnemonic ∧ i.usedOperands = j.usedOperands := by
  constructor
  · intro h
    rw [← mnemonic_essential, ← usedOperands_essential, h, mnemonic_essential,
      usedOperands_essential]
    exact ⟨rfl, rfl⟩
  · rintro ⟨hmnemonic, hused⟩
    rw [← essential_essential i, ← essential_essential j]
    apply essential_eq_of_operands
    · rw [mnemonic_essential, mnemonic_essential, hmnemonic]
    · rw [operands_essential, operands_essential, hmnemonic, hused]

end Instruction

/-! ### Words -/

namespace Word

/-- The line of a word that is no instruction looks like no instruction. -/
theorem assembly_ne_data (i : Instruction) (w : Word) :
    i.assembly ≠ "DATA " ++ Hex.padded 4 w.toNat := by
  intro h
  have hname := i.column_assembly.1
  rw [h, String.toList_append, List.take_left' (by decide)] at hname
  cases i <;> simp [Instruction.name] at hname

/-- Words look alike if they are the same or stand for instructions that are the same but
for what they do not use. -/
theorem disassemble_eq_iff {a b : Word} :
    a.disassemble = b.disassemble ↔ a = b ∨ ∃ i j,
      Instruction.decode a = some i ∧ Instruction.decode b = some j ∧
        i.essential = j.essential := by
  unfold disassemble
  cases ha : Instruction.decode a with
  | none =>
    cases hb : Instruction.decode b with
    | none =>
      have hdata : "DATA " ++ Hex.padded 4 a.toNat = "DATA " ++ Hex.padded 4 b.toNat ↔ a = b := by
        rw [String.append_right_inj, (Hex.padded_injective 4).eq_iff, Int.ofNat_inj, BitVec.toNat_inj]
      simp [hdata]
    | some j =>
      have hne : a ≠ b := by
        rintro rfl
        cases ha.symm.trans hb
      simp [hne, (assembly_ne_data j a).symm]
  | some i =>
    cases hb : Instruction.decode b with
    | none =>
      have hne : a ≠ b := by
        rintro rfl
        cases ha.symm.trans hb
      simp [hne, assembly_ne_data i b]
    | some j =>
      have hsame : a = b → i.essential = j.essential := by
        rintro rfl
        cases ha.symm.trans hb
        rfl
      simp only [Instruction.assembly_eq_iff, Option.some.injEq, exists_and_left,
        exists_eq_left', or_iff_right_of_imp hsame]

end Word

namespace Machine

theorem perform_essential (m : Machine) (i : Instruction) :
    m.perform i.essential = m.perform i := by
  cases i <;> rfl

theorem executeWord_of_disassemble_eq {v w : Int}
    (h : Word.disassemble (BitVec.ofInt 16 v) = Word.disassemble (BitVec.ofInt 16 w))
    (m : Machine) : m.executeWord v = { m.executeWord w with operand := v } := by
  have hsame : m.execute (Instruction.ofInt? v) = m.execute (Instruction.ofInt? w) := by
    rcases Word.disassemble_eq_iff.mp h with hword | ⟨i, j, hi, hj, hij⟩
    · rw [Instruction.ofInt?, hword, Instruction.ofInt?]
    · rw [Instruction.ofInt?, hi, Instruction.ofInt?, hj, execute, execute,
        ← perform_essential _ i, ← perform_essential _ j, hij]
  rw [executeWord_eq, executeWord_eq, hsame]
  rfl

/-- Words look alike if they have the same low sixteen bits, or the same mnemonic and the
same operands but for the second one of a shift. Whatever the state, words that look alike
do the same; data never looks like an instruction, and no two mnemonics look alike. -/
theorem disassembly_faithful (v w : Int) :
    let text := fun n : Int => Word.disassemble (BitVec.ofInt 16 n)
    (text v = text w ↔ v % 65536 = w % 65536 ∨ ∃ i j,
      Instruction.ofInt? v = some i ∧ Instruction.ofInt? w = some j ∧
        i.mnemonic = j.mnemonic ∧ i.usedOperands = j.usedOperands) ∧
    (text v = text w → ∀ m : Machine, m.executeWord v = { m.executeWord w with operand := v }) ∧
    (∀ i, Instruction.ofInt? v = none → Instruction.ofInt? w = some i → text v ≠ text w) ∧
    (∀ i j, Instruction.ofInt? v = some i → Instruction.ofInt? w = some j →
      i.mnemonic ≠ j.mnemonic → text v ≠ text w) := by
  intro text
  have hlow : (BitVec.ofInt 16 v : Word) = BitVec.ofInt 16 w ↔ v % 65536 = w % 65536 := by
    rw [← BitVec.toNat_inj, Word.toNat_ofInt, Word.toNat_ofInt]
    omega
  have hdecode (h : v % 65536 = w % 65536) : Instruction.ofInt? v = Instruction.ofInt? w :=
    congrArg Instruction.decode (hlow.mpr h)
  have htext : text v = text w ↔ v % 65536 = w % 65536 ∨ ∃ i j,
      Instruction.ofInt? v = some i ∧ Instruction.ofInt? w = some j ∧
        i.mnemonic = j.mnemonic ∧ i.usedOperands = j.usedOperands := by
    simp only [text, Word.disassemble_eq_iff, hlow, Instruction.essential_eq_iff,
      Instruction.ofInt?]
  refine ⟨htext, executeWord_of_disassemble_eq, ?_, ?_⟩
  · intro i hv hw h
    rcases htext.mp h with hsame | ⟨k, l, hk, _⟩
    · cases hw.symm.trans ((hdecode hsame).symm.trans hv)
    · cases hv.symm.trans hk
  · intro i j hv hw hne h
    rcases htext.mp h with hsame | ⟨k, l, hk, hl, hkl, _⟩
    · cases hv.symm.trans ((hdecode hsame).trans hw)
      exact hne rfl
    · cases hv.symm.trans hk
      cases hw.symm.trans hl
      exact hne hkl

/-- Two shifts with different second registers, one of them in a negative word. -/
theorem disassembly_faithful_shifts :
    let m := initial ⟨.int 600, .int 1, .absent, ⟨[7]⟩⟩
    let v : Int := 0x8AB6 - 65536
    Word.disassemble (BitVec.ofInt 16 v) = Word.disassemble (BitVec.ofInt 16 0x8AC6) ∧
      m.executeWord v = { m.executeWord 0x8AC6 with operand := v } := by
  intro m v
  obtain ⟨hiff, halike, -⟩ := disassembly_faithful v 0x8AC6
  have htext := hiff.mpr
    (Or.inr ⟨.shiftRight 0xA 0xB, .shiftRight 0xA 0xC, by decide, by decide, rfl, rfl⟩)
  exact ⟨htext, halike htext m⟩

end Machine
end ChipEight
