import ChipEight.Instruction.Encoding
import Mathlib.Tactic.SplitIfs

/-!
# Decoding and encoding

A word is made of fields and can be put together from them again. So decoding an encoded
instruction gives it back, and encoding a decoded one gives the word back, but for the low
nibble where it is not used.
-/

namespace ChipEight

namespace Word

theorem family_lt (w : Word) : w.family < 16 := by
  have hlt := w.isLt
  unfold family
  omega

theorem toNat_ofInt (w : Int) : (BitVec.ofInt 16 w : Word).toNat = (w % 65536).toNat := by
  rw [BitVec.toNat_ofInt]
  rfl

theorem ofInt_emod (w : Int) : (BitVec.ofInt 16 (w % 65536) : Word) = BitVec.ofInt 16 w := by
  apply BitVec.eq_of_toNat_eq
  rw [toNat_ofInt, toNat_ofInt, Int.emod_emod]

end Word

namespace Instruction

section Fields

variable {family : Nat}

/-! ### Words put together from fields -/

theorem toNat_wordOfAddress (hfamily : family < 16) {address : Nat} (haddress : address < 4096) :
    (wordOfAddress family address).toNat = family * 4096 + address := by
  rw [wordOfAddress, BitVec.toNat_ofNat]
  omega

theorem toNat_wordOfByte (hfamily : family < 16) (x : Register) {byte : Nat}
    (hbyte : byte < 256) :
    (wordOfByte family x byte).toNat = family * 4096 + x * 256 + byte := by
  have hx := x.isLt
  rw [wordOfByte, BitVec.toNat_ofNat]
  omega

theorem toNat_wordOfNibbles (hfamily : family < 16) (x y : Register) {n : Nat} (hn : n < 16) :
    (wordOfNibbles family x y n).toNat = family * 4096 + x * 256 + y * 16 + n := by
  have hx := x.isLt
  have hy := y.isLt
  rw [wordOfNibbles, BitVec.toNat_ofNat]
  omega

theorem fields_wordOfAddress (hfamily : family < 16) {a : Word} (ha : a.toNat < 4096) :
    (wordOfAddress family a.toNat).family = family ∧
      (wordOfAddress family a.toNat).address = a := by
  have hword := toNat_wordOfAddress hfamily ha
  refine ⟨?_, BitVec.eq_of_toNat_eq ?_⟩
  · rw [Word.family, hword]
    omega
  · rw [Word.address_toNat, hword]
    omega

theorem fields_wordOfByte (hfamily : family < 16) (x : Register) {byte : Nat}
    (hbyte : byte < 256) :
    (wordOfByte family x byte).family = family ∧ (wordOfByte family x byte).x = x ∧
      (wordOfByte family x byte).toNat % 256 = byte := by
  have hword := toNat_wordOfByte hfamily x hbyte
  have hx := x.isLt
  refine ⟨?_, Fin.ext ?_, ?_⟩
  · rw [Word.family, hword]
    omega
  · rw [Word.x_val, hword]
    omega
  · rw [hword]
    omega

theorem byte_wordOfByte (hfamily : family < 16) (x : Register) (b : Byte) :
    (wordOfByte family x b.toNat).byte = b := by
  apply BitVec.eq_of_toNat_eq
  rw [Word.byte_toNat, (fields_wordOfByte hfamily x b.isLt).2.2]

theorem fields_wordOfNibbles (hfamily : family < 16) (x y : Register) {n : Nat} (hn : n < 16) :
    (wordOfNibbles family x y n).family = family ∧ (wordOfNibbles family x y n).x = x ∧
      (wordOfNibbles family x y n).y = y ∧ (wordOfNibbles family x y n).toNat % 16 = n := by
  have hword := toNat_wordOfNibbles hfamily x y hn
  have hx := x.isLt
  have hy := y.isLt
  refine ⟨?_, Fin.ext ?_, Fin.ext ?_, ?_⟩
  · rw [Word.family, hword]
    omega
  · rw [Word.x_val, hword]
    omega
  · rw [Word.y_val, hword]
    omega
  · rw [hword]
    omega

end Fields

theorem decode_encode {i : Instruction} (h : i.Encodable) : decode i.encode = some i := by
  cases i with
  | clear | ret => rfl
  | sys a =>
    obtain ⟨hlt, hclear, hret⟩ := h
    obtain ⟨hfamily, haddress⟩ := fields_wordOfAddress (show 0x0 < 16 by decide) hlt
    have hword := toNat_wordOfAddress (show 0x0 < 16 by decide) hlt
    rw [Nat.zero_mul, Nat.zero_add] at hword
    simp only [encode, decode, hfamily, haddress, hword, if_neg hclear, if_neg hret]
  | jump a | call a | loadIndex a | jumpOffset a =>
    simp [encode, decode, fields_wordOfAddress _ h]
  | skipEqByte x b | skipNeByte x b | loadByte x b | addByte x b | random x b =>
    simp [encode, decode, fields_wordOfByte _ x b.isLt, byte_wordOfByte]
  | skipEqReg x y | skipNeReg x y =>
    simp [encode, decode, fields_wordOfNibbles]
  | copy x y | or x y | and x y | xor x y | addReg x y | sub x y | shiftRight x y
  | subFrom x y | shiftLeft x y =>
    simp [encode, decode, fields_wordOfNibbles, decodeArithmetic]
  | draw x y n =>
    simp [encode, decode, fields_wordOfNibbles, Word.nibble]
  | skipPressed x | skipReleased x =>
    simp [encode, decode, fields_wordOfByte, decodeKeypad]
  | readDelay x | waitKey x | setDelay x | setSound x | addIndex x | glyph x | decimal x
  | store x | load x =>
    simp [encode, decode, fields_wordOfByte, decodeTransfer]

theorem ofInt?_encode {i : Instruction} (h : i.Encodable) : ofInt? i.encode.toNat = some i := by
  rw [ofInt?_toNat]
  exact decode_encode h

/-! ### Words taken apart -/

theorem wordOfAddress_fields (w : Word) : wordOfAddress w.family w.address.toNat = w := by
  have hlt := w.isLt
  apply BitVec.eq_of_toNat_eq
  rw [wordOfAddress, BitVec.toNat_ofNat, Word.address_toNat, Word.family]
  omega

theorem wordOfByte_fields (w : Word) : wordOfByte w.family w.x (w.toNat % 256) = w := by
  have hlt := w.isLt
  apply BitVec.eq_of_toNat_eq
  rw [wordOfByte, BitVec.toNat_ofNat, Word.x_val, Word.family]
  omega

theorem wordOfNibbles_fields (w : Word) :
    wordOfNibbles w.family w.x w.y (w.toNat % 16) = w := by
  have hlt := w.isLt
  apply BitVec.eq_of_toNat_eq
  rw [wordOfNibbles, BitVec.toNat_ofNat, Word.x_val, Word.y_val, Word.family]
  omega

/-- A word with its low nibble zero where that is not used, in the comparisons of two
registers. -/
def canonical (w : Word) : Word :=
  if w.family = 0x5 ∨ w.family = 0x9 then wordOfNibbles w.family w.x w.y 0 else w

theorem encode_of_decodeArithmetic {w : Word} (hfamily : w.family = 0x8) {i : Instruction}
    (h : decodeArithmetic w.x w.y (w.toNat % 16) = some i) : i.Encodable ∧ i.encode = w := by
  have hword := wordOfNibbles_fields w
  rw [hfamily] at hword
  unfold decodeArithmetic at h
  split at h <;> cases h
  all_goals
    rename_i hnibble
    rw [hnibble] at hword
    exact ⟨trivial, hword⟩

theorem encode_of_decodeKeypad {w : Word} (hfamily : w.family = 0xE) {i : Instruction}
    (h : decodeKeypad w.x (w.toNat % 256) = some i) : i.Encodable ∧ i.encode = w := by
  have hword := wordOfByte_fields w
  rw [hfamily] at hword
  unfold decodeKeypad at h
  split at h <;> cases h
  all_goals
    rename_i hbyte
    rw [hbyte] at hword
    exact ⟨trivial, hword⟩

theorem encode_of_decodeTransfer {w : Word} (hfamily : w.family = 0xF) {i : Instruction}
    (h : decodeTransfer w.x (w.toNat % 256) = some i) : i.Encodable ∧ i.encode = w := by
  have hword := wordOfByte_fields w
  rw [hfamily] at hword
  unfold decodeTransfer at h
  split at h <;> cases h
  all_goals
    rename_i hbyte
    rw [hbyte] at hword
    exact ⟨trivial, hword⟩

theorem address_lt (w : Word) : w.address.toNat < 4096 := by
  rw [Word.address_toNat]
  exact Nat.mod_lt _ (by decide)

theorem encode_of_decodeSystem {w : Word} (hfamily : w.family = 0x0) {i : Instruction}
    (h : (if w.toNat = 0x00E0 then some clear
      else if w.toNat = 0x00EE then some ret else some (sys w.address)) = some i) :
    i.Encodable ∧ i.encode = w := by
  have hword := wordOfAddress_fields w
  rw [hfamily] at hword
  have hsys : w.address.toNat = w.toNat := by
    rw [Word.address_toNat]
    unfold Word.family at hfamily
    omega
  split_ifs at h with hclear hret <;> cases h
  · exact ⟨trivial, BitVec.eq_of_toNat_eq hclear.symm⟩
  · exact ⟨trivial, BitVec.eq_of_toNat_eq hret.symm⟩
  · exact ⟨⟨address_lt w, hsys ▸ hclear, hsys ▸ hret⟩, hword⟩

/-- A word is the encoding of what it decodes to, with a low nibble that is not used as
zero. -/
theorem encode_of_decode {w : Word} {i : Instruction} (h : decode w = some i) :
    i.Encodable ∧ i.encode = canonical w := by
  have haddress := wordOfAddress_fields w
  have hbyte := wordOfByte_fields w
  rw [← Word.byte_toNat] at hbyte
  unfold decode at h
  rw [canonical]
  split at h
  case h_1 hfamily =>
    rw [if_neg (by rw [hfamily]; decide)]
    exact encode_of_decodeSystem hfamily h
  case h_2 hfamily | h_3 hfamily | h_11 hfamily | h_12 hfamily =>
    cases h
    rw [hfamily] at haddress ⊢
    exact ⟨address_lt w, haddress⟩
  case h_4 hfamily | h_5 hfamily | h_7 hfamily | h_8 hfamily | h_13 hfamily =>
    cases h
    rw [hfamily] at hbyte ⊢
    exact ⟨trivial, hbyte⟩
  case h_6 hfamily | h_10 hfamily =>
    cases h
    rw [hfamily]
    exact ⟨trivial, rfl⟩
  case h_9 hfamily =>
    rw [if_neg (by rw [hfamily]; decide)]
    exact encode_of_decodeArithmetic hfamily h
  case h_14 hfamily =>
    have hnibbles := wordOfNibbles_fields w
    cases h
    rw [hfamily] at hnibbles ⊢
    exact ⟨trivial, hnibbles⟩
  case h_15 hfamily =>
    rw [if_neg (by rw [hfamily]; decide)]
    exact encode_of_decodeKeypad hfamily h
  case h_16 =>
    -- Of the sixteen families only the last one is left for the last arm.
    have hlt := w.family_lt
    have hfamily : w.family = 0xF := by grind
    rw [if_neg (by rw [hfamily]; decide)]
    exact encode_of_decodeTransfer hfamily h

/-! ### Words that are no instruction -/

theorem decodeArithmetic_eq_none_iff (x y : Register) {n : Nat} (hn : n < 16) :
    decodeArithmetic x y n = none ↔ 0x8 ≤ n ∧ n ≤ 0xD ∨ n = 0xF := by
  unfold decodeArithmetic
  split <;> grind

theorem decodeKeypad_eq_none_iff (x : Register) (n : Nat) :
    decodeKeypad x n = none ↔ n ∉ [0x9E, 0xA1] := by
  unfold decodeKeypad
  split <;> grind

theorem decodeTransfer_eq_none_iff (x : Register) (n : Nat) :
    decodeTransfer x n = none ↔
      n ∉ [0x07, 0x0A, 0x15, 0x18, 0x1E, 0x29, 0x33, 0x55, 0x65] := by
  simp only [List.mem_cons, List.not_mem_nil, or_false]
  unfold decodeTransfer
  split <;> grind

theorem decode_eq_none_iff (w : Word) :
    decode w = none ↔
      w.family = 0x8 ∧ (0x8 ≤ w.toNat % 16 ∧ w.toNat % 16 ≤ 0xD ∨ w.toNat % 16 = 0xF) ∨
      w.family = 0xE ∧ w.toNat % 256 ∉ [0x9E, 0xA1] ∨
      w.family = 0xF ∧
        w.toNat % 256 ∉ [0x07, 0x0A, 0x15, 0x18, 0x1E, 0x29, 0x33, 0x55, 0x65] := by
  rw [← decodeArithmetic_eq_none_iff w.x w.y (Nat.mod_lt _ (by decide)),
    ← decodeKeypad_eq_none_iff w.x, ← decodeTransfer_eq_none_iff w.x]
  unfold decode
  split
  case h_1 hfamily => split_ifs <;> simp [hfamily]
  case h_16 =>
    have hlt := w.family_lt
    have hfamily : w.family = 0xF := by grind
    simp [hfamily]
  all_goals
    rename_i hfamily
    simp [hfamily]

/-! ### Operation words -/

theorem toNat_canonical (w : Word) :
    (canonical w).toNat =
      if w.family = 0x5 ∨ w.family = 0x9 then w.toNat - w.toNat % 16 else w.toNat := by
  unfold canonical
  split_ifs
  · have hlt := w.isLt
    rw [toNat_wordOfNibbles w.family_lt w.x w.y (by decide), Word.x_val, Word.y_val, Word.family]
    omega
  · rfl

/-- The decoder reads the instructions whose operands fit, each from its word. It reads
nothing else into any integer, in which bits above the sixteenth do not count, except that it
passes over the low nibble in the comparisons of two registers. -/
theorem decoding_inverts_encoding (w : Int) (i : Instruction) :
    let low := w % 65536
    ofInt? w = ofInt? low ∧
    (i.Encodable → ofInt? i.encode.toNat = some i) ∧
    (ofInt? w = some i → i.Encodable ∧
      (i.encode.toNat : Int) =
        if low / 4096 = 0x5 ∨ low / 4096 = 0x9 then low - low % 16 else low) ∧
    (ofInt? w = none ↔
      low / 4096 = 0x8 ∧ (0x8 ≤ low % 16 ∧ low % 16 ≤ 0xD ∨ low % 16 = 0xF) ∨
      low / 4096 = 0xE ∧ low % 256 ∉ [0x9E, 0xA1] ∨
      low / 4096 = 0xF ∧
        low % 256 ∉ [0x07, 0x0A, 0x15, 0x18, 0x1E, 0x29, 0x33, 0x55, 0x65]) := by
  intro low
  have hlow : ((BitVec.ofInt 16 w).toNat : Int) = low := by
    rw [Word.toNat_ofInt, Int.toNat_of_nonneg (Int.emod_nonneg w (by decide))]
  refine ⟨?_, ofInt?_encode, ?_, ?_⟩
  · exact congrArg decode (Word.ofInt_emod w).symm
  · intro h
    obtain ⟨hfits, hcode⟩ := encode_of_decode h
    refine ⟨hfits, ?_⟩
    rw [hcode, toNat_canonical, Word.family]
    split_ifs <;> omega
  · rw [ofInt?, decode_eq_none_iff, Word.family, ← hlow]
    generalize (BitVec.ofInt 16 w).toNat = word
    refine or_congr (and_congr ?_ ?_) (or_congr (and_congr ?_ ?_) (and_congr ?_ ?_))
    · omega
    · omega
    · omega
    · simp only [List.mem_cons, List.not_mem_nil, or_false]
      omega
    · omega
    · simp only [List.mem_cons, List.not_mem_nil, or_false]
      omega

/-- A negative word with bits above the sixteenth, a nibble that is not used, and a word that
is no instruction. -/
theorem decoding_inverts_encoding_of_negative :
    ofInt? (0x5AB7 - 3 * 65536) = some (.skipEqReg 0xA 0xB) ∧
      (skipEqReg 0xA 0xB).encode.toNat = 0x5AB0 ∧
      ofInt? (sys 0x0E1).encode.toNat = some (.sys 0x0E1) ∧ ofInt? 0xFA64 = none := by
  obtain ⟨-, -, hdecoded, -⟩ := decoding_inverts_encoding (0x5AB7 - 3 * 65536) (.skipEqReg 0xA 0xB)
  obtain ⟨-, hencoded, -, hnone⟩ := decoding_inverts_encoding 0xFA64 (.sys 0x0E1)
  have hword : ofInt? (0x5AB7 - 3 * 65536) = some (.skipEqReg 0xA 0xB) := by decide
  refine ⟨hword, ?_, hencoded ⟨by decide, by decide, by decide⟩, hnone.mpr (by decide)⟩
  exact Int.ofNat_inj.mp (hdecoded hword).2

end Instruction
end ChipEight
