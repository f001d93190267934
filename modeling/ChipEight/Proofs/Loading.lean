import ChipEight.Proofs.Action

/-!
# Loading

Bytes that are loaded into memory lie where they were asked to lie, and nothing else
changes. So a program that was written down word by word is fetched word by word, and of
several programs that overlap each byte is that of the last one to cover it.
-/

namespace ChipEight

def Word.bigEndian (w : Word) : List Byte := [BitVec.ofNat 8 (w.toNat / 256), w.byte]

/-- Bytes with a place in memory that has room for all of them. -/
structure Placement where
  bytes : List Byte
  offset : Nat
  fits : offset + bytes.length ≤ Memory.size

namespace Placement

def operation (p : Placement) : Operation :=
  .load (.integers (p.bytes.map fun b => (b.toNat : Int))) p.offset

def byteAt? (p : Placement) (a : Nat) : Option Byte :=
  if p.offset ≤ a then p.bytes[a - p.offset]? else none

/-- The byte of the last of several placements that has one for an address. -/
def lastByteAt? (ps : List Placement) (a : Nat) : Option Byte :=
  ps.reverse.findSome? fun p => p.byteAt? a

theorem lastByteAt?_cons (p : Placement) (ps : List Placement) (a : Nat) :
    lastByteAt? (p :: ps) a = (lastByteAt? ps a).or (p.byteAt? a) := by
  rw [lastByteAt?, List.reverse_cons, List.findSome?_append, List.findSome?_singleton]
  rfl

theorem byteAt?_add (p : Placement) {i : Nat} (hi : i < p.bytes.length) :
    p.byteAt? (p.offset + i) = some p.bytes[i] := by
  rw [byteAt?, if_pos (Nat.le_add_right _ _), Nat.add_sub_cancel_left,
    List.getElem?_eq_getElem hi]

theorem byteAt?_of_outside (p : Placement) {a : Nat}
    (ha : a < p.offset ∨ p.offset + p.bytes.length ≤ a) : p.byteAt? a = none := by
  unfold byteAt?
  split
  · exact List.getElem?_eq_none (by omega)
  · rfl

end Placement

namespace Memory

theorem read_writeBlock_of_fits (mem : Memory) (p : Placement) {a : Nat} (ha : a < 4096) :
    (mem.writeBlock p.offset p.bytes).read a = (p.byteAt? a).getD (mem.read a) := by
  have hfits : p.offset + p.bytes.length ≤ 4096 := p.fits
  by_cases hin : p.offset ≤ a ∧ a < p.offset + p.bytes.length
  · obtain ⟨i, rfl⟩ := Nat.exists_eq_add_of_le hin.1
    have hi : i < p.bytes.length := by omega
    rw [read_writeBlock _ _ _ _ (by omega) hi, p.byteAt?_add hi, Option.getD_some]
  · have hne : ∀ k, k < p.bytes.length → (p.offset + k) % 4096 ≠ a % 4096 := by
      intro k hk
      omega
    rw [read_writeBlock_of_forall_ne _ _ _ _ hne, p.byteAt?_of_outside (by omega),
      Option.getD_none]

theorem read_zero (a : Nat) : zero.read a = 0 := by
  simp [read, zero]

theorem read_initial {a : Nat} (ha : a < 4096) : initial.read a = font.getD a 0 := by
  have hread := read_writeBlock_of_fits zero ⟨font, 0, by decide⟩ ha
  rw [read_zero, Placement.byteAt?, if_pos (Nat.zero_le a)] at hread
  rw [List.getD_eq_getElem?_getD]
  exact hread

theorem readWord_toNat (mem : Memory) (a : Nat) :
    (mem.readWord a).toNat = 256 * (mem.read a).toNat + (mem.read (a + 1)).toNat := by
  have hhigh := (mem.read a).isLt
  have hlow := (mem.read (a + 1)).isLt
  rw [readWord, BitVec.toNat_ofNat]
  omega

end Memory

theorem getElem?_flatMap_bigEndian (words : List Word) (k : Nat) :
    (words.flatMap Word.bigEndian)[2 * k]? =
        words[k]?.map (fun w => BitVec.ofNat 8 (w.toNat / 256)) ∧
      (words.flatMap Word.bigEndian)[2 * k + 1]? = words[k]?.map Word.byte := by
  induction words generalizing k with
  | nil => exact ⟨rfl, rfl⟩
  | cons w words ih =>
    cases k with
    | zero => exact ⟨rfl, rfl⟩
    | succ k => exact ih k

theorem length_flatMap_bigEndian (words : List Word) :
    (words.flatMap Word.bigEndian).length = 2 * words.length := by
  induction words with
  | nil => rfl
  | cons w words ih =>
    rw [List.flatMap_cons, List.length_append, ih, List.length_cons]
    change 2 + _ = _
    omega

namespace Machine

def place (m : Machine) (p : Placement) : Machine :=
  { m with memory := m.memory.writeBlock p.offset p.bytes }

theorem apply_operation (m : Machine) (threshold : Level) (p : Placement) :
    (m.apply threshold p.operation).machine = m.place p ∧
      (m.apply threshold p.operation).answer = .ok .done := by
  have hroom : overruns p.bytes.length p.offset = false := by
    have hfits := p.fits
    simp only [overruns, decide_eq_false_iff_not]
    omega
  have hload : m.loadImage (.integers (p.bytes.map fun b => (b.toNat : Int))) p.offset =
      .ok (m.place p) := by
    rw [loadImage_of_fault?_eq_none rfl]
    exact (m.load_toNat p.bytes p.offset).trans (by rw [hroom]; rfl)
  simp only [apply, Placement.operation, outcome, hload]
  exact ⟨rfl, rfl⟩

theorem exists_placement {m n : Machine} {values : List Int} {offset : Int}
    (hload : m.load values offset = .ok n) : ∃ p : Placement,
      values = p.bytes.map (fun b => (b.toNat : Int)) ∧ offset = p.offset ∧ n = m.place p := by
  have hplaced := load_eq_ok hload
  unfold load imageBytes? at hload
  split_ifs at hload with hsize hbytes
  simp only [overruns, decide_eq_true_eq, not_or, Int.not_lt] at hsize
  obtain ⟨hlow, hhigh⟩ := hsize
  obtain ⟨place, rfl⟩ := Int.eq_ofNat_of_zero_le hlow
  refine ⟨⟨values.map (BitVec.ofInt 8), place, ?_⟩, ?_, rfl, hplaced⟩
  · rw [List.length_map]
    omega
  · rw [List.map_map, List.map_congr_left (g := id), List.map_id]
    intro n hn
    have hbyte := of_decide_eq_true (List.all_eq_true.mp hbytes n hn)
    change ((BitVec.ofInt 8 n).toNat : Int) = n
    rw [BitVec.toNat_ofInt]
    omega

theorem exists_placement_of_answer {m : Machine} {threshold : Level} {image : Image}
    {offset : Int} (h : (m.apply threshold (.load image offset)).answer = .ok .done) :
    ∃ p : Placement, image.values = p.bytes.map (fun b => (b.toNat : Int)) ∧
      offset = p.offset ∧ (m.apply threshold (.load image offset)).machine = m.place p := by
  simp only [apply, outcome] at h ⊢
  cases hload : m.loadImage image offset with
  | error e => rw [hload] at h; cases h
  | ok n => exact exists_placement (loadImage_eq_ok hload)

theorem after_operations (m : Machine) (threshold : Level) (ps : List Placement) :
    m.after threshold (ps.map Placement.operation) = ps.foldl place m := by
  induction ps generalizing m with
  | nil => rfl
  | cons p ps ih =>
    rw [List.foldl_cons, ← ih, ← (m.apply_operation threshold p).1]
    rfl

theorem foldl_place_eq (m : Machine) (ps : List Placement) :
    ps.foldl place m = { m with memory := (ps.foldl place m).memory } := by
  induction ps generalizing m with
  | nil => rfl
  | cons p ps ih => exact ih (m.place p)

theorem read_foldl_place (m : Machine) (ps : List Placement) {a : Nat} (ha : a < 4096) :
    (ps.foldl place m).memory.read a =
      (Placement.lastByteAt? ps a).getD (m.memory.read a) := by
  induction ps generalizing m with
  | nil => rfl
  | cons p ps ih =>
    have hfirst : (m.place p).memory.read a = (p.byteAt? a).getD (m.memory.read a) :=
      m.memory.read_writeBlock_of_fits p ha
    rw [List.foldl_cons, ih, hfirst, Placement.lastByteAt?_cons]
    cases Placement.lastByteAt? ps a <;> rfl

/-- The words of a program are fetched from where their bytes lie. -/
theorem fetch_place (m : Machine) {p : Placement} {words : List Word}
    (hwords : p.bytes = words.flatMap Word.bigEndian) {k : Nat} (hk : k < words.length) :
    fetch { m.place p with pc := BitVec.ofNat 16 (p.offset + 2 * k) } = words[k] := by
  have hfits : p.offset + p.bytes.length ≤ 4096 := p.fits
  have hlength := length_flatMap_bigEndian words
  obtain ⟨hhigh, hlow⟩ := getElem?_flatMap_bigEndian words k
  rw [← hwords] at hlength hhigh hlow
  have hpc : (BitVec.ofNat 16 (p.offset + 2 * k)).toNat = p.offset + 2 * k := by
    rw [BitVec.toNat_ofNat]
    omega
  have hread : ∀ i (hi : i < p.bytes.length),
      (m.place p).memory.read (p.offset + i) = p.bytes[i] := by
    intro i hi
    exact m.memory.read_writeBlock p.offset i p.bytes (by omega) hi
  rw [List.getElem?_eq_getElem hk, Option.map_some, List.getElem?_eq_some_iff] at hhigh hlow
  obtain ⟨hi, hhigh⟩ := hhigh
  obtain ⟨hj, hlow⟩ := hlow
  apply BitVec.eq_of_toNat_eq
  have hlt := words[k].isLt
  change ((m.place p).memory.readWord (BitVec.ofNat 16 (p.offset + 2 * k)).toNat).toNat = _
  rw [hpc, Memory.readWord_toNat, hread _ hi, Nat.add_assoc, hread _ hj, hhigh, hlow,
    BitVec.toNat_ofNat, Word.byte_toNat]
  omega

/-- Bytes that have room are loaded to where they are asked to lie, and nothing else changes;
nothing but bytes that have room is loaded. The word at the counter is made of the byte there
and the next one, which after the last is the first; so words that were loaded are fetched
again, wherever they lie. After several loads every byte is that of the last one to cover
it. -/
theorem loaded_words_are_fetched (m : Machine) (threshold : Level) :
    (∀ p : Placement,
      let o := m.apply threshold p.operation
      o.answer = .ok .done ∧ o.machine = { m with memory := o.machine.memory } ∧
      o.machine.memory.toList.length = 4096 ∧
      (∀ i (hi : i < p.bytes.length), o.machine.memory.read (p.offset + i) = p.bytes[i]) ∧
      (∀ a < 4096, a < p.offset ∨ p.offset + p.bytes.length ≤ a →
        o.machine.memory.read a = m.memory.read a) ∧
      ∀ words : List Word, p.bytes = words.flatMap Word.bigEndian →
        ∀ k (hk : k < words.length),
          fetch { o.machine with pc := BitVec.ofNat 16 (p.offset + 2 * k) } = words[k]) ∧
    (∀ (image : Image) (offset : Int),
      let o := m.apply threshold (.load image offset)
      o.answer = .ok .done → ∃ p : Placement,
        image.values = p.bytes.map (fun b => (b.toNat : Int)) ∧ offset = p.offset ∧
          o.machine = (m.apply threshold p.operation).machine) ∧
    (∀ pc : Word, (fetch { m with pc := pc }).toNat =
      256 * m.memory[pc.toNat % 4096].toNat + m.memory[(pc.toNat + 1) % 4096].toNat) ∧
    ∀ ps : List Placement,
      let n := m.after threshold (ps.map Placement.operation)
      n = { m with memory := n.memory } ∧
      ∀ a < 4096, n.memory.read a = (Placement.lastByteAt? ps a).getD (m.memory.read a) := by
  refine ⟨?_, ?_, ?_, ?_⟩
  · intro p o
    obtain ⟨hmachine, hanswer⟩ := m.apply_operation threshold p
    have hsize : p.bytes.length ≤ 4096 := Nat.le_trans (Nat.le_add_left _ _) p.fits
    rw [show o.machine = m.place p from hmachine]
    refine ⟨hanswer, rfl, Vector.length_toList, ?_, ?_, ?_⟩
    · intro i hi
      exact m.memory.read_writeBlock p.offset i p.bytes hsize hi
    · intro a ha hout
      have hread := m.memory.read_writeBlock_of_fits p ha
      rwa [p.byteAt?_of_outside hout] at hread
    · intro words hwords k hk
      exact m.fetch_place hwords hk
  · intro image offset o hdone
    obtain ⟨p, himage, hoffset, hmachine⟩ := exists_placement_of_answer hdone
    exact ⟨p, himage, hoffset, hmachine.trans (m.apply_operation threshold p).1.symm⟩
  · intro pc
    exact m.memory.readWord_toNat pc.toNat
  · intro ps n
    rw [show n = ps.foldl place m from m.after_operations threshold ps]
    exact ⟨m.foldl_place_eq ps, fun a ha => m.read_foldl_place ps ha⟩

/-- Three words at an odd place that end just before the last byte, two bytes over the middle
of them, and nothing at the end of memory. -/
theorem loaded_words_are_fetched_at_end_of_memory :
    let m := initial ⟨.int 600, .int 1, .absent, ⟨[7]⟩⟩
    let words : List Word := [0x1234, 0x5678, 0x9ABC]
    let p : Placement := ⟨words.flatMap Word.bigEndian, 4089, by decide⟩
    let patch : Placement := ⟨[0xEE, 0xFF], 4091, by decide⟩
    let empty : Placement := ⟨[], 4096, by decide⟩
    let o := m.apply .debug p.operation
    let n := m.after .debug ([p, patch, empty].map Placement.operation)
    fetch { o.machine with pc := BitVec.ofNat 16 (4089 + 2 * 2) } = 0x9ABC ∧
      o.machine.memory.read 4095 = m.memory.read 4095 ∧
      (fetch { m with pc := 0xFFF }).toNat = 0xF0 ∧
      (m.apply .debug empty.operation).answer = .ok .done ∧
      n.memory.read 4090 = 0x34 ∧ n.memory.read 4092 = 0xFF ∧ n.memory.read 4093 = 0x9A := by
  intro m words p patch empty o n
  obtain ⟨hload, -, hfetch, hlast⟩ := m.loaded_words_are_fetched .debug
  obtain ⟨-, -, -, -, hkept, hwords⟩ := hload p
  have hafter := (hlast [p, patch, empty]).2
  refine ⟨hwords words rfl 2 (by decide), hkept 4095 (by decide) (by decide), ?_,
    (hload empty).1, ?_, ?_, ?_⟩
  · exact (hfetch 0xFFF).trans (by decide +kernel)
  · exact hafter 4090 (by decide)
  · exact hafter 4092 (by decide)
  · exact hafter 4093 (by decide)

end Machine
end ChipEight
