import ChipEight.Proofs.Resolution
import ChipEight.Proofs.WellFormed

/-!
# Rejections

When an operation is rejected and for what cause. Everything that can be wrong is looked at
before anything is written: a key before it goes down, an image before it is copied, a time
before the first cycle, and each pixel of a picture before the display counts as shown. So a
rejected operation leaves the machine as it is.
-/

namespace ChipEight

/-- Whether an offer is one of the keys, with the truth values as numbers. -/
def KeyOffer.IsKey (o : KeyOffer) : Prop :=
  (∃ n : Int, o = .number (.int n) ∧ 0 ≤ n ∧ n ≤ 15) ∨ ∃ b, o = .flag b

theorem KeyOffer.key?_eq_none_iff {o : KeyOffer} : o.key? = none ↔ ¬o.IsKey := by
  cases o with
  | nothing | text s => simp [key?, integer?, IsKey]
  | flag b =>
    have hsome : (flag b).key? ≠ none := by cases b <;> decide
    simp [hsome, IsKey]
  | number n =>
    cases n with
    | float x => simp [key?, integer?, IsKey]
    | int n =>
      have hbound : 0 ≤ n ∧ n < 16 ↔ 0 ≤ n ∧ n ≤ 15 := by omega
      simp only [key?, integer?, Option.bind_some, Instruction.nibble?, hbound]
      split_ifs with hkey <;> simp [IsKey, hkey]

namespace Machine

variable (m : Machine) (threshold : Level)

/-! ### Programs -/

theorem imageBytes?_eq_none_iff {values : List Int} :
    imageBytes? values = none ↔ ∃ n ∈ values, n < 0 ∨ 255 < n := by
  have hbad : ∀ n : Int, ¬(0 ≤ n ∧ n < 256) ↔ n < 0 ∨ 255 < n := by omega
  simp [imageBytes?, ← hbad]

theorem overruns_iff {size : Nat} {offset : Int} :
    overruns size offset = true ↔ offset < 0 ∨ 4096 < offset + size :=
  decide_eq_true_iff

theorem load_eq_error_iff {values : List Int} {offset : Int} {e : MachineError} :
    m.load values offset = .error e ↔
      (offset < 0 ∨ 4096 < offset + values.length) ∧
        e = .programTooLarge values.length offset 4096 ∨
      ¬(offset < 0 ∨ 4096 < offset + values.length) ∧ (∃ n ∈ values, n < 0 ∨ 255 < n) ∧
        e = .byteOutOfRange := by
  rw [← overruns_iff, ← imageBytes?_eq_none_iff, load]
  by_cases hsize : overruns values.length offset
  · simp [hsize, Memory.size, eq_comm]
  · cases hbytes : imageBytes? values <;> simp [hsize, eq_comm]

/-! ### Calls -/

theorem isPlace_of_result {c : Call} {e : MachineError} (hc : ∀ e, c ≠ .randomInVain e)
    (h : c.result = .error e) : e.isPlace = true := by
  cases c with
  | store last | load last =>
    simp only [Call.result] at h
    split_ifs at h
    cases h
    rfl
  | randomInVain e => exact absurd rfl (hc e)
  | _ => cases h

theorem isPlace_of_result_rolling {x : Int} {mask : Byte} {e : MachineError}
    (h : (Call.rolling x mask).result = .error e) : e.isPlace = true := by
  unfold Call.rolling at h
  cases hx : register? .write x with
  | ok a => rw [hx] at h; cases h
  | error e' =>
    rw [hx] at h
    cases h
    exact Call.isPlace_of_register? hx

theorem result_of_map {r : Except MachineError Unit} {e : MachineError}
    (h : r.map (fun _ => Answer.done) = .error e) : r = .error e := by
  cases r with
  | error e' => cases h; rfl
  | ok _ => cases h

/-- With the right number of operands, only the number of a register can be wrong. -/
theorem isPlace_of_fitting {i : Instruction} {s : Signature} {operands : List Int}
    (hs : Signature.ofMnemonic? i.mnemonic = some s) (hfit : s.accepts operands = true)
    {e : MachineError}
    (h : ((Call.ofFitting i.mnemonic operands).bind fun c =>
      c.result.map fun _ => Answer.done) = .error e) : e.isPlace = true := by
  rcases Call.resolves_ofFitting hs hfit with hresolves | ⟨_, x, mask, hrolling⟩
  · cases hcall : Call.ofFitting i.mnemonic operands with
    | error e' =>
      rw [hcall] at h hresolves
      cases h
      exact hresolves
    | ok c =>
      rw [hcall] at h hresolves
      exact isPlace_of_result hresolves (result_of_map h)
  · rw [hrolling] at h
    exact isPlace_of_result_rolling (result_of_map h)

theorem answer_call (name : String) (operands : List Int) :
    (m.apply threshold (.call name operands)).answer =
      (Call.ofOperands name operands).bind fun c => c.result.map fun _ => .done := by
  simp only [apply, outcome]
  cases Call.ofOperands name operands <;> rfl

/-- A mnemonic is unknown if no instruction has it, whatever the operands. -/
theorem answer_call_eq_unknownMnemonic_iff (name : String) (operands : List Int) :
    (m.apply threshold (.call name operands)).answer = .error (.unknownMnemonic name) ↔
      ∀ i : Instruction, i.mnemonic ≠ name := by
  rw [← Instruction.ofMnemonic?_eq_none_iff, answer_call, Call.ofOperands]
  cases hs : Signature.ofMnemonic? name with
  | none => exact ⟨fun _ => rfl, fun _ => rfl⟩
  | some s =>
    obtain ⟨i, rfl⟩ := Instruction.exists_mnemonic hs
    refine ⟨fun herror => ?_, fun hnone => by cases hnone⟩
    dsimp only at herror
    split_ifs at herror with hfit
    · cases isPlace_of_fitting hs hfit herror
    · cases herror

/-! ### Times -/

theorem eq_integerTooLarge_of_toBinary64 {x : Number} {e : ArithmeticError}
    (h : x.toBinary64 = .error e) : e = .integerTooLarge := by
  cases x with
  | float x => cases h
  | int n =>
    simp only [Number.toBinary64, Binary64.ofInt] at h
    split at h <;> cases h
    rfl

theorem eq_integerTooLarge_of_mul {x y : Number} {e : ArithmeticError} (h : x.mul y = .error e) :
    e = .integerTooLarge := by
  have hfloats : (x.toBinary64 >>= fun a => y.toBinary64 >>= fun b =>
      Except.ok (Number.float (a.mul b))) = .error e → e = .integerTooLarge := by
    cases hx : x.toBinary64 with
    | error e' =>
      rintro ⟨⟩
      exact eq_integerTooLarge_of_toBinary64 hx
    | ok a =>
      cases hy : y.toBinary64 with
      | error e' =>
        rintro ⟨⟩
        exact eq_integerTooLarge_of_toBinary64 hy
      | ok b => rintro ⟨⟩
  cases x with
  | float a => exact hfloats h
  | int m =>
    cases y with
    | float b => exact hfloats h
    | int n => cases h

theorem eq_integerTooLarge_of_addHalf {x : Number} {e : ArithmeticError}
    (h : x.addHalf = .error e) : e = .integerTooLarge := by
  unfold Number.addHalf at h
  cases hx : x.toBinary64 with
  | error e' =>
    rw [hx] at h
    cases h
    exact eq_integerTooLarge_of_toBinary64 hx
  | ok a => rw [hx] at h; cases h

theorem eq_integerTooLarge_of_bind {x y : Number} {e : ArithmeticError}
    (h : (x.mul y).bind Number.addHalf = .error e) : e = .integerTooLarge := by
  cases hproduct : x.mul y with
  | error e' =>
    rw [hproduct] at h
    cases h
    exact eq_integerTooLarge_of_mul hproduct
  | ok product =>
    rw [hproduct] at h
    exact eq_integerTooLarge_of_addHalf h

/-- A positive time has no number of cycles if its product with the rate cannot be computed
or is not a finite number. -/
theorem cyclesFor_eq_error_iff (seconds : Number) (e : ArithmeticError) :
    let value := (seconds.mul m.settings.cycleRate).bind Number.addHalf
    m.cyclesFor seconds = .error e ↔ seconds.le (.int 0) = false ∧
      (value = .error .integerTooLarge ∧ e = .integerTooLarge ∨
        value = .ok .nan ∧ e = .integerOfNan ∨
        (∃ negative, value = .ok (.infinite negative)) ∧ e = .integerOfInfinity) := by
  intro value
  have hcycles : m.cyclesFor seconds =
      if seconds.le (.int 0) then .ok 0
      else value.bind fun shifted => shifted.integral.map Rat.floor := by
    simp only [cyclesFor, value]
    cases seconds.le (.int 0) with
    | true => rfl
    | false =>
      cases seconds.mul m.settings.cycleRate with
      | error e' => rfl
      | ok product =>
        change product.addHalf.bind (fun shifted =>
          shifted.integral.bind fun value => .ok value.floor) = _
        rfl
  rw [hcycles]
  cases seconds.le (.int 0) with
  | true => simp
  | false =>
    cases hvalue : value with
    | error e' =>
      cases eq_integerTooLarge_of_bind hvalue
      simp [Except.bind, eq_comm]
    | ok x =>
      cases x <;> simp [Except.bind, Binary64.integral, Except.map, eq_comm]

/-! ### Pictures -/

def lookUpCell (v : Viewport) (window : Surface) (cell : Nat × Nat) :
    Except MachineError Surface := do
  let lit ← m.pixel cell.1 cell.2
  return if lit then v.paintCell Canvas.standard cell.1 cell.2 true window else window

/-- A window painted cell by cell, each one looked up when it is its turn. -/
def paintLookedUp (v : Viewport) (window : Surface) : Except MachineError Surface :=
  v.cells.foldlM (m.lookUpCell v) (Canvas.standard.clear window)

theorem pixel_natCast {x y : Nat} (hx : x ≤ 0x7FFFFFFFFFFFFFFF) (hy : y ≤ 0x7FFFFFFFFFFFFFFF) :
    m.pixel x y =
      if x < 64 ∧ y < 32 then .ok (m.display.isLit x y) else .error (.outOfRange .read) := by
  have hplace : ∀ {length n : Nat}, n ≤ 0x7FFFFFFFFFFFFFFF → place? .read length n =
      if n < length then .ok n else .error (.outOfRange .read) := by
    intro length n hn
    have hfits : Width.fits64 n = true := decide_eq_true (by omega)
    have hneg : ¬(n : Int) < 0 := by omega
    simp [place?, hfits, hneg]
  by_cases hinside : x < 64 ∧ y < 32
  · rw [if_pos hinside, m.pixel_of_lt hinside.1 hinside.2]
  · rw [if_neg hinside, pixel, hplace hx, hplace hy]
    by_cases hcolumn : x < Display.width
    · have hrow : ¬y < Display.height := fun hrow => hinside ⟨hcolumn, hrow⟩
      rw [if_pos hcolumn, if_neg hrow]
      rfl
    · rw [if_neg hcolumn]
      rfl

/-- A cell that the display has is painted, and another one stops the painting. -/
theorem foldlM_lookUpCell (v : Viewport) {cells : List (Nat × Nat)}
    (hcells : ∀ cell ∈ cells, cell.1 ≤ 0x7FFFFFFFFFFFFFFF ∧ cell.2 ≤ 0x7FFFFFFFFFFFFFFF)
    (window : Surface) :
    cells.foldlM (m.lookUpCell v) window =
      if ∀ cell ∈ cells, cell.1 < 64 ∧ cell.2 < 32 then
        .ok (cells.foldl (v.paintLit Canvas.standard m.display) window)
      else .error (.outOfRange .read) := by
  induction cells generalizing window with
  | nil => rfl
  | cons cell rest ih =>
    obtain ⟨⟨hx, hy⟩, hrest⟩ := List.forall_mem_cons.mp hcells
    rw [List.foldlM_cons, lookUpCell, m.pixel_natCast hx hy]
    by_cases hcell : cell.1 < 64 ∧ cell.2 < 32
    · rw [if_pos hcell]
      simp only [List.forall_mem_cons, hcell, true_and, List.foldl_cons]
      exact ih hrest _
    · rw [if_neg hcell, if_neg fun h => hcell (h cell List.mem_cons_self)]
      rfl

theorem fits_iff {v : Viewport} :
    v.fits = true ↔ v.width ≤ 0 ∨ v.height ≤ 0 ∨ (v.width ≤ 64 ∧ v.height ≤ 32) :=
  decide_eq_true_iff

theorem fits_iff_forall_mem_cells {v : Viewport} :
    v.fits = true ↔ ∀ cell ∈ v.cells, cell.1 < 64 ∧ cell.2 < 32 := by
  rw [fits_iff]
  constructor
  · rintro hsmall ⟨x, y⟩ hcell
    obtain ⟨hx, hy⟩ := Viewport.mem_cells.mp hcell
    dsimp only
    omega
  · intro hall
    by_contra hlarge
    have hlast : ((v.width - 1).toNat, (v.height - 1).toNat) ∈ v.cells :=
      Viewport.mem_cells.mpr ⟨by omega, by omega⟩
    obtain ⟨hx, hy⟩ := hall _ hlast
    dsimp only at hx hy
    omega

theorem le_of_opened {v : Viewport} {window : Surface} (hratio : 1 ≤ v.ratio)
    (hopened : v.opened = .ok window) :
    ∀ cell ∈ v.cells, cell.1 ≤ 0x7FFFFFFFFFFFFFFF ∧ cell.2 ≤ 0x7FFFFFFFFFFFFFFF := by
  rintro ⟨x, y⟩ hcell
  obtain ⟨hx, hy⟩ := Viewport.mem_cells.mp hcell
  unfold Viewport.opened at hopened
  dsimp only at hopened
  split_ifs at hopened with hwide hneg
  have hwidth : v.width ≤ v.width * v.ratio := le_mul_of_one_le_right (by omega) hratio
  have hheight : v.height ≤ v.height * v.ratio := le_mul_of_one_le_right (by omega) hratio
  simp [Width.fits64] at hwide
  dsimp only
  omega

theorem picture_eq {v : Viewport} {window : Surface} (hratio : 1 ≤ v.ratio)
    (hopened : v.opened = .ok window) : m.picture v = m.paintLookedUp v window := by
  rw [paintLookedUp, m.foldlM_lookUpCell v (le_of_opened hratio hopened), picture, hopened]
  simp only [fits_iff_forall_mem_cells]
  rfl

/-! ### Every operation -/

variable {m threshold}

/-- A direct call that is rejected leaves no trace, unless a register does not exist. -/
theorem call_eq_of_answer_eq_error {name : String} {operands : List Int} {e : MachineError}
    (herror : (m.apply threshold (.call name operands)).answer = .error e)
    (hplace : e.isPlace = false) :
    (m.apply threshold (.call name operands)).machine = m ∧
      (m.apply threshold (.call name operands)).log = [] := by
  cases hcall : Call.ofOperands name operands with
  | error e' =>
    simp only [apply, outcome, hcall]
    exact ⟨rfl, rfl⟩
  | ok c =>
    rw [answer_call] at herror
    unfold Call.ofOperands at hcall herror
    cases hs : Signature.ofMnemonic? name with
    | none => rw [hs] at hcall; cases hcall
    | some s =>
      obtain ⟨i, rfl⟩ := Instruction.exists_mnemonic hs
      simp only [hs] at hcall herror
      split_ifs at hcall with hfit
      rw [if_pos hfit] at herror
      rw [isPlace_of_fitting hs hfit herror] at hplace
      cases hplace

/-- What is asked of a well-formed machine is either done or leaves no trace, unless it is a
direct call with a register that does not exist. -/
theorem eq_of_answer_eq_error (h : m.WellFormed) {op : Operation} {e : MachineError}
    (herror : (m.apply threshold op).answer = .error e)
    (hcall : ∀ name operands, op = .call name operands → e.isPlace = false) :
    (m.apply threshold op).machine = m ∧ (m.apply threshold op).log = [] := by
  cases op with
  | load image offset =>
    simp only [apply, outcome] at herror ⊢
    cases hload : m.loadImage image offset with
    | ok n => rw [hload] at herror; cases herror
    | error e' => exact ⟨rfl, rfl⟩
  | run seconds | count seconds =>
    simp only [apply, outcome] at herror ⊢
    cases hcount : m.cyclesFor seconds with
    | ok count => rw [hcount] at herror; cases herror
    | error e' => exact ⟨rfl, rfl⟩
  | call name operands => exact call_eq_of_answer_eq_error herror (hcall name operands rfl)
  | press offer =>
    simp only [apply, outcome] at herror ⊢
    cases hkey : offer.key? with
    | none => exact ⟨rfl, rfl⟩
    | some k =>
      simp only [hkey, h.pressResult] at herror
      cases herror
  | release offer =>
    simp only [apply, outcome] at herror ⊢
    cases hkey : offer.key? with
    | none => exact ⟨rfl, rfl⟩
    | some k => rw [hkey] at herror; cases herror
  | event event =>
    simp only [apply, outcome, h.handleResult] at herror
    cases herror
  | render view =>
    simp only [apply, outcome] at herror ⊢
    cases hpicture : m.picture view with
    | ok window => rw [hpicture] at herror; cases herror
    | error e' => exact ⟨rfl, rfl⟩
  | pixel x y => exact ⟨rfl, rfl⟩
  | _ => cases herror

theorem answer_load_eq_error_iff {image : Image} (hfault : image.fault? = none) (offset : Int)
    (e : MachineError) :
    (m.apply threshold (.load image offset)).answer = .error e ↔
      (offset < 0 ∨ 4096 < offset + image.length) ∧
        e = .programTooLarge image.length offset 4096 ∨
      ¬(offset < 0 ∨ 4096 < offset + image.length) ∧
        (∃ n ∈ image.values, n < 0 ∨ 255 < n) ∧ e = .byteOutOfRange := by
  rw [← image.length_values, ← m.load_eq_error_iff, ← loadImage_of_fault?_eq_none hfault]
  simp only [apply, outcome]
  cases m.loadImage image offset <;> simp [changed, unchanged]

theorem answer_key_eq_error_iff (h : m.WellFormed) (offer : KeyOffer) {op : Operation}
    (hop : op ∈ [Operation.press offer, .release offer]) (e : MachineError) :
    (m.apply threshold op).answer = .error e ↔ ¬offer.IsKey ∧ e = .invalidKey offer := by
  rw [← KeyOffer.key?_eq_none_iff]
  simp only [List.mem_cons, List.not_mem_nil, or_false] at hop
  rcases hop with rfl | rfl
  · simp only [apply, outcome]
    cases offer.key? <;> simp [unchanged, h.pressResult, Except.map, eq_comm]
  · simp only [apply, outcome]
    cases offer.key? <;> simp [unchanged, changed, eq_comm]

theorem answer_time_eq_error_iff (seconds : Number) {op : Operation}
    (hop : op ∈ [Operation.run seconds, .count seconds]) (e : MachineError) :
    (m.apply threshold op).answer = .error e ↔
      ∃ cause, e = .arithmetic cause ∧ m.cyclesFor seconds = .error cause := by
  simp only [List.mem_cons, List.not_mem_nil, or_false] at hop
  rcases hop with rfl | rfl
  · simp only [apply, outcome]
    cases m.cyclesFor seconds <;> simp [unchanged, eq_comm]
  · simp only [apply, outcome]
    cases m.cyclesFor seconds <;> simp [unchanged, eq_comm]

theorem answer_render {view : Viewport} {window : Surface} (hratio : 1 ≤ view.ratio)
    (hopened : view.opened = .ok window) :
    (m.apply threshold (.render view)).answer =
      (m.paintLookedUp view window).map .window := by
  rw [← picture_eq m hratio hopened]
  simp only [apply, outcome]
  cases m.picture view <;> rfl

theorem answer_render_eq_error_iff {view : Viewport} {window : Surface} (hratio : 1 ≤ view.ratio)
    (hwidth : 1 ≤ view.width) (hheight : 1 ≤ view.height)
    (hopened : view.opened = .ok window) (e : MachineError) :
    (m.apply threshold (.render view)).answer = .error e ↔
      (64 < view.width ∨ 32 < view.height) ∧ e = .outOfRange .read := by
  have hlarge : ¬view.fits = true ↔ 64 < view.width ∨ 32 < view.height := by
    rw [fits_iff]
    omega
  rw [answer_render hratio hopened, ← picture_eq m hratio hopened, ← hlarge, picture, hopened]
  by_cases hfits : view.fits = true
  · simp [hfits, Except.map]
  · simp [hfits, Except.map, eq_comm]

/-- When the operations of a well-formed machine are rejected, and with which error. What is
rejected leaves the machine as it was, and reports nothing; only a direct call that finds a
register missing may have done something by then. -/
theorem rejections_exact_and_atomic (h : m.WellFormed) (threshold : Level) :
    (∀ (op : Operation) (e : MachineError), (m.apply threshold op).answer = .error e →
      (∀ name operands, op = .call name operands → e.isPlace = false) →
      (m.apply threshold op).machine = m ∧ (m.apply threshold op).log = []) ∧
    (∀ (image : Image) (offset : Int) (e : MachineError), image.fault? = none →
      ((m.apply threshold (.load image offset)).answer = .error e ↔
        (offset < 0 ∨ 4096 < offset + image.length) ∧
          e = .programTooLarge image.length offset 4096 ∨
        ¬(offset < 0 ∨ 4096 < offset + image.length) ∧
          (∃ n ∈ image.values, n < 0 ∨ 255 < n) ∧ e = .byteOutOfRange)) ∧
    (∀ offer, ∀ op ∈ [Operation.press offer, .release offer], ∀ e,
      (m.apply threshold op).answer = .error e ↔ ¬offer.IsKey ∧ e = .invalidKey offer) ∧
    (∀ name operands,
      (m.apply threshold (.call name operands)).answer = .error (.unknownMnemonic name) ↔
        ∀ i : Instruction, i.mnemonic ≠ name) ∧
    (∀ seconds, ∀ op ∈ [Operation.run seconds, .count seconds], ∀ e,
      let value := (seconds.mul m.settings.cycleRate).bind Number.addHalf
      (m.apply threshold op).answer = .error e ↔
        ∃ cause, e = .arithmetic cause ∧ seconds.le (.int 0) = false ∧
          (value = .error .integerTooLarge ∧ cause = .integerTooLarge ∨
            value = .ok .nan ∧ cause = .integerOfNan ∨
            (∃ negative, value = .ok (.infinite negative)) ∧ cause = .integerOfInfinity)) ∧
    ∀ (view : Viewport) (window : Surface), 1 ≤ view.ratio → 1 ≤ view.width → 1 ≤ view.height →
      view.opened = .ok window →
      let answer := (m.apply threshold (.render view)).answer
      answer = (m.paintLookedUp view window).map .window ∧
      ∀ e, answer = .error e ↔
        (64 < view.width ∨ 32 < view.height) ∧ e = .outOfRange .read := by
  refine ⟨?_, ?_, ?_, ?_, ?_, ?_⟩
  · intro op e herror hcall
    exact eq_of_answer_eq_error h herror hcall
  · intro image offset e hfault
    exact answer_load_eq_error_iff hfault offset e
  · intro offer op hop e
    exact answer_key_eq_error_iff h offer hop e
  · intro name operands
    exact m.answer_call_eq_unknownMnemonic_iff threshold name operands
  · intro seconds op hop e value
    rw [answer_time_eq_error_iff seconds hop]
    simp only [cyclesFor_eq_error_iff]
    rfl
  · intro view window hratio hwidth hheight hopened answer
    refine ⟨answer_render hratio hopened, fun e => ?_⟩
    exact answer_render_eq_error_iff hratio hwidth hheight hopened e

/-- A byte that is none in a program that has room and in one that has not, a key that is
none, an endless time and a display that is too small, asked of a waiting machine. -/
theorem rejections_exact_and_atomic_waiting :
    let start := initial ⟨.int 600, .int 1, .speaker, ⟨[7]⟩⟩
    let m := start.after .debug [.execute 0xF50A]
    let endless : Operation := .run (.float (.infinite false))
    (m.apply .debug (.load (.integers [1, 256]) 0xFFE)).answer = .error .byteOutOfRange ∧
      (m.apply .debug (.load (.integers [1, 256]) 0xFFF)).answer =
        .error (.programTooLarge 2 0xFFF 4096) ∧
      (m.apply .debug (.press (.number (.int 16)))).answer =
        .error (.invalidKey (.number (.int 16))) ∧
      (m.apply .debug endless).answer = .error (.arithmetic .integerOfInfinity) ∧
      (m.apply .debug (.render ⟨1, 65, 1⟩)).answer = .error (.outOfRange .read) ∧
      (m.apply .debug endless).machine = m ∧ m.isBlocked = true := by
  intro start m endless
  have hstart : start.WellFormed := WellFormed.initial (d := 1) rfl (by decide)
  have hwell : m.WellFormed := hstart.after .debug (by decide)
  obtain ⟨hatomic, hload, hkey, -, htime, hrender⟩ := rejections_exact_and_atomic hwell .debug
  have hendless : (m.apply .debug endless).answer = .error (.arithmetic .integerOfInfinity) := by
    apply (htime (.float (.infinite false)) endless List.mem_cons_self _).mpr
    exact ⟨_, rfl, rfl, Or.inr (Or.inr ⟨⟨false, by decide +kernel⟩, rfl⟩)⟩
  refine ⟨(hload _ _ _ rfl).mpr (Or.inr ?_), (hload _ _ _ rfl).mpr (Or.inl ?_),
    (hkey _ _ (by simp) _).mpr ⟨?_, rfl⟩, hendless, ?_, ?_, rfl⟩
  · exact ⟨by decide, by decide, rfl⟩
  · exact ⟨by decide, rfl⟩
  · simp [KeyOffer.IsKey]
  · exact ((hrender _ _ (by decide) (by decide) (by decide) rfl).2 _).mpr ⟨by decide, rfl⟩
  · refine (hatomic endless _ hendless ?_).1
    intro name operands hcall
    simp [endless] at hcall

end Machine
end ChipEight
