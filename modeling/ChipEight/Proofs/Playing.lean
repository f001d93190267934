import ChipEight.Emulator.Program
import ChipEight.Proofs.Loading
import ChipEight.Proofs.Rounding
import ChipEight.Proofs.Turns
import Mathlib.Data.List.GetD

/-!
# Playing

What a session comes to. Without a program that fits into memory it ends before its
first turn; otherwise it takes the frames up to the first that asks to stop, and the
machine at its end is a fold over them.
-/

namespace ChipEight

namespace Frame

/-- Whether the time of a frame in seconds, times a rate, is a finite double. -/
def HasProduct (f : Frame) (rate : Int) : Prop :=
  ∃ seconds product value, f.seconds = .ok seconds ∧
    seconds.mul (.int rate) = .ok (.float product) ∧ product.value? = some value

end Frame

namespace Machine

/-- A new machine with a program has the font at the lowest addresses, the program from
512 on, and zeros everywhere else. -/
theorem read_withProgram (settings : Settings) {program : List Byte}
    (hsize : program.length ≤ 3584) {a : Nat} (ha : a < 4096) :
    ((initial settings).withProgram program).memory.read a =
      if a < 512 then Memory.font.getD a 0 else program.getD (a - 512) 0 := by
  have hfits : 512 + program.length ≤ Memory.size := Nat.add_le_add_left hsize 512
  refine (Memory.initial.read_writeBlock_of_fits ⟨program, 512, hfits⟩ ha).trans ?_
  rw [Memory.read_initial ha, Placement.byteAt?]
  by_cases hlow : a < 512
  · rw [if_pos hlow, if_neg (Nat.not_le.mpr hlow), Option.getD_none]
  · have habove : Memory.font.length ≤ a := by
      rw [Memory.length_font]
      omega
    rw [if_neg hlow, if_pos (Nat.not_lt.mp hlow), List.getD_eq_default _ _ habove,
      List.getD_eq_getElem?_getD]

theorem WellFormed.handle {m : Machine} (h : m.WellFormed) (e : Event) :
    (m.handle e).WellFormed := by
  rw [handle_eq_actAll]
  apply h.actAll
  intro a ha
  obtain ⟨k, rfl⟩ | ⟨k, rfl⟩ := mem_eventActions ha <;> rfl

theorem WellFormed.cycles {m : Machine} (h : m.WellFormed) (n : Nat) :
    (Machine.cycles n m).WellFormed := by
  rw [cycles_eq_actAll]
  apply h.actAll
  intro a ha
  exact Action.isOrdinary_of_runs (runs_of_mem_cyclesActions ha)

theorem WellFormed.foldl_handle {m : Machine} (h : m.WellFormed) (es : List Event) :
    (es.foldl Machine.handle m).WellFormed := by
  induction es generalizing m with
  | nil => exact h
  | cons e es ih => exact ih (h.handle e)

theorem WellFormed.withProgram {m : Machine} (h : m.WellFormed) (program : List Byte) :
    (m.withProgram program).WellFormed :=
  { h with }

end Machine

namespace Session

/-- A finite product of time and rate has a whole number of cycles next to it. -/
theorem exists_cycleCount {m : Machine} {f : Frame} {rate : Int}
    (hrate : m.settings.cycleRate = .int rate) (h : f.HasProduct rate) :
    ∃ count, cycleCount m f = .ok count := by
  obtain ⟨seconds, product, value, hseconds, hmul, hvalue⟩ := h
  unfold cycleCount
  rw [hseconds]
  change ∃ count, m.cyclesFor seconds = .ok count
  unfold Machine.cyclesFor
  split
  · exact ⟨0, rfl⟩
  · have hbound := Number.abs_le_largest_of_mul hmul hvalue
    obtain ⟨w, hw⟩ := Binary64.exists_value?_add_half hvalue hbound
    rw [hrate, hmul]
    refine ⟨w.floor, ?_⟩
    change ((product.add Binary64.half).integral.bind fun v => .ok v.floor) = _
    rw [Binary64.integral_of_value? hw]
    rfl

theorem wellFormed_live {m : Machine} (h : m.WellFormed) (f : Frame) : (live m f).WellFormed := by
  unfold live
  split
  · exact { Machine.WellFormed.cycles (h.foldl_handle f.events) _ with }
  · exact h

theorem wellFormed_foldl_live {m : Machine} (h : m.WellFormed) (frames : List Frame) :
    (frames.foldl live m).WellFormed := by
  induction frames generalizing m with
  | nil => exact h
  | cons f rest ih => exact ih (wellFormed_live h f)

theorem taken_eq_take (frames : List Frame) :
    taken frames = frames.take (frames.findIdx Frame.stops + 1) := by
  induction frames with
  | nil => rfl
  | cons f rest ih =>
    rw [taken, List.findIdx_cons]
    cases hstops : f.stops with
    | true => rfl
    | false => simp [ih]

theorem length_taken_append_closing (frames : List Frame) :
    (taken (frames ++ [Frame.closing])).length =
      (frames ++ [Frame.closing]).findIdx Frame.stops + 1 := by
  have hlt : (frames ++ [Frame.closing]).findIdx Frame.stops <
      (frames ++ [Frame.closing]).length := by
    apply List.findIdx_lt_length_of_exists
    exact ⟨Frame.closing, List.mem_append_right _ List.mem_cons_self, rfl⟩
  rw [taken_eq_take, List.length_take]
  omega

theorem loop_outcome {paint : Display → Surface → Surface} {m : Machine} {frames : List Frame}
    (h : ∀ f ∈ frames, ∃ count, cycleCount m f = .ok count) (level : Level) (number : Nat)
    (window : Surface) :
    (loop paint level number m window (frames ++ [Frame.closing])).ending = .ok 0 ∧
      (loop paint level number m window (frames ++ [Frame.closing])).turns =
        (frames ++ [Frame.closing]).findIdx Frame.stops + 1 ∧
      (loop paint level number m window (frames ++ [Frame.closing])).machine =
        some (((frames ++ [Frame.closing]).take
          ((frames ++ [Frame.closing]).findIdx Frame.stops + 1)).foldl live m) := by
  have hall := counts_append_closing h
  have hframes : (visits paint level m window (frames ++ [Frame.closing])).map Visit.frame =
      taken (frames ++ [Frame.closing]) := frames_visits hall window
  rw [loop_eq_summary hall]
  refine ⟨rfl, ?_, ?_⟩
  · rw [← length_taken_append_closing, ← hframes, List.length_map]
    rfl
  · rw [← taken_eq_take, ← hframes]
    rfl

section Run

variable {o : Options} {s : Surroundings}

theorem run_of_unreadable (hname : o.rom.toList.contains (Char.ofNat 0) = false) {e : ReadError}
    (hread : s.files.read o.rom = .error e) :
    (run o s).ending = .ok 1 ∧ (run o s).turns = 0 := by
  unfold run
  rw [hname, hread]
  exact ⟨rfl, rfl⟩

theorem run_of_too_long (hname : o.rom.toList.contains (Char.ofNat 0) = false)
    {program : List Byte} (hread : s.files.read o.rom = .ok program)
    (hsize : 3584 < program.length) : (run o s).ending = .ok 1 ∧ (run o s).turns = 0 := by
  have hload := Machine.load_program (Machine.initial (settings o s)) program
  rw [if_pos hsize] at hload
  unfold run
  rw [hname, hread]
  simp only [Bool.false_eq_true, if_false, withContents, hload]
  exact ⟨rfl, rfl⟩

theorem run_of_program (hname : o.rom.toList.contains (Char.ofNat 0) = false)
    {program : List Byte} (hread : s.files.read o.rom = .ok program)
    (hsize : program.length ≤ 3584) :
    ∃ log, run o s =
      { play o s (threshold o) ((Machine.initial (settings o s)).withProgram program) with
        log := log } := by
  have hload := Machine.load_program (Machine.initial (settings o s)) program
  rw [if_neg (Nat.not_lt.mpr hsize)] at hload
  unfold run
  rw [hname, hread]
  simp only [Bool.false_eq_true, if_false, withContents, hload]
  exact ⟨_, rfl⟩

theorem finish_eq (t : Session) : ∃ log, finish t = { t with log := log } := by
  unfold finish
  split
  · exact ⟨_, rfl⟩
  · exact ⟨t.log, rfl⟩

theorem play_of_no_window {samples : Option (List Int)}
    (htone : Tone.standard.prepare s.audio = .ok samples) {e : WindowError}
    (hopen : (Viewport.ofRatio o.scale).opened = .error e) (level : Level) (m : Machine) :
    ∃ log, play o s level m = failed (.window e) (some m) log := by
  unfold play
  simp only [htone, hopen]
  exact ⟨_, rfl⟩

theorem play_of_window {samples : Option (List Int)}
    (htone : Tone.standard.prepare s.audio = .ok samples) {window : Surface}
    (hopen : (Viewport.ofRatio o.scale).opened = .ok window) (level : Level) (m : Machine) :
    ∃ log, play o s level m =
      { loop (Viewport.ofRatio o.scale).render level 1 m window (s.frames ++ [Frame.closing]) with
        log := log } := by
  obtain ⟨log, hfinish⟩ := finish_eq
    (loop (Viewport.ofRatio o.scale).render level 1 m window (s.frames ++ [Frame.closing]))
  unfold play
  simp only [htone, hopen, hfinish]
  exact ⟨_, rfl⟩

theorem run_outcome (hname : o.rom.toList.contains (Char.ofNat 0) = false)
    {samples : Option (List Int)} (htone : Tone.standard.prepare s.audio = .ok samples)
    (hcounts : ∀ f ∈ s.frames, ∃ count,
      cycleCount (Machine.initial (settings o s)) f = .ok count)
    {program : List Byte} (hread : s.files.read o.rom = .ok program)
    (hsize : program.length ≤ 3584) :
    (∀ e, (Viewport.ofRatio o.scale).opened = .error e →
      (run o s).ending = .error (.window e) ∧ (run o s).turns = 0) ∧
    ∀ window, (Viewport.ofRatio o.scale).opened = .ok window →
      (run o s).ending = .ok 0 ∧
      (run o s).turns = (s.frames ++ [Frame.closing]).findIdx Frame.stops + 1 ∧
      (run o s).machine = some (((s.frames ++ [Frame.closing]).take (run o s).turns).foldl live
        ((Machine.initial (settings o s)).withProgram program)) := by
  obtain ⟨log, hrun⟩ := run_of_program hname hread hsize
  have hsettings := Machine.settings_withProgram (Machine.initial (settings o s)) program
  generalize (Machine.initial (settings o s)).withProgram program = loaded at hrun hsettings ⊢
  rw [hrun]
  constructor
  · intro e hopen
    obtain ⟨log', hplay⟩ := play_of_no_window htone hopen (threshold o) loaded
    rw [hplay]
    exact ⟨rfl, rfl⟩
  · intro window hopen
    obtain ⟨log', hplay⟩ := play_of_window htone hopen (threshold o) loaded
    have hloaded : ∀ f ∈ s.frames, ∃ count, cycleCount loaded f = .ok count := by
      intro f hf
      rw [cycleCount_congr hsettings]
      exact hcounts f hf
    obtain ⟨hending, hturns, hmachine⟩ :=
      loop_outcome hloaded (threshold o) 1 window
    rw [hplay]
    refine ⟨hending, hturns, ?_⟩
    simp only [hturns]
    exact hmachine

/-- A session fails for want of a program that fits, and for nothing else. -/
theorem ending_eq_one_iff (hname : o.rom.toList.contains (Char.ofNat 0) = false)
    {samples : Option (List Int)} (htone : Tone.standard.prepare s.audio = .ok samples)
    (hcounts : ∀ f ∈ s.frames, ∃ count,
      cycleCount (Machine.initial (settings o s)) f = .ok count) :
    (run o s).ending = .ok 1 ↔ (∃ e, s.files.read o.rom = .error e) ∨
      ∃ program, s.files.read o.rom = .ok program ∧ 3584 < program.length := by
  constructor
  · intro hending
    cases hread : s.files.read o.rom with
    | error e => exact Or.inl ⟨e, rfl⟩
    | ok program =>
      refine Or.inr ⟨program, rfl, ?_⟩
      by_contra hsize
      obtain ⟨hclosed, hopened⟩ :=
        run_outcome hname htone hcounts hread (Nat.le_of_not_lt hsize)
      cases hopen : (Viewport.ofRatio o.scale).opened with
      | error e =>
        rw [(hclosed e hopen).1] at hending
        cases hending
      | ok window =>
        rw [(hopened window hopen).1] at hending
        cases hending
  · rintro (⟨e, hread⟩ | ⟨program, hread, hsize⟩)
    · exact (run_of_unreadable hname hread).1
    · exact (run_of_too_long hname hread hsize).1

end Run

/-- A session ends at once without a program that fits into memory, and with its window's
error where no window can be opened. Otherwise it takes the frames up to the first that
asks to stop, and the machine at its end is a fold over them, from a new machine with the
program in memory. -/
theorem session_is_fold {argv : List String} {o : Options}
    (hargs : Options.ofArguments argv = .ok o)
    (hname : o.rom.toList.contains (Char.ofNat 0) = false) {s : Surroundings}
    {samples : Option (List Int)} (htone : Tone.standard.prepare s.audio = .ok samples)
    (hfinite : ∀ f ∈ s.frames, f.HasProduct o.cycleRate) :
    ∃ session fresh, Transcript.ofArguments argv s = .played session ∧
      Machine.make? (settings o s) = .ok fresh ∧
      (session.ending = .ok 1 ↔ (∃ e, s.files.read o.rom = .error e) ∨
        ∃ program, s.files.read o.rom = .ok program ∧ 3584 < program.length) ∧
      (session.ending = .ok 1 → session.turns = 0) ∧
      (∀ f ∈ s.frames, ∃ count, cycleCount fresh f = .ok count) ∧
      ∀ program, s.files.read o.rom = .ok program → program.length ≤ 3584 →
        (∀ e, (Viewport.ofRatio o.scale).opened = .error e →
          session.ending = .error (.window e) ∧ session.turns = 0) ∧
        (∀ window, (Viewport.ofRatio o.scale).opened = .ok window →
          session.ending = .ok 0 ∧
          session.turns = (s.frames ++ [Frame.closing]).findIdx Frame.stops + 1 ∧
          session.machine = some (((s.frames ++ [Frame.closing]).take session.turns).foldl live
            (fresh.withProgram program))) ∧
        (∀ a < 4096, (fresh.withProgram program).memory.read a =
          if a < 512 then Memory.font.getD a 0 else program.getD (a - 512) 0) ∧
        ∀ (before : List Frame) (done : List Event) (e : Event),
          (done.foldl Machine.handle (before.foldl live (fresh.withProgram program))).handleResult
            e = .ok (!e.stops) := by
  have hdivider := (Options.positive_of_ofArguments hargs).timerDivider
  have hwell : (Machine.initial (settings o s)).WellFormed :=
    Machine.WellFormed.initial rfl hdivider
  have hcounts : ∀ f ∈ s.frames, ∃ count,
      cycleCount (Machine.initial (settings o s)) f = .ok count := by
    intro f hf
    exact exists_cycleCount rfl (hfinite f hf)
  have hfailed := ending_eq_one_iff hname htone hcounts
  refine ⟨run o s, Machine.initial (settings o s), ?_, Machine.make?_eq_ok rfl hdivider, hfailed,
    ?_, hcounts, ?_⟩
  · unfold Transcript.ofArguments
    rw [hargs]
  · intro hending
    rcases hfailed.mp hending with ⟨e, hread⟩ | ⟨program, hread, hsize⟩
    · exact (run_of_unreadable hname hread).2
    · exact (run_of_too_long hname hread hsize).2
  · intro program hread hsize
    obtain ⟨hclosed, hopened⟩ := run_outcome hname htone hcounts hread hsize
    refine ⟨hclosed, hopened, ?_, ?_⟩
    · intro a ha
      exact Machine.read_withProgram _ hsize ha
    · intro before done e
      have hbefore := wellFormed_foldl_live (hwell.withProgram program) before
      exact (hbefore.foldl_handle done).handleResult e

/-- A session that Escape ends in its second turn. -/
theorem session_is_fold_until_escape :
    ∃ session, Transcript.ofArguments ["g"]
        ⟨⟨[], [("g", [0x12, 0x00])]⟩, [⟨10, []⟩, ⟨0, [.keyDown 27, .keyDown 49]⟩, ⟨10, []⟩],
          .unavailable, ⟨[0]⟩⟩ = .played session ∧
      session.ending = .ok 0 ∧ session.turns = 2 := by
  let s : Surroundings :=
    ⟨⟨[], [("g", [0x12, 0x00])]⟩, [⟨10, []⟩, ⟨0, [.keyDown 27, .keyDown 49]⟩, ⟨10, []⟩],
      .unavailable, ⟨[0]⟩⟩
  have hargs : Options.ofArguments ["g"] = .ok ⟨"g", 10, 600, 1, false⟩ := by decide +kernel
  have hname : "g".toList.contains (Char.ofNat 0) = false := by decide +kernel
  have htone : Tone.standard.prepare .unavailable = .ok none := rfl
  have hfinite : ∀ f ∈ s.frames, f.HasProduct 600 := by
    intro f hf
    simp only [s, List.mem_cons, List.not_mem_nil, or_false] at hf
    rcases hf with rfl | rfl | rfl
    · exact ⟨.float (.finite (5764607523034235 / 576460752303423488)), .finite 6, 6,
        by decide +kernel, by decide +kernel, rfl⟩
    · exact ⟨.float (.finite 0), .finite 0, 0, by decide +kernel, by decide +kernel, rfl⟩
    · exact ⟨.float (.finite (5764607523034235 / 576460752303423488)), .finite 6, 6,
        by decide +kernel, by decide +kernel, rfl⟩
  have hread : s.files.read "g" = .ok [0x12, 0x00] := by decide +kernel
  have hopen : (Viewport.ofRatio 10).opened = .ok (Surface.blank 640 320) :=
    Viewport.opened_of_small (by decide) (by decide) (by decide) (by decide)
  obtain ⟨session, fresh, hplayed, _, _, _, _, hprogram⟩ :=
    session_is_fold hargs hname (s := s) htone hfinite
  obtain ⟨_, hopened, _, _⟩ := hprogram _ hread (by decide)
  obtain ⟨hending, hturns, _⟩ := hopened _ hopen
  exact ⟨session, hplayed, hending, hturns⟩

/-- At a scale of 2 to the power of 26 the window cannot be opened: the height, of which
32 bits are kept, is negative. The session has no exit status, although nothing is wrong
with the program file, the frames and the sound. -/
theorem no_status_without_window :
    ∃ o program session, Options.ofArguments ["g", "-s", "67108864"] = .ok o ∧
      o.rom.toList.contains (Char.ofNat 0) = false ∧
      (⟨[], [("g", [0x60, 0x05, 0xA0, 0x00, 0xD0, 0x15, 0x70, 0x05, 0x12, 0x02])]⟩ :
        FileTree).read o.rom = .ok program ∧ program.length ≤ 3584 ∧
      Tone.standard.prepare .unavailable = .ok none ∧
      (∀ f ∈ [(⟨10, []⟩ : Frame)], f.HasProduct o.cycleRate) ∧
      Transcript.ofArguments ["g", "-s", "67108864"]
        ⟨⟨[], [("g", [0x60, 0x05, 0xA0, 0x00, 0xD0, 0x15, 0x70, 0x05, 0x12, 0x02])]⟩,
          [⟨10, []⟩], .unavailable, ⟨[0]⟩⟩ = .played session ∧
      session.ending ≠ .ok 0 ∧ session.ending ≠ .ok 1 := by
  let s : Surroundings :=
    ⟨⟨[], [("g", [0x60, 0x05, 0xA0, 0x00, 0xD0, 0x15, 0x70, 0x05, 0x12, 0x02])]⟩,
      [⟨10, []⟩], .unavailable, ⟨[0]⟩⟩
  let o : Options := ⟨"g", 67108864, 600, 1, false⟩
  have hargs : Options.ofArguments ["g", "-s", "67108864"] = .ok o := by decide +kernel
  have hname : o.rom.toList.contains (Char.ofNat 0) = false := by decide +kernel
  have hread : s.files.read o.rom =
      .ok [0x60, 0x05, 0xA0, 0x00, 0xD0, 0x15, 0x70, 0x05, 0x12, 0x02] := by decide +kernel
  have hfinite : ∀ f ∈ s.frames, f.HasProduct o.cycleRate := by
    intro f hf
    rw [List.mem_singleton.mp hf]
    exact ⟨.float (.finite (5764607523034235 / 576460752303423488)), .finite 6, 6,
      by decide +kernel, by decide +kernel, rfl⟩
  have hopen : (Viewport.ofRatio o.scale).opened = .error .sizeNegative := by decide +kernel
  obtain ⟨log, hrun⟩ := run_of_program (s := s) hname hread (by decide)
  obtain ⟨log', hplay⟩ := play_of_no_window (s := s) rfl hopen (threshold o)
    ((Machine.initial (settings o s)).withProgram
      [0x60, 0x05, 0xA0, 0x00, 0xD0, 0x15, 0x70, 0x05, 0x12, 0x02])
  have hending : (run o s).ending = .error (.window .sizeNegative) := by
    rw [hrun, hplay]
    rfl
  have hplayed : Transcript.ofArguments ["g", "-s", "67108864"] s = .played (run o s) := by
    unfold Transcript.ofArguments
    rw [hargs]
  refine ⟨o, _, run o s, hargs, hname, hread, by decide, rfl, hfinite, hplayed, ?_, ?_⟩
  · rw [hending]
    exact nofun
  · rw [hending]
    exact nofun

end Session
end ChipEight
