import ChipEight.CommandLine.Reading
import ChipEight.Proofs.Picture
import ChipEight.Proofs.Turns

/-!
# Fresh windows

The window shows the display at the end of every turn. What changes the display sets the
flag, the flag makes the turn paint, and painting starts anew; where the flag is not set
the display is as it was painted last.
-/

namespace ChipEight

def Action.draws : Action → Bool
  | execute (some (.instruction i)) => i.draws
  | execute (some (.drawRows _ _ _)) => true
  | _ => false

namespace Machine

/-- Only drawing sets the flag, and in a cycle nothing clears it. -/
theorem drawn_act {m : Machine} {a : Action} (ha : a.runs = true) :
    (m.act a).drawn = (m.drawn || a.draws) := by
  match a with
  | .note _ | .trace _ | .execute none => exact (Bool.or_false m.drawn).symm
  | .execute (some (.instruction i)) =>
    change (m.perform i).drawn = (m.drawn || i.draws)
    rw [perform_drawn]
    cases i.draws <;> simp
  | .tick =>
    rw [act, tick_eq]
    exact (Bool.or_false m.drawn).symm

theorem display_act_of_not_draws {m : Machine} {a : Action} (ha : a.runs = true)
    (h : a.draws = false) : (m.act a).display = m.display := by
  match a with
  | .note _ | .trace _ | .execute none => rfl
  | .execute (some (.instruction i)) => exact perform_display_of_not_draws m i h
  | .tick => rw [act, tick_eq]

theorem drawn_actAll {as : List Action} (has : ∀ a ∈ as, a.runs = true) (m : Machine) :
    (m.actAll as).drawn = (m.drawn || as.any Action.draws) := by
  induction as generalizing m with
  | nil => simp
  | cons a as ih =>
    obtain ⟨hfirst, hrest⟩ := List.forall_mem_cons.mp has
    rw [actAll_cons, ih hrest, drawn_act hfirst, List.any_cons, Bool.or_assoc]

theorem display_actAll_of_not_draws {as : List Action} (has : ∀ a ∈ as, a.runs = true)
    (h : as.any Action.draws = false) (m : Machine) : (m.actAll as).display = m.display := by
  induction as generalizing m with
  | nil => rfl
  | cons a as ih =>
    obtain ⟨hfirst, hrest⟩ := List.forall_mem_cons.mp has
    rw [List.any_cons, Bool.or_eq_false_iff] at h
    rw [actAll_cons, ih hrest h.2, display_act_of_not_draws hfirst h.1]

theorem drawn_handleAll (m : Machine) (f : Frame) :
    (Session.handleAll m f).drawn = m.drawn ∧ (Session.handleAll m f).display = m.display := by
  rw [Session.handleAll_eq_actAll]
  apply actAll_keeps (P := fun n => n.drawn = m.drawn ∧ n.display = m.display)
  · intro n a ha hn
    obtain ⟨e, _, hmem⟩ := List.mem_flatMap.mp ha
    obtain ⟨k, rfl⟩ | ⟨k, rfl⟩ := mem_eventActions hmem
    · obtain ⟨registers, blocked, hpress⟩ := n.exists_press k
      rw [act, hpress]
      exact hn
    · exact hn
  · exact ⟨rfl, rfl⟩

end Machine

namespace Session

open Machine (cyclesActions runs_of_mem_cyclesActions)

def Visit.cycleActions (v : Visit) : List Action :=
  match cycleCount v.before v.frame with
  | .ok count => cyclesActions count.toNat (handleAll v.before v.frame)
  | .error _ => []

/-- A window that shows the display of a machine, with nothing left to be painted. -/
structure Fresh (ratio : Int) (width height : Nat) (m : Machine) (window : Surface) : Prop where
  drawn_eq : m.drawn = false
  shows : Viewport.Shows ratio width height m.display window

/-- A turn leaves the window fresh, and paints it only where the display was drawn on. -/
theorem fresh_turn {ratio : Int} (hpos : 1 ≤ ratio) {canvas : Canvas}
    (hcanvas : canvas.Exact (Viewport.ofRatio ratio)) {threshold : Level} {width height : Nat}
    {m : Machine} {window : Surface} {f : Frame} {t : Turn} (h : Fresh ratio width height m window)
    (hturn : turn ((Viewport.ofRatio ratio).renderOn canvas) threshold m window f = .ok t) :
    (t.painted = true ↔ ∃ a ∈ Visit.cycleActions ⟨m, f, t⟩, a.draws = true) ∧
      Fresh ratio width height t.machine t.window := by
  cases hcount : cycleCount m f with
  | error e =>
    obtain ⟨left, herror⟩ := turn_eq_error hcount window
    rw [herror] at hturn
    cases hturn
  | ok count =>
    rw [turn_eq hcount] at hturn
    cases hturn
    have hruns : ∀ a ∈ cyclesActions count.toNat (handleAll m f), a.runs = true := by
      intro a ha
      exact runs_of_mem_cyclesActions ha
    obtain ⟨hflag, hsame⟩ := Machine.drawn_handleAll m f
    have hdrawn := Machine.drawn_actAll hruns (handleAll m f)
    rw [hflag, h.drawn_eq, Bool.false_or] at hdrawn
    simp only [Visit.cycleActions, hcount, Machine.cycles_eq_actAll, refresh, hdrawn]
    cases hany : (cyclesActions count.toNat (handleAll m f)).any Action.draws with
    | true =>
      have hshows := Viewport.shows_renderOn hpos hcanvas
        ((handleAll m f).actAll (cyclesActions count.toNat (handleAll m f))).display window
      rw [h.shows.width_eq, h.shows.height_eq] at hshows
      simp only [if_true]
      refine ⟨by simpa using hany, rfl, ?_⟩
      exact hshows
    | false =>
      have hdisplay := Machine.display_actAll_of_not_draws hruns hany (handleAll m f)
      rw [hsame] at hdisplay
      refine ⟨by simpa using hany, hdrawn.trans hany, ?_⟩
      simp only [Bool.false_eq_true, if_false]
      rw [hdisplay]
      exact h.shows

/-- On a canvas that paints what it is asked to, the window of a session shows the
display at the end of every turn, and a turn paints exactly if something was drawn. -/
theorem window_stays_fresh {argv : List String} {o : Options}
    (hargs : Options.ofArguments argv = .ok o) {canvas : Canvas}
    (hcanvas : canvas.Exact (Viewport.ofRatio o.scale)) {window : Surface}
    (hopen : (Viewport.ofRatio o.scale).opened = .ok window) (s : Surroundings)
    {program : List Byte} (hsize : program.length ≤ 3584)
    (hcounts : ∀ f ∈ s.frames, ∃ count,
      cycleCount (Machine.initial (settings o s)) f = .ok count) :
    (64 * o.scale ≤ Viewport.maximalSide →
      (window.width : Int) = 64 * o.scale ∧ (window.height : Int) = 32 * o.scale) ∧
    ∃ loaded, (Machine.initial (settings o s)).load (program.map fun b => (b.toNat : Int))
        Machine.programStart = .ok loaded ∧
      let paint := (Viewport.ofRatio o.scale).renderOn canvas
      let turns := visits paint (threshold o) loaded window (s.frames ++ [Frame.closing])
      loop paint (threshold o) 1 loaded window (s.frames ++ [Frame.closing]) =
        summary 1 loaded turns ∧
      ∀ v ∈ turns, v.turn.machine.drawn = false ∧
        (∀ px py, v.turn.window.pixel? px py =
          if px < window.width ∧ py < window.height then
            some (v.turn.machine.display.isLit (px / o.scale.toNat) (py / o.scale.toNat))
          else none) ∧
        (v.turn.painted = true ↔ ∃ a ∈ v.cycleActions, a.draws = true) := by
  have hload := Machine.load_program (Machine.initial (settings o s)) program
  rw [if_neg (Nat.not_lt.mpr hsize)] at hload
  have hscale := (Options.positive_of_ofArguments hargs).scale
  have hdrawn := Machine.drawn_withProgram (Machine.initial (settings o s)) program
  have hdisplay := Machine.display_withProgram (Machine.initial (settings o s)) program
  have hsettings := Machine.settings_withProgram (Machine.initial (settings o s)) program
  generalize (Machine.initial (settings o s)).withProgram program = loaded at *
  have hstart : Fresh o.scale window.width window.height loaded window :=
    ⟨hdrawn, hdisplay ▸ Viewport.shows_opened hopen⟩
  have hloaded : ∀ f ∈ s.frames, ∃ count, cycleCount loaded f = .ok count := by
    intro f hf
    rw [cycleCount_congr hsettings]
    exact hcounts f hf
  refine ⟨fun hsmall => Viewport.size_of_opened hscale hsmall hopen, loaded, hload,
    loop_eq_summary (counts_append_closing hloaded) 1 window, ?_⟩
  refine forall_visits (P := Fresh o.scale window.width window.height) ?_ hstart _
  intro m w f t hfresh hturn
  obtain ⟨hpainted, hnext⟩ := fresh_turn hscale hcanvas hfresh hturn
  exact ⟨⟨hnext.drawn_eq, hnext.shows.pixel?_eq, hpainted⟩, hnext⟩

/-- A program that draws a glyph over and over, on the canvas of the program. -/
theorem window_stays_fresh_at_scale_ten :
    ∃ loaded, ∀ v ∈ visits ((Viewport.ofRatio 10).renderOn Canvas.standard) .info loaded
        (Surface.blank 640 320) [⟨10, []⟩, Frame.closing], v.turn.machine.drawn = false := by
  have hargs : Options.ofArguments ["g"] = .ok ⟨"g", 10, 600, 1, false⟩ := by decide +kernel
  have hcanvas : Canvas.standard.Exact (Viewport.ofRatio 10) :=
    Viewport.exact_standard (by decide) (by decide)
  have hopen : (Viewport.ofRatio 10).opened = .ok (Surface.blank 640 320) :=
    Viewport.opened_of_small (by decide) (by decide) (by decide) (by decide)
  let s : Surroundings := ⟨⟨[], []⟩, [⟨10, []⟩], .unavailable, ⟨[0]⟩⟩
  have hcounts : ∀ f ∈ s.frames, ∃ count,
      cycleCount (Machine.initial (settings ⟨"g", 10, 600, 1, false⟩ s)) f = .ok count := by
    intro f hf
    rw [List.mem_singleton.mp hf]
    exact ⟨6, by decide +kernel⟩
  have hsize : ([0x60, 0x05, 0xA0, 0x00, 0xD0, 0x15, 0x12, 0x02] : List Byte).length ≤ 3584 := by
    decide
  obtain ⟨_, loaded, _, _, hturns⟩ := window_stays_fresh hargs hcanvas hopen s hsize hcounts
  refine ⟨loaded, ?_⟩
  intro v hv
  exact (hturns v hv).1

end Session
end ChipEight
