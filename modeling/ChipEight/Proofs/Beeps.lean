import ChipEight.Proofs.Timekeeping

/-!
# Beeps

An account of the sound timer. Every sound that is set ends in one of three ways: it is
heard, it is replaced or wiped out before, or it is still to come.
-/

namespace ChipEight
namespace Machine

def isSounding (m : Machine) : Bool := m.timers.sound ≠ 0

theorem isSounding_toNat (m : Machine) :
    m.isSounding.toNat = if m.timers.sound = 0 then 0 else 1 := by
  unfold isSounding
  split_ifs with h
  · rw [decide_eq_false (not_not.mpr h)]
    rfl
  · rw [decide_eq_true h]
    rfl

def loadsSound (m : Machine) (a : Action) : Bool :=
  match a.beat with
  | .setSound x => m.register x ≠ 0
  | _ => false

/-- Whether an action takes the place of a sound that has not ended. -/
def cutsSound (m : Machine) (a : Action) : Bool :=
  match a.beat with
  | .setSound _ => m.isSounding
  | .clear => m.isSounding
  | _ => false

theorem sounding_countDown (b : Byte) :
    (decide (b ≠ 0)).toNat =
      (decide (b = 1)).toNat + (decide (Timers.countDown b ≠ 0)).toNat := by
  by_cases hzero : b = 0
  · subst hzero
    rfl
  · by_cases hone : b = 1
    · subst hone
      rfl
    · have hleft : Timers.countDown b ≠ 0 := by
        intro h
        have hcount := Timers.countDown_toNat b
        have hne0 : b.toNat ≠ 0 := fun h => hzero (BitVec.eq_of_toNat_eq h)
        have hne1 : b.toNat ≠ 1 := fun h => hone (BitVec.eq_of_toNat_eq h)
        rw [h] at hcount
        change 0 = b.toNat - 1 at hcount
        omega
      rw [decide_eq_true hzero, decide_eq_false hone, decide_eq_true hleft]
      rfl

/-- One action moves a sound from one side of the account to the other. -/
theorem sound_balance_act {m : Machine} (hsound : m.settings.sound ≠ .absent) {a : Action}
    (ha : a.adjusts = false) :
    (m.loadsSound a).toNat + m.isSounding.toNat =
      (m.rings a).toNat + (m.cutsSound a).toNat + (m.act a).isSounding.toNat := by
  have hact := m.timers_act ha
  cases hbeat : a.beat with
  | setSound x =>
    rw [hbeat] at hact
    simp only [loadsSound, cutsSound, rings, countsDown, hbeat, isSounding, hact,
      Bool.false_and, Bool.toNat_false]
    omega
  | clear =>
    rw [hbeat] at hact
    simp [loadsSound, cutsSound, rings, countsDown, hbeat, isSounding, hact, Timers.zero]
  | tick | decrement | setDelay x | rest =>
    have hkeeps := (m.countDown_act ha (by simp [hbeat])).2 (by simp [hbeat])
    simp only [loadsSound, cutsSound, hbeat, isSounding, hkeeps, rings, Timers.endsSound]
    cases m.countsDown a with
    | true => simpa [hsound] using sounding_countDown m.timers.sound
    | false => simp

theorem sound_balance {m : Machine} (hsound : m.settings.sound ≠ .absent) {as : List Action}
    (has : ∀ a ∈ as, a.adjusts = false) :
    m.tally loadsSound as + m.isSounding.toNat =
      m.tally rings as + m.tally cutsSound as + (m.actAll as).isSounding.toNat := by
  induction as generalizing m with
  | nil => simp
  | cons a as ih =>
    obtain ⟨hfirst, hrest⟩ := List.forall_mem_cons.mp has
    have hstep := sound_balance_act hsound hfirst
    have hrun := ih (settings_act m a ▸ hsound) hrest
    simp only [tally_cons, actAll_cons]
    omega

theorem loadsSound_eq_false {a : Action} (h : ∀ x, a.beat ≠ .setSound x) (m : Machine) :
    m.loadsSound a = false := by
  cases hbeat : a.beat with
  | setSound x => exact absurd hbeat (h x)
  | _ => simp [loadsSound, hbeat]

/-- Until the next sound is set, a sound is asked for at most once, and not at all where
none is under way. -/
theorem soundings_le {m : Machine} (hsound : m.settings.sound ≠ .absent) {as : List Action}
    (has : ∀ a ∈ as, a.adjusts = false) (hset : ∀ a ∈ as, ∀ x, a.beat ≠ .setSound x) :
    m.soundings as ≤ m.beeps + m.isSounding.toNat := by
  have hbalance := sound_balance hsound has
  have hloads : m.tally loadsSound as = 0 :=
    tally_eq_zero (fun n a ha => loadsSound_eq_false (hset a ha) n) m
  rw [soundings_eq]
  omega

/-- Where something listens, the sounds set are those asked for, those cut and the one under
way. A sound is asked for at most once before the next is set, and it is asked for if it is
not wiped out and the timers take enough steps. -/
theorem beeps_conserved {settings : Settings} {start : Machine}
    (hmake : make? settings = .ok start) (hsound : settings.sound ≠ .absent)
    (threshold : Level) {ops : List Operation} (hops : ∀ op ∈ ops, op.adjusts = false) :
    let actions := start.history ops
    start.tally loadsSound actions = start.soundings actions + start.tally cutsSound actions +
      (if (start.after threshold ops).timers.sound = 0 then 0 else 1) ∧
    start.soundings actions ≤ start.tally loadsSound actions ∧
    ∀ {before later rest : List Action} {x : Register},
      actions = before ++ .execute (some (.instruction (.setSound x))) :: (later ++ rest) →
      (∀ y, .execute (some (.instruction (.setSound y))) ∉ later) →
      let value := (start.actAll before).register x
      let loaded := (start.actAll before).act (.execute (some (.instruction (.setSound x))))
      loaded.soundings later ≤ loaded.beeps + (if value = 0 then 0 else 1) ∧
      (value ≠ 0 → .reset ∉ later → value.toNat ≤ loaded.tally countsDown later →
        loaded.soundings later = loaded.beeps + 1) := by
  intro actions
  have hactions : ∀ a ∈ actions, a.adjusts = false := by
    refine forall_mem_history ?_ hops
    intro n op a hop ha
    exact adjusts_of_mem_actions hop ha
  cases eq_initial_of_make? hmake
  have hbalance := sound_balance (m := initial settings) hsound hactions
  have hsilent : (initial settings).isSounding.toNat = 0 := rfl
  have hsoundings : (initial settings).soundings actions =
      (initial settings).tally rings actions := by
    rw [soundings_eq]
    exact Nat.zero_add _
  rw [hsilent, isSounding_toNat] at hbalance
  rw [after_eq_actAll, hsoundings]
  refine ⟨by omega, by omega, ?_⟩
  intro before later rest x hsplit hset value loaded
  have hlater : ∀ a ∈ later, a.adjusts = false := by
    intro a ha
    apply hactions
    rw [hsplit]
    exact List.mem_append_right _ (List.mem_cons_of_mem _ (List.mem_append_left _ ha))
  have hkept : ∀ a ∈ later, ∀ y, a.beat ≠ .setSound y := by
    intro a ha y hbeat
    cases Action.eq_of_beat hbeat
    exact hset y ha
  have hlistens : loaded.settings.sound ≠ .absent := by
    rw [settings_act, settings_actAll]
    exact hsound
  have hvalue : loaded.timers.sound = value := rfl
  constructor
  · rw [← hvalue, ← isSounding_toNat]
    exact soundings_le hlistens hlater hkept
  · intro hne hreset henough
    have hordinary : ∀ a ∈ later, a.adjusts = false ∧ a.beat ≠ .clear := by
      intro a ha
      refine ⟨hlater a ha, ?_⟩
      intro hbeat
      cases Action.eq_of_beat hbeat
      exact hreset ha
    have hpos : 0 < value.toNat := by
      apply Nat.pos_of_ne_zero
      intro hzero
      exact hne (BitVec.eq_of_toNat_eq hzero)
    rw [soundings_eq, rings_actAll hordinary hkept, hvalue, if_pos ⟨hlistens, hpos, henough⟩]

/-- A sound of two steps that is heard, and another that a reset cuts. -/
theorem beeps_conserved_heard_and_cut :
    let start := initial ⟨.int 600, .int 1, .speaker, ⟨[]⟩⟩
    let actions := start.history
      [.execute 0x6002, .execute 0xF018, .tick, .cycle, .tick, .execute 0xF018, .reset]
    let before := [.note 0x6002, .execute (some (.instruction (.loadByte 0 2))), .note 0xF018]
    let loaded := (start.actAll before).act (.execute (some (.instruction (.setSound 0))))
    start.tally loadsSound actions = start.soundings actions + start.tally cutsSound actions ∧
      loaded.soundings [.tick, .note 0, .tick] = loaded.beeps + 1 := by
  intro start actions before loaded
  have hmake : make? ⟨.int 600, .int 1, .speaker, ⟨[]⟩⟩ = .ok start := rfl
  have hops : ∀ op ∈ ([.execute 0x6002, .execute 0xF018, .tick, .cycle, .tick, .execute 0xF018,
      .reset] : List Operation), op.adjusts = false := by decide
  obtain ⟨hbalance, _, hload⟩ := beeps_conserved hmake (by decide) .info hops
  rw [if_pos (by decide +kernel), Nat.add_zero] at hbalance
  have hsplit : actions = before ++ .execute (some (.instruction (.setSound 0))) ::
      ([.tick, .note 0, .tick] ++ [.trace 0, .execute (some (.instruction (.sys 0))), .tick,
        .note 0xF018, .execute (some (.instruction (.setSound 0))), .reset]) := by
    decide +kernel
  obtain ⟨_, honce⟩ := hload hsplit (by decide)
  exact ⟨hbalance, honce (by decide +kernel) (by decide) (by decide +kernel)⟩

end Machine
end ChipEight
