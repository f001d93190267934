import ChipEight.Proofs.Turns
import ChipEight.Proofs.Waiting

/-!
# Keys for a waiting machine

Events are passed on to a machine one after the other. The first that brings a key down
ends a wait and leaves the key in the register that waited; from then on the events only
move keys, as they did before. The cycles of the turn come after all of them, and so they
start with the instruction after the wait in the same turn.
-/

namespace ChipEight

namespace Machine

variable {m : Machine} {x : Register} {k : Key} {e : Event} {es : List Event}

theorem handle_of_pressed? (h : m.blocked = some (x.val : Int)) (hkey : e.pressed? = some k) :
    m.handle e = m.deliver x k := by
  cases e with
  | keyDown code =>
    change Keyboard.key? code = some k at hkey
    simp only [handle, hkey]
    exact press_of_blocked h k
  | keyUp _ | quit | other => cases hkey

/-- An event moves keys at most, if it brings no key down or no register waits for one. -/
theorem exists_handle (h : m.blocked = none ∨ e.pressed? = none) :
    ∃ keys, m.handle e = { m with keys := keys } := by
  cases e with
  | keyDown code =>
    cases hkey : Keyboard.key? code with
    | none => exact ⟨m.keys, by simp only [handle, hkey]⟩
    | some k =>
      have hfree : m.blocked = none := h.resolve_right (by simp [Event.pressed?, hkey])
      refine ⟨(m.setKey k true).keys, ?_⟩
      simp only [handle, hkey, press, hfree, setKey]
  | keyUp code =>
    cases hkey : Keyboard.key? code with
    | none => exact ⟨m.keys, by simp only [handle, hkey]⟩
    | some k => exact ⟨(m.release k).keys, by simp only [handle, hkey]; rfl⟩
  | quit | other => exact ⟨m.keys, rfl⟩

theorem exists_foldl_handle (h : m.blocked = none ∨ ∀ e ∈ es, e.pressed? = none) :
    ∃ keys, es.foldl handle m = { m with keys := keys } := by
  induction es generalizing m with
  | nil => exact ⟨_, rfl⟩
  | cons e es ih =>
    obtain ⟨keys, hfirst⟩ : ∃ keys, m.handle e = { m with keys := keys } :=
      exists_handle (h.imp_right fun hall => hall e List.mem_cons_self)
    have hrest : (m.handle e).blocked = none ∨ ∀ e ∈ es, e.pressed? = none := by
      rw [hfirst]
      exact h.imp_right fun hall e' he' => hall e' (List.mem_cons_of_mem e he')
    obtain ⟨keys', hlater⟩ := ih hrest
    exact ⟨keys', by rw [List.foldl_cons, hlater, hfirst]⟩

theorem foldl_handle_of_none (h : es.findSome? Event.pressed? = none) :
    ∃ keys, es.foldl handle m = { m with keys := keys } :=
  exists_foldl_handle (.inr (List.findSome?_eq_none_iff.mp h))

/-- The first key that goes down is delivered, and the events after it move keys only. -/
theorem foldl_handle_of_some (hblocked : m.blocked = some (x.val : Int))
    (h : es.findSome? Event.pressed? = some k) :
    ∃ keys, es.foldl handle m = { m.deliver x k with keys := keys } := by
  obtain ⟨before, e, later, rfl, hkey, hquiet⟩ := List.findSome?_eq_some_iff.mp h
  obtain ⟨keys, hbefore⟩ : ∃ keys, before.foldl handle m = { m with keys := keys } :=
    exists_foldl_handle (.inr hquiet)
  have hdelivered : (before.foldl handle m).handle e = (before.foldl handle m).deliver x k :=
    handle_of_pressed? (by rw [hbefore]; exact hblocked) hkey
  obtain ⟨keys', hlater⟩ :
      ∃ keys', later.foldl handle ((before.foldl handle m).deliver x k) =
        { (before.foldl handle m).deliver x k with keys := keys' } := exists_foldl_handle (.inl rfl)
  refine ⟨keys', ?_⟩
  rw [List.foldl_append, List.foldl_cons, hdelivered, hlater, hbefore]
  rfl

theorem blocked_foldl_handle (hblocked : m.blocked = some (x.val : Int)) (es : List Event) :
    (es.foldl handle m).blocked = some (x.val : Int) ∨ (es.foldl handle m).blocked = none := by
  cases hfirst : es.findSome? Event.pressed? with
  | none =>
    obtain ⟨keys, hafter⟩ := foldl_handle_of_none (m := m) hfirst
    exact .inl (by rw [hafter]; exact hblocked)
  | some k =>
    obtain ⟨keys, hafter⟩ := foldl_handle_of_some hblocked hfirst
    exact .inr (by rw [hafter]; rfl)

theorem handleResult_foldl_handle (hblocked : m.blocked = some (x.val : Int))
    (es : List Event) (e : Event) :
    (es.foldl handle m).handleResult e = .ok (!e.stops) := by
  have hpress : (es.foldl handle m).pressResult = .ok () := by
    rcases blocked_foldl_handle hblocked es with hstill | hfree
    · exact pressResult_of_blocked hstill
    · rw [pressResult, hfree]
  unfold handleResult
  split
  · split
    · rw [hpress]
      rfl
    · rfl
  · rfl

theorem toNat_register_deliver (m : Machine) (x : Register) (k : Key) :
    ((m.deliver x k).register x).toNat = k.val := by
  change ((m.setRegister x (BitVec.ofNat 8 k.val)).register x).toNat = k.val
  rw [register_setRegister, if_pos rfl, BitVec.toNat_ofNat]
  exact Nat.mod_eq_of_lt (by omega)

theorem register_deliver {y : Register} (m : Machine) (k : Key) (hne : y ≠ x) :
    (m.deliver x k).register y = m.register y := by
  change (m.setRegister x (BitVec.ofNat 8 k.val)).register y = m.register y
  rw [register_setRegister, if_neg hne.symm]

theorem frame_foldl_handle (hblocked : m.blocked = some (x.val : Int)) (es : List Event) :
    es.foldl handle m = { m with
      registers := (es.foldl handle m).registers
      keys := (es.foldl handle m).keys
      blocked := (es.foldl handle m).blocked } := by
  cases hfirst : es.findSome? Event.pressed? with
  | none =>
    obtain ⟨keys, hafter⟩ := foldl_handle_of_none (m := m) hfirst
    rw [hafter]
  | some k =>
    obtain ⟨keys, hafter⟩ := foldl_handle_of_some hblocked hfirst
    rw [hafter]
    rfl

/-- A machine that does not wait starts its cycles with the word at its counter. -/
theorem prefix_cyclesActions (hfree : m.blocked = none) {n : Nat} (hn : 0 < n) :
    [.note m.fetch.toNat, .tick, .trace m.fetch,
      .execute ((Instruction.decode m.fetch).map .instruction)] <+: cyclesActions n m := by
  obtain ⟨n, rfl⟩ := Nat.exists_eq_succ_of_ne_zero (Nat.ne_of_gt hn)
  have hcycle : m.cycleActions = [.note m.fetch.toNat, .tick, .trace m.fetch,
      .execute ((Instruction.decode m.fetch).map .instruction)] := by
    rw [cycleActions, isBlocked, hfree]
    rfl
  rw [cyclesActions, hcycle]
  exact List.prefix_append _ _

/-- A waiting machine receives the first key of a frame. Of all the events, only the first
that brings a key down counts for the register that waits, whatever comes before it and
after it; without one the wait goes on. Nothing but keys, that register and the wait
changes, and every event is passed on. In the turn of the frame the cycles come after the
events: they start with the word at the counter, or execute nothing if the wait goes on. -/
theorem first_key_is_delivered {m : Machine} {x : Register}
    (hblocked : m.blocked = some (x.val : Int)) (es : List Event) :
    let after := es.foldl handle m
    let first := es.findSome? Event.pressed?
    after = { m with
      registers := after.registers, keys := after.keys, blocked := after.blocked } ∧
    (∀ y, y ≠ x → after.register y = m.register y) ∧
    (∀ k, first = some k → after.blocked = none ∧ (after.register x).toNat = k.val) ∧
    (first = none → after.blocked = some (x.val : Int) ∧ after.register x = m.register x) ∧
    (∀ handled e later, es = handled ++ e :: later →
      (handled.foldl handle m).handleResult e = .ok (!e.stops)) ∧
    ∀ (f : Frame) (count : Int), f.events = es → Session.cycleCount m f = .ok count →
      let done := cyclesActions count.toNat after
      (∀ paint threshold window, ∃ t, Session.turn paint threshold m window f = .ok t ∧
        t.machine = { after.actAll done with drawn := false } ∧
        t.log = ((after.reportAll done).filter
          fun e => e.level.passes threshold).map .machine) ∧
      (∀ k, first = some k → 0 < count →
        [.note m.fetch.toNat, .tick, .trace m.fetch,
          .execute ((Instruction.decode m.fetch).map .instruction)] <+: done) ∧
      (first = none → ∀ c, .execute c ∉ done) := by
  intro after first
  have hframe : after = { m with
      registers := after.registers, keys := after.keys, blocked := after.blocked } :=
    frame_foldl_handle hblocked es
  have hdelivered : ∀ k, first = some k → ∃ keys, after = { m.deliver x k with keys := keys } :=
    fun k hfirst => foldl_handle_of_some hblocked hfirst
  have hquiet : first = none → ∃ keys, after = { m with keys := keys } := foldl_handle_of_none
  refine ⟨hframe, ?_, ?_, ?_, ?_, ?_⟩
  · intro y hne
    cases hfirst : first with
    | none =>
      obtain ⟨keys, hafter⟩ := hquiet hfirst
      rw [hafter]
      rfl
    | some k =>
      obtain ⟨keys, hafter⟩ := hdelivered k hfirst
      rw [hafter]
      exact m.register_deliver k hne
  · intro k hfirst
    obtain ⟨keys, hafter⟩ := hdelivered k hfirst
    rw [hafter]
    exact ⟨rfl, m.toNat_register_deliver x k⟩
  · intro hfirst
    obtain ⟨keys, hafter⟩ := hquiet hfirst
    rw [hafter]
    exact ⟨hblocked, rfl⟩
  · intro handled e later _
    exact handleResult_foldl_handle hblocked handled e
  · rintro f count rfl hcount done
    refine ⟨fun paint threshold window => Session.turn_eq_actions hcount window, ?_, ?_⟩
    · intro k hfirst hpos
      obtain ⟨keys, hafter⟩ := hdelivered k hfirst
      have hfetch : after.fetch = m.fetch := by rw [hframe]; rfl
      rw [← hfetch]
      exact prefix_cyclesActions (by rw [hafter]; rfl) (by omega)
    · intro hfirst c hmem
      obtain ⟨keys, hafter⟩ := hquiet hfirst
      have hwaiting : after.isBlocked = true := by
        rw [hafter]
        exact (congrArg Option.isSome hblocked).trans rfl
      cases idles_of_mem_cyclesActions hwaiting hmem

/-- A key that goes down and up again after a request to stop, with another key behind it,
and a frame with no key at all. -/
theorem first_key_is_delivered_behind_quit :
    let m := (initial ⟨.int 600, .int 1, .absent, ⟨[]⟩⟩).after .info [.execute 0xF30A]
    let tap : List Event := [.keyUp 97, .other, .quit, .keyDown 27, .keyDown 1000,
      .keyDown 119, .keyDown 97, .keyUp 119]
    let quiet : List Event := [.keyUp 119, .quit, .keyDown 27]
    (tap.foldl handle m).blocked = none ∧ ((tap.foldl handle m).register 3).toNat = 5 ∧
      [.note m.fetch.toNat, .tick, .trace m.fetch,
        .execute ((Instruction.decode m.fetch).map .instruction)] <+:
        cyclesActions 6 (tap.foldl handle m) ∧
      (quiet.foldl handle m).blocked = some 3 ∧
      ∀ c, .execute c ∉ cyclesActions 6 (quiet.foldl handle m) := by
  intro m tap quiet
  have hblocked : m.blocked = some ((3 : Register).val : Int) := by decide +kernel
  obtain ⟨-, -, hkey, -, -, hturn⟩ := first_key_is_delivered hblocked tap
  obtain ⟨-, hcycles, -⟩ := hturn ⟨10, tap⟩ 6 rfl (by decide +kernel)
  obtain ⟨-, -, -, hstill, -, hturn'⟩ := first_key_is_delivered hblocked quiet
  obtain ⟨-, -, hidle⟩ := hturn' ⟨10, quiet⟩ 6 rfl (by decide +kernel)
  exact ⟨(hkey 5 rfl).1, (hkey 5 rfl).2, hcycles 5 rfl (by decide), (hstill rfl).1, hidle rfl⟩

end Machine
end ChipEight
