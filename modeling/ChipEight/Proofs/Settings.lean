import ChipEight.CommandLine.Reading
import ChipEight.Proofs.Spellings

/-!
# The settings of a command line

The arguments of a command line are taken one choice after the other, and the program file
whenever it comes. What is read is the last value chosen for each setting, so neither the
spelling of the choices nor the place of the file matters, and of their order only that of the
choices for one option. The values that are read are checked, no others.
-/

namespace ChipEight

/-- Parts one after the other, one for each member of a list. -/
inductive InTurn {α β : Type} (R : α → List β → Prop) : List α → List β → Prop
  | nil : InTurn R [] []
  | cons {a : α} {as : List α} {part rest : List β} :
      R a part → InTurn R as rest → InTurn R (a :: as) (part ++ rest)

namespace Choice

def flag : Choice → Flag
  | debug => .debug
  | set s _ => .setting s

def value? (s : Setting) : Choice → Option Int
  | debug => none
  | set t value => if t = s then some value else none

def last (s : Setting) (choices : List Choice) : Int :=
  (choices.filterMap (value? s)).getLast?.getD s.default

theorem filterMap_value?_filter (s : Setting) (choices : List Choice) :
    (choices.filter fun c => c.flag = .setting s).filterMap (value? s) =
      choices.filterMap (value? s) := by
  rw [List.filterMap_filter]
  congr
  funext c
  cases c with
  | debug => rfl
  | set t value =>
    by_cases h : t = s
    · simp [flag, h]
    · simp [flag, value?, h]

theorem last_congr {s : Setting} {choices choices' : List Choice}
    (h : (choices.filter fun c => c.flag = .setting s) =
      choices'.filter fun c => c.flag = .setting s) : last s choices = last s choices' := by
  rw [last, ← filterMap_value?_filter, h, filterMap_value?_filter, last]

theorem debug_mem_congr {choices choices' : List Choice}
    (h : (choices.filter fun c => c.flag = .debug) = choices'.filter fun c => c.flag = .debug) :
    debug ∈ choices ↔ debug ∈ choices' := by
  have hfilter : ∀ choices : List Choice,
      debug ∈ choices ↔ debug ∈ choices.filter fun c => c.flag = .debug := by
    simp [flag]
  rw [hfilter, h, ← hfilter]

end Choice

/-- A command line with its program file before, between or behind its choices. -/
inductive CommandLine : List String → String → List Choice → Prop
  | intro {rom : String} {before later : List Choice} {words words' : List String} :
      rom.toList.head? ≠ some '-' → InTurn Choice.Written before words →
        InTurn Choice.Written later words' →
          CommandLine (words ++ rom :: words') rom (before ++ later)

theorem InTurn.exists_stands {choices : List Choice} {words : List String}
    (h : InTurn Choice.Written choices words) :
    ∃ arguments, List.Forall₂ (fun s a => Argument.classify s = .ok a) words arguments ∧
      InTurn Choice.Stands choices arguments := by
  induction h with
  | nil => exact ⟨[], .nil, .nil⟩
  | cons hwritten _ ih =>
    obtain ⟨part, hpart, hstands⟩ := hwritten.exists_stands
    obtain ⟨rest, hrest, hlater⟩ := ih
    exact ⟨part ++ rest, List.rel_append hpart hrest, .cons hstands hlater⟩

namespace Collected

variable {c : Collected} {choice : Choice} {choices : List Choice}

def choose (c : Collected) : Choice → Collected
  | .debug => { c with debug := true }
  | .set s value => c.withSetting (some value) s

def value (c : Collected) : Setting → Option Int
  | .scale => c.scale
  | .cycleRate => c.cycleRate
  | .timerDivider => c.timerDivider

/-! ### Taking the arguments -/

theorem assign_of_numeral {text : String} {n : Int} (h : Text.Numeral text.toList n)
    (c : Collected) (s : Setting) : c.assign s text = .ok (c.withSetting (some n) s) := by
  have hinteger := Text.integer?_of_numeral h
  have hne : text ≠ "--" := by
    rintro rfl
    have hnone : Text.integer? "--" = none := by decide
    cases hnone.symm.trans hinteger
  rw [assign, if_neg hne, hinteger]

theorem take_stands {arguments : List Argument} (h : choice.Stands arguments) (c : Collected)
    (later : List Argument) : c.take (arguments ++ later) = (c.choose choice).take later := by
  cases h with
  | debug => simp [take, choose]
  | apart hvalue | equals hvalue | joined hvalue =>
    simp only [List.cons_append, List.nil_append, take, assign_of_numeral hvalue, choose]
    rfl

theorem take_inTurn {arguments : List Argument} (h : InTurn Choice.Stands choices arguments)
    (c : Collected) (later : List Argument) :
    c.take (arguments ++ later) = (choices.foldl choose c).take later := by
  induction h generalizing c with
  | nil => rfl
  | cons hstands _ ih => rw [List.append_assoc, take_stands hstands, ih, List.foldl_cons]

theorem head?_of_inTurn {arguments : List Argument}
    (h : InTurn Choice.Stands choices arguments) : arguments.head? ≠ some .separator := by
  cases h with
  | nil => simp
  | cons hstands _ => cases hstands <;> simp

/-- The first operand is the program file. A separator behind it would be taken with it. -/
theorem take_operand {later : List Argument} (hrom : c.rom = none)
    (hlater : later.head? ≠ some .separator) (text : String) :
    c.take (.operand text :: later) = (c.withRom text).take later := by
  cases later with
  | nil => simp [take, hrom]
  | cons a rest =>
    cases a with
    | separator => contradiction
    | _ => simp [take, hrom]

/-! ### What has been read -/

theorem value_withSetting (c : Collected) (value : Option Int) (s t : Setting) :
    (c.withSetting value t).value s = if t = s then value else c.value s := by
  cases s <;> cases t <;> rfl

theorem value_choose (c : Collected) (choice : Choice) (s : Setting) :
    (c.choose choice).value s = (choice.value? s).or (c.value s) := by
  cases choice with
  | debug => cases s <;> rfl
  | set t n =>
    rw [choose, value_withSetting, Choice.value?]
    split <;> rfl

theorem value_foldl_choose (choices : List Choice) (c : Collected) (s : Setting) :
    (choices.foldl choose c).value s =
      (choices.filterMap (Choice.value? s)).getLast?.or (c.value s) := by
  induction choices generalizing c with
  | nil => rfl
  | cons choice choices ih =>
    rw [List.foldl_cons, ih, value_choose]
    cases hvalue : choice.value? s with
    | none => rw [List.filterMap_cons_none hvalue, Option.none_or]
    | some n =>
      rw [List.filterMap_cons_some hvalue, List.getLast?_cons]
      cases (choices.filterMap (Choice.value? s)).getLast? <;> rfl

/-- A choice leaves the file and what is left over alone, and debugging stays chosen. -/
theorem rest_choose (c : Collected) (choice : Choice) :
    (c.choose choice).rom = c.rom ∧ (c.choose choice).extras = c.extras ∧
      (c.choose choice).debug = (c.debug || decide (choice = .debug)) := by
  cases choice with
  | debug => simp [choose]
  | set s n => cases s <;> simp [choose, withSetting]

theorem rest_foldl_choose (choices : List Choice) (c : Collected) :
    (choices.foldl choose c).rom = c.rom ∧ (choices.foldl choose c).extras = c.extras ∧
      (choices.foldl choose c).debug = (c.debug || decide (.debug ∈ choices)) := by
  induction choices generalizing c with
  | nil => simp
  | cons choice choices ih =>
    obtain ⟨hrom, hextras, hdebug⟩ := ih (c.choose choice)
    obtain ⟨hrom', hextras', hdebug'⟩ := c.rest_choose choice
    refine ⟨hrom.trans hrom', hextras.trans hextras', ?_⟩
    rw [List.foldl_cons, hdebug, hdebug']
    simp [Bool.or_assoc, eq_comm]

end Collected

/-- The settings in the order in which they are checked. -/
def Setting.inOrder : List Setting := [.scale, .cycleRate, .timerDivider]

theorem Setting.mem_inOrder (s : Setting) : s ∈ inOrder := by
  cases s <;> decide

namespace Options

/-- What comes of a program file with settings of the given values: the first of them that is
too small is complained about. -/
def outcome (rom : String) (value : Setting → Int) (debug : Bool) : Except Exit Options :=
  match Setting.inOrder.find? fun s => value s < 1 with
  | some s => .error (.usage (.tooSmall s))
  | none => .ok ⟨rom, value .scale, value .cycleRate, value .timerDivider, debug⟩

variable {rom : String} {value : Setting → Int} {debug : Bool}

theorem outcome_of_small (h : ∃ s, value s < 1) :
    ∃ s, outcome rom value debug = .error (.usage (.tooSmall s)) := by
  obtain ⟨s, hs⟩ := h
  unfold outcome
  cases hfind : Setting.inOrder.find? fun s => value s < 1 with
  | some t => exact ⟨t, rfl⟩
  | none => exact absurd (decide_eq_true hs) (List.find?_eq_none.mp hfind s s.mem_inOrder)

theorem outcome_of_positive (h : ∀ s, 1 ≤ value s) : outcome rom value debug =
    .ok ⟨rom, value .scale, value .cycleRate, value .timerDivider, debug⟩ := by
  have hnone : (Setting.inOrder.find? fun s => value s < 1) = none := by
    simpa [List.find?_eq_none] using fun s _ => h s
  rw [outcome, hnone]

end Options

theorem Collected.finish_eq {c : Collected} {rom : String} {value : Setting → Int}
    (hrom : c.rom = some rom) (hextras : c.extras = [])
    (hvalue : ∀ s, c.value s = some (value s)) :
    c.finish = Options.outcome rom value c.debug := by
  have hfinish : c.finish = do
      let scale ← checked .scale (c.value .scale)
      let cycleRate ← checked .cycleRate (c.value .cycleRate)
      let timerDivider ← checked .timerDivider (c.value .timerDivider)
      return ⟨rom, scale, cycleRate, timerDivider, c.debug⟩ := by
    simp only [finish, hrom, hextras, ne_eq, not_true_eq_false, if_false]
    rfl
  rw [hfinish, hvalue, hvalue, hvalue]
  simp only [checked, Options.outcome, Setting.inOrder, List.find?]
  by_cases hscale : value .scale < 1
  · simp only [hscale, decide_true, if_true]
    rfl
  by_cases hrate : value .cycleRate < 1
  · simp only [hscale, hrate, decide_true, decide_false, if_true, if_false]
    rfl
  by_cases hdivider : value .timerDivider < 1
  · simp only [hscale, hrate, hdivider, decide_true, decide_false, if_true, if_false]
    rfl
  · simp only [hscale, hrate, hdivider, decide_false, if_false]
    rfl

namespace CommandLine

variable {argv : List String} {rom : String} {choices : List Choice}

theorem exists_collected (h : CommandLine argv rom choices) :
    ∃ arguments c, Argument.classifyAll argv = .ok arguments ∧
      Collected.start.take arguments = .ok c ∧ c.rom = some rom ∧ c.extras = [] ∧
      (∀ s, c.value s = some (Choice.last s choices)) ∧
      c.debug = decide (.debug ∈ choices) := by
  cases h with
  | @intro rom before later words words' hrom hbefore hlater =>
    obtain ⟨front, hfront, hstands⟩ := hbefore.exists_stands
    obtain ⟨back, hback, hstands'⟩ := hlater.exists_stands
    let c := (before.foldl Collected.choose Collected.start).withRom rom
    obtain ⟨hfree, hextras, hdebug⟩ := Collected.rest_foldl_choose before Collected.start
    obtain ⟨hfile, hextras', hdebug'⟩ := Collected.rest_foldl_choose later c
    have hclassified : Argument.classifyAll (words ++ rom :: words') =
        .ok (front ++ .operand rom :: back) :=
      Argument.classifyAll_of_forall₂
        (List.rel_append hfront (.cons (Argument.classify_of_plain hrom) hback))
    -- behind the file there is an option or nothing, so no separator goes with it
    have htaken : Collected.start.take (front ++ .operand rom :: back) =
        .ok (later.foldl Collected.choose c) := by
      rw [Collected.take_inTurn hstands,
        Collected.take_operand hfree (Collected.head?_of_inTurn hstands'),
        ← List.append_nil back, Collected.take_inTurn hstands', Collected.take]
    refine ⟨_, _, hclassified, htaken, hfile, hextras'.trans hextras, ?_, ?_⟩
    · intro s
      have hstart : Collected.start.value s = some s.default := by cases s <;> rfl
      have hfront : c.value s = (before.foldl Collected.choose Collected.start).value s := by
        cases s <;> rfl
      rw [Collected.value_foldl_choose, hfront, Collected.value_foldl_choose, hstart, Choice.last,
        List.filterMap_append, List.getLast?_append, Option.or_some, Option.or_some,
        Option.getD_or]
    · have hfront : c.debug = (before.foldl Collected.choose Collected.start).debug := rfl
      rw [hdebug', hfront, hdebug]
      simp [Collected.start]

theorem ofArguments_eq (h : CommandLine argv rom choices) :
    Options.ofArguments argv =
      Options.outcome rom (Choice.last · choices) (decide (.debug ∈ choices)) := by
  obtain ⟨arguments, c, hclassified, htaken, hrom, hextras, hvalue, hdebug⟩ := h.exists_collected
  simp only [Options.ofArguments, hclassified, htaken]
  rw [Collected.finish_eq hrom hextras hvalue, hdebug]

/-- A command line with one program file and any choices, however they are spelled, is refused
with status two if the last value chosen for a setting is below one, and only then; otherwise
it gives that file, the last value chosen for each setting or else its default, and whether
debugging is chosen. Two such command lines with the same file are read alike if for each
option they have the same choices in the same order, whatever their order otherwise and
wherever the file stands. No command line at all gives a setting below one. -/
theorem options_read_back :
    (∀ argv rom choices, CommandLine argv rom choices →
      ((∃ e, Options.ofArguments argv = .error e ∧ e.code = 2) ↔
        ∃ s, Choice.last s choices < 1) ∧
      ((∀ s, 1 ≤ Choice.last s choices) → Options.ofArguments argv =
        .ok ⟨rom, Choice.last .scale choices, Choice.last .cycleRate choices,
          Choice.last .timerDivider choices, decide (.debug ∈ choices)⟩)) ∧
    (∀ argv argv' rom choices choices', CommandLine argv rom choices →
      CommandLine argv' rom choices' →
      (∀ f, (choices.filter fun c => c.flag = f) = choices'.filter fun c => c.flag = f) →
      Options.ofArguments argv = Options.ofArguments argv') ∧
    ∀ argv o, Options.ofArguments argv = .ok o →
      1 ≤ o.scale ∧ 1 ≤ o.cycleRate ∧ 1 ≤ o.timerDivider := by
  refine ⟨?_, ?_, ?_⟩
  · intro argv rom choices h
    rw [h.ofArguments_eq]
    refine ⟨⟨?_, ?_⟩, Options.outcome_of_positive⟩
    · rintro ⟨e, he, -⟩
      by_contra hnone
      have hpositive : ∀ s, 1 ≤ Choice.last s choices :=
        fun s => Int.not_lt.mp fun hs => hnone ⟨s, hs⟩
      cases he.symm.trans (Options.outcome_of_positive hpositive)
    · intro hsmall
      obtain ⟨s, hs⟩ := Options.outcome_of_small hsmall
      exact ⟨_, hs, rfl⟩
  · intro argv argv' rom choices choices' h h' hsame
    have hlast : (Choice.last · choices) = (Choice.last · choices') :=
      funext fun s => Choice.last_congr (hsame (.setting s))
    have hdebug : decide (Choice.debug ∈ choices) = decide (.debug ∈ choices') :=
      decide_eq_decide.mpr (Choice.debug_mem_congr (hsame .debug))
    rw [h.ofArguments_eq, h'.ofArguments_eq, hlast, hdebug]
  · intro argv o h
    obtain ⟨hscale, hrate, hdivider⟩ := Options.positive_of_ofArguments h
    exact ⟨hscale, hrate, hdivider⟩

/-- A scale below zero that does not count, in two spellings and places, and a rate below zero
that counts. -/
theorem options_read_back_however_spelled :
    let argv := ["-s-5", "--d", "game of life", "--cyc=700", "-s", "+12"]
    let argv' := ["-r700", "--scale", "-5", "--debug", "--s=12", "game of life"]
    Options.ofArguments argv = .ok ⟨"game of life", 12, 700, 1, true⟩ ∧
      Options.ofArguments argv = Options.ofArguments argv' ∧
      ∃ e, Options.ofArguments ["game", "-r", "-5"] = .error e ∧ e.code = 2 := by
  intro argv argv'
  have five : Text.IsDecimal ['5'] 5 :=
    ⟨by decide, by decide, List.all_eq_true.mp (by decide), by decide⟩
  have twelve : Text.IsDecimal ['1', '2'] 12 :=
    ⟨by decide, by decide, List.all_eq_true.mp (by decide), by decide⟩
  have hundreds : Text.IsDecimal ['7', '0', '0'] 700 :=
    ⟨by decide, by decide, List.all_eq_true.mp (by decide), by decide⟩
  have hdebug : Choice.Written .debug ["--" ++ "d"] := .debug ⟨by decide, by decide⟩
  have hdebug' : Choice.Written .debug ["--" ++ "debug"] := .debug ⟨by decide, by decide⟩
  have hrate : Choice.Written (.set .cycleRate 700) ["--" ++ "cyc" ++ "=" ++ "700"] :=
    .longJoined ⟨by decide, by decide⟩ (.unsigned hundreds)
  have hrate' : Choice.Written (.set .cycleRate 700) ["-" ++ "r" ++ "700"] :=
    .shortJoined rfl (.unsigned hundreds)
  have hnegative : Choice.Written (.set .scale (-5)) ["-" ++ "s" ++ "-5"] :=
    .shortJoined rfl (.minus five)
  have hnegative' : Choice.Written (.set .scale (-5)) ["--" ++ "scale", "-5"] :=
    .longApart ⟨by decide, by decide⟩ (.minus five)
  have hscale : Choice.Written (.set .scale 12) ["-" ++ "s", "+12"] :=
    .shortApart rfl (.plus twelve)
  have hscale' : Choice.Written (.set .scale 12) ["--" ++ "s" ++ "=" ++ "12"] :=
    .longJoined ⟨by decide, by decide⟩ (.unsigned twelve)
  have hsmall : Choice.Written (.set .cycleRate (-5)) ["-" ++ "r", "-5"] :=
    .shortApart rfl (.minus five)
  have hline : CommandLine argv "game of life"
      [.set .scale (-5), .debug, .set .cycleRate 700, .set .scale 12] :=
    CommandLine.intro (by decide) (.cons hnegative (.cons hdebug .nil))
      (.cons hrate (.cons hscale .nil))
  have hline' : CommandLine argv' "game of life"
      [.set .cycleRate 700, .set .scale (-5), .debug, .set .scale 12] :=
    CommandLine.intro (by decide)
      (.cons hrate' (.cons hnegative' (.cons hdebug' (.cons hscale' .nil)))) .nil
  have hrefused : CommandLine ["game", "-r", "-5"] "game" [.set .cycleRate (-5)] :=
    CommandLine.intro (by decide) .nil (.cons hsmall .nil)
  obtain ⟨hread, halike, -⟩ := options_read_back
  refine ⟨(hread _ _ _ hline).2 ?_, halike _ _ _ _ _ hline hline' ?_,
    (hread _ _ _ hrefused).1.mpr ?_⟩
  · intro s
    cases s <;> decide
  · intro f
    cases f with
    | setting s => cases s <;> rfl
    | _ => rfl
  · exact ⟨.cycleRate, by decide⟩

end CommandLine
end ChipEight
