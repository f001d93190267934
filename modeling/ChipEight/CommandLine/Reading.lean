import ChipEight.CommandLine.Argument

/-!
# Reading a command line

The arguments are taken from left to right. The first operand is the program
file, unless an option in front of it takes it as its value; what has no use is
kept to be complained about at the end. Of several settings of one option the
last one counts, and only the values that count are checked. The separator is
dropped where it is written together with an option, which leaves no value.
-/

namespace ChipEight

/-- What has been read of a command line. A setting has no value when all that was
written for it has been dropped. -/
structure Collected where
  rom : Option String
  scale : Option Int
  cycleRate : Option Int
  timerDivider : Option Int
  debug : Bool
  extras : List String
  deriving DecidableEq

namespace Collected

def start : Collected where
  rom := none
  scale := some Setting.scale.default
  cycleRate := some Setting.cycleRate.default
  timerDivider := some Setting.timerDivider.default
  debug := false
  extras := []

def withSetting (c : Collected) (value : Option Int) : Setting → Collected
  | .scale => { c with scale := value }
  | .cycleRate => { c with cycleRate := value }
  | .timerDivider => { c with timerDivider := value }

def withExtra (c : Collected) (text : String) : Collected :=
  { c with extras := c.extras ++ [text] }

def withRom (c : Collected) (name : String) : Collected := { c with rom := some name }

/-- A setting by the text of its value. -/
def assign (c : Collected) (s : Setting) (text : String) : Except Exit Collected :=
  if text = "--" then .ok (c.withSetting none s)
  else
    match Text.integer? text with
    | some value => .ok (c.withSetting (some value) s)
    | none => .error (.usage (.notAnInteger (.setting s) text))

/-- Help with more letters behind it: short options that are written together.
They are looked at before help is given, and a fault among them comes first. -/
def helpWith (operandFollows : Bool) : List Char → Exit
  | [] => .help
  | c :: rest =>
    match Flag.ofSpelling? (String.ofList ['-', c]), rest with
    | some .help, _ => helpWith operandFollows rest
    | some (.setting s), [] =>
      if operandFollows then .help else .usage (.valueExpected (.setting s))
    | some (.setting _), _ :: _ => .help
    | _, _ => .usage (.valueIgnored .help (String.ofList (c :: rest)))

/-- The exit that a request for help with something written behind it leads to. -/
def helpBefore (isShort operandFollows : Bool) (value : String) : Exit :=
  if isShort ∧ value ≠ "" then helpWith operandFollows value.toList
  else .usage (.valueIgnored .help value)

def helpExit (isShort operandFollows : Bool) : Attachment → Exit
  | .none => .help
  | .equals value => helpBefore isShort operandFollows value
  | .joined value => helpBefore isShort operandFollows value

def operandFollows : List Argument → Bool
  | .operand _ :: _ => true
  | _ => false

/-- All arguments taken in turn. The separator goes with the operand before or
after it that is the program file. -/
def take (c : Collected) : List Argument → Except Exit Collected
  | [] => .ok c
  | .unknown text :: rest => take (c.withExtra text) rest
  | .operand text :: .separator :: rest =>
    if c.rom.isNone then take (c.withRom text) rest
    else take ((c.withExtra text).withExtra "--") rest
  | .operand text :: rest =>
    if c.rom.isNone then take (c.withRom text) rest else take (c.withExtra text) rest
  | .separator :: .operand text :: rest =>
    if c.rom.isNone then take (c.withRom text) rest
    else take ((c.withExtra "--").withExtra text) rest
  | .separator :: rest => take (c.withExtra "--") rest
  | .option .help isShort value :: rest =>
    .error (helpExit isShort (operandFollows rest) value)
  | .option .debug _ .none :: rest => take { c with debug := true } rest
  | .option .debug _ (.equals value) :: _ => .error (.usage (.valueIgnored .debug value))
  | .option .debug _ (.joined value) :: _ => .error (.usage (.valueIgnored .debug value))
  | .option (.setting s) _ (.equals value) :: rest => do
    let next ← c.assign s value
    take next rest
  | .option (.setting s) _ (.joined value) :: rest => do
    let next ← c.assign s value
    take next rest
  | .option (.setting s) _ .none :: .operand value :: rest => do
    let next ← c.assign s value
    take next rest
  | .option (.setting s) _ .none :: _ => .error (.usage (.valueExpected (.setting s)))

def checked (s : Setting) : Option Int → Except Exit Int
  | none => .error .valueless
  | some value => if value < 1 then .error (.usage (.tooSmall s)) else .ok value

def finish (c : Collected) : Except Exit Options :=
  match c.rom with
  | none => .error (.usage .romMissing)
  | some rom =>
    if c.extras ≠ [] then .error (.usage (.unrecognized c.extras))
    else do
      let scale ← checked .scale c.scale
      let cycleRate ← checked .cycleRate c.cycleRate
      let timerDivider ← checked .timerDivider c.timerDivider
      return ⟨rom, scale, cycleRate, timerDivider, c.debug⟩

end Collected

def Options.ofArguments (argv : List String) : Except Exit Options :=
  match Argument.classifyAll argv with
  | .error e => .error (.usage e)
  | .ok arguments =>
    match Collected.start.take arguments with
    | .error e => .error e
    | .ok c => c.finish

theorem Collected.one_le_of_checked {s : Setting} {value : Option Int} {n : Int}
    (h : checked s value = .ok n) : 1 ≤ n := by
  cases value with
  | none => cases h
  | some value =>
    simp only [checked] at h
    by_cases hsmall : value < 1
    · rw [if_pos hsmall] at h
      cases h
    · rw [if_neg hsmall] at h
      cases h
      exact Int.not_lt.mp hsmall

structure Options.Positive (o : Options) : Prop where
  scale : 1 ≤ o.scale
  cycleRate : 1 ≤ o.cycleRate
  timerDivider : 1 ≤ o.timerDivider

theorem Collected.positive_of_finish {c : Collected} {o : Options} (h : c.finish = .ok o) :
    o.Positive := by
  unfold finish at h
  split at h
  · cases h
  · split at h
    · cases h
    · cases hscale : checked .scale c.scale with
      | error e => rw [hscale] at h; cases h
      | ok scale =>
        cases hrate : checked .cycleRate c.cycleRate with
        | error e => rw [hscale, hrate] at h; cases h
        | ok rate =>
          cases hdivider : checked .timerDivider c.timerDivider with
          | error e => rw [hscale, hrate, hdivider] at h; cases h
          | ok divider =>
            rw [hscale, hrate, hdivider] at h
            cases h
            exact ⟨one_le_of_checked hscale, one_le_of_checked hrate,
              one_le_of_checked hdivider⟩

/-- No accepted command line has a setting below one. -/
theorem Options.positive_of_ofArguments {argv : List String} {o : Options}
    (h : Options.ofArguments argv = .ok o) : o.Positive := by
  unfold Options.ofArguments at h
  split at h
  · cases h
  · split at h
    · cases h
    · exact Collected.positive_of_finish h

end ChipEight
