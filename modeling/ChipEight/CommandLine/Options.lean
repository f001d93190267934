/-!
# Command line options

The settings that a command line can give, with their defaults, and the ways in
which each option is written.
-/

namespace ChipEight

inductive Setting
  | scale
  | cycleRate
  | timerDivider
  deriving DecidableEq

/-- Everything that a command line can ask for besides the program file. -/
inductive Flag
  | help
  | debug
  | setting (s : Setting)
  deriving DecidableEq

namespace Flag

/-- All spellings with their flags, in the order in which they are listed. -/
def spellings : List (String × Flag) :=
  [("-h", help), ("--help", help),
   ("-s", setting .scale), ("--scale", setting .scale),
   ("-r", setting .cycleRate), ("--cycle-rate", setting .cycleRate),
   ("--timer-divider", setting .timerDivider),
   ("--debug", debug)]

def ofSpelling? (s : String) : Option Flag :=
  (spellings.find? fun entry => entry.1 = s).map Prod.snd

/-- A flag by all its spellings. -/
def label : Flag → String
  | help => "-h/--help"
  | debug => "--debug"
  | setting .scale => "-s/--scale"
  | setting .cycleRate => "-r/--cycle-rate"
  | setting .timerDivider => "--timer-divider"

end Flag

structure Options where
  rom : String
  scale : Int
  cycleRate : Int
  timerDivider : Int
  debug : Bool
  deriving DecidableEq

def Setting.default : Setting → Int
  | .scale => 10
  | .cycleRate => 600
  | .timerDivider => 1

def Setting.name : Setting → String
  | .scale => "scale"
  | .cycleRate => "cycle rate"
  | .timerDivider => "timer divider"

end ChipEight
