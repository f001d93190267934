/-!
# Errors of windows

The causes for which a window cannot be opened or a request to it is refused.
-/

namespace ChipEight

inductive WindowError
  /-- There are two colours, with the numbers zero and one. -/
  | unknownColor (number : Int)
  | coordinateTooWide
  /-- The width or the height of a window needs more than 64 bits. -/
  | sizeTooWide
  | sizeNegative
  deriving DecidableEq

def WindowError.message : WindowError → String
  | unknownColor number => toString number
  | coordinateTooWide => "rect argument is invalid"
  | sizeTooWide => "size must be two numbers"
  | sizeNegative => "Cannot set negative sized display mode"

end ChipEight
