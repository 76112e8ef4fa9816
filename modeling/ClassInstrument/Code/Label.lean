/-!
# Labels

A label marks a place in a method body that is being edited.  It turns into an offset only when the
body is written out.
-/

namespace ClassInstrument

/-- A mark in a method body. -/
structure Label where
  /-- The number that tells the labels of a body apart. -/
  number : Nat
deriving DecidableEq, Repr, Hashable

namespace Label

/-- A label as it is shown in messages. -/
def describe (label : Label) : String := s!"l{label.number}"

end Label

end ClassInstrument
