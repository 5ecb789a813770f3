/-
# `JsonProjection.Projection.Mode` -- what becomes of a selection that matches nothing.
-/
namespace JsonProjection

/-- **The two modes.** `strict` leaves out whatever did not match; `absent` writes `null` for it, in the
shape of the selection. -/
inductive Mode where
  | strict
  | absent
  deriving DecidableEq

/-- The name of the mode in log records. -/
def Mode.name : Mode → String
  | .strict => "Strict"
  | .absent => "AbsentMarkers"

end JsonProjection
