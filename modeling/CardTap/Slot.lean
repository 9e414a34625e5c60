import CardTap.Run

/-!
# The card slot
-/

namespace CardTap

/-- The electrical contacts of the card slot. -/
structure Slot (σ : Type) where
  /-- The state of the card detect switch. -/
  inserted : Run σ Bool
  powered : Run σ Bool
  /-- Powers the card with RST low and I/O in reception; false if there is no card.  A warm
  activation only pulls RST low again on a card that has power. -/
  activate : (warm : Bool) → Run σ Bool
  driveReset : (high : Bool) → Run σ Unit
  /-- Pulls every contact low and cuts the power. -/
  deactivate : Run σ Unit
  /-- Interrupts on both edges of the card detect switch. -/
  watchEdge : Run σ Unit
  ignoreEdge : Run σ Unit

end CardTap
