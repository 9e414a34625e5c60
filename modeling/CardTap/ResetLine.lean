import CardTap.Run

/-!
# The reset line of the terminal
-/

namespace CardTap

/-- The operations of the reset line. -/
structure ResetLine (σ : Type) where
  /-- Whether the terminal still clocks the device. -/
  clockRunning : Run σ Bool
  /-- Interrupts on the falling edge of the line. -/
  watchEdge : Run σ Unit
  ignoreEdge : Run σ Unit

end CardTap
