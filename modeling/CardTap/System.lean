import CardTap.Run

/-!
# Pins, timers and the interrupt flag
-/

namespace CardTap

/-- The operations on the whole microcontroller. -/
structure System (σ : Type) where
  /-- Configures pins and timers; interrupts end up masked. -/
  init : Run σ Unit
  enableInterrupts : Run σ Unit

end CardTap
