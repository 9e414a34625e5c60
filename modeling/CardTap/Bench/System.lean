import CardTap.System

/-!
# The simulated microcontroller
-/

namespace CardTap.Bench

/-- Whether the pins were configured and whether interrupts are enabled. -/
structure System where
  initialised : Bool := false
  interrupts : Bool := false
  deriving DecidableEq, Repr

namespace System

/-- The operations of the simulated microcontroller. -/
def system : CardTap.System System where
  init := Run.change fun _ => { initialised := true, interrupts := false }
  enableInterrupts := Run.change fun s => { s with interrupts := true }

end System

end CardTap.Bench
