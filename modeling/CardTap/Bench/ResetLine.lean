import CardTap.ResetLine

/-!
# The simulated reset line
-/

namespace CardTap.Bench

/-- The reset line and the clock of a simulated terminal. -/
structure ResetLine where
  clock : Bool := true
  interrupt : Bool := false
  deriving DecidableEq, Repr

namespace ResetLine

/-- The operations of the simulated reset line. -/
def resetLine : CardTap.ResetLine ResetLine where
  clockRunning := Run.read ResetLine.clock
  watchEdge := Run.change fun r => { r with interrupt := true }
  ignoreEdge := Run.change fun r => { r with interrupt := false }

end ResetLine

end CardTap.Bench
