import CardTap.Slot

/-!
# The simulated card slot
-/

namespace CardTap.Bench

/-- The simulated card slot. -/
structure Slot where
  inserted : Bool := false
  powered : Bool := false
  rstHigh : Bool := false
  interrupt : Bool := false
  /-- Every activation so far, newest first, `true` for the warm ones. -/
  activations : List Bool := []
  deactivations : Nat := 0
  deriving DecidableEq, Repr

namespace Slot

/-- Activates the card, if there is one. -/
def activated (s : Slot) (warm : Bool) : Bool × Slot :=
  if s.inserted then
    (true, { s with activations := warm :: s.activations, powered := true, rstHigh := false })
  else (false, s)

/-- Cuts the power. -/
def deactivated (s : Slot) : Slot :=
  { s with deactivations := s.deactivations + 1, powered := false, rstHigh := false }

/-- The operations of the simulated slot. -/
def slot : CardTap.Slot Slot where
  inserted := Run.read Slot.inserted
  powered := Run.read Slot.powered
  activate warm := Run.step (·.activated warm)
  driveReset high := Run.change fun s => { s with rstHigh := high }
  deactivate := Run.change deactivated
  watchEdge := Run.change fun s => { s with interrupt := true }
  ignoreEdge := Run.change fun s => { s with interrupt := false }

end Slot

end CardTap.Bench
