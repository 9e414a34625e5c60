import CardTap.Watchdog

/-!
# The simulated watchdog

It never fires by itself; a deliberate restart halts the run.
-/

namespace CardTap.Bench

/-- The simulated watchdog, with the number of times that it was disabled and served. -/
structure Watchdog where
  armed : Option Timeout := none
  disableCount : Nat := 0
  serveCount : Nat := 0
  deriving DecidableEq, Repr

namespace Watchdog

/-- The operations of the simulated watchdog. -/
def watchdog : CardTap.Watchdog Watchdog where
  disable := Run.change fun w => { w with armed := none, disableCount := w.disableCount + 1 }
  arm timeout := Run.change fun w => { w with armed := some timeout }
  serve := Run.change fun w => { w with serveCount := w.serveCount + 1 }
  restart := do
    Run.change fun w => { w with armed := some .ms15 }
    Run.halt (.restart .watchdog)

end Watchdog

end CardTap.Bench
