import CardTap.Device

/-!
# Entry points of the device

The start-up code, the vector table and the applications call the firmware here.
-/

namespace CardTap.Device

variable {σ : Type} (d : Device σ)

/-- The main program.  Its log records go to the journal of the run and not to the debug output,
which is told so first; the wide counts of the timers start afresh. -/
def main (apps : Applications σ) : Run σ Unit := do
  d.registers.sendDebug "logger already installed\n"
  Run.change fun s => d.cardCount.put {} (d.terminalCount.put {} s)
  d.board.powerUp edition apps

/-- The handler of a falling edge of the terminal reset line. -/
def handleTerminalReset : Run σ Unit := do
  let _ ← d.board.handleTerminalReset

/-- The handler of an edge of the card detect switch. -/
def handleCardSwitch : Run σ Unit := do
  let _ ← d.board.presenceChanged

/-- Has the next terminal reset save the log. -/
def armLogFlush : Run σ Unit := d.registers.resetLine.watchEdge

/-- Captures an exchange given as bytes.  The answer is false if either half is missing or
malformed, or if there is no room. -/
def append (command response : Option (List UInt8)) : Run σ Bool :=
  match command, response with
  | some command, some response =>
    match Exchange.ofBytes command response with
    | .ok x => d.board.capture x
    | .error _ => pure false
  | _, _ => pure false

/-- The application in use. -/
def selected : Run σ UInt8 := d.board.selected

/-- Counts one more session and answers the new count. -/
def increment : Run σ UInt8 := d.board.incrementCounter

/-- Whether the power-up followed a live terminal reset. -/
def warmReset : Run σ Bool := do pure ((← d.board.warm) == Layout.warmValue)

/-- Restarts the whole device: the watchdog is left to fire. -/
def restart : Run σ Unit := d.registers.watchdog.restart

end CardTap.Device
