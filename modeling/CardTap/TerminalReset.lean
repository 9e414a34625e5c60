import CardTap.Board
import CardTap.Log.Flush

/-!
# A falling edge of the terminal reset line

The handler saves the counter and the captured exchanges, updates the warm-reset marker and leaves
the watchdog armed, so that the device restarts shortly.  An error has nowhere to go: it is noted,
and the next step still runs.
-/

namespace CardTap.Board

variable {β : Type} (b : Board β)

/-- Saves the counter. -/
def saveCounter : Run β Unit := do
  let counter ← b.counter
  match ← (b.eeprom.attempt (Settings.setCounter · counter)).run with
  | .ok () => pure ()
  | .error e => Run.note (.of .trace "log_writer" ("counter not saved: " ++ e.describe))

/-- Flushes the captured exchanges as a session of `app`, with interrupts masked. -/
def flushCaptured (app : UInt8) : Run β (Except StoreError FlushSummary) :=
  b.masked do
    let captured ← b.ram (Run.read (·.captured))
    let flushed ← b.eeprom.run (Log.flush · Exchange.entry captured app)
    b.ram (Run.change fun r => { r with captured := flushed.left })
    pure flushed.outcome

/-- Flushes the captured exchanges; if the store fails they are dropped. -/
def saveCaptured : Run β (Option FlushSummary) := do
  let app ← b.selected
  match ← b.flushCaptured app with
  | .ok report => pure (some report)
  | .error e =>
    Run.note (.of .trace "log_writer" ("flush aborted: " ++ e.describe))
    b.discardCaptured
    pure none

/-- Moves the warm-reset marker on. -/
def saveWarmFlag (clockRunning : Bool) : Run β Unit := do
  let saved ← (b.eeprom.attempt fun e => do
    let current ← Settings.warmFlag e
    Settings.setWarmFlag e (Log.nextWarmFlag current clockRunning)).run
  match saved with
  | .ok () => pure ()
  | .error e => Run.note (.of .trace "log_writer" ("warm marker not saved: " ++ e.describe))

/-- Everything done on a falling edge of the terminal reset line. -/
def handleTerminalReset : Run β (Option FlushSummary) := do
  b.watchdog.run (·.disable)
  b.saveCounter
  let report ← b.saveCaptured
  let clockRunning ← b.resetLine.run (·.clockRunning)
  b.saveWarmFlag clockRunning
  b.resetLine.run (·.ignoreEdge)
  b.eeprom.run Store.sync
  b.watchdog.run (·.arm .restart)
  pure report

end CardTap.Board
