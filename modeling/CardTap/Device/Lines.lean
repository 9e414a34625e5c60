import CardTap.Device.WideCount
import CardTap.Line

/-!
# The two lines of the device

One timer counts the clock of the terminal, another one the core clock that the clock of the card is
divided from.
-/

namespace CardTap.Device.Registers

variable {σ : Type} (r : Registers σ)

/-- Drives a pin: the level is set before the pin becomes an output. -/
def drivePin (direction output : Nat) (pin : UInt8) (level : Level) : Run σ Unit := do
  match level with
  | .low => r.clear output pin
  | .high => r.set output pin
  r.set direction pin

/-- Makes a pin an input with its pull-up. -/
def releasePin (direction output : Nat) (pin : UInt8) : Run σ Unit := do
  r.clear direction pin
  r.set output pin

/-- The level of a pin. -/
def samplePin (pins : Nat) (pin : UInt8) : Run σ Level := do
  if ← r.anySet pins pin then pure .high else pure .low

/-- Whether the terminal gives a clock: its timer runs and moves within a microsecond. -/
def terminalClockRuns : Run σ Bool := do
  if ← r.anySet Reg.tccr3b 0x07 then
    let count ← r.masked do
      r.writeWord Reg.tcnt3 1
      r.pauseUs 1
      r.readWord Reg.tcnt3
    pure (count != 1)
  else pure false

/-- Whether the card is given a clock and its timer runs. -/
def cardClockRuns : Run σ Bool := do
  let clock ← r.read Reg.tccr0b
  if clock = 0 then pure false
  else
    let timer ← r.read Reg.tccr1b
    pure (timer != 0)

/-- The line to the terminal. -/
def terminalLine (place : Part WideCount σ) : Line σ where
  clockRunning := r.terminalClockRuns
  startTimer := r.startCount place Reg.tcnt3
  waitFor target := r.awaitCount place Reg.tcnt3 target
  drive := r.drivePin Reg.directionC Reg.outputC Pin.terminalIo
  release := r.releasePin Reg.directionC Reg.outputC Pin.terminalIo
  sample := r.samplePin Reg.inputC Pin.terminalIo
  resetHeld := do pure !(← r.anySet Reg.inputD Pin.terminalRst)
  patience _ := Run.eternity

/-- The line to the card; it has no reset of its own to watch. -/
def cardLine (place : Part WideCount σ) : Line σ where
  clockRunning := r.cardClockRuns
  startTimer := r.startCount place Reg.tcnt1
  waitFor target := do
    if ← r.cardClockRuns then r.awaitCount place Reg.tcnt1 target else pure false
  drive := r.drivePin Reg.directionB Reg.outputB Pin.cardIo
  release := r.releasePin Reg.directionB Reg.outputB Pin.cardIo
  sample := r.samplePin Reg.inputB Pin.cardIo
  resetHeld := pure false
  patience _ := Run.eternity

end CardTap.Device.Registers
