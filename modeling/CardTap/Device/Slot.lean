import CardTap.Device.Registers
import CardTap.Slot
import CardTap.Timing

/-!
# The card contacts of the device

Power is switched by a pin that is active low.  The contacts RST, CLK and I/O are low outputs while
the power comes and goes.
-/

namespace CardTap.Device

/-- The clock given to the card. -/
def cardClock : CardClock := .mhz4

/-- The compare value of the timer that makes the clock of the card. -/
def cardCompare : UInt8 := 1

namespace Registers

variable {σ : Type} (r : Registers σ)

/-- Whether a card is in the slot. -/
def cardInserted : Run σ Bool := r.anySet Reg.inputD Pin.cardSwitch

/-- Whether the card has power. -/
def cardPowered : Run σ Bool := do
  if ← r.anySet Reg.directionD Pin.cardVcc then pure !(← r.anySet Reg.outputD Pin.cardVcc)
  else pure false

/-- Gives the card its clock and starts the timer that counts its ETUs. -/
def startCardClock : Run σ Unit := do
  r.write Reg.ocr0a cardCompare
  r.write Reg.tcnt0 0
  r.write Reg.tccr0a 0x42
  r.write Reg.tccr0b 0x01
  r.write Reg.tccr1a 0
  r.write Reg.tccr1b 0x01

/-- Stops the clock of the card and its timer. -/
def stopCardClock : Run σ Unit := do
  r.write Reg.tccr0a 0
  r.write Reg.tccr0b 0
  r.write Reg.tccr1a 0
  r.write Reg.tccr1b 0

/-- Makes RST a low output. -/
def lowerCardReset : Run σ Unit := do
  r.clear Reg.outputD Pin.cardRst
  r.set Reg.directionD Pin.cardRst

/-- Makes I/O an input with its pull-up. -/
def receiveFromCard : Run σ Unit := do
  r.clear Reg.directionB Pin.cardIo
  r.set Reg.outputB Pin.cardIo

/-- Makes CLK and I/O low outputs. -/
def lowerCardLines : Run σ Unit := do
  r.clear Reg.outputB (Pin.cardClk ||| Pin.cardIo)
  r.set Reg.directionB (Pin.cardClk ||| Pin.cardIo)

/-- Pulls RST low, stops the clock, pulls CLK and I/O low and cuts the power, in this order. -/
def deactivateCard : Run σ Unit := do
  r.lowerCardReset
  r.stopCardClock
  r.lowerCardLines
  r.set Reg.outputD Pin.cardVcc
  r.set Reg.directionD Pin.cardVcc

/-- Switches the power on: low is on. -/
def powerCard : Run σ Unit := do
  r.clear Reg.outputD Pin.cardVcc
  r.set Reg.directionD Pin.cardVcc

/-- A cold activation: every contact low, then the power if there is a card, then the clock. -/
def activateCold : Run σ Bool := do
  r.lowerCardLines
  r.lowerCardReset
  r.pauseUs 50
  if ← r.cardInserted then
    r.powerCard
    r.pauseUs 50
    r.receiveFromCard
    r.startCardClock
    pure true
  else
    r.deactivateCard
    pure false

/-- A warm activation: RST low again on a card that has power and clock. -/
def activateWarm : Run σ Bool := do
  r.lowerCardReset
  r.receiveFromCard
  pure true

/-- The operations of the card slot. -/
def slot : CardTap.Slot σ where
  inserted := r.cardInserted
  powered := r.cardPowered
  activate warm := if warm then r.activateWarm else r.activateCold
  driveReset high := if high then r.set Reg.outputD Pin.cardRst else r.clear Reg.outputD Pin.cardRst
  deactivate := r.deactivateCard
  watchEdge := do
    r.set Reg.eicra 0x04
    r.clear Reg.eicra 0x08
    r.set Reg.eimsk 0x02
  ignoreEdge := r.clear Reg.eimsk 0x02

end Registers

end CardTap.Device
