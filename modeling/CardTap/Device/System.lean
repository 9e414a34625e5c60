import CardTap.Device.Lines
import CardTap.ResetLine
import CardTap.System

/-!
# Pins, timers, interrupts and debug output of the device
-/

namespace CardTap.Device.Registers

variable {σ : Type} (r : Registers σ)

/-- The operations on the whole microcontroller. -/
def system : CardTap.System σ where
  init := do
    r.clear Reg.sreg interruptBit
    r.write Reg.eicra 0
    r.write Reg.eicrb 0
    r.write Reg.eifr 0xFF
    r.write Reg.eimsk 0
    r.write Reg.directionB 0
    r.write Reg.directionC 0
    r.write Reg.outputC (Pin.terminalIo ||| Pin.terminalClk)
    r.write Reg.directionD Pin.cardVcc
    r.write Reg.outputD (Pin.cardVcc ||| Pin.cardSwitch ||| Pin.terminalRst)
    r.clear Reg.directionF 0x0F
    r.set Reg.outputF 0x0F
    r.write Reg.clkpr 0x80
    r.write Reg.clkpr 0
    r.write Reg.tccr3a 0
    r.write Reg.tccr3b 0x07
  enableInterrupts := r.set Reg.sreg interruptBit

/-- The operations of the reset line of the terminal. -/
def resetLine : CardTap.ResetLine σ where
  clockRunning := r.terminalClockRuns
  watchEdge := do
    r.clear Reg.eimsk 0x01
    r.set Reg.eicra 0x02
    r.clear Reg.eicra 0x01
    r.set Reg.eifr 0x01
    r.set Reg.eimsk 0x01
  ignoreEdge := r.clear Reg.eimsk 0x01

/-- Configures the debug output for 38400 baud, unless it is configured already. -/
def initDebug : Run σ Unit := do
  unless ← r.anySet Reg.ucsr1b 0x08 do
    r.write Reg.ubrr1h 0
    r.write Reg.ubrr1l 25
    r.write Reg.ucsr1c 0x06
    r.write Reg.ucsr1b 0x08

/-- Polls up to `n` times until the debug output takes a byte. -/
def awaitDebug : Nat → Run σ Unit
  | 0 => Run.halt .endless
  | n + 1 => do unless ← r.anySet Reg.ucsr1a 0x20 do awaitDebug n

/-- Sends a text to the debug output. -/
def sendDebug (text : String) : Run σ Unit := do
  r.initDebug
  text.toUTF8.toList.forM fun b => do
    r.awaitDebug Run.eternity
    r.write Reg.udr1 b

end CardTap.Device.Registers
