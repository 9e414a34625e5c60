import CardTap.Run

/-!
# Registers of the microcontroller

Every peripheral of the device is a set of memory mapped registers of one byte.  Interrupts are
masked by clearing one bit of the status register; the sections in which they are masked may nest.
-/

namespace CardTap.Device

/-- The register accesses of a machine with state `σ`, and the instructions that are none. -/
structure Registers (σ : Type) where
  read : Nat → Run σ UInt8
  write : Nat → UInt8 → Run σ Unit
  /-- Executes so many no-operations. -/
  nops : Nat → Run σ Unit
  /-- Serves the watchdog. -/
  serveWatchdog : Run σ Unit
  /-- Waits for the watchdog to fire: the run halts. -/
  spin : Run σ Unit

/-! ## Addresses and bits -/

namespace Reg

def inputB : Nat := 0x23
def directionB : Nat := 0x24
def outputB : Nat := 0x25
def inputC : Nat := 0x26
def directionC : Nat := 0x27
def outputC : Nat := 0x28
def inputD : Nat := 0x29
def directionD : Nat := 0x2A
def outputD : Nat := 0x2B
def directionE : Nat := 0x2D
def outputE : Nat := 0x2E
def inputF : Nat := 0x2F
def directionF : Nat := 0x30
def outputF : Nat := 0x31

/-- Interrupt flags. -/
def eifr : Nat := 0x3C
/-- Interrupt mask. -/
def eimsk : Nat := 0x3D
/-- Interrupt control, lower half. -/
def eicra : Nat := 0x69
/-- Interrupt control, upper half. -/
def eicrb : Nat := 0x6A

/-- Store control. -/
def eecr : Nat := 0x3F
/-- Store data. -/
def eedr : Nat := 0x40
/-- Store address, low byte. -/
def eearl : Nat := 0x41
/-- Store address, high byte. -/
def eearh : Nat := 0x42

def tccr0a : Nat := 0x44
def tccr0b : Nat := 0x45
def tcnt0 : Nat := 0x46
def ocr0a : Nat := 0x47
def tccr1a : Nat := 0x80
def tccr1b : Nat := 0x81
/-- Counter of the card timer, low byte. -/
def tcnt1 : Nat := 0x84
def tccr3a : Nat := 0x90
def tccr3b : Nat := 0x91
/-- Counter of the terminal timer, low byte. -/
def tcnt3 : Nat := 0x94

/-- Reset causes. -/
def mcusr : Nat := 0x54
/-- Watchdog control. -/
def wdtcsr : Nat := 0x60
/-- Prescaler of the core clock. -/
def clkpr : Nat := 0x61
/-- Status register of the core. -/
def sreg : Nat := 0x5F

def ucsr1a : Nat := 0xC8
def ucsr1b : Nat := 0xC9
def ucsr1c : Nat := 0xCA
def ubrr1l : Nat := 0xCC
def ubrr1h : Nat := 0xCD
/-- Data of the serial debug output. -/
def udr1 : Nat := 0xCE

end Reg

namespace Pin

/-- Contact I/O of the terminal, in bank C. -/
def terminalIo : UInt8 := 0x10
/-- Contact CLK of the terminal, in bank C. -/
def terminalClk : UInt8 := 0x08
/-- Contact RST of the terminal, in bank D. -/
def terminalRst : UInt8 := 0x01
/-- Contact I/O of the card, in bank B. -/
def cardIo : UInt8 := 0x40
/-- Contact CLK of the card, in bank B. -/
def cardClk : UInt8 := 0x80
/-- Contact RST of the card, in bank D. -/
def cardRst : UInt8 := 0x10
/-- Power of the card, in bank D; low switches it on. -/
def cardVcc : UInt8 := 0x80
/-- The card detect switch, in bank D. -/
def cardSwitch : UInt8 := 0x02

end Pin

/-- The interrupt bit of the status register. -/
def interruptBit : UInt8 := 0x80

namespace Registers

variable {σ α : Type} (r : Registers σ)

/-- Sets bits of a register. -/
def set (addr : Nat) (mask : UInt8) : Run σ Unit := do
  let old ← r.read addr
  r.write addr (old ||| mask)

/-- Clears bits of a register. -/
def clear (addr : Nat) (mask : UInt8) : Run σ Unit := do
  let old ← r.read addr
  r.write addr (old &&& ~~~mask)

/-- Whether any of the bits is set. -/
def anySet (addr : Nat) (mask : UInt8) : Run σ Bool := do
  let value ← r.read addr
  pure (value &&& mask != 0)

/-! ## Masked interrupts -/

/-- Masks interrupts and answers the status register as it was. -/
def maskInterrupts : Run σ UInt8 := do
  let saved ← r.read Reg.sreg
  r.write Reg.sreg (saved &&& ~~~interruptBit)
  pure saved

/-- Lets interrupts through again if they were let through before. -/
def restoreInterrupts (saved : UInt8) : Run σ Unit := do
  if saved &&& interruptBit != 0 then r.set Reg.sreg interruptBit

/-- Acts with interrupts masked; they are restored however the act ends. -/
@[inline] def masked (body : Run σ α) : Run σ α := do
  let saved ← r.maskInterrupts
  Run.ensure body (r.restoreInterrupts saved)

/-! ## Words and delays -/

/-- Reads a timer word: the low byte first, which latches the high one. -/
def readWord (low : Nat) : Run σ Nat := r.masked do
  let lo ← r.read low
  let hi ← r.read (low + 1)
  pure (hi.toNat * 256 + lo.toNat)

/-- Writes a timer word: the high byte first. -/
def writeWord (low value : Nat) : Run σ Unit := r.masked do
  r.write (low + 1) (UInt8.ofNat (value / 256))
  r.write low (UInt8.ofNat value)

/-- Passes roughly `us` microseconds, three no-operations for each. -/
def pauseUs (us : Nat) : Run σ Unit := r.nops (3 * us)

end Registers

end CardTap.Device
