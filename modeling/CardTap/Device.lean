import CardTap.Boot
import CardTap.Device.Panel
import CardTap.Device.Slot
import CardTap.Device.Store
import CardTap.Device.System
import CardTap.Device.Watchdog
import CardTap.TerminalReset

/-!
# The device

A device is a set of registers and a display driver, together with the places in memory that the
firmware keeps between its calls.  Its board is built from these alone; interrupts are masked in the
status register.
-/

namespace CardTap

/-- What the firmware is given on a machine with state `σ`. -/
structure Device (σ : Type) where
  registers : Device.Registers σ
  lcd : Device.Lcd σ
  /-- The state shared with the interrupts. -/
  ram : Part Ram σ
  /-- The wide count of the terminal timer. -/
  terminalCount : Part Device.WideCount σ
  /-- The wide count of the card timer. -/
  cardCount : Part Device.WideCount σ

namespace Device

variable {σ : Type}

/-- The firmware on the device: every diagnostic, and the card detect switch watched. -/
def edition : Edition := { diagnostics := true, presenceInterrupt := true }

/-- The board made of the registers. -/
def board (d : Device σ) : Board σ where
  eeprom := .whole d.registers.eeprom
  watchdog := .whole d.registers.watchdog
  resetLine := .whole d.registers.resetLine
  terminal := .whole (d.registers.terminalLine d.terminalCount)
  card := .whole (d.registers.cardLine d.cardCount)
  slot := .whole d.registers.slot
  panel := .whole (d.registers.panel d.lcd)
  system := .whole d.registers.system
  ram := Run.within d.ram.get d.ram.put
  masked := d.registers.masked

end Device

end CardTap
