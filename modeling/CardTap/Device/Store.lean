import CardTap.Device.Registers
import CardTap.Store.Eeprom

/-!
# The store of the device

The internal store of 4 KiB is reached through an address, a data and a control register.
-/

namespace CardTap.Device

/-- Starts a read. -/
def readEnable : UInt8 := 0x01

/-- Starts a write; set until the write is over. -/
def writeEnable : UInt8 := 0x02

/-- Allows a write to be started within the next cycles. -/
def writeUnlock : UInt8 := 0x04

namespace Registers

variable {σ : Type} (r : Registers σ)

/-- Selects a cell. -/
def selectCell (addr : Nat) : Run σ Unit := do
  r.write Reg.eearh (UInt8.ofNat (addr / 256))
  r.write Reg.eearl (UInt8.ofNat addr)

/-- The operations of the store. -/
def eeprom : Eeprom σ where
  size := 4096
  read addr := r.masked do
    r.selectCell addr
    r.set Reg.eecr readEnable
    r.read Reg.eedr
  beginWrite addr value := r.masked do
    r.selectCell addr
    r.write Reg.eedr value
    r.write Reg.eecr writeUnlock
    r.write Reg.eecr (writeUnlock ||| writeEnable)
  busy := r.anySet Reg.eecr writeEnable
  patience _ := Run.eternity

end Registers

end CardTap.Device
