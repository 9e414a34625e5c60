import CardTap.Store.Layout
import CardTap.Store.Access

/-!
# The persisted values

Typed access to the values kept below the log region.  Setting a value only touches the bytes that
change.
-/

namespace CardTap.Settings

variable {σ : Type}

/-- The selected application. -/
def application (e : Eeprom σ) : StoreRun σ UInt8 := Store.readByte e Layout.application

/-- Selects an application. -/
def setApplication (e : Eeprom σ) (id : UInt8) : StoreRun σ Unit := do
  let _ ← Store.update e Layout.application [id]

/-- The counter of completed sessions. -/
def counter (e : Eeprom σ) : StoreRun σ UInt8 := Store.readByte e Layout.counter

/-- Sets the counter. -/
def setCounter (e : Eeprom σ) (value : UInt8) : StoreRun σ Unit := do
  let _ ← Store.update e Layout.counter [value]

/-- The warm-reset marker. -/
def warmFlag (e : Eeprom σ) : StoreRun σ UInt8 := Store.readByte e Layout.warmFlag

/-- Sets the warm-reset marker. -/
def setWarmFlag (e : Eeprom σ) (value : UInt8) : StoreRun σ Unit := do
  let _ ← Store.update e Layout.warmFlag [value]

/-- The cursor that two bytes stand for, high byte first. -/
def cursorOf (high low : UInt8) : Nat := high.toNat * 256 + low.toNat

/-- The log cursor, possibly unset. -/
def cursor (e : Eeprom σ) : StoreRun σ Nat := do
  let high ← Store.readByte e Layout.cursorHigh
  let low ← Store.readByte e Layout.cursorLow
  pure (cursorOf high low)

/-- Sets the log cursor: first its high byte, then its low byte. -/
def setCursor (e : Eeprom σ) (cursor : Nat) : StoreRun σ Unit := do
  let _ ← Store.update e Layout.cursorHigh [UInt8.ofNat (cursor / 256)]
  let _ ← Store.update e Layout.cursorLow [UInt8.ofNat cursor]

/-- Whether a cursor was never written. -/
def isUnset (cursor : Nat) : Bool := cursor == Layout.unsetCursor

/-- The erase goes over the store in chunks of this size. -/
def eraseStep : Nat := 32

/-- Erases the whole store, chunk by chunk; the last chunk may be shorter. -/
def erase (e : Eeprom σ) : StoreRun σ Unit :=
  (List.range ((e.size + eraseStep - 1) / eraseStep)).forM fun i => do
    let start := i * eraseStep
    let _ ← Store.update e start (List.replicate (min eraseStep (e.size - start)) 0xFF)

/-- Erases the whole store and writes the default values. -/
def factoryReset (e : Eeprom σ) : StoreRun σ Unit := do
  erase e
  setWarmFlag e 0
  setApplication e 0
  setCounter e 0
  setCursor e Layout.logStart
  Store.sync e
  (Run.note (.of .info "storage" "persisted state reset") : Run σ Unit)

end CardTap.Settings
