import CardTap.Run

/-!
# The non-volatile store, call by call

A write is started and then takes a while.  Neither a read nor another write may be made before it
is over, which `busy` tells.
-/

namespace CardTap

/-- The operations of a byte addressable non-volatile store. -/
structure Eeprom (σ : Type) where
  /-- Number of cells. -/
  size : Nat
  read : Nat → Run σ UInt8
  /-- Starts writing a cell; the caller has made sure that no write is in progress. -/
  beginWrite : Nat → UInt8 → Run σ Unit
  /-- Whether a write is still in progress. -/
  busy : Run σ Bool
  /-- Polls after which waiting for a write would never end. -/
  patience : σ → Nat

end CardTap
