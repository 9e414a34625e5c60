import CardTap.Bench.Bench
import CardTap.Store.Operation
import CardTap.TerminalReset

/-!
# An access that a terminal reset interrupts

The main flow of the firmware calls the store, and the handler of a terminal reset may run between
any two of these calls, with its own accesses to the same store.  Here the handler runs exactly
once, in front of the call with a given number; the main flow goes on behind it as if nothing
happened.
-/

namespace CardTap.Bench

/-- A main flow that works on the store of a bench and is interrupted once. -/
structure Preempted where
  bench : Bench
  /-- The calls that the main flow makes before the interrupt. -/
  point : Nat
  /-- The calls that the main flow has made so far. -/
  calls : Nat := 0
  /-- The store as the handler found it and as it left it. -/
  handled : Option (Memory × Memory) := none

namespace Preempted

/-- The bench below the main flow. -/
def benchPart : Part Bench Preempted := ⟨Preempted.bench, fun x s => { s with bench := x }⟩

/-- The store that the main flow and the handler share. -/
def memory (s : Preempted) : Memory := s.bench.memory

/-- That store as a part of the machine. -/
def storePart : Part Memory Preempted := ⟨memory, fun x s => { s with bench.memory := x }⟩

/-- The whole handler, on the bench as the main flow has left it. -/
def interrupt (size : Nat) : Run Preempted Unit := do
  let found ← Run.read memory
  let _ ← Run.within benchPart.get benchPart.put (board size).handleTerminalReset
  Run.change fun s => { s with handled := some (found, s.memory) }

/-- The border in front of a call of the main flow. -/
def border (size : Nat) : Run Preempted Unit := do
  let s ← Run.read id
  if s.calls = s.point then interrupt size
  Run.change fun s => { s with calls := s.calls + 1 }

/-- A call of the main flow. -/
def call {α : Type} (size : Nat) (x : Run Memory α) : Run Preempted α := do
  border size
  Run.within storePart.get storePart.put x

/-- The store as the main flow sees it. -/
def eeprom (size : Nat) : Eeprom Preempted where
  size := size
  read addr := call size ((Memory.eeprom size).read addr)
  beginWrite addr b := call size ((Memory.eeprom size).beginWrite addr b)
  busy := call size (Memory.eeprom size).busy
  patience s := (Memory.eeprom size).patience s.memory

end Preempted

end CardTap.Bench
