import CardTap.Bench.Memory
import CardTap.Bench.Panel
import CardTap.Bench.ResetLine
import CardTap.Bench.Slot
import CardTap.Bench.System
import CardTap.Bench.Watchdog
import CardTap.Bench.Wire
import CardTap.Application

/-!
# The simulated board

A bench is a whole board in simulation, with the shared state and the list of applications that were
called.
-/

namespace CardTap

/-- The simulated board. -/
structure Bench where
  memory : Bench.Memory := {}
  watchdog : Bench.Watchdog := {}
  resetLine : Bench.ResetLine := {}
  terminal : Bench.Wire := { etu := Etu.terminal.ticks }
  card : Bench.Wire := { etu := Etu.card.ticks }
  slot : Bench.Slot := {}
  panel : Bench.Panel := { connected := true }
  system : Bench.System := {}
  ram : Ram := {}
  /-- Applications called so far, newest first. -/
  calls : List EntryPoint := []

namespace Bench

/-- The store of the bench. -/
def memoryPart : Part Memory Bench := ⟨Bench.memory, fun x b => { b with memory := x }⟩

/-- The watchdog of the bench. -/
def watchdogPart : Part Watchdog Bench := ⟨Bench.watchdog, fun x b => { b with watchdog := x }⟩

/-- The reset line of the bench. -/
def resetLinePart : Part ResetLine Bench := ⟨Bench.resetLine, fun x b => { b with resetLine := x }⟩

/-- The line to the terminal of the bench. -/
def terminalPart : Part Wire Bench := ⟨Bench.terminal, fun x b => { b with terminal := x }⟩

/-- The line to the card of the bench. -/
def cardPart : Part Wire Bench := ⟨Bench.card, fun x b => { b with card := x }⟩

/-- The card slot of the bench. -/
def slotPart : Part Slot Bench := ⟨Bench.slot, fun x b => { b with slot := x }⟩

/-- The panel of the bench. -/
def panelPart : Part Panel Bench := ⟨Bench.panel, fun x b => { b with panel := x }⟩

/-- The microcontroller of the bench. -/
def systemPart : Part System Bench := ⟨Bench.system, fun x b => { b with system := x }⟩

/-- The shared state of the bench. -/
def ramPart : Part Ram Bench := ⟨Bench.ram, fun x b => { b with ram := x }⟩

/-- The bench as a board whose store has `size` usable cells.  Nothing interrupts a bench, so
masking interrupts does nothing. -/
def board (size : Nat) : Board Bench where
  eeprom := .part memoryPart (Memory.eeprom size)
  watchdog := .part watchdogPart Watchdog.watchdog
  resetLine := .part resetLinePart ResetLine.resetLine
  terminal := .part terminalPart Wire.line
  card := .part cardPart Wire.line
  slot := .part slotPart Slot.slot
  panel := .part panelPart Panel.panel
  system := .part systemPart System.system
  ram := Run.within ramPart.get ramPart.put
  masked := id

/-- The bench after a power cycle: the store keeps its cells, and the shared state and the list of
calls are kept as well. -/
def powerCycle (b : Bench) : Bench := { memory := b.memory, ram := b.ram, calls := b.calls }

/-- Restarts the whole bench. -/
def restart : Run Bench Unit := Run.halt (.restart .device)

/-- Applications that note that they were called; each returns if `returning` is set. -/
def applications (returning : Bool) : Applications Bench := fun entry => do
  Run.change fun b => { b with calls := entry :: b.calls }
  unless returning do Run.halt (.stop (.application entry))

end Bench

end CardTap
