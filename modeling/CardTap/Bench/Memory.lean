import CardTap.Store.Eeprom

/-!
# The simulated store

The store starts erased.  A write lasts three polls of `busy`; reading or writing before they are
over is a fault, as it would break the rule of a single writer.  A budget of writes stands for a
power loss: once it is used up, writes no longer reach the cells.
-/

namespace CardTap.Bench

/-- Number of cells of the simulated store. -/
def cellCount : Nat := 4096

/-- Polls that a simulated write lasts. -/
def pollsPerWrite : Nat := 3

/-- The simulated store. -/
structure Memory where
  cells : Vector UInt8 cellCount := Vector.replicate cellCount 0xFF
  /-- Polls until the write in progress is over. -/
  busyPolls : Nat := 0
  /-- Writes started so far, the lost ones included. -/
  writes : Nat := 0
  /-- Writes that still reach the cells before the power is lost. -/
  budget : Option Nat := none

namespace Memory

/-- The value of a cell. -/
def cell? (m : Memory) (addr : Nat) : Option UInt8 := m.cells[addr]?

/-- The values of the cells from `start` to `stop`. -/
def slice (m : Memory) (start stop : Nat) : List UInt8 :=
  (m.cells.toArray.extract start stop).toList

/-- Changes a cell without regard to the timing of writes. -/
def poke (m : Memory) (addr : Nat) (value : UInt8) : Memory :=
  { m with cells := m.cells.setIfInBounds addr value }

/-- Loses power after `n` more writes. -/
def losePowerAfter (m : Memory) (n : Nat) : Memory := { m with budget := some n }

/-- Power is back. -/
def regainPower (m : Memory) : Memory := { m with budget := none }

/-- Reads a cell. -/
def fetch (addr : Nat) : Run Memory UInt8 := do
  let m ← Run.read id
  if m.busyPolls ≠ 0 then Run.fault .readDuringWrite
  match m.cell? addr with
  | some b => pure b
  | none => Run.fault (.noSuchCell cellCount addr)

/-- Puts a value into a cell. -/
def store (addr : Nat) (value : UInt8) : Run Memory Unit := do
  if addr < cellCount then Run.change (·.poke addr value)
  else Run.fault (.noSuchCell cellCount addr)

/-- Starts a write: it counts even if the power budget is used up. -/
def beginWrite (addr : Nat) (value : UInt8) : Run Memory Unit := do
  if (← Run.read Memory.busyPolls) ≠ 0 then Run.fault .writeDuringWrite
  Run.change fun m => { m with writes := m.writes + 1, busyPolls := pollsPerWrite }
  match ← Run.read Memory.budget with
  | some 0 => pure ()
  | some (left + 1) =>
    Run.change fun m => { m with budget := some left }
    store addr value
  | none => store addr value

/-- Polls the write in progress. -/
def polled (m : Memory) : Bool × Memory :=
  match m.busyPolls with
  | 0 => (false, m)
  | left + 1 => (true, { m with busyPolls := left })

/-- The operations of the simulated store, as far as its first `size` cells are used. -/
def eeprom (size : Nat) : Eeprom Memory where
  size := size
  read := fetch
  beginWrite := beginWrite
  busy := Run.step polled
  patience m := m.busyPolls + 1

end Memory

end CardTap.Bench
