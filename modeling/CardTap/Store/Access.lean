import CardTap.Store.Eeprom

/-!
# Bounds-checked access to the store

Every access first waits for the write in progress, so that only one write is ever in flight, no
matter who started it.  An access that would not fit is refused before anything happens.
-/

namespace CardTap

/-- Why the store refused an access. -/
inductive StoreError where
  /-- The access ends at `got`, past the last of `max` cells. -/
  | overflow (max got : Nat)
  deriving DecidableEq, Repr

/-- The text of a store error in messages. -/
def StoreError.describe : StoreError → String
  | .overflow max got =>
    "Overflow \x7b max: " ++ toString max ++ ", got: " ++ toString got ++ " \x7d"

/-- A run on a store that may refuse an access. -/
abbrev StoreRun (σ : Type) := ExceptT StoreError (Run σ)

namespace Store

variable {σ : Type}

/-- Refuses an access of `len` bytes from `start` on that would not fit. -/
def check (e : Eeprom σ) (start len : Nat) : StoreRun σ Unit :=
  if start + len ≤ e.size then pure () else throw (.overflow e.size (start + len))

/-- Polls until no write is in progress. -/
def poll (e : Eeprom σ) : Nat → Run σ Unit
  | 0 => Run.halt .endless
  | n + 1 => do if ← e.busy then poll e n

/-- Waits for the write in progress to complete. -/
def sync (e : Eeprom σ) : Run σ Unit := do
  let patience ← Run.read e.patience
  poll e patience

/-- Reads one byte. -/
def readByte (e : Eeprom σ) (addr : Nat) : StoreRun σ UInt8 := do
  check e addr 1
  sync e
  e.read addr

/-- Reads `len` bytes. -/
def read (e : Eeprom σ) (start len : Nat) : StoreRun σ (List UInt8) := do
  check e start len
  sync e
  (List.range' start len).mapM fun addr => (e.read addr : Run σ UInt8)

/-- Writes bytes from `addr` on, which fit. -/
def writeFrom (e : Eeprom σ) (addr : Nat) : List UInt8 → Run σ Unit
  | [] => pure ()
  | b :: rest => do
    sync e
    e.beginWrite addr b
    writeFrom e (addr + 1) rest

/-- Writes bytes. -/
def write (e : Eeprom σ) (start : Nat) (bytes : List UInt8) : StoreRun σ Unit := do
  check e start bytes.length
  writeFrom e start bytes

/-- Writes one byte. -/
def writeByte (e : Eeprom σ) (addr : Nat) (b : UInt8) : StoreRun σ Unit := write e addr [b]

/-- Writes bytes from `addr` on, which fit, where the cell holds another value; answers `written`
and the number of bytes written. -/
def updateFrom (e : Eeprom σ) (written addr : Nat) : List UInt8 → Run σ Nat
  | [] => pure written
  | b :: rest => do
    sync e
    let old ← e.read addr
    if old = b then updateFrom e written (addr + 1) rest
    else
      e.beginWrite addr b
      updateFrom e (written + 1) (addr + 1) rest

/-- Writes the bytes that the store does not hold yet and answers their number. -/
def update (e : Eeprom σ) (start : Nat) (bytes : List UInt8) : StoreRun σ Nat := do
  check e start bytes.length
  updateFrom e 0 start bytes

end Store

end CardTap
