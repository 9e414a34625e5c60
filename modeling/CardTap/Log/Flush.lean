import CardTap.Capture.Buffer
import CardTap.Log.Marker
import CardTap.Store.Settings
import CardTap.Text

/-!
# Flush of the captured exchanges

A flush writes the buffered exchanges as one session: the application marker with the application's
id, then each exchange as a command record and a response record, then the end marker.  The log
cursor is persisted last.  Exchanges that no longer fit are dropped whole, and room for the end
marker is always kept back.
-/

namespace CardTap

/-- What a flush did. -/
structure FlushSummary where
  /-- Where the flush started to write. -/
  start : Nat
  /-- The persisted cursor after the flush. -/
  cursor : Nat
  /-- Exchanges written. -/
  written : Nat := 0
  /-- Commands and responses without a byte form. -/
  skipped : Nat := 0
  /-- Exchanges dropped because the log region is full. -/
  dropped : Nat := 0
  deriving DecidableEq, Repr

/-- Whether exchanges were dropped. -/
def FlushSummary.incomplete (r : FlushSummary) : Bool := 0 < r.dropped

namespace Log

/-! ## The cursor -/

/-- Where the next flush starts for a persisted cursor: an unset one, or one below the log region,
stands for the start of the region. -/
def startOf (persisted : Nat) : Nat :=
  if persisted = Layout.unsetCursor ∨ persisted < Layout.logStart then Layout.logStart
  else persisted

/-- The start of the page after the one that holds the cursor, never past the region. -/
def nextPage (cursor : Nat) : Checked Nat := do
  let next ← Word.add .bits16 (cursor / Layout.pageSize * Layout.pageSize) Layout.pageSize
  pure (min next Layout.logEnd)

/-- The warm-reset marker to persist after a terminal reset.  A live reset, with the terminal clock
still running, toggles the marker; a real power loss clears it. -/
def nextWarmFlag (current : UInt8) (clockRunning : Bool) : UInt8 :=
  if clockRunning ∧ current ≠ Layout.warmValue then Layout.warmValue else 0

/-! ## Writing records -/

/-- Whether `len` bytes from `cursor` on leave room for the end marker. -/
def fits (cursor len : Nat) : Bool := cursor + len + Marker.size ≤ Layout.logEnd

/-- Bytes of a record, marker included; nothing is written for a half without a byte form. -/
def recordSize : Option (List UInt8) → Nat
  | some bytes => Marker.size + bytes.length
  | none => 0

variable {σ : Type}

/-- Writes bytes at the cursor and answers the cursor behind them. -/
def writeAt (e : Eeprom σ) (cursor : Nat) (bytes : List UInt8) : StoreRun σ Nat := do
  Store.write e cursor bytes
  pure (cursor + bytes.length)

/-- Writes a record at the cursor and answers the cursor behind it. -/
def writeRecord (e : Eeprom σ) (m : Marker) (cursor : Nat) : Option (List UInt8) → StoreRun σ Nat
  | none => pure cursor
  | some bytes => do
    let cursor ← writeAt e cursor m.bytes
    writeAt e cursor bytes

/-- How far a flush has come: the cursor, the counts of its report, and whether an exchange has
already found no room. -/
structure Progress where
  cursor : Nat
  written : Nat := 0
  skipped : Nat := 0
  dropped : Nat := 0
  full : Bool := false
  deriving DecidableEq, Repr

/-- Writes one exchange, unless it or an earlier one finds no room. -/
def writeExchange (e : Eeprom σ) (p : Progress) (x : Entry) : StoreRun σ Progress := do
  if p.full then
    pure { p with dropped := p.dropped + 1 }
  else
    let skipped := p.skipped + x.command.isNone.toNat + x.response.isNone.toNat
    if fits p.cursor (recordSize x.command + recordSize x.response) then
      let cursor ← writeRecord e .command p.cursor x.command
      let cursor ← writeRecord e .response cursor x.response
      pure { p with cursor, skipped, written := p.written + 1 }
    else
      (Run.note (.of .warn "log_writer" ("log region full at " ++ Text.address p.cursor)) :
        Run σ Unit)
      pure { p with skipped, full := true, dropped := p.dropped + 1 }

/-- Where a session starts: the cursor found in the store, the place of the first byte and the
cursor behind the application record, if the session has one. -/
structure Opening where
  persisted : Nat
  start : Nat
  body : Option Nat
  deriving DecidableEq, Repr

/-- Reads the cursor and writes the application record, if there are exchanges and it fits. -/
def openSession (e : Eeprom σ) (app : UInt8) (isEmpty : Bool) : StoreRun σ Opening := do
  let persisted ← Settings.cursor e
  let start := startOf persisted
  if !isEmpty && fits start (Marker.size + 1) then
    let cursor ← writeAt e start Marker.application.bytes
    let cursor ← writeAt e cursor [app]
    pure ⟨persisted, start, some cursor⟩
  else
    pure ⟨persisted, start, none⟩

/-- Writes the exchanges of an opened session, or drops them all. -/
def writeExchanges (e : Eeprom σ) (o : Opening) (entries : List Entry) : StoreRun σ Progress :=
  match o.body with
  | some cursor => entries.foldlM (writeExchange e) { cursor }
  | none => pure { cursor := o.start, dropped := entries.length }

/-- Writes the end marker and then the cursor, if the end marker fits; answers the cursor that the
store holds in the end. -/
def closeSession (e : Eeprom σ) (persisted cursor : Nat) : StoreRun σ Nat := do
  if fits cursor 0 then
    let cursor ← writeAt e cursor Marker.finish.bytes
    let cursor ← (nextPage cursor : Run σ Nat)
    Settings.setCursor e cursor
    pure cursor
  else
    pure persisted

/-- The part of a flush that empties the buffer. -/
def writeSession (e : Eeprom σ) (o : Opening) (entries : List Entry) : StoreRun σ FlushSummary := do
  let p ← writeExchanges e o entries
  let cursor ← closeSession e o.persisted p.cursor
  (Run.note (.of .debug "log_writer"
    ("flushed " ++ toString p.written ++ " exchanges, cursor " ++ Text.address o.start ++ " -> "
      ++ Text.address cursor)) : Run σ Unit)
  pure ⟨o.start, cursor, p.written, p.skipped, p.dropped⟩

/-- How a flush ended, and what it left in the buffer. -/
structure Flushed (α : Type) where
  outcome : Except StoreError FlushSummary
  left : Buffer α

/-- Writes every buffered exchange as one session of `app`; `entry` is the byte form of an exchange.
The buffer is only left as it was if the store fails before the first exchange is taken out. -/
def flush {α : Type} (e : Eeprom σ) (entry : α → Entry) (buffer : Buffer α) (app : UInt8) :
    Run σ (Flushed α) := do
  match ← (openSession e app buffer.isEmpty).run with
  | .error err => pure ⟨.error err, buffer⟩
  | .ok o => pure ⟨← (writeSession e o (buffer.items.map entry)).run, .empty⟩

end Log

end CardTap
