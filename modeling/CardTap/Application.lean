import CardTap.Diagnostic.Card
import CardTap.Diagnostic.Terminal

/-!
# Applications

The device boots into one of its applications.  A development edition also has the two diagnostic
sequences; erasing the store is an entry of the menu only.
-/

namespace CardTap

/-- What an edition of the firmware contains. -/
structure Edition where
  /-- The diagnostic sequences are in the menu. -/
  diagnostics : Bool
  /-- The card detect switch is watched from power-up on. -/
  presenceInterrupt : Bool
  deriving DecidableEq, Repr

/-- What a user can choose in the menu. -/
inductive Application where
  | virtualSerial
  | forwardAndLog
  | filterAmount
  | terminal
  /-- Erases the persisted values; it is never booted into. -/
  | eraseStore
  | testTerminal
  | testCard
  deriving DecidableEq, Repr

namespace Application

/-- What runs when nothing valid was persisted. -/
def standard : Application := .virtualSerial

/-- The persisted id. -/
def id : Application → UInt8
  | .virtualSerial => 0x01
  | .forwardAndLog => 0x02
  | .filterAmount => 0x03
  | .terminal => 0x04
  | .eraseStore => 0x05
  | .testTerminal => 0x10
  | .testCard => 0x11

/-- The menu entry: two lines of eight characters. -/
def name : Application → String
  | .virtualSerial => "Virtual Serial"
  | .forwardAndLog => "Forward and Log"
  | .filterAmount => "Filter  amount"
  | .terminal => "Terminal"
  | .eraseStore => "Erase   EEPROM"
  | .testTerminal => "Test    terminal"
  | .testCard => "Test    ICC"

/-- The name of an application in messages. -/
def describe : Application → String
  | .virtualSerial => "VirtualSerial"
  | .forwardAndLog => "ForwardAndLog"
  | .filterAmount => "FilterAmount"
  | .terminal => "Terminal"
  | .eraseStore => "EraseEeprom"
  | .testTerminal => "TestTerminal"
  | .testCard => "TestIcc"

/-- The entries of the menu, in order. -/
def menu (ed : Edition) : List Application :=
  [.virtualSerial, .forwardAndLog, .filterAmount, .terminal, .eraseStore]
    ++ if ed.diagnostics then [.testTerminal, .testCard] else []

/-- The menu entry with the given id. -/
def ofId? (ed : Edition) (id : UInt8) : Option Application := (menu ed).find? (·.id == id)

/-- The application to boot into for a persisted id, if it names one. -/
def ofPersisted? (ed : Edition) (id : UInt8) : Option Application :=
  (ofId? ed id).filter (· != .eraseStore)

end Application

/-- What the applications built around the firmware do. -/
abbrev Applications (β : Type) := EntryPoint → Run β Unit

namespace Board

variable {β : Type} (b : Board β)

/-- Notes the status code of a diagnostic sequence that failed. -/
def noteStatus (result : Except DiagnosticError Unit) : Run β Unit :=
  match result with
  | .ok () => pure ()
  | .error e => Run.note (.of .warn "dispatcher" ("status " ++ Text.byte e.code))

/-- Notes that an application is about to run. -/
def noteRunning (app : Application) : Run β Unit :=
  Run.note (.of .info "dispatcher" ("running " ++ app.name))

/-- Runs an application; it returns only if the application does. -/
def launch (apps : Applications β) (app : Application) : Run β Unit := do
  noteRunning app
  match app with
  | .virtualSerial => apps .virtualSerial
  | .forwardAndLog => apps .forwardAndLog
  | .filterAmount => apps .filterAmount
  | .terminal => apps .terminal
  | .eraseStore =>
    noteRunning .standard
    apps .virtualSerial
  | .testTerminal => noteStatus (← b.actAsCard)
  | .testCard => noteStatus (← b.actAsTerminal)

end Board

end CardTap
