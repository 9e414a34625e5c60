import CardTap.Application
import CardTap.Presence

/-!
# Power-up and application selection

The device boots through a few states until it either knows which application to run or has to
restart to apply a new selection.
-/

namespace CardTap

/-- Why the device restarts instead of running an application. -/
inductive RestartReason where
  /-- The persisted values were reset from the menu. -/
  | erased
  /-- A new application was persisted. -/
  | selected (app : Application)
  /-- The menu could not be shown, nothing was chosen. -/
  | nothingChosen
  deriving DecidableEq, Repr

/-- The text of a restart reason in messages. -/
def RestartReason.describe : RestartReason → String
  | .erased => "Erased"
  | .selected app => "Selected(" ++ app.describe ++ ")"
  | .nothingChosen => "NoSelection"

/-- How a boot ends. -/
inductive BootResult where
  | restart (reason : RestartReason)
  | launch (app : Application)
  deriving DecidableEq, Repr

/-- The text of a boot outcome in messages. -/
def BootResult.describe : BootResult → String
  | .restart reason => "Restart(" ++ reason.describe ++ ")"
  | .launch app => "Dispatch(" ++ app.describe ++ ")"

/-- The states of a boot. -/
inductive BootState where
  | powerOn
  | menuSelect (display : Bool)
  | storedSelect
  | restarting (reason : RestartReason)
  | launching (app : Application)
  deriving DecidableEq, Repr

namespace BootState

/-- The outcome that a final state stands for. -/
def outcome : BootState → Option BootResult
  | .restarting reason => some (.restart reason)
  | .launching app => some (.launch app)
  | _ => none

/-- The text of a boot state in messages. -/
def describe : BootState → String
  | .powerOn => "ColdStart"
  | .menuSelect display =>
    "InteractiveSelect \x7b display: " ++ Text.bool display ++ " \x7d"
  | .storedSelect => "PersistedSelect"
  | .restarting reason => "Restarting(" ++ reason.describe ++ ")"
  | .launching app => "Dispatched(" ++ app.describe ++ ")"

end BootState

/-- Held at power-up to enter the menu. -/
def menuKey : Buttons := .b

/-- Goes on to the next prompt or entry of the menu. -/
def nextKey : Buttons := .c

/-- Selects an entry of the menu. -/
def chooseKey : Buttons := .d

/-- Milliseconds between a scroll and the next text of the menu. -/
def menuPauseMs : Nat := 500

/-- Milliseconds between two changes of the blinking LEDs. -/
def blinkMs : Nat := 500

/-- The texts shown before the entries of the menu. -/
def prompts : List String := ["BC to   scroll", "BD to   select", "Avail.  apps:"]

namespace Panel

variable {σ : Type} (p : Panel σ)

/-- Reads the buttons up to `n` times until `choice` makes something of them. -/
def pollButtons {α : Type} (choice : Buttons → Option α) : Nat → Run σ α
  | 0 => Run.halt .endless
  | n + 1 => do
    match choice (← p.buttons) with
    | some a => pure a
    | none => pollButtons choice n

/-- Reads the buttons until `choice` makes something of them. -/
def awaitButtons {α : Type} (choice : Buttons → Option α) : Run σ α := do
  let patience ← Run.read p.patience
  p.pollButtons choice patience

/-- Shows a prompt until the user scrolls on. -/
def showPrompt (text : String) : Run σ Unit := do
  p.printLine text
  p.awaitButtons fun held => if held.holds nextKey then some () else none
  p.pauseMs menuPauseMs

/-- What the user does about a menu entry: select it (true) or scroll on (false). -/
def entryChoice (held : Buttons) : Option Bool :=
  if held.holds chooseKey then some true
  else if held.holds nextKey then some false
  else none

/-- Offers menu entries until the user selects one. -/
def offer : List Application → Run σ (Option Application)
  | [] => pure none
  | app :: rest => do
    p.printLine app.name
    if ← p.awaitButtons entryChoice then pure (some app)
    else
      p.pauseMs menuPauseMs
      offer rest

/-- Goes over the prompts and the entries up to `n` times until an entry is selected. -/
def rounds (menu : List Application) : Nat → Run σ Application
  | 0 => Run.halt .endless
  | n + 1 => do
    prompts.forM p.showPrompt
    match ← p.offer menu with
    | some app => pure app
    | none => rounds menu n

/-- Walks the user through the menu; without a display nothing is selected. -/
def chooseApplication (menu : List Application) (display : Bool) : Run σ (Option Application) := do
  if display then
    p.powerDisplay true
    let patience ← Run.read p.patience
    some <$> p.rounds menu patience
  else pure none

/-- Lights one of two LEDs and then the other, once. -/
def blink : Run σ Unit := do
  p.light .l1 true
  p.light .l2 false
  p.pauseMs blinkMs
  p.light .l1 false
  p.light .l2 true
  p.pauseMs blinkMs

/-- Blinks for ever. -/
def blinkForever : Run σ Unit := Run.forever p.blink Run.eternity

end Panel

namespace Board

variable {β : Type} (b : Board β)

/-- Persists a selection with interrupts masked, then takes it over. -/
def commitSelection (id : UInt8) : StoreRun β Unit := do
  b.maskedAttempt (b.eeprom.attempt fun e => do
    Settings.setApplication e id
    Store.sync e)
  (b.setSelected id : Run β Unit)

/-- Takes over the persisted values. -/
def loadSettings : StoreRun β Unit := do
  let warm ← b.eeprom.attempt Settings.warmFlag
  (b.setWarm warm : Run β Unit)
  let counter ← b.eeprom.attempt Settings.counter
  (b.setCounter counter : Run β Unit)
  let selected ← b.eeprom.attempt Settings.application
  (b.setSelected selected : Run β Unit)

/-- Whether a display is connected; if so it is switched off. -/
def displayConnected : Run β Bool := do
  let display ← b.panel.run (·.hasDisplay)
  if display then b.panel.run (·.powerDisplay false)
  pure display

/-- Brings the board up and takes over the persisted values; answers whether a display is
connected. -/
def init (ed : Edition) : StoreRun β Bool := do
  (b.system.run (·.init) : Run β Unit)
  (b.watchdog.run (·.disable) : Run β Unit)
  (b.panel.run (·.light .power true) : Run β Unit)
  b.loadSettings
  let display ← (b.displayConnected : Run β Bool)
  (b.system.run (·.enableInterrupts) : Run β Unit)
  if ed.presenceInterrupt then
    let _ ← (b.watchPresence : Run β Presence)
  pure display

/-- Resets the persisted values, with an LED lit meanwhile. -/
def eraseSettings : StoreRun β Unit := do
  (b.panel.run (·.light .l2 true) : Run β Unit)
  b.eeprom.attempt Settings.factoryReset
  (b.panel.run (·.light .l2 false) : Run β Unit)
  (b.setSelected 0 : Run β Unit)

/-- Lets the user choose and persists the choice. -/
def menuSelect (ed : Edition) (display : Bool) : StoreRun β RestartReason := do
  let chosen ← (b.panel.run (·.chooseApplication (Application.menu ed) display) :
    Run β (Option Application))
  match chosen with
  | some .eraseStore =>
    b.eraseSettings
    pure .erased
  | some app =>
    b.commitSelection app.id
    pure (.selected app)
  | none =>
    b.commitSelection 0
    pure .nothingChosen

/-- The application that the store names; if it names none the standard one is persisted. -/
def storedSelect (ed : Edition) : StoreRun β Application := do
  let id ← b.maskedAttempt (b.eeprom.attempt Settings.application)
  let app ← match Application.ofPersisted? ed id with
    | some app => pure app
    | none =>
      (Run.note (.of .warn "boot" ("no application for id " ++ Text.byte id)) : Run β Unit)
      b.commitSelection Application.standard.id
      pure Application.standard
  (b.setSelected app.id : Run β Unit)
  pure app

/-- Advances a boot by one state; final states stay where they are. -/
def step (ed : Edition) (s : BootState) : StoreRun β BootState := do
  let next ← match s with
    | .powerOn => do
      let display ← b.init ed
      let held ← (b.panel.run (·.buttons) : Run β Buttons)
      pure (if held.holds menuKey then .menuSelect display else .storedSelect)
    | .menuSelect display => BootState.restarting <$> b.menuSelect ed display
    | .storedSelect => BootState.launching <$> b.storedSelect ed
    | done => pure done
  (Run.note (.of .debug "boot" (s.describe ++ " -> " ++ next.describe)) : Run β Unit)
  pure next

/-- Boots from a state through at most `n` more. -/
def bootFrom (ed : Edition) : Nat → BootState → StoreRun β BootResult
  | 0, _ => Run.halt .endless
  | n + 1, s => do
    let next ← b.step ed s
    match next.outcome with
    | some outcome => pure outcome
    | none => bootFrom ed n next

/-- Boots from a cold start, which takes two states. -/
def boot (ed : Edition) : StoreRun β BootResult := b.bootFrom ed 2 .powerOn

/-- Lets pending writes land and restarts under the watchdog. -/
def restart : Run β Unit := do
  b.eeprom.run Store.sync
  b.watchdog.run (·.arm .restart)
  b.watchdog.run (·.restart)

/-- Boots and hands the board to the selected application; the run always halts. -/
def powerUp (ed : Edition) (apps : Applications β) : Run β Unit := do
  match ← (b.boot ed).run with
  | .ok (.launch app) =>
    b.launch apps app
    b.panel.run (·.blinkForever)
  | .ok (.restart reason) =>
    Run.note (.of .info "boot" ("restarting: " ++ reason.describe))
    b.restart
  | .error e =>
    Run.note (.of .error "boot" ("boot failed: " ++ e.describe))
    b.restart

end Board

end CardTap
