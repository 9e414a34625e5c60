import CardTap.Line.Link
import CardTap.Panel
import CardTap.Ram
import CardTap.ResetLine
import CardTap.Slot
import CardTap.Store.Settings
import CardTap.System
import CardTap.Watchdog

/-!
# A board

Every interface of the device, mounted on one machine, with the shared state and the way to mask
interrupts.  The firmware is written against this record only.
-/

namespace CardTap

/-- The interfaces of a board on a machine with state `β`. -/
structure Board (β : Type) where
  eeprom : Mounted Eeprom β
  watchdog : Mounted Watchdog β
  resetLine : Mounted ResetLine β
  /-- The line to the terminal. -/
  terminal : Mounted Line β
  /-- The line to the card. -/
  card : Mounted Line β
  slot : Mounted Slot β
  panel : Mounted Panel β
  system : Mounted System β
  /-- Acts on the shared state. -/
  ram {α : Type} : Run Ram α → Run β α
  /-- Acts with interrupts masked. -/
  masked {α : Type} : Run β α → Run β α

namespace Board

variable {β α ε : Type} (b : Board β)

/-- Looks at the shared state with interrupts masked. -/
def look (f : Ram → α) : Run β α := b.masked (b.ram (Run.read f))

/-- Changes the shared state with interrupts masked. -/
def shared (f : Ram → α × Ram) : Run β α := b.masked (b.ram (Run.step f))

/-- Acts with interrupts masked; the act may fail. -/
def maskedAttempt (body : ExceptT ε (Run β) α) : ExceptT ε (Run β) α :=
  ExceptT.mk (b.masked body.run)

/-- The application in use. -/
def selected : Run β UInt8 := b.look (·.selected)

/-- Sets the application in use. -/
def setSelected (id : UInt8) : Run β Unit := b.shared fun r => ((), { r with selected := id })

/-- The counter of completed sessions. -/
def counter : Run β UInt8 := b.look (·.counter)

/-- Sets the counter of completed sessions. -/
def setCounter (value : UInt8) : Run β Unit := b.shared fun r => ((), { r with counter := value })

/-- Counts one more session and answers the new count. -/
def incrementCounter : Run β UInt8 := b.shared Ram.incremented

/-- The warm-reset marker as read at power-up. -/
def warm : Run β UInt8 := b.look (·.warm)

/-- Sets the warm-reset marker in use. -/
def setWarm (value : UInt8) : Run β Unit := b.shared fun r => ((), { r with warm := value })

/-- Whether a card is in the slot, as last seen. -/
def presence : Run β Presence := b.look (·.presence)

/-- The captured exchanges. -/
def captured : Run β (Buffer Exchange) := b.look (·.captured)

/-- Drops the captured exchanges. -/
def discardCaptured : Run β Unit := b.shared fun r => ((), { r with captured := .empty })

/-- Captures an exchange for the next flush; without room it is dropped and the answer is false. -/
def capture (x : Exchange) : Run β Bool := do
  let kept ← b.shared (Ram.captured? x)
  unless kept do
    Run.note (.of .trace "state" "transaction buffer full, exchange dropped")
  pure kept

end Board

end CardTap
