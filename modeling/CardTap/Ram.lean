import CardTap.Capture.Buffer
import CardTap.Run

/-!
# The state shared with the interrupts

The main flow and the interrupt handlers share the buffer of captured exchanges, three bytes cached
from the store and the presence of the card.  On a board they are only touched with interrupts
masked.
-/

namespace CardTap

/-- Whether a card is in the slot. -/
inductive Presence where
  | absent
  | present
  deriving DecidableEq, Repr

/-- The name of a presence in messages. -/
def Presence.describe : Presence → String
  | .absent => "Absent"
  | .present => "Present"

/-- The shared state. -/
structure Ram where
  captured : Buffer Exchange := .empty
  selected : UInt8 := 0
  counter : UInt8 := 0
  warm : UInt8 := 0
  presence : Presence := .absent

namespace Ram

/-- Captures an exchange if the buffer has room. -/
def captured? (x : Exchange) (r : Ram) : Bool × Ram :=
  match r.captured.append? x with
  | some captured => (true, { r with captured })
  | none => (false, r)

/-- Counts one more session; the counter starts again after 255. -/
def incremented (r : Ram) : UInt8 × Ram := (r.counter + 1, { r with counter := r.counter + 1 })

end Ram

end CardTap
