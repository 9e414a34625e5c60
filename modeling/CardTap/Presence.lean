import CardTap.Board

/-!
# Presence of the card

The card detect switch is read again on every edge rather than trusting the edge, so that a bounce
ends in the right state.
-/

namespace CardTap.Board

variable {β : Type} (b : Board β)

/-- Reacts to an edge of the card detect switch: a removed card loses its power at once. -/
def presenceChanged : Run β Presence := do
  let inserted ← b.slot.run (·.inserted)
  b.panel.run (·.light .presence inserted)
  unless inserted do b.slot.run (·.deactivate)
  let now := if inserted then Presence.present else .absent
  b.shared fun r => ((), { r with presence := now })
  Run.note (.of .trace "presence" ("card " ++ now.describe))
  pure now

/-- Brings the indicator in line with the switch and starts to watch the switch. -/
def watchPresence : Run β Presence := do
  let now ← b.presenceChanged
  b.slot.run (·.watchEdge)
  pure now

end CardTap.Board
