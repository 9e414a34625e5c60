import CardTap.Presence
import CardTap.Proofs.TerminalReset

/-!
# What an edge of the card detect switch does

The handler returns what the switch says now.  The indicator and the shared presence follow the
switch, and a card that is gone has no power any more.
-/

namespace CardTap

/-- The presence that a switch level stands for. -/
def Presence.ofSwitch (inserted : Bool) : Presence := if inserted then .present else .absent

theorem Presence.ofSwitch_eq_present {inserted : Bool} :
    Presence.ofSwitch inserted = .present ↔ inserted = true := by
  cases inserted <;> simp [ofSwitch]

namespace Bench

open CardTap.Run

variable {size : Nat} {b : Bench}

theorem deactivate_returns : ((board size).slot.run (·.deactivate)).Returns b ()
    { b with slot := b.slot.deactivated } :=
  Returns.mounted (p := slotPart) (Returns.change Slot.deactivated b.slot)

/-- The bench behind an edge of the switch. -/
def synced (b : Bench) : Bench :=
  { b with
    slot := if b.slot.inserted then b.slot else b.slot.deactivated
    panel.leds := b.panel.leds.set .presence b.slot.inserted
    ram.presence := .ofSwitch b.slot.inserted }

theorem presenceChanged_returns :
    ((board size).presenceChanged).Returns b (.ofSwitch b.slot.inserted) b.synced := by
  refine Returns.bind (Returns.mounted (p := slotPart) (Returns.read Slot.inserted b.slot)) ?_
  refine Returns.bind (light_returns .presence b.slot.inserted) ?_
  unfold synced
  cases b.slot.inserted with
  | true =>
    refine Returns.bind (shared_returns _) (Returns.bind (Returns.note _ _) ?_)
    exact Returns.pure _ _
  | false =>
    refine Returns.bind deactivate_returns ?_
    refine Returns.bind (shared_returns _) (Returns.bind (Returns.note _ _) ?_)
    exact Returns.pure _ _

theorem watchPresence_returns :
    ((board size).watchPresence).Returns b (.ofSwitch b.slot.inserted)
      { b.synced with slot := { b.synced.slot with interrupt := true } } := by
  refine Returns.bind presenceChanged_returns ?_
  refine Returns.bind (Returns.mounted (p := slotPart)
    (Returns.change (fun s : Slot => { s with interrupt := true }) _)) ?_
  exact Returns.pure _ _

end Bench

end CardTap
