import CardTap.Device.Registers

/-!
# Timers counted beyond their width

A timer of the device counts in 16 bits, but a character lasts longer than one wrap of it.
`WideCount` counts the wraps: it keeps their number and the last value read.
-/

namespace CardTap.Device

/-- Reads of the timer without a change before its clock counts as gone. -/
def stallLimit : Nat := 2048

/-- A timer together with the number of its wraps, a word of 16 bits. -/
structure WideCount where
  wraps : Nat := 0
  last : Nat := 0
  deriving DecidableEq, Repr

namespace WideCount

/-- Takes a value of the timer into account: a smaller one than the last tells of a wrap. -/
def advance (t : WideCount) (raw : Nat) : WideCount :=
  { wraps := if raw < t.last then Width.bits16.cut (t.wraps + 1) else t.wraps, last := raw }

/-- Ticks since the restart of the timer. -/
def elapsed (t : WideCount) : Nat := t.wraps * Width.bits16.size + t.last

/-- What a wait does after one more read of the timer. -/
inductive Verdict where
  | reached
  | stalled
  /-- The read did not end the wait; `idle` reads in a row did not change the timer. -/
  | waiting (idle : Nat)
  deriving DecidableEq, Repr

/-- Takes a value of the timer into account during a wait for `target`, after `idle` reads in a row
that did not change it. -/
def poll (t : WideCount) (target idle raw : Nat) : WideCount × Verdict :=
  let idle := if raw = t.last then idle + 1 else 0
  if stallLimit < idle then (t, .stalled)
  else
    let t := t.advance raw
    (t, if target ≤ t.elapsed then .reached else .waiting idle)

variable {σ : Type}

/-- Waits for `target` with up to `n` reads of the timer; false if it stalled. -/
def waitWithin (place : Part WideCount σ) (read : Run σ Nat) (target idle : Nat) : Nat → Run σ Bool
  | 0 => Run.halt .endless
  | n + 1 => do
    let raw ← read
    let (t, verdict) := (← Run.read place.get).poll target idle raw
    Run.change (place.put t)
    match verdict with
    | .reached => pure true
    | .stalled => pure false
    | .waiting idle => waitWithin place read target idle n

end WideCount

namespace Registers

variable {σ : Type} (r : Registers σ)

/-- Starts a timer from zero. -/
def startCount (place : Part WideCount σ) (counter : Nat) : Run σ Unit := do
  r.writeWord counter 0
  Run.change (place.put {})

/-- Waits until a timer has counted `target` ticks since its restart; false if it stalled. -/
def awaitCount (place : Part WideCount σ) (counter target : Nat) : Run σ Bool :=
  WideCount.waitWithin place (r.readWord counter) target 0 Run.eternity

end Registers

end CardTap.Device
