import CardTap.Run

/-!
# The watchdog

The watchdog restarts the device unless it is served before its timeout.  Timeouts come in ten
steps, numbered the way the hardware encodes its prescaler.
-/

namespace CardTap

/-- The timeouts of the watchdog. -/
inductive Timeout where
  | ms15
  | ms30
  | ms60
  | ms120
  | ms250
  | ms500
  | s1
  | s2
  | s4
  | s8
  deriving DecidableEq, Repr

namespace Timeout

/-- The smallest timeout that is not shorter than `ms`, or the longest one. -/
def covering (ms : Nat) : Timeout :=
  if ms ≤ 15 then .ms15
  else if ms ≤ 30 then .ms30
  else if ms ≤ 60 then .ms60
  else if ms ≤ 120 then .ms120
  else if ms ≤ 250 then .ms250
  else if ms ≤ 500 then .ms500
  else if ms ≤ 1000 then .s1
  else if ms ≤ 2000 then .s2
  else if ms ≤ 4000 then .s4
  else .s8

/-- The prescaler selection. -/
def prescaler : Timeout → UInt8
  | .ms15 => 0
  | .ms30 => 1
  | .ms60 => 2
  | .ms120 => 3
  | .ms250 => 4
  | .ms500 => 5
  | .s1 => 6
  | .s2 => 7
  | .s4 => 8
  | .s8 => 9

/-- The name of a timeout in messages. -/
def describe : Timeout → String
  | .ms15 => "Ms15"
  | .ms30 => "Ms30"
  | .ms60 => "Ms60"
  | .ms120 => "Ms120"
  | .ms250 => "Ms250"
  | .ms500 => "Ms500"
  | .s1 => "S1"
  | .s2 => "S2"
  | .s4 => "S4"
  | .s8 => "S8"

/-- The timeout of every deliberate restart. -/
def restart : Timeout := .ms15

end Timeout

/-- The operations of a watchdog. -/
structure Watchdog (σ : Type) where
  disable : Run σ Unit
  arm : Timeout → Run σ Unit
  serve : Run σ Unit
  /-- Arms the shortest timeout and waits for it to fire: the run halts. -/
  restart : Run σ Unit

end CardTap
