import CardTap.Text

/-!
# Traces of a chip

A trace is the list of what a program did to the chip, event by event.  No-operations in a row are
one event.  Only the first events are kept, together with the fact that there were more.
-/

namespace CardTap.Chip

/-- What a program did to the chip. -/
inductive Event where
  | read (addr : Nat) (value : UInt8)
  | write (addr : Nat) (value : UInt8)
  /-- The watchdog was served. -/
  | serve
  /-- So many no-operations in a row. -/
  | nops (count : Nat)
  deriving DecidableEq, Repr

/-- An event in a trace: addresses and values in hexadecimal, counts in decimal. -/
def Event.describe : Event → String
  | .read addr value => "r" ++ Text.hex 2 addr ++ "=" ++ Text.hex 2 value.toNat
  | .write addr value => "w" ++ Text.hex 2 addr ++ "=" ++ Text.hex 2 value.toNat
  | .serve => "wdr"
  | .nops count => "n" ++ toString count

/-- The first events, newest first, with their number; a number above `Trace.max` tells that there
were more. -/
structure Trace where
  events : List Event := []
  size : Nat := 0

namespace Trace

/-- The number of events that a trace shows. -/
def max : Nat := 600

/-- Whether it is known that there are more events than a trace shows. -/
@[inline] def isFull (t : Trace) : Bool := max < t.size

/-- Adds an event; no-operations join those just before them. -/
def add (t : Trace) (e : Event) : Trace :=
  match e, t.events with
  | .nops n, .nops m :: rest => { t with events := .nops (m + n) :: rest }
  | _, _ => { events := e :: t.events, size := t.size + 1 }

/-- The trace in writing. -/
def text (t : Trace) : String :=
  let shown := (t.events.reverse.take max).map Event.describe
  String.intercalate " " (if t.isFull then shown ++ ["..."] else shown)

end Trace

end CardTap.Chip
