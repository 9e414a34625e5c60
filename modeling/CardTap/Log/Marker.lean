/-!
# Markers of the log

The log is a row of records without lengths.  Each record starts with a marker, five equal bytes
whose value tells what follows.
-/

namespace CardTap

/-- The kinds of records. -/
inductive Marker where
  | application
  | command
  | response
  | finish
  deriving DecidableEq, Repr

namespace Marker

/-- Length of a marker. -/
def size : Nat := 5

/-- The byte that a marker repeats. -/
def byte : Marker → UInt8
  | .application => 0xDD
  | .command => 0xCC
  | .response => 0xAA
  | .finish => 0xBB

/-- The marker that repeats a byte. -/
def ofByte? (b : UInt8) : Option Marker :=
  if b = 0xDD then some .application
  else if b = 0xCC then some .command
  else if b = 0xAA then some .response
  else if b = 0xBB then some .finish
  else none

/-- The marker as written. -/
def bytes (m : Marker) : List UInt8 := List.replicate size m.byte

/-- The marker at the start of the input. -/
def leading? : List UInt8 → Option Marker
  | a :: b :: c :: d :: e :: _ => if a = b ∧ a = c ∧ a = d ∧ a = e then ofByte? a else none
  | _ => none

end Marker

end CardTap
