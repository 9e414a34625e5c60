/-!
# Arithmetic on words

The firmware counts in words of a fixed width and never lets a count wrap by accident: an operation
whose result has no room is a fault, and a fault ends the run.  The operations below work on natural
numbers and check the room, so a result that is returned is the exact one.
-/

namespace CardTap

/-- A broken rule that no caller handles. -/
inductive Fault where
  /-- A sum has no room in its word. -/
  | addOverflow
  /-- A difference would be negative. -/
  | subOverflow
  /-- A product has no room in its word. -/
  | mulOverflow
  /-- A division by zero. -/
  | divideByZero
  /-- The store was read while a write was in progress. -/
  | readDuringWrite
  /-- A write to the store was started while another one was in progress. -/
  | writeDuringWrite
  /-- The store of `size` cells has no cell at `index`. -/
  | noSuchCell (size index : Nat)
  /-- A button was read after the last scripted one. -/
  | noMoreButtons
  /-- The display was written while it was switched off. -/
  | displayOff (text : String)
  deriving DecidableEq, Repr

/-- The wording of a fault. -/
def Fault.message : Fault → String
  | .addOverflow => "attempt to add with overflow"
  | .subOverflow => "attempt to subtract with overflow"
  | .mulOverflow => "attempt to multiply with overflow"
  | .divideByZero => "attempt to divide by zero"
  | .readDuringWrite => "EEPROM read while a write is in progress"
  | .writeDuringWrite => "EEPROM write started while busy"
  | .noSuchCell size index =>
    "index out of bounds: the len is " ++ toString size ++ " but the index is " ++ toString index
  | .noMoreButtons => "button script exhausted"
  | .displayOff text => "display written while off: " ++ text

/-- A result of checked arithmetic. -/
abbrev Checked := Except Fault

/-- The widths of words. -/
inductive Width where
  | bits8
  | bits16
  | bits32
  | bits64
  deriving DecidableEq, Repr

namespace Width

/-- The number of values of a word. -/
def size : Width → Nat
  | .bits8 => 0x100
  | .bits16 => 0x10000
  | .bits32 => 0x100000000
  | .bits64 => 0x10000000000000000

/-- What a word keeps of a number: its lowest bits. -/
def cut (w : Width) (n : Nat) : Nat := n % w.size

end Width

namespace Word

/-- The sum of `a` and `b` in a word. -/
def add (w : Width) (a b : Nat) : Checked Nat :=
  if a + b < w.size then .ok (a + b) else .error .addOverflow

/-- The product of `a` and `b` in a word. -/
def mul (w : Width) (a b : Nat) : Checked Nat :=
  if a * b < w.size then .ok (a * b) else .error .mulOverflow

/-- The difference of `a` and `b`, which must not be negative. -/
def sub (a b : Nat) : Checked Nat :=
  if b ≤ a then .ok (a - b) else .error .subOverflow

/-- The quotient of `a` and `b`, which must not be zero. -/
def div (a b : Nat) : Checked Nat :=
  if b = 0 then .error .divideByZero else .ok (a / b)

theorem add_ok {w : Width} {a b : Nat} (h : a + b < w.size) : add w a b = .ok (a + b) := by
  simp [add, h]

theorem mul_ok {w : Width} {a b : Nat} (h : a * b < w.size) : mul w a b = .ok (a * b) := by
  simp [mul, h]

theorem div_ok {a b : Nat} (h : b ≠ 0) : div a b = .ok (a / b) := by simp [div, h]

end Word

end CardTap
