import CardTap.Capture.Apdu

/-!
# Captured exchanges

The exchanges captured since the last flush wait in a buffer of eight, in order.
-/

namespace CardTap

/-- A captured command with its response. -/
structure Exchange where
  command : Command
  response : Response

/-- An exchange from the bytes on the line; the command is looked at first. -/
def Exchange.ofBytes (command response : List UInt8) : Except ApduError Exchange := do
  let command ← Command.ofBytes command
  let response ← Response.ofBytes response
  pure ⟨command, response⟩

/-- What the log keeps of an exchange: either half is missing if it has no byte form. -/
structure Entry where
  command : Option (List UInt8)
  response : Option (List UInt8)
  deriving DecidableEq, Repr

/-- What the log keeps of a captured exchange. -/
def Exchange.entry (x : Exchange) : Entry := ⟨some x.command.bytes, some x.response.bytes⟩

/-- Up to eight items, oldest first. -/
structure Buffer (α : Type) where
  items : List α
  items_le : items.length ≤ 8

namespace Buffer

variable {α : Type}

/-- The number of items that a buffer holds. -/
def capacity : Nat := 8

/-- A buffer with nothing in it. -/
def empty : Buffer α := ⟨[], Nat.zero_le 8⟩

/-- The buffer with one more item at its end, if there is room. -/
def append? (b : Buffer α) (a : α) : Option (Buffer α) :=
  if h : b.items.length < 8 then
    some ⟨b.items ++ [a], by rw [List.length_append]; exact h⟩
  else none

/-- Number of items. -/
def size (b : Buffer α) : Nat := b.items.length

/-- Whether nothing is buffered. -/
def isEmpty (b : Buffer α) : Bool := b.items.isEmpty

/-- Whether there is no room left. -/
def isFull (b : Buffer α) : Bool := b.size == capacity

end Buffer

end CardTap
