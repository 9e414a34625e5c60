import CardTap.Store.Access

/-!
# Accesses to the store as data

A user of the store asks for one of five things.  An access names the cells it needs and, if it
writes, the value that each of them is to hold afterwards.
-/

namespace CardTap.Store

/-- An access to the store. -/
inductive Operation where
  | readByte (addr : Nat)
  | read (start len : Nat)
  | write (start : Nat) (bytes : List UInt8)
  | update (start : Nat) (bytes : List UInt8)
  | sync
  deriving DecidableEq, Repr

/-- The value of cell `i` once `bytes` stand from `addr` on, for the cells that they take. -/
def valueFrom (addr : Nat) (bytes : List UInt8) (i : Nat) : Option UInt8 :=
  if addr ≤ i then bytes[i - addr]? else none

namespace Operation

variable {σ : Type}

/-- Makes an access; what it reads or counts is dropped. -/
def run (e : Eeprom σ) : Operation → StoreRun σ Unit
  | .readByte addr => do let _ ← Store.readByte e addr
  | .read start len => do let _ ← Store.read e start len
  | .write start bytes => Store.write e start bytes
  | .update start bytes => do let _ ← Store.update e start bytes
  | .sync => Store.sync e

/-- The cell past the last one that an access needs. -/
def stop : Operation → Nat
  | .readByte addr => addr + 1
  | .read start len => start + len
  | .write start bytes => start + bytes.length
  | .update start bytes => start + bytes.length
  | .sync => 0

/-- The value that an access brings a cell to, if it writes it at all. -/
def value? : Operation → Nat → Option UInt8
  | .write start bytes => valueFrom start bytes
  | .update start bytes => valueFrom start bytes
  | _ => fun _ => none

end Operation

end CardTap.Store
