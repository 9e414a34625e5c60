import CardTap.Store.Operation

/-!
# Accesses with their replies

A user of the store makes one access after the other.  A refused access does not end the row: its
reply is the error, and the next access is made all the same.
-/

namespace CardTap.Store

variable {σ : Type}

/-- The reply to an access that is not refused. -/
inductive Reply where
  | byte (b : UInt8)
  | bytes (bytes : List UInt8)
  | count (written : Nat)
  | done
  deriving DecidableEq, Repr

namespace Operation

/-- Makes an access and keeps what it reads or counts. -/
def ask (e : Eeprom σ) : Operation → StoreRun σ Reply
  | .readByte addr => do
    let b ← Store.readByte e addr
    pure (.byte b)
  | .read start len => do
    let bytes ← Store.read e start len
    pure (.bytes bytes)
  | .write start bytes => do
    Store.write e start bytes
    pure .done
  | .update start bytes => do
    let written ← Store.update e start bytes
    pure (.count written)
  | .sync => do
    Store.sync e
    pure .done

/-- Writing one byte is an access as well. -/
theorem ask_write_singleton (e : Eeprom σ) (addr : Nat) (b : UInt8) :
    ask e (.write addr [b]) = (do
      Store.writeByte e addr b
      pure .done) :=
  rfl

end Operation

/-- Makes accesses in a row and collects the replies. -/
def serve (e : Eeprom σ) : List Operation → Run σ (List (Except StoreError Reply))
  | [] => pure []
  | op :: rest => do
    let reply ← (op.ask e).run
    let replies ← serve e rest
    pure (reply :: replies)

end CardTap.Store
