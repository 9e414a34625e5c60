/-!
# Numbers in messages

Addresses and bytes are written in lower case hexadecimal, padded with zeros.
-/

namespace CardTap.Text

/-- `n` in hexadecimal, padded with zeros to `width` digits. -/
def hex (width n : Nat) : String :=
  let digits := Nat.toDigits 16 n
  String.ofList (List.replicate (width - digits.length) '0' ++ digits)

/-- A byte as `0x` and two digits. -/
def byte (b : UInt8) : String := "0x" ++ hex 2 b.toNat

/-- An address as `0x` and four digits. -/
def address (n : Nat) : String := "0x" ++ hex 4 n

/-- Bytes in hexadecimal, two digits each. -/
def bytes (bs : List UInt8) : String := String.join (bs.map fun b => hex 2 b.toNat)

/-- The value of a hexadecimal digit, of either case. -/
def digit? (c : Char) : Option Nat :=
  if c.isDigit then some (c.toNat - '0'.toNat)
  else if 'a' ≤ c ∧ c ≤ 'f' then some (c.toNat - 'a'.toNat + 10)
  else if 'A' ≤ c ∧ c ≤ 'F' then some (c.toNat - 'A'.toNat + 10)
  else none

/-- The number that hexadecimal digits stand for. -/
def ofHex? (digits : List Char) : Option Nat :=
  digits.foldlM (fun n c => (digit? c).map (16 * n + ·)) 0

/-- The bytes that pairs of hexadecimal digits stand for. -/
def ofBytes? : List Char → Option (List UInt8)
  | [] => some []
  | [_] => none
  | high :: low :: rest => do
    let n ← ofHex? [high, low]
    let bs ← ofBytes? rest
    pure (UInt8.ofNat n :: bs)

/-- `true` or `false`. -/
def bool : Bool → String
  | true => "true"
  | false => "false"

end CardTap.Text
