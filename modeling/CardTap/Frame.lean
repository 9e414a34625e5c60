/-!
# Characters on the line

A character is ten bit periods long: a start bit, always low, eight data bits and one parity bit.
Which level means a logical one and the order of the data bits depend on the convention that the
card announces in its first character, TS.
-/

namespace CardTap

/-- A level of the I/O line. -/
inductive Level where
  | low
  | high
  deriving DecidableEq, Repr, Inhabited

namespace Level

/-- The other level. -/
def flip : Level → Level
  | .low => .high
  | .high => .low

/-- Whether the level is low. -/
def isLow : Level → Bool
  | .low => true
  | .high => false

/-- Whether the level is high. -/
def isHigh : Level → Bool
  | .low => false
  | .high => true

end Level

/-- How a card writes bytes on the line. -/
inductive Convention where
  /-- High is a logical one, the least significant bit comes first. -/
  | direct
  /-- Low is a logical one, the most significant bit comes first. -/
  | inverse
  deriving DecidableEq, Repr, Inhabited

namespace Convention

/-- The convention that a TS character announces, once it was read in the direct convention: the
`3F` of the inverse convention reads as `03`. -/
def ofTs? (ts : UInt8) : Option Convention :=
  if ts = 0x3B then some .direct else if ts = 0x03 then some .inverse else none

/-- The TS character that announces the convention. -/
def ts : Convention → UInt8
  | .direct => 0x3B
  | .inverse => 0x3F

/-- The level that carries a logical bit. -/
def level : Convention → Bool → Level
  | .direct, true => .high
  | .direct, false => .low
  | .inverse, true => .low
  | .inverse, false => .high

/-- The logical bit that a level carries. -/
def bit : Convention → Level → Bool
  | .direct, l => l.isHigh
  | .inverse, l => l.isLow

/-- Mask of the data bit sent in place `i`, counted from zero. -/
def mask (c : Convention) (i : Nat) : UInt8 :=
  match c with
  | .direct => 1 <<< UInt8.ofNat i
  | .inverse => 1 <<< UInt8.ofNat (7 - i)

end Convention

/-- Whether the mask `m` meets the byte. -/
def hasBit (b m : UInt8) : Bool := b &&& m != 0

/-- The parity bit of a byte: it makes the number of ones in data and parity even. -/
def parity (b : UInt8) : Bool :=
  (List.range 8).foldl (fun odd i => odd ^^ hasBit b (Convention.direct.mask i)) false

/-- The ten levels of a character. -/
abbrev Frame := Vector Level 10

namespace Frame

/-- The levels that carry `b`. -/
def encode (b : UInt8) (c : Convention) : Frame :=
  Vector.ofFn fun i : Fin 10 =>
    if i.val = 0 then .low
    else if i.val = 9 then c.level (parity b)
    else c.level (hasBit b (c.mask (i.val - 1)))

/-- The frame with its parity bit inverted. -/
def spoilParity (f : Frame) : Frame := f.set 9 f[9].flip

end Frame

/-- The byte that eight data levels carry. -/
def dataByte (bits : Vector Level 9) (c : Convention) : UInt8 :=
  (List.finRange 8).foldl
    (fun acc i => if c.bit (bits.get (i.castLE (by decide))) then acc ||| c.mask i.val else acc) 0

/-- The byte carried by the nine levels sampled after the start bit, and whether the parity bit
agrees with it. -/
def decode (bits : Vector Level 9) (c : Convention) : UInt8 × Bool :=
  let byte := dataByte bits c
  (byte, c.bit bits[8] == parity byte)

end CardTap
