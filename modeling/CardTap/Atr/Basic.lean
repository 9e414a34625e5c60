import CardTap.Atr.Reader

/-!
# Answer to reset

The answer to reset starts with TS, which announces the convention, and T0.  Groups of interface
bytes TA, TB, TC and TD follow: the high half of T0 and of each TD says which bytes the next group
has.  Then come the historical bytes, as many as the low half of T0 says, and a check byte TCK
if any TD announces a protocol other than T=0.  The payment standard restricts the interface bytes
further.
-/

namespace CardTap

/-- The kinds of interface bytes. -/
inductive InterfaceKind where
  | a
  | b
  | c
  | d
  deriving DecidableEq, Repr

/-- The presence bit of a kind, in the half byte that announces a group. -/
def InterfaceKind.bit : InterfaceKind → UInt8
  | .a => 0x1
  | .b => 0x2
  | .c => 0x4
  | .d => 0x8

/-- A group of interface bytes. -/
structure InterfaceGroup where
  ta : Option UInt8 := none
  tb : Option UInt8 := none
  tc : Option UInt8 := none
  td : Option UInt8 := none
  deriving DecidableEq, Repr

/-- The bytes of a group in the order sent. -/
def InterfaceGroup.bytes (g : InterfaceGroup) : List UInt8 :=
  g.ta.toList ++ g.tb.toList ++ g.tc.toList ++ g.td.toList

/-- An answer to reset after its TS. -/
structure Atr where
  convention : Convention
  t0 : UInt8
  groups : List InterfaceGroup
  historical : List UInt8
  tck : Option UInt8
  deriving DecidableEq, Repr

namespace Atr

/-- The group counted from one. -/
def group? (a : Atr) (i : Nat) : Option InterfaceGroup :=
  if i = 0 then none else a.groups[i - 1]?

/-- The interface byte TA of a group. -/
def ta (a : Atr) (i : Nat) : Option UInt8 := (a.group? i).bind (·.ta)

/-- The interface byte TB of a group. -/
def tb (a : Atr) (i : Nat) : Option UInt8 := (a.group? i).bind (·.tb)

/-- The interface byte TC of a group. -/
def tc (a : Atr) (i : Nat) : Option UInt8 := (a.group? i).bind (·.tc)

/-- The interface byte TD of a group. -/
def td (a : Atr) (i : Nat) : Option UInt8 := (a.group? i).bind (·.td)

/-- The protocol announced by TD1, T=0 without it. -/
def protocol (a : Atr) : UInt8 := ((a.td 1).map (· &&& 0x0F)).getD 0

/-- The extra guard time, none without TC1. -/
def tc1 (a : Atr) : UInt8 := (a.tc 1).getD 0

/-- The information field size for T=1, 32 without TA3. -/
def ta3 (a : Atr) : UInt8 := (a.ta 3).getD 0x20

/-- The waiting times for T=1. -/
def tb3 (a : Atr) : Option UInt8 := a.tb 3

/-- The characters after TS, in the order sent. -/
def bytes (a : Atr) : List UInt8 :=
  a.t0 :: (a.groups.flatMap (·.bytes) ++ a.historical ++ a.tck.toList)

/-- The exclusive or of the characters after TS, which a check byte makes zero. -/
def checksum (a : Atr) : UInt8 := a.bytes.foldl (· ^^^ ·) 0

end Atr

/-- Why characters are no acceptable answer to reset. -/
inductive AtrError where
  | link (e : LinkError)
  /-- TS announces no convention. -/
  | ts (value : UInt8)
  /-- T0 does not announce TB1. -/
  | t0
  | tb1
  | td1
  | ta2
  | tb2
  | tc2
  | ta3
  | tb3
  | tc3
  | checksum
  deriving DecidableEq, Repr

namespace AtrError

/-- The status code of an error; that of TB3 is shared with a failed activation. -/
def code : AtrError → UInt8
  | .link _ => 0x11
  | .ts _ => 0x12
  | .t0 => 0x13
  | .tb1 => 0x14
  | .td1 => 0x15
  | .ta2 => 0x16
  | .tb2 => 0x17
  | .tc2 => 0x18
  | .ta3 => 0x19
  | .tb3 => 0x10
  | .tc3 => 0x1A
  | .checksum => 0x1B

/-- The text of an error in messages. -/
def describe : AtrError → String
  | .link e => "Link(" ++ e.describe ++ ")"
  | .ts value => "Ts(" ++ toString value.toNat ++ ")"
  | .t0 => "T0"
  | .tb1 => "Tb1"
  | .td1 => "Td1"
  | .ta2 => "Ta2"
  | .tb2 => "Tb2"
  | .tc2 => "Tc2"
  | .ta3 => "Ta3"
  | .tb3 => "Tb3"
  | .tc3 => "Tc3"
  | .checksum => "Checksum"

end AtrError

end CardTap
