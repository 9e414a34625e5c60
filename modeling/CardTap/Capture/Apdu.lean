/-!
# Commands and responses

A command is five header bytes and up to 64 bytes of data; a response is two status bytes and up to
192 bytes of data.  The line carries a response with its status last, the log keeps it first.
-/

namespace CardTap

/-- Why bytes are no command or response. -/
inductive ApduError where
  /-- `got` data bytes, but only `max` have room. -/
  | tooLong (max got : Nat)
  /-- Only `got` bytes, but `min` are needed. -/
  | tooShort (min got : Nat)
  deriving DecidableEq, Repr

/-- The text of an APDU error in messages. -/
def ApduError.describe : ApduError → String
  | .tooLong max got =>
    "TooLong \x7b max: " ++ toString max ++ ", got: " ++ toString got ++ " \x7d"
  | .tooShort min got =>
    "TooShort \x7b min: " ++ toString min ++ ", got: " ++ toString got ++ " \x7d"

/-- The header of a command: class, instruction, two parameters and the length byte. -/
structure Header where
  cla : UInt8
  ins : UInt8
  p1 : UInt8
  p2 : UInt8
  p3 : UInt8
  deriving DecidableEq, Repr

namespace Header

/-- Length of a header. -/
def size : Nat := 5

/-- The header as sent. -/
def bytes (h : Header) : List UInt8 := [h.cla, h.ins, h.p1, h.p2, h.p3]

/-- A header of zeros. -/
def blank : Header := ⟨0, 0, 0, 0, 0⟩

end Header

/-- A command of the terminal. -/
structure Command where
  header : Header
  data : List UInt8
  data_le : data.length ≤ 64

namespace Command

/-- The longest data of a command. -/
def dataMax : Nat := 64

/-- A command from its parts. -/
def make (header : Header) (data : List UInt8) : Except ApduError Command :=
  if h : data.length ≤ 64 then .ok ⟨header, data, h⟩ else .error (.tooLong dataMax data.length)

/-- A command from the header followed by the data. -/
def ofBytes : List UInt8 → Except ApduError Command
  | cla :: ins :: p1 :: p2 :: p3 :: data => make ⟨cla, ins, p1, p2, p3⟩ data
  | short => .error (.tooShort Header.size short.length)

/-- The command as sent and as logged. -/
def bytes (c : Command) : List UInt8 := c.header.bytes ++ c.data

/-- A command with its content wiped. -/
def wiped (_ : Command) : Command := ⟨.blank, [], by simp⟩

end Command

/-- A response of the card. -/
structure Response where
  sw1 : UInt8
  sw2 : UInt8
  data : List UInt8
  data_le : data.length ≤ 192

namespace Response

/-- The longest data of a response. -/
def dataMax : Nat := 192

/-- A response from its parts. -/
def make (data : List UInt8) (sw1 sw2 : UInt8) : Except ApduError Response :=
  if h : data.length ≤ 192 then .ok ⟨sw1, sw2, data, h⟩ else .error (.tooLong dataMax data.length)

/-- A response from the data followed by the two status bytes. -/
def ofBytes (bytes : List UInt8) : Except ApduError Response :=
  match bytes.reverse with
  | sw2 :: sw1 :: data => make data.reverse sw1 sw2
  | short => .error (.tooShort 2 short.length)

/-- The response as logged: the status comes first. -/
def bytes (r : Response) : List UInt8 := r.sw1 :: r.sw2 :: r.data

/-- A response with its content wiped. -/
def wiped (_ : Response) : Response := ⟨0, 0, [], by simp⟩

end Response

/-- The longest command or response in the log. -/
def recordMax : Nat := 2 + Response.dataMax

end CardTap
