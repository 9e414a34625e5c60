/-!
# Log records

The firmware notes what it does as log records.  A record becomes one line of at most 128 bytes: the
line is built from pieces, and the first piece that has no room left ends it.
-/

namespace CardTap

/-- How much a log record matters, most severe first. -/
inductive Severity where
  | error
  | warn
  | info
  | debug
  | trace
  deriving DecidableEq, Repr

namespace Severity

/-- The name that starts a log line. -/
def name : Severity → String
  | .error => "ERROR"
  | .warn => "WARN"
  | .info => "INFO"
  | .debug => "DEBUG"
  | .trace => "TRACE"

/-- Place in the order of severity. -/
def rank : Severity → Nat
  | .error => 1
  | .warn => 2
  | .info => 3
  | .debug => 4
  | .trace => 5

end Severity

/-- One note of the firmware: its severity, the part of the firmware it comes from and the text. -/
structure LogRecord where
  severity : Severity
  target : String
  message : String
  deriving DecidableEq, Repr

namespace LogRecord

/-- A record of the firmware part called `part`. -/
def of (severity : Severity) (part message : String) : LogRecord :=
  ⟨severity, "scdlib::" ++ part, message⟩

/-- The longest line, in bytes. -/
def lineSize : Nat := 128

/-- Joins pieces as long as each fits whole into what is left of `room` bytes. -/
def join (room : Nat) : List String → String
  | [] => ""
  | piece :: rest =>
    if piece.utf8ByteSize ≤ room then piece ++ join (room - piece.utf8ByteSize) rest else ""

/-- The line of a record whose text is written in the given pieces. -/
def lineOf (severity : Severity) (target : String) (text : List String) : String :=
  join lineSize (["[", severity.name, "] ", target, " @ "] ++ text ++ ["\n"])

/-- The line of a record. -/
def line (r : LogRecord) : String := lineOf r.severity r.target [r.message]

end LogRecord

end CardTap
