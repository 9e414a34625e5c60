import CardTap.Log.Record

/-!
# Sessions of the log

Records are grouped into sessions: an application record starts one, an end record completes it.  A
session holds at most eight exchanges, since that is all that one flush writes.
-/

namespace CardTap

/-- A logged exchange; either half may be missing. -/
structure LoggedExchange where
  command : Option (List UInt8) := none
  response : Option (List UInt8) := none
  deriving DecidableEq, Repr

/-- A logged session. -/
structure Session where
  app : UInt8
  exchanges : List LoggedExchange := []
  /-- Whether the end record was found. -/
  complete : Bool := false
  deriving DecidableEq, Repr

namespace Session

/-- The most exchanges of a session. -/
def capacity : Nat := 8

/-- Adds an exchange, unless the session is full. -/
def push (s : Session) (x : LoggedExchange) : Session :=
  if s.exchanges.length < capacity then { s with exchanges := s.exchanges ++ [x] } else s

/-- A command opens an exchange. -/
def openExchange (s : Session) (body : List UInt8) : Session := s.push { command := some body }

/-- A response completes the last exchange, or opens one without a command. -/
def closeExchange (s : Session) (body : List UInt8) : Session :=
  match s.exchanges.getLast? with
  | some ⟨command, none⟩ =>
    { s with exchanges := s.exchanges.dropLast ++ [⟨command, some body⟩] }
  | _ => s.push { response := some body }

end Session

namespace Log

/-- Groups records into sessions, given the session that is open before them. -/
def group : Option Session → List Record → List Session
  | current, [] => current.toList
  | current, .application app :: rest => current.toList ++ group (some { app }) rest
  | none, _ :: rest => group none rest
  | some s, .command body :: rest => group (some (s.openExchange body)) rest
  | some s, .response body :: rest => group (some (s.closeExchange body)) rest
  | some s, .finish :: rest => { s with complete := true } :: group none rest

/-- The sessions of a dump of the log. -/
def sessions (dump : List UInt8) : List Session := group none (records dump)

end Log

end CardTap
