import CardTap.Atr.CardReset
import CardTap.Board

/-!
# Diagnostic exchanges, character by character

A character that arrives with a parity error is read again, and one that is rejected is sent again,
up to four times in all.
-/

namespace CardTap

/-- Why a diagnostic sequence ended early. -/
inductive DiagnosticError where
  | link (e : LinkError)
  | unexpected (expected got : UInt8)
  /-- A character kept arriving with a parity error. -/
  | parity
  | reset (e : ResetError)
  deriving DecidableEq, Repr

namespace DiagnosticError

/-- The status code of an error. -/
def code : DiagnosticError → UInt8
  | .link .clockStopped => 0x24
  | .link .resetHeld => 0x20
  | .link .timeout => 0x1D
  | .link _ => 0x01
  | .unexpected _ _ => 0x01
  | .parity => 0x01
  | .reset e => e.code

/-- The text of an error in messages. -/
def describe : DiagnosticError → String
  | .link e => "Link(" ++ e.describe ++ ")"
  | .unexpected expected got =>
    "Unexpected \x7b expected: " ++ toString expected.toNat ++ ", got: " ++ toString got.toNat
      ++ " \x7d"
  | .parity => "Parity"
  | .reset e => "Reset(" ++ e.describe ++ ")"

end DiagnosticError

/-- A run of a diagnostic sequence. -/
abbrev DiagnosticRun (σ : Type) := ExceptT DiagnosticError (Run σ)

/-- How often a character is sent or read before it is given up. -/
def tries : Nat := 4

namespace Link

variable {σ : Type}

/-- Waits `n` ETUs. -/
def pause (p : Link σ) (n : Nat) : DiagnosticRun σ Unit := (p.wait n).adapt .link

/-- Receives a character, reading it up to `n` times until its parity agrees. -/
def receiveWithin (p : Link σ) (c : Convention) (maxWait : Nat) : Nat → DiagnosticRun σ UInt8
  | 0 => throw .parity
  | n + 1 => do
    let received ← (p.receiveByte c maxWait).adapt DiagnosticError.link
    if received.intact then pure received.byte else p.receiveWithin c maxWait n

/-- Receives a character. -/
def receiveChar (p : Link σ) (c : Convention) (maxWait : Nat) : DiagnosticRun σ UInt8 :=
  p.receiveWithin c maxWait tries

/-- Receives `n` characters. -/
def receiveChars (p : Link σ) (c : Convention) (maxWait : Nat) :
    (n : Nat) → DiagnosticRun σ (Vector UInt8 n)
  | 0 => pure #v[]
  | n + 1 => do
    let chars ← p.receiveChars c maxWait n
    let b ← p.receiveChar c maxWait
    pure (chars.push b)

/-- Receives a character that must be `expected`. -/
def receiveExpected (p : Link σ) (c : Convention) (maxWait : Nat) (expected : UInt8) :
    DiagnosticRun σ Unit := do
  let got ← p.receiveChar c maxWait
  if got ≠ expected then throw (.unexpected expected got)

/-- Sends a character up to `n` times until it is not rejected. -/
def sendWithin (p : Link σ) (c : Convention) (b : UInt8) : Nat → DiagnosticRun σ Unit
  | 0 => throw (.link .rejected)
  | n + 1 => do
    match ← ((p.send b c).run : Run σ (Except LinkError Unit)) with
    | .ok () => pure ()
    | .error .rejected => p.sendWithin c b n
    | .error e => throw (.link e)

/-- Sends a character. -/
def sendChar (p : Link σ) (c : Convention) (b : UInt8) : DiagnosticRun σ Unit :=
  p.sendWithin c b tries

/-- Sends characters with `gap` ETUs before each of them. -/
def sendAfterGaps (p : Link σ) (c : Convention) (gap : Nat) : List UInt8 → DiagnosticRun σ Unit
  | [] => pure ()
  | b :: rest => do
    p.pause gap
    p.sendChar c b
    p.sendAfterGaps c gap rest

/-- Sends characters with `gap` ETUs between them. -/
def sendSeries (p : Link σ) (c : Convention) (gap : Nat) : List UInt8 → DiagnosticRun σ Unit
  | [] => pure ()
  | b :: rest => do
    p.sendChar c b
    p.sendAfterGaps c gap rest

end Link

/-- Header of the SELECT by name, with 14 bytes of data. -/
def selectHeader : List UInt8 := [0x00, 0xA4, 0x04, 0x00, 0x0E]

/-- Name of the payment system directory, `1PAY.SYS.DDF01`. -/
def paymentName : List UInt8 :=
  [0x31, 0x50, 0x41, 0x59, 0x2E, 0x53, 0x59, 0x53, 0x2E, 0x44, 0x44, 0x46, 0x30, 0x31]

/-- Instruction byte of SELECT. -/
def selectIns : UInt8 := 0xA4

/-- Instruction byte of GET RESPONSE. -/
def getResponseIns : UInt8 := 0xC0

/-- Header of the GET RESPONSE for `n` bytes. -/
def getResponseHeader (n : UInt8) : List UInt8 := [0x00, getResponseIns, 0x00, 0x00, n]

/-- First status byte of a response that is still to be fetched. -/
def responseAvailable : UInt8 := 0x61

/-- Shown when a sequence fails. -/
def errorText : String := "Error   Ocurred"

namespace Board

variable {β ε α : Type} (b : Board β)

/-- Runs an exchange on the line to the terminal. -/
def onTerminal (f : {σ : Type} → Link σ → ExceptT ε (Run σ) α) : ExceptT ε (Run β) α :=
  b.terminal.attempt fun l => f ⟨l, .terminal⟩

/-- Runs an exchange on the line to the card. -/
def onCard (f : {σ : Type} → Link σ → ExceptT ε (Run σ) α) : ExceptT ε (Run β) α :=
  b.card.attempt fun l => f ⟨l, .card⟩

/-- Records an exchange as soon as it is complete, so that a sequence that fails later still leaves
it in the buffer. -/
def recordExchange (command : List UInt8) (response : Except ApduError Response) :
    Run β Unit := do
  match Command.ofBytes command, response with
  | .ok command, .ok response => let _ ← b.capture ⟨command, response⟩
  | .error e, _ => refused e
  | _, .error e => refused e
where
  /-- Notes that an exchange has no room in its command or response. -/
  refused (e : ApduError) : Run β Unit :=
    Run.note (.of .warn "diagnostics" ("exchange not recorded: " ++ e.describe))

/-- Notes a failed sequence and shows that it failed. -/
def reportFailure (what : String) (e : DiagnosticError) : Run β Unit := do
  Run.note (.of .warn "diagnostics" (what ++ " sequence failed: " ++ e.describe))
  b.panel.run (·.showLine errorText)

end Board

end CardTap
