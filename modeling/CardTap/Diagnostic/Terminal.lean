import CardTap.Atr.Send
import CardTap.Diagnostic.Basic

/-!
# Answering a terminal

Acting as a card, the device answers a SELECT of the payment system directory and the GET RESPONSE
that follows.
-/

namespace CardTap

/-- Polls of the terminal line before a character is given up on. -/
def terminalPolls : Nat := 16000000

/-- The data of the answer to GET RESPONSE. -/
def responseData : List UInt8 := [0xDE, 0xAD, 0xBE, 0xEF]

/-- Polls up to `n` times until `test` holds. -/
def Run.pollUntil {σ : Type} (test : Run σ Bool) : Nat → Run σ Bool
  | 0 => pure false
  | n + 1 => do if ← test then pure true else Run.pollUntil test n

/-- The text of bytes, or the error text if they are not valid UTF-8. -/
def displayText (bytes : List UInt8) : String :=
  (String.fromUTF8? (ByteArray.mk bytes.toArray)).getD errorText

/-- The first place where received bytes differ from those expected: the byte expected there and the
byte received. -/
def firstMismatch (got expected : List UInt8) : Option (UInt8 × UInt8) :=
  ((got.zip expected).find? fun (g, e) => g != e).map fun (g, e) => (e, g)

namespace Board

variable {β : Type} (b : Board β)

/-- Waits for the terminal to clock the line and to release its reset. -/
def awaitTerminal : DiagnosticRun β Unit := do
  let clocked ←
    (b.terminal.run fun l => Run.pollUntil l.clockRunning terminalPolls : Run β Bool)
  unless clocked do throw (.link .clockStopped)
  let released ←
    (b.terminal.run fun l => Run.pollUntil (not <$> l.resetHeld) terminalPolls : Run β Bool)
  unless released do throw (.link .resetHeld)

/-- Answers the SELECT: its instruction byte and its name are compared with those expected. -/
def answerSelect : DiagnosticRun β Unit := do
  let header ← b.onTerminal fun p => p.receiveChars .direct terminalPolls 5
  if header[1] ≠ selectIns then throw (.unexpected selectIns header[1])
  b.onTerminal fun p => p.pause 20
  b.onTerminal fun p => p.sendChar .direct selectIns
  let name ← b.onTerminal fun p => p.receiveChars .direct terminalPolls 14
  (b.panel.run (·.showLine (displayText name.toList)) : Run β Unit)
  match firstMismatch name.toList paymentName with
  | some (expected, got) => throw (.unexpected expected got)
  | none => pure ()
  let available := UInt8.ofNat responseData.length
  b.onTerminal fun p => p.pause 2
  b.onTerminal fun p => p.sendSeries .direct 2 [responseAvailable, available]
  (b.recordExchange (header.toList ++ name.toList) (Response.make [] responseAvailable available) :
    Run β Unit)

/-- Answers the GET RESPONSE: only its instruction byte is compared. -/
def answerGetResponse : DiagnosticRun β Unit := do
  let header ← b.onTerminal fun p => p.receiveChars .direct terminalPolls 5
  if header[1] ≠ getResponseIns then throw (.unexpected getResponseIns header[1])
  b.onTerminal fun p => p.pause 20
  b.onTerminal fun p => p.sendSeries .direct 2 (getResponseIns :: responseData ++ [0x90, 0x00])
  (b.recordExchange header.toList (Response.make responseData 0x90 0x00) : Run β Unit)

/-- The sequence, up to the first character that is not the expected one. -/
def terminalSequence : DiagnosticRun β Unit := do
  b.awaitTerminal
  b.onTerminal fun p => p.pause 10
  b.onTerminal fun p => (p.answerReset guardTime).adapt DiagnosticError.link
  (b.panel.run (·.showLine "ATR Sent") : Run β Unit)
  b.answerSelect
  b.answerGetResponse
  (b.panel.run (·.showLine "Data    Sent") : Run β Unit)

/-- Answers a terminal as a card would. -/
def actAsCard : Run β (Except DiagnosticError Unit) := do
  let result ← b.terminalSequence.run
  match result with
  | .error e => b.reportFailure "terminal" e
  | .ok () => pure ()
  pure result

end Board

end CardTap
