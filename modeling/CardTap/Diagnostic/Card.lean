import CardTap.Diagnostic.Basic

/-!
# Probing a card

Acting as a terminal, the device resets the card in the slot, selects the payment system directory
and fetches the response.
-/

namespace CardTap.Board

variable {β : Type} (b : Board β)

/-- Sends the SELECT in two parts, with the procedure byte of the card between them, and answers the
number of bytes that the card has ready. -/
def selectPayment (c : Convention) : DiagnosticRun β UInt8 := do
  b.onCard fun p => p.pause 5
  b.onCard fun p => p.sendSeries c 2 selectHeader
  b.onCard fun p => p.pause 1
  b.onCard fun p => p.receiveExpected c cardPolls selectIns
  b.onCard fun p => p.pause 5
  b.onCard fun p => p.sendSeries c 2 paymentName
  b.onCard fun p => p.pause 1
  b.onCard fun p => p.receiveExpected c cardPolls responseAvailable
  b.onCard fun p => p.pause 1
  let available ← b.onCard fun p => p.receiveChar c cardPolls
  (b.recordExchange (selectHeader ++ paymentName) (Response.make [] responseAvailable available) :
    Run β Unit)
  pure available

/-- Fetches a response of `available` bytes. -/
def fetchResponse (c : Convention) (available : UInt8) : DiagnosticRun β Unit := do
  let command := getResponseHeader available
  b.onCard fun p => p.pause 5
  b.onCard fun p => p.sendSeries c 2 command
  b.onCard fun p => p.pause 1
  b.onCard fun p => p.receiveExpected c cardPolls getResponseIns
  let data ← b.onCard fun p => p.receiveChars c cardPolls available.toNat
  let status ← b.onCard fun p => p.receiveChars c cardPolls 2
  (b.recordExchange command (Response.make data.toList status[0] status[1]) : Run β Unit)
  (Run.note (.of .info "diagnostics"
    ("card answered " ++ Text.hex 2 status[0].toNat ++ Text.hex 2 status[1].toNat)) : Run β Unit)

/-- The sequence, up to the first character that is not the expected one. -/
def cardSequence : DiagnosticRun β Unit := do
  let atr ← (CardReset.run b.slot b.card .card).adapt DiagnosticError.reset
  (Run.note (.of .debug "diagnostics"
    ("card answered, T=" ++ toString atr.protocol.toNat ++ " TC1=" ++ Text.byte atr.tc1)) :
    Run β Unit)
  let available ← b.selectPayment atr.convention
  if Response.dataMax < available.toNat then
    throw (.unexpected (UInt8.ofNat Response.dataMax) available)
  b.fetchResponse atr.convention available

/-- Resets the card in the slot and selects its payment system directory; the card is deactivated in
any case. -/
def actAsTerminal : Run β (Except DiagnosticError Unit) := do
  let result ← b.cardSequence.run
  match result with
  | .error e => b.reportFailure "card" e
  | .ok () => pure ()
  b.slot.run (·.deactivate)
  pure result

end CardTap.Board
