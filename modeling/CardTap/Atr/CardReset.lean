import CardTap.Atr.Parse
import CardTap.Slot

/-!
# Resetting the card

A card is activated cold and, if it does not answer as it should, once more warm.  If that fails too
the card is deactivated.
-/

namespace CardTap

/-- Why a card could not be reset. -/
inductive ResetError where
  /-- The card could not be powered. -/
  | activation
  /-- No TS after RST went high. -/
  | noAnswer
  | atr (e : AtrError)
  deriving DecidableEq, Repr

namespace ResetError

/-- The status code of an error. -/
def code : ResetError → UInt8
  | .activation => 0x10
  | .noAnswer => 0x11
  | .atr e => e.code

/-- The text of an error in messages. -/
def describe : ResetError → String
  | .activation => "Activation"
  | .noAnswer => "NoAnswer"
  | .atr e => "Atr(" ++ e.describe ++ ")"

end ResetError

/-- Polls of the card line before a character is given up on. -/
def cardPolls : Nat := 1000000

/-- Polls for TS after RST went high. -/
def tsPolls : Nat := 50000

namespace CardReset

variable {β : Type}

/-- Activates the card and reads its answer to reset. -/
def once (slot : Mounted Slot β) (line : Mounted Line β) (etu : Etu) (warm : Bool) :
    ExceptT ResetError (Run β) Atr := do
  unless ← (slot.run (·.activate warm) : Run β Bool) do throw .activation
  (line.attempt fun l => Link.wait ⟨l, etu⟩ 112).adapt fun _ => .activation
  (slot.run (·.driveReset true) : Run β Unit)
  let ts ← (line.attempt fun l => Link.receiveSilently ⟨l, etu⟩ .direct tsPolls).adapt
    fun _ => ResetError.noAnswer
  (line.attempt fun l => Atr.read ts.byte fun c => do
    let received ← Link.receiveSilently ⟨l, etu⟩ c cardPolls
    pure received.byte).adapt ResetError.atr

/-- Powers the card and reads its answer to reset.  A failed cold activation is followed by one warm
activation, unless the card could not be powered at all. -/
def run (slot : Mounted Slot β) (line : Mounted Line β) (etu : Etu) :
    ExceptT ResetError (Run β) Atr := ExceptT.mk do
  let result ← match ← (once slot line etu false).run with
    | .error .activation => pure (.error .activation)
    | .error e =>
      Run.note (.of .debug "atr" ("cold reset failed: " ++ e.describe))
      (once slot line etu true).run
    | .ok atr => pure (.ok atr)
  unless result.isOk do slot.run (·.deactivate)
  pure result

end CardReset

end CardTap
