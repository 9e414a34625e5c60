import CardTap.Line.Link

/-!
# Our own answer to reset
-/

namespace CardTap

/-- The extra guard time that our answer to reset announces. -/
def guardTime : UInt8 := 0x0F

variable {σ : Type}

/-- Sends characters, each followed by two ETUs of silence. -/
def Link.sendSpaced (p : Link σ) : List UInt8 → LinkRun σ Unit
  | [] => pure ()
  | b :: rest => do
    p.sendBlind b .direct
    p.wait 2
    p.sendSpaced rest

/-- Sends the answer to reset `3B 60 00 TC1` of a card that speaks T=0. -/
def Link.answerReset (p : Link σ) (tc1 : UInt8) : LinkRun σ Unit := do
  p.sendBlind Convention.direct.ts .direct
  p.wait 250
  p.sendSpaced [0x60, 0x00, tc1]

end CardTap
