import CardTap.Line.Link

/-!
# Readers of characters

A reader either has finished or asks for one more character.  It does not say where the character
comes from: `Reader.feed` takes them from a list, `Reader.drive` from a line.
-/

namespace CardTap

/-- A computation that asks for characters one at a time. -/
inductive Reader (α : Type) where
  | done (a : α)
  | ask (next : UInt8 → Reader α)

namespace Reader

variable {α β σ : Type}

/-- Goes on with `f` when the first reader has finished. -/
def bind : Reader α → (α → Reader β) → Reader β
  | .done a, f => f a
  | .ask next, f => .ask fun b => (next b).bind f

instance : Monad Reader where
  pure := .done
  bind := bind

/-- Asks for one character. -/
def char : Reader UInt8 := .ask .done

/-- The result on a list of characters and what is left of it, or nothing if they run out. -/
def feed : Reader α → List UInt8 → Option (α × List UInt8)
  | .done a, rest => some (a, rest)
  | .ask _, [] => none
  | .ask next, b :: rest => (next b).feed rest

/-- The result on the characters that `next` receives, up to the first one that is not. -/
def drive (next : LinkRun σ UInt8) : Reader α → LinkRun σ α
  | .done a => pure a
  | .ask f => do
    let b ← next
    (f b).drive next

end Reader

end CardTap
