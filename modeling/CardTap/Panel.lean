import CardTap.Run

/-!
# What the user interacts with

A display of two lines, four buttons, four LEDs, and delays between what they do.
-/

namespace CardTap

/-- The LEDs of the panel. -/
inductive Led where
  | l1
  | l2
  | l3
  | l4
  deriving DecidableEq, Repr

/-- Lit while a card is in the slot. -/
def Led.presence : Led := .l3

/-- Lit while the device has power. -/
def Led.power : Led := .l4

/-- The set of buttons held down, one bit for each. -/
structure Buttons where
  held : UInt8
  deriving DecidableEq, Repr

namespace Buttons

/-- No button. -/
def none : Buttons := ⟨0⟩

/-- The button A. -/
def a : Buttons := ⟨0x01⟩

/-- The button B. -/
def b : Buttons := ⟨0x02⟩

/-- The button C. -/
def c : Buttons := ⟨0x04⟩

/-- The button D. -/
def d : Buttons := ⟨0x08⟩

/-- Whether all of `other` is held; an empty set is never held. -/
def holds (x other : Buttons) : Bool := x.held &&& other.held == other.held && other.held != 0

/-- The buttons held in either set. -/
def union (x y : Buttons) : Buttons := ⟨x.held ||| y.held⟩

end Buttons

/-- The operations of a panel. -/
structure Panel (σ : Type) where
  /-- Whether a display is connected and answers. -/
  hasDisplay : Run σ Bool
  powerDisplay : (on : Bool) → Run σ Unit
  printLine : String → Run σ Unit
  buttons : Run σ Buttons
  light : Led → (on : Bool) → Run σ Unit
  pauseMs : Nat → Run σ Unit
  /-- Button reads after which waiting for a button would never end. -/
  patience : σ → Nat

/-- Shows a line on the display, if there is one. -/
def Panel.showLine {σ : Type} (p : Panel σ) (text : String) : Run σ Unit := do
  if ← p.hasDisplay then
    p.powerDisplay true
    p.printLine text

end CardTap
