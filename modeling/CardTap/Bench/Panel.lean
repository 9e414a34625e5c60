import CardTap.Panel

/-!
# The simulated panel

Button reads are scripted, and a read past the end of the script is a fault: no run waits for a
button for ever.
-/

namespace CardTap.Bench

/-- Which LEDs are lit. -/
structure Leds where
  l1 : Bool := false
  l2 : Bool := false
  l3 : Bool := false
  l4 : Bool := false
  deriving DecidableEq, Repr

namespace Leds

/-- Whether an LED is lit. -/
def lit (s : Leds) : Led → Bool
  | .l1 => s.l1
  | .l2 => s.l2
  | .l3 => s.l3
  | .l4 => s.l4

/-- Switches an LED. -/
def set (s : Leds) (led : Led) (on : Bool) : Leds :=
  match led with
  | .l1 => { s with l1 := on }
  | .l2 => { s with l2 := on }
  | .l3 => { s with l3 := on }
  | .l4 => { s with l4 := on }

theorem lit_set (s : Leds) (led other : Led) (on : Bool) :
    (s.set led on).lit other = if other = led then on else s.lit other := by
  cases led <;> cases other <;> rfl

end Leds

/-- The simulated panel. -/
structure Panel where
  /-- Whether there is a display. -/
  connected : Bool := false
  powered : Bool := false
  /-- Lines written so far, newest first. -/
  lines : List String := []
  /-- Button reads that are still to come. -/
  script : List Buttons := []
  leds : Leds := {}
  /-- Milliseconds spent in delays, a 32 bit word. -/
  pausedMs : Nat := 0

namespace Panel

/-- Writes a line on the display, which must be on. -/
def written (text : String) : Run Panel Unit := do
  if ← Run.read Panel.powered then Run.change fun p => { p with lines := text :: p.lines }
  else Run.fault (.displayOff text)

/-- The next scripted button read. -/
def nextButtons : Run Panel Buttons := do
  match ← Run.read Panel.script with
  | held :: rest =>
    Run.change fun p => { p with script := rest }
    pure held
  | [] => Run.fault .noMoreButtons

/-- Lets `ms` milliseconds pass. -/
def delayed (ms : Nat) : Run Panel Unit := do
  let waited ← Run.read Panel.pausedMs
  let waited ← Run.checked (Word.add .bits32 waited ms)
  Run.change fun p => { p with pausedMs := waited }

/-- The operations of the simulated panel. -/
def panel : CardTap.Panel Panel where
  hasDisplay := Run.read Panel.connected
  powerDisplay on := Run.change fun p => { p with powered := on }
  printLine := written
  buttons := nextButtons
  light led on := Run.change fun p => { p with leds := p.leds.set led on }
  pauseMs := delayed
  patience p := p.script.length + 1

end Panel

end CardTap.Bench
