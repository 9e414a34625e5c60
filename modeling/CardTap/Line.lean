import CardTap.Frame
import CardTap.Run

/-!
# One side of the I/O line

The line is half-duplex and timed by a free running timer.  Time is counted in ticks from the last
restart of the timer.  `Line.recorded` is a line that also keeps the list of the calls made to it.
-/

namespace CardTap

/-- The operations of a line on a machine with state `σ`. -/
structure Line (σ : Type) where
  /-- Whether the clock that times the line is running. -/
  clockRunning : Run σ Bool
  /-- Starts counting ticks from zero. -/
  startTimer : Run σ Unit
  /-- Waits until so many ticks have passed since the restart; false if the clock stalled. -/
  waitFor : Nat → Run σ Bool
  /-- Drives the line. -/
  drive : Level → Run σ Unit
  /-- Stops driving: the pull-up brings the line back high. -/
  release : Run σ Unit
  /-- The present level. -/
  sample : Run σ Level
  /-- Whether the peer holds its reset signal asserted. -/
  resetHeld : Run σ Bool
  /-- Polls after which a wait without limit would never end. -/
  patience : σ → Nat

/-- A call made to a line. -/
inductive Line.Call where
  | clockRunning
  | startTimer
  | waitFor (ticks : Nat)
  | drive (level : Level)
  | release
  | sample
  | resetHeld
  deriving DecidableEq, Repr

/-- A machine together with the calls made to its line, newest first. -/
structure Line.Recorded (σ : Type) where
  machine : σ
  calls : List Line.Call := []

namespace Line.Recorded

variable {σ α : Type}

/-- The machine without the calls. -/
def part : Part σ (Recorded σ) := ⟨Recorded.machine, fun m s => { s with machine := m }⟩

/-- Makes a call and keeps it. -/
def call (c : Line.Call) (body : Run σ α) : Run (Recorded σ) α := do
  Run.change fun s => { s with calls := c :: s.calls }
  Run.within part.get part.put body

end Line.Recorded

open Line.Recorded in
/-- The same line with every call recorded, also one that fails. -/
def Line.recorded {σ : Type} (l : Line σ) : Line (Line.Recorded σ) where
  clockRunning := call .clockRunning l.clockRunning
  startTimer := call .startTimer l.startTimer
  waitFor ticks := call (.waitFor ticks) (l.waitFor ticks)
  drive level := call (.drive level) (l.drive level)
  release := call .release l.release
  sample := call .sample l.sample
  resetHeld := call .resetHeld l.resetHeld
  patience s := l.patience s.machine

end CardTap
