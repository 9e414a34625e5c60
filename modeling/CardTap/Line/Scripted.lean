import CardTap.Line

/-!
# A line with given answers

Every answer of the line is fixed in advance, call by call, which gives a line of any behaviour:
also one whose clock fails between two bits.
-/

namespace CardTap

/-- The answers of a line, by the number of earlier calls of the same kind. -/
structure Answers where
  sample : Nat → Level
  clockRunning : Nat → Bool
  /-- Whether a wait comes to its end. -/
  reached : Nat → Bool
  resetHeld : Nat → Bool

/-- A line with given answers, and how many of each kind it has given. -/
structure Scripted where
  answers : Answers
  samples : Nat := 0
  clocks : Nat := 0
  waits : Nat := 0
  resets : Nat := 0
  patience : Nat := Run.eternity

namespace Scripted

/-- The line that gives the answers in turn. -/
def line : Line Scripted where
  clockRunning :=
    Run.step fun s => (s.answers.clockRunning s.clocks, { s with clocks := s.clocks + 1 })
  startTimer := pure ()
  waitFor _ := Run.step fun s => (s.answers.reached s.waits, { s with waits := s.waits + 1 })
  drive _ := pure ()
  release := pure ()
  sample := Run.step fun s => (s.answers.sample s.samples, { s with samples := s.samples + 1 })
  resetHeld :=
    Run.step fun s => (s.answers.resetHeld s.resets, { s with resets := s.resets + 1 })
  patience := Scripted.patience

end Scripted

/-- Answers from finite scripts: the levels of `samples` and then high for ever, a clock that is
present for the first `clock` calls, waits that succeed for the first `stall` calls and a reset that
is released for the first `reset` calls; without a number the line never turns bad. -/
def Answers.ofScripts (samples : Array Level) (clock stall reset : Option Nat) : Answers where
  sample n := samples.getD n .high
  clockRunning n := clock.all (n < ·)
  reached n := stall.all (n < ·)
  resetHeld n := !reset.all (n < ·)

end CardTap
