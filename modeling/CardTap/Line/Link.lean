import CardTap.Line
import CardTap.Text
import CardTap.Timing

/-!
# Exchange of single characters

A `Link` is a line with its ETU.  Every bit boundary is counted from the timer restarted at the
start bit, so the accuracy depends only on the ETU and on how finely the line is polled.
-/

namespace CardTap

/-- Why a character was not exchanged. -/
inductive LinkError where
  /-- The clock that times the line is not running. -/
  | clockStopped
  /-- No start bit within the allotted polls. -/
  | timeout
  /-- The terminal asserted its reset during the wait. -/
  | resetHeld
  /-- The line went back high before the middle of the start bit. -/
  | falseStart
  /-- The receiver signalled a parity error. -/
  | rejected
  deriving DecidableEq, Repr

/-- The name of a link error in messages. -/
def LinkError.describe : LinkError → String
  | .clockStopped => "NoClock"
  | .timeout => "Timeout"
  | .resetHeld => "ResetAsserted"
  | .falseStart => "FalseStart"
  | .rejected => "ParityRejected"

/-- A character as received, and whether its parity bit agreed. -/
structure Reception where
  byte : UInt8
  intact : Bool
  deriving DecidableEq, Repr

/-- One end of a line, bound to its ETU. -/
structure Link (σ : Type) where
  line : Line σ
  etu : Etu

/-- A run on a line that may fail to exchange its characters. -/
abbrev LinkRun (σ : Type) := ExceptT LinkError (Run σ)

namespace Link

variable {σ : Type}

/-- Waits until `n` ETUs and `extra` ticks after the restart of the timer. -/
def waitAt (p : Link σ) (n extra : Nat) : LinkRun σ Unit := do
  let etus ← p.etu.etus n
  let ticks ← Word.add .bits32 etus extra
  unless ← p.line.waitFor ticks do throw .clockStopped

/-- Drives `levels` for one bit period each, the first from the `i`-th on. -/
def driveFrom (p : Link σ) (i : Nat) : List Level → LinkRun σ Unit
  | [] => pure ()
  | level :: rest => do
    p.waitAt i 0
    p.line.drive level
    p.driveFrom (i + 1) rest

/-- Drives the ten levels of a character, then releases the line. -/
def sendFrame (p : Link σ) (f : Frame) : LinkRun σ Unit := do
  unless ← p.line.clockRunning do throw .clockStopped
  p.line.startTimer
  p.driveFrom 0 f.toList
  p.waitAt 10 0
  p.line.release

/-- Sends a character and looks for the error signal of the receiver.  It returns after the guard
time of two ETUs, or after the error signal if there was one; sending again is up to the caller. -/
def send (p : Link σ) (b : UInt8) (c : Convention) : LinkRun σ Unit := do
  p.sendFrame (.encode b c)
  p.waitAt 11 0
  if (← p.line.sample).isLow then
    p.waitAt 13 0
    (Run.note (.of .trace "link" (Text.byte b ++ " rejected")) : Run σ Unit)
    throw .rejected
  p.waitAt 12 0

/-- Sends a character without looking for an error signal. -/
def sendBlind (p : Link σ) (b : UInt8) (c : Convention) : LinkRun σ Unit := do
  p.sendFrame (.encode b c)
  p.waitAt 12 0

/-- Polls for a start bit, up to `n` times; `outlasted` says what happens then. -/
def pollStart (p : Link σ) (outlasted : LinkRun σ Unit) : Nat → LinkRun σ Unit
  | 0 => outlasted
  | n + 1 => do
    unless ← p.line.clockRunning do throw .clockStopped
    if ← p.line.resetHeld then throw .resetHeld
    if (← p.line.sample).isLow then return
    p.pollStart outlasted n

/-- Polls for a start bit, without limit when `maxWait` is zero. -/
def awaitStartBit (p : Link σ) (maxWait : Nat) : LinkRun σ Unit := do
  if maxWait = 0 then
    let patience ← (Run.read p.line.patience : Run σ Nat)
    p.pollStart (Run.halt .endless) patience
  else
    p.pollStart (throw .timeout) maxWait

/-- The levels in the middle of the first `n` bit periods after the start bit. -/
def sampleBits (p : Link σ) : (n : Nat) → LinkRun σ (Vector Level n)
  | 0 => pure #v[]
  | n + 1 => do
    let bits ← p.sampleBits n
    p.waitAt (n + 1) p.etu.half
    let bit ← p.line.sample
    pure (bits.push bit)

/-- Holds the line low for the error signal. -/
def signalError (p : Link σ) (b : UInt8) : LinkRun σ Unit := do
  let start ← p.etu.signalDelay
  p.waitAt 10 start
  p.line.drive .low
  let width ← p.etu.signalWidth
  let stop ← Word.add .bits32 start width
  p.waitAt 10 stop
  p.line.release
  (Run.note (.of .trace "link" ("parity error on " ++ Text.byte b ++ ", signalled")) : Run σ Unit)

/-- Receives a character; `signal` says whether a parity error is signalled to the sender. -/
def receive (p : Link σ) (c : Convention) (maxWait : Nat) (signal : Bool) :
    LinkRun σ Reception := do
  p.awaitStartBit maxWait
  p.line.startTimer
  p.waitAt 0 p.etu.half
  if (← p.line.sample).isHigh then throw .falseStart
  let bits ← p.sampleBits 9
  let (byte, intact) := decode bits c
  if !intact && signal then p.signalError byte
  p.waitAt 10 0
  pure ⟨byte, intact⟩

/-- Receives a character, signalling a parity error to the sender. -/
def receiveByte (p : Link σ) (c : Convention) (maxWait : Nat) : LinkRun σ Reception :=
  p.receive c maxWait true

/-- Receives a character without ever driving the line. -/
def receiveSilently (p : Link σ) (c : Convention) (maxWait : Nat) : LinkRun σ Reception :=
  p.receive c maxWait false

/-- Waits `n` ETUs. -/
def wait (p : Link σ) (n : Nat) : LinkRun σ Unit := do
  p.line.startTimer
  p.waitAt n 0

end Link

end CardTap
