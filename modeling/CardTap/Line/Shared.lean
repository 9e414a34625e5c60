import CardTap.Line.Link

/-!
# The two ends of a shared line

A line is low if either of its ends drives it low.  A `Tap` is one end: it knows what the other end
drives at every tick and keeps what it drives itself.  Waits come to an end exactly at the tick that
was asked for, the clock runs and nobody asserts a reset.  What is left open is when the end polls
for a start bit, and which of its later samples noise inverts.

One character from one end to the other is a `Transfer`.  Each end runs its own program, timed by
its own timer.
-/

namespace CardTap

/-- The level of a line that both ends drive. -/
def Level.wired (a b : Level) : Level := if a.isLow || b.isLow then .low else .high

/-- The level that the latest change up to a tick left, high before any; changes come newest
first. -/
def Level.lasting : List (Nat × Level) → Nat → Level
  | [], _ => .high
  | (since, level) :: older, tick => if since ≤ tick then level else Level.lasting older tick

/-- One end of a shared line. -/
structure Tap where
  /-- Present time, in ticks. -/
  now : Nat := 0
  /-- When the timer was last restarted. -/
  epoch : Nat := 0
  /-- Changes of the level that this end drives, with their times, newest first. -/
  driven : List (Nat × Level) := []
  /-- What the other end drives, at every tick. -/
  peer : Nat → Level
  /-- When the coming polls for a start bit happen. -/
  polls : List Nat := []
  /-- Which of the samples after the polls noise inverts. -/
  noise : List Bool := []

namespace Tap

/-- What this end drives, at every tick. -/
def signal (t : Tap) : Nat → Level := Level.lasting t.driven

/-- The present level of the line. -/
def level (t : Tap) : Level := .wired (t.signal t.now) (t.peer t.now)

/-- A poll happens at its own tick; any other sample happens at once and may be inverted. -/
def sampled (t : Tap) : Level × Tap :=
  match t.polls with
  | [] => (if t.noise.headD false then t.level.flip else t.level, { t with noise := t.noise.tail })
  | tick :: polls => ({ t with now := tick }.level, { t with now := tick, polls })

/-- Time passes until `ticks` after the restart of the timer. -/
def waited (t : Tap) (ticks : Nat) : Tap := { t with now := max t.now (t.epoch + ticks) }

/-- The end drives a level. -/
def driveTo (t : Tap) (level : Level) : Tap := { t with driven := (t.now, level) :: t.driven }

/-- The timer starts again. -/
def restarted (t : Tap) : Tap := { t with epoch := t.now }

/-- The operations of one end. -/
def line : Line Tap where
  clockRunning := pure true
  startTimer := Run.change restarted
  waitFor ticks := Run.step fun t => (true, t.waited ticks)
  drive level := Run.change (·.driveTo level)
  release := Run.change (·.driveTo .high)
  sample := Run.step sampled
  resetHeld := pure false
  patience t := t.polls.length + 1

end Tap

/-- One character from one end to the other. -/
structure Transfer where
  etu : Etu
  byte : UInt8
  convention : Convention
  /-- When the sender starts the frame. -/
  start : Nat
  /-- Polls of the receiver before that. -/
  earlier : List Nat := []
  /-- Ticks from the start of the frame to the poll that sees it. -/
  latency : Nat := 0
  /-- How often the receiver polls at most, without limit if zero. -/
  maxWait : Nat := 0
  /-- Which of the samples of the data and parity bits noise inverts. -/
  noise : Vector Bool 9 := Vector.replicate 9 false

namespace Transfer

variable (x : Transfer)

/-- The levels that are sent. -/
def frame : Frame := .encode x.byte x.convention

/-- The levels of the data and parity bits as the receiver samples them. -/
def noisy : Vector Level 9 :=
  Vector.ofFn fun i : Fin 9 =>
    if x.noise[i.val] then x.frame[i.val + 1].flip else x.frame[i.val + 1]

/-- Both ends have the same ETU. -/
def link : Link Tap := ⟨Tap.line, x.etu⟩

/-- The sender's program. -/
def send : Run Tap (Except LinkError Unit) := (x.link.send x.byte x.convention).run

/-- The receiver's program. -/
def receive : Run Tap (Except LinkError Reception) :=
  (x.link.receiveByte x.convention x.maxWait).run

/-- The sender before it starts, facing what the receiver drives. -/
def sending (peer : Nat → Level) : Tap := { now := x.start, peer }

/-- The receiver before its first poll, facing what the sender drives.  The first sample behind the
polls is that of the start bit. -/
def receiving (peer : Nat → Level) : Tap :=
  { peer, polls := x.earlier ++ [x.start + x.latency], noise := false :: x.noise.toList }

end Transfer

end CardTap
