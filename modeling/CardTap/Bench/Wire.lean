import CardTap.Line

/-!
# The simulated line

The wire of the bench has a virtual clock.  Its peer is scripted: characters queued for it are sent
one after the other, each starting when the firmware polls the line for a start bit.  What the
firmware drives is recorded as a list of transitions and can be read back as characters.
-/

namespace CardTap.Bench

/-- The simulated line. -/
structure Wire where
  /-- Ticks of one ETU of the peer. -/
  etu : Nat
  /-- Virtual time, in ticks. -/
  now : Nat := 0
  /-- When the timer was last restarted. -/
  epoch : Nat := 0
  clock : Bool := true
  reset : Bool := false
  /-- Whether the last call was a sample. -/
  polling : Bool := false
  /-- The level driven by the firmware. -/
  device : Level := .high
  /-- Changes of that level with their times, newest first. -/
  transitions : List (Nat × Level) := []
  /-- When each character sent by the firmware started, newest first. -/
  sendTimes : List Nat := []
  /-- How often the firmware signalled a parity error. -/
  errorsSignalled : Nat := 0
  /-- Characters that the peer has not started yet. -/
  queued : List Frame := []
  /-- The character that the peer is sending, with its start. -/
  active : Option (Nat × Frame) := none
  /-- When the peer last started a character. -/
  lastPeerStart : Option Nat := none
  /-- Characters of the firmware that the peer still rejects. -/
  rejections : Nat := 0
  /-- When the peer holds the line low to reject a character. -/
  rejectWindows : List (Nat × Nat) := []

namespace Wire

/-! ## The peer -/

/-- Has the peer send a frame. -/
def enqueueFrame (w : Wire) (f : Frame) : Wire := { w with queued := w.queued ++ [f] }

/-- Has the peer send bytes. -/
def enqueue (w : Wire) (bytes : List UInt8) (c : Convention) : Wire :=
  { w with queued := w.queued ++ bytes.map (Frame.encode · c) }

/-- Has the peer send a byte with the wrong parity bit. -/
def enqueueSpoiled (w : Wire) (b : UInt8) (c : Convention) : Wire :=
  w.enqueueFrame (Frame.encode b c).spoilParity

/-- Has the peer reject so many more characters; their number is a 64 bit word. -/
def reject (w : Wire) (count : Nat) : Checked Wire := do
  let rejections ← Word.add .bits64 w.rejections count
  pure { w with rejections }

/-! ## What the firmware sent -/

/-- The level driven by the firmware at time `t`. -/
def drivenAt (w : Wire) (t : Nat) : Level :=
  match w.transitions.find? (·.1 ≤ t) with
  | some (_, level) => level
  | none => .high

/-- The levels in the middle of the nine bit periods after a start. -/
def bitsAfter (w : Wire) (start : Nat) : Vector Level 9 :=
  Vector.ofFn fun i : Fin 9 => w.drivenAt (start + w.etu * (i.val + 1) + w.etu / 2)

/-- Every character sent by the firmware, oldest first, with its parity check. -/
def sentCharacters (w : Wire) (c : Convention) : List (UInt8 × Bool) :=
  w.sendTimes.reverse.map fun start => decode (w.bitsAfter start) c

/-- Every byte sent by the firmware, oldest first. -/
def bytesSent (w : Wire) (c : Convention) : List UInt8 := (w.sentCharacters c).map (·.1)

/-! ## The line itself -/

/-- Whether the firmware is inside a character of the peer, its error signal included. -/
def receiving (w : Wire) : Bool :=
  match w.lastPeerStart with
  | some start => start ≤ w.now && w.now < start + w.etu * 116 / 10
  | none => false

/-- Whether the last character of the firmware is over. -/
def idle (w : Wire) : Bool :=
  match w.sendTimes with
  | start :: _ => start + w.etu * 10 ≤ w.now
  | [] => true

/-- A falling edge driven by the firmware: inside a character of the peer it is an error signal,
after the end of its own last character it starts a new one, and the peer may reject that. -/
def fallingEdge (w : Wire) : Wire :=
  if w.receiving then { w with errorsSignalled := w.errorsSignalled + 1 }
  else if w.idle then
    let w := { w with sendTimes := w.now :: w.sendTimes }
    if w.rejections = 0 then w
    else
      { w with
        rejections := w.rejections - 1
        rejectWindows := (w.now + w.etu * 21 / 2, w.now + w.etu * 12) :: w.rejectWindows }
  else w

/-- The firmware drives a level. -/
def driveTo (w : Wire) (level : Level) : Wire :=
  let w := if level.isLow && w.device.isHigh then w.fallingEdge else w
  if level = w.device then w
  else { w with transitions := (w.now, level) :: w.transitions, device := level }

/-- Whether the peer pulls the line low with a character. -/
def peerLow (w : Wire) : Checked Bool :=
  match w.active with
  | none => pure false
  | some (start, frame) => do
    let index ← Word.div (w.now - start) w.etu
    pure (frame[index]?.any (·.isLow))

/-- Whether the peer pulls the line low to reject a character. -/
def rejectLow (w : Wire) : Bool :=
  w.rejectWindows.any fun (start, stop) => start ≤ w.now && w.now < stop

/-- The level of the line: low if either side drives it low. -/
def level (w : Wire) : Checked Level := do
  let peerLow ← w.peerLow
  pure (if w.device.isLow || peerLow || w.rejectLow then .low else .high)

/-- One tick passes; a character of the peer that is over ends. -/
def tick (w : Wire) : Wire :=
  let w := { w with now := w.now + 1 }
  match w.active with
  | some (start, _) => if start + w.etu * 10 ≤ w.now then { w with active := none } else w
  | none => w

/-- The peer starts its next character. -/
def startNext (w : Wire) : Wire :=
  match w.active, w.queued with
  | none, frame :: rest =>
    { w with active := some (w.now, frame), lastPeerStart := some w.now, queued := rest }
  | _, _ => w

/-- A sample takes one tick.  Only firmware that polls, sample after sample, gets the next
character of the peer. -/
def sampled (w : Wire) : Wire :=
  if w.polling then w.tick.startNext else { w.tick with polling := true }

/-- Time passes until `ticks` after the restart of the timer, unless the clock is stopped. -/
def waited (w : Wire) (ticks : Nat) : Bool × Wire :=
  let w := { w with polling := false }
  if w.clock then (true, { w with now := max w.now (w.epoch + ticks) }) else (false, w)

/-- The timer starts again. -/
def restarted (w : Wire) : Wire := { w with polling := false, epoch := w.now }

/-- Polls after which the line, high until then, stays high: nothing is left to change it. -/
def patience (w : Wire) : Nat :=
  let stops := w.active.toList.map (·.1 + w.etu * 10) ++ w.rejectWindows.map (·.2)
  stops.foldl max w.now - w.now + 3

/-- The operations of the simulated line. -/
def line : Line Wire where
  clockRunning := Run.read Wire.clock
  startTimer := Run.change restarted
  waitFor ticks := Run.step (·.waited ticks)
  drive level := Run.change fun w => { w with polling := false }.driveTo level
  release := Run.change fun w => { w with polling := false }.driveTo .high
  sample := do
    Run.change sampled
    Run.checked (← Run.read level)
  resetHeld := Run.read Wire.reset
  patience := patience

end Wire

end CardTap.Bench
