import CardTap.Device.RegisterFile
import CardTap.Device.WideCount

/-!
# A timer that runs

Plain registers, except that two of them are the halves of a counter of 16 bits, which goes on by
any number of ticks in front of each read.  Both halves pass through one byte: a read of the low one
keeps the high one there for the next read, and a write of the high one waits there for the write of
the low one.
-/

namespace CardTap.Device

/-- The timers that the lines are timed by. -/
inductive LineTimer where
  | terminal
  | card
  deriving DecidableEq, Repr

/-- The counter of a timer, low byte. -/
def LineTimer.counter : LineTimer → Nat
  | .terminal => Reg.tcnt3
  | .card => Reg.tcnt1

/-- The registers with a timer that runs, and the count that the firmware keeps of it. -/
structure RunningTimer where
  /-- The other registers. -/
  values : Values
  counter : UInt16
  /-- The byte that a half of the counter passes through. -/
  held : UInt8
  /-- Reads of the counter so far. -/
  reads : Nat
  /-- The ticks in front of each read of the counter, by the number of the reads before it. -/
  gaps : Nat → UInt16
  count : WideCount

namespace RunningTimer

/-- The ticks from here to the `n`-th read of the counter from here, of whatever width. -/
def ticksAt (m : RunningTimer) : Nat → Nat
  | 0 => 0
  | n + 1 => m.ticksAt n + (m.gaps (m.reads + n)).toNat

/-- The counter goes on up to the next read, which keeps the high byte. -/
def ticked (m : RunningTimer) : RunningTimer :=
  let now := m.counter + m.gaps m.reads
  { m with counter := now, held := UInt8.ofNat (now.toNat / 256), reads := m.reads + 1 }

/-- What a read answers, and the machine behind it. -/
def fetched (timer : LineTimer) (m : RunningTimer) (addr : Nat) : UInt8 × RunningTimer :=
  if addr = timer.counter then (UInt8.ofNat m.ticked.counter.toNat, m.ticked)
  else if addr = timer.counter + 1 then (m.held, m)
  else (m.values addr, m)

/-- The machine behind a write. -/
def written (timer : LineTimer) (m : RunningTimer) (addr : Nat) (value : UInt8) : RunningTimer :=
  if addr = timer.counter then
    { m with counter := UInt16.ofNat (m.held.toNat * 256 + value.toNat) }
  else if addr = timer.counter + 1 then { m with held := value }
  else { m with values := Function.update m.values addr value }

/-- The registers of the machine. -/
def registers (timer : LineTimer) : Registers RunningTimer where
  read addr := Run.step (·.fetched timer addr)
  write addr value := Run.change (·.written timer addr value)
  nops _ := pure ()
  serveWatchdog := pure ()
  spin := Run.halt (.stop .restart)

/-- The place of the count. -/
def place : Part WideCount RunningTimer := ⟨RunningTimer.count, fun t m => { m with count := t }⟩

/-- Starts the timer from zero. -/
def start (timer : LineTimer) : Run RunningTimer Unit :=
  (registers timer).startCount place timer.counter

/-- Waits until the timer has counted so many ticks; false if it stalled. -/
def await (timer : LineTimer) (target : Nat) : Run RunningTimer Bool :=
  (registers timer).awaitCount place timer.counter target

end RunningTimer

end CardTap.Device
