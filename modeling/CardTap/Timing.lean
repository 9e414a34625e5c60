import CardTap.Word

/-!
# Elementary time units

One elementary time unit (ETU) lasts `F / (D * f)` seconds, where `f` is the clock given to the
card.  Bit boundaries are found by counting the ticks of a timer, so an `Etu` is a number of ticks,
together with the fractions of it that place a sample inside a bit period.
-/

namespace CardTap

/-- Clock rate conversion factor in use until a card negotiates another one. -/
def standardF : Nat := 372

/-- Baud rate adjustment factor in use until a card negotiates another one. -/
def standardD : Nat := 1

/-- Frequency of the core clock, in hertz. -/
def coreHz : Nat := 16000000

/-- Ticks of a timer running at `timerHz` in one ETU of a card clocked at `clockHz`: the products
are 64 bit words and the quotient is cut to 32 bits. -/
def etuTicks (f d clockHz timerHz : Nat) : Checked Nat := do
  let clocks ← Word.mul .bits64 f timerHz
  let rate ← Word.mul .bits64 d clockHz
  let ticks ← Word.div clocks rate
  pure (Width.bits32.cut ticks)

/-- Microseconds in `n` ETUs of a card clocked at `clockHz`, with the same widths. -/
def etusInUs (f d clockHz n : Nat) : Checked Nat := do
  let clocks ← Word.mul .bits64 n f
  let scaled ← Word.mul .bits64 clocks 1000000
  let rate ← Word.mul .bits64 d clockHz
  let us ← Word.div scaled rate
  pure (Width.bits32.cut us)

/-- The length of one ETU, in timer ticks. -/
structure Etu where
  ticks : Nat
  deriving DecidableEq, Repr

namespace Etu

/-- On the terminal side the timer counts the terminal clock itself. -/
def terminal : Etu := ⟨standardF⟩

/-- Ticks in `n` ETUs. -/
def etus (e : Etu) (n : Nat) : Checked Nat := Word.mul .bits32 e.ticks n

/-- The middle of a bit period. -/
def half (e : Etu) : Nat := e.ticks / 2

/-- A bit less than half an ETU: the error signal starts early. -/
def signalDelay (e : Etu) : Checked Nat := do
  let scaled ← Word.mul .bits32 e.ticks 46
  pure (scaled / 100)

/-- A bit more than one ETU: the shortest error signal. -/
def signalWidth (e : Etu) : Checked Nat := do
  let scaled ← Word.mul .bits32 e.ticks 1075
  pure (scaled / 1000)

end Etu

/-- The clock given to the card, divided from the core clock. -/
inductive CardClock where
  | mhz4
  | mhz2
  | mhz1
  | khz800
  | khz500
  deriving DecidableEq, Repr

namespace CardClock

/-- The clock in use unless another one is chosen. -/
def standard : CardClock := .mhz4

/-- The name of a clock in messages. -/
def describe : CardClock → String
  | .mhz4 => "Mhz4"
  | .mhz2 => "Mhz2"
  | .mhz1 => "Mhz1"
  | .khz800 => "Khz800"
  | .khz500 => "Khz500"

/-- Frequency in hertz. -/
def hz : CardClock → Nat
  | .mhz4 => 4000000
  | .mhz2 => 2000000
  | .mhz1 => 1000000
  | .khz800 => 800000
  | .khz500 => 500000

/-- Rate of the timer that counts ETUs: the fastest clock is measured with the undivided core clock,
the others with an eighth of it, so that an ETU fits the counter. -/
def timerHz (c : CardClock) (cpuHz : Nat) : Nat :=
  match c with
  | .mhz4 => cpuHz
  | _ => cpuHz / 8

/-- Compare value at which the clock pin toggles, at twice the frequency; it is cut to 8 bits. -/
def toggleValue (c : CardClock) (cpuHz : Nat) : Checked Nat := do
  let period ← Word.div cpuHz (2 * c.hz)
  let value ← Word.sub period 1
  pure (Width.bits8.cut value)

/-- The ETU of a card on this clock, before any negotiation. -/
def etu (c : CardClock) (cpuHz : Nat) : Etu :=
  ⟨Width.bits32.cut (standardF * c.timerHz cpuHz / (standardD * c.hz))⟩

end CardClock

/-- The ETU of the card line, in ticks of the card timer. -/
def Etu.card : Etu := CardClock.standard.etu coreHz

end CardTap
