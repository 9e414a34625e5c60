import CardTap.Word
import CardTap.Journal

/-!
# Runs of a machine

All of the firmware is written as runs of a machine whose state type is left open: the same text
runs on the simulated bench, on scripted answers and on the registers of the device.  A run ends
with a value, or halts: on a fault, in a restart, or because it reached something that never
returns.  The state reached is kept either way, together with the log records noted so far.
-/

namespace CardTap

/-- The applications built around the firmware core, by their entry points. -/
inductive EntryPoint where
  | virtualSerial
  | forwardAndLog
  | filterAmount
  | terminal
  deriving DecidableEq, Repr

/-- The name of an entry point. -/
def EntryPoint.describe : EntryPoint → String
  | .virtualSerial => "virtual_serial"
  | .forwardAndLog => "forward_and_log"
  | .filterAmount => "filter_amount"
  | .terminal => "terminal"

/-- What can restart the bench. -/
inductive Restart where
  | watchdog
  | device
  deriving DecidableEq, Repr

/-- The wording of a restart. -/
def Restart.describe : Restart → String
  | .watchdog => "watchdog restart"
  | .device => "device restart"

/-- Where a run stops for good while nothing is wrong. -/
inductive Stop where
  /-- The delay loops used up the no-operations they were granted. -/
  | nops
  /-- Every scripted button was read. -/
  | keys
  /-- The watchdog was left to fire. -/
  | restart
  /-- An application that does not return. -/
  | application (entry : EntryPoint)
  deriving DecidableEq, Repr

/-- The name of a stop. -/
def Stop.describe : Stop → String
  | .nops => "nops"
  | .keys => "keys"
  | .restart => "restart"
  | .application entry => entry.describe

/-- How a run ends without a value. -/
inductive Halt where
  | fault (f : Fault)
  | restart (r : Restart)
  | stop (s : Stop)
  /-- A wait without limit outlasted the patience of its machine: it would never end. -/
  | endless
  deriving DecidableEq, Repr

/-- The state of a run: the machine, and the log records noted so far, newest first. -/
structure Noted (σ : Type) where
  machine : σ
  journal : List LogRecord := []

/-- A run of a machine with state `σ`. -/
abbrev Run (σ : Type) := EStateM Halt (Noted σ)

namespace Run

variable {σ τ α β ε : Type}

/-- Looks at the machine. -/
@[inline] def read (f : σ → α) : Run σ α := fun s => .ok (f s.machine) s

/-- Changes the machine. -/
@[inline] def change (f : σ → σ) : Run σ Unit := fun s => .ok () { s with machine := f s.machine }

/-- Changes the machine and answers something about it. -/
@[inline] def step (f : σ → α × σ) : Run σ α := fun s =>
  let (a, m) := f s.machine
  .ok a { s with machine := m }

/-- Ends the run. -/
@[inline] def halt (h : Halt) : Run σ α := fun s => .error h s

/-- Ends the run with a fault. -/
@[inline] def fault (f : Fault) : Run σ α := halt (.fault f)

/-- Notes a log record. -/
def note (r : LogRecord) : Run σ Unit := fun s => .ok () { s with journal := r :: s.journal }

/-- The value of checked arithmetic. -/
@[inline] def checked : Checked α → Run σ α
  | .ok a => pure a
  | .error f => fault f

instance : MonadLift Checked (Run σ) := ⟨checked⟩

/-- Runs `body` and then `last`, however `body` ended. -/
@[inline] def ensure (body : Run σ α) (last : Run σ Unit) : Run σ α := fun s =>
  match body s with
  | .ok a s => match last s with
    | .ok _ s => .ok a s
    | .error h s => .error h s
  | .error h s => match last s with
    | .ok _ s => .error h s
    | .error h s => .error h s

/-- Runs `body` on a part of the machine. -/
@[inline] def within (get : σ → τ) (put : τ → σ → σ) (body : Run τ α) : Run σ α := fun s =>
  match body ⟨get s.machine, s.journal⟩ with
  | .ok a t => .ok a ⟨put t.machine s.machine, t.journal⟩
  | .error h t => .error h ⟨put t.machine s.machine, t.journal⟩

/-- Repeats `body` until the run halts; `fuel` repetitions count as for ever. -/
def forever (body : Run σ Unit) : Nat → Run σ α
  | 0 => halt .endless
  | fuel + 1 => do
    body
    forever body fuel

/-- Repetitions that count as for ever on a machine that does not know better. -/
def eternity : Nat := 0x4000000000000000

/-- Fails with the error of `r`. -/
def require (r : Except ε α) : ExceptT ε (Run σ) α := ExceptT.mk (pure r)

end Run

/-- A part of a machine: how to look at it and how to replace it. -/
structure Part (τ σ : Type) where
  get : σ → τ
  put : τ → σ → σ

/-- An interface `I` mounted on a machine: the state that the interface works on, its operations and
how their runs act on the whole machine. -/
structure Mounted (I : Type → Type) (β : Type) where
  State : Type
  ops : I State
  within {α : Type} : Run State α → Run β α

namespace Mounted

variable {I : Type → Type} {β τ α ε : Type}

/-- An interface that works on the whole machine. -/
def whole (ops : I β) : Mounted I β := ⟨β, ops, id⟩

/-- An interface that works on a part of the machine. -/
def part (p : Part τ β) (ops : I τ) : Mounted I β := ⟨τ, ops, Run.within p.get p.put⟩

/-- Runs an operation of the interface. -/
@[inline] def run (m : Mounted I β) (f : I m.State → Run m.State α) : Run β α :=
  m.within (f m.ops)

/-- Runs an operation of the interface that may fail. -/
@[inline] def attempt (m : Mounted I β) (f : I m.State → ExceptT ε (Run m.State) α) :
    ExceptT ε (Run β) α :=
  ExceptT.mk (m.within (f m.ops).run)

end Mounted

end CardTap
