import CardTap.Device.Slot
import Mathlib.Logic.Function.Basic

/-!
# Registers that keep a record

A file of plain registers, except that the input of bank D answers anything at each read.  Every
access is recorded, a write together with the registers that it finds.
-/

namespace CardTap

namespace Slot

variable {σ : Type}

/-- The operations that switch the contacts of a slot, as data. -/
inductive Call where
  | activate (warm : Bool)
  | driveReset (high : Bool)
  | deactivate
  | watchEdge
  | ignoreEdge
  deriving DecidableEq, Repr

/-- Makes a call; only an activation can be refused. -/
def Call.make (s : Slot σ) : Call → Run σ Bool
  | .activate warm => s.activate warm
  | .driveReset high => do
    s.driveReset high
    pure true
  | .deactivate => do
    s.deactivate
    pure true
  | .watchEdge => do
    s.watchEdge
    pure true
  | .ignoreEdge => do
    s.ignoreEdge
    pure true

end Slot

namespace Device

/-- The values of the registers. -/
abbrev Values := Nat → UInt8

/-- A write to a register. -/
structure Write where
  /-- The registers right before. -/
  before : Values
  addr : Nat
  value : UInt8

/-- The registers right behind a write. -/
def Write.after (w : Write) : Values := Function.update w.before w.addr w.value

/-- An access to a register. -/
inductive Access where
  | read (addr : Nat) (value : UInt8)
  | write (w : Write)

namespace Access

/-- The write, if an access is one. -/
def write? : Access → Option Write
  | .read .. => none
  | .write w => some w

/-- What the detect switch answered, if an access asks for it. -/
def found? : Access → Option Bool
  | .read addr value => if addr = Reg.inputD then some (value &&& Pin.cardSwitch != 0) else none
  | .write _ => none

end Access

/-- A register file with a record of its accesses. -/
structure RegisterFile where
  values : Values
  /-- What reads of the input of bank D answer, the next one first. -/
  pins : Nat → UInt8
  /-- The accesses so far, oldest first. -/
  accesses : List Access := []

namespace RegisterFile

/-- What a read answers, and the register file behind it. -/
def fetched (m : RegisterFile) (addr : Nat) : UInt8 × RegisterFile :=
  if addr = Reg.inputD then
    (m.pins 0, { m with
      pins := fun n => m.pins (n + 1)
      accesses := m.accesses ++ [.read addr (m.pins 0)] })
  else (m.values addr, { m with accesses := m.accesses ++ [.read addr (m.values addr)] })

/-- The register file behind a write. -/
def written (m : RegisterFile) (addr : Nat) (value : UInt8) : RegisterFile :=
  let w : Write := ⟨m.values, addr, value⟩
  { m with values := w.after, accesses := m.accesses ++ [.write w] }

/-- The registers of the file. -/
def registers : Registers RegisterFile where
  read addr := Run.step (·.fetched addr)
  write addr value := Run.change (·.written addr value)
  nops _ := pure ()
  serveWatchdog := pure ()
  spin := Run.halt (.stop .restart)

end RegisterFile

end Device

end CardTap
