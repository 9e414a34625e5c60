import CardTap.Chip.Script
import CardTap.Chip.Trace
import CardTap.Device

/-!
# The simulated chip

The chip is a file of one-byte registers, most of them plain.  The store control, the two timers,
the input pins and the debug output behave as the hardware does, with scripted timers and pins.
-/

namespace CardTap

namespace Chip

/-- A call of the display driver. -/
inductive DisplayCall where
  | init
  | off
  | write (text : List UInt8)
  deriving DecidableEq, Repr

/-- The store of the chip. -/
structure Memory where
  cells : Vector UInt8 4096 := Vector.replicate 4096 0xFF
  /-- Polls of the store control that a write lasts. -/
  pollsPerWrite : Nat := 2
  /-- Polls until the write in progress is over. -/
  busyPolls : Nat := 0

/-- The timers of the chip: each script holds the ticks between two reads. -/
structure Timers where
  card : Script Nat := { last := 0 }
  terminal : Script Nat := { last := 0 }
  /-- The high byte that goes with the last low byte read, shared by both timers. -/
  latch : UInt8 := 0

/-- The input pins of the chip. -/
structure Pins where
  b : Script UInt8 := { last := 0xFF }
  c : Script UInt8 := { last := 0xFF }
  d : Script UInt8 := { last := 0xFF }
  f : Script UInt8 := { last := 0xFF }
  /-- Whether the buttons are scripted: then the run stops after the last of them. -/
  buttonsScripted : Bool := false

/-- The debug output of the chip. -/
structure DebugOutput where
  /-- Polls for which it is busy after a byte. -/
  pollsPerByte : Nat := 0
  /-- Polls until it takes the next byte. -/
  busyPolls : Nat := 0
  /-- Bytes sent so far, newest first. -/
  sent : List UInt8 := []

/-- The display next to the chip. -/
structure Display where
  connected : Bool := true
  /-- Calls of its driver, newest first. -/
  calls : List DisplayCall := []

/-- The applications next to the firmware. -/
structure Programs where
  /-- Whether they return. -/
  returning : Bool := false
  /-- Those called so far, newest first. -/
  calls : List EntryPoint := []

end Chip

/-- The simulated chip, with everything that a program leaves on it. -/
structure Chip where
  registers : Vector UInt8 256 := Vector.replicate 256 0
  memory : Chip.Memory := {}
  timers : Chip.Timers := {}
  pins : Chip.Pins := {}
  debug : Chip.DebugOutput := {}
  /-- No-operations that may still be executed. -/
  nopsLeft : Option Nat := none
  display : Chip.Display := {}
  programs : Chip.Programs := {}
  ram : Ram := {}
  terminalCount : Device.WideCount := {}
  cardCount : Device.WideCount := {}
  trace : Chip.Trace := {}

namespace Chip

open Device

/-- The value of a register. -/
@[inline] def reg (c : Chip) (addr : Nat) : UInt8 := c.registers[addr]?.getD 0

/-- Changes the value of a register. -/
@[noinline] def setReg (c : Chip) (addr : Nat) (value : UInt8) : Chip :=
  { c with registers := c.registers.setIfInBounds addr value }

/-- Adds an event to the trace. -/
@[inline] def noted (c : Chip) (e : Event) : Chip :=
  if c.trace.isFull then c else { c with trace := c.trace.add e }

/-- Puts values into cells of the store. -/
def poke (c : Chip) (addr : Nat) (values : List UInt8) : Chip :=
  let cells := (values.zipIdx addr).foldl
    (fun cells (b, i) => cells.setIfInBounds i b) c.memory.cells
  { c with memory := { c.memory with cells } }

/-! ## Reading -/

/-- A poll of the store control: the write in progress comes nearer to its end. -/
def polledStore (c : Chip) : Chip :=
  if c.memory.busyPolls = 0 then c.setReg Reg.eecr (c.reg Reg.eecr &&& ~~~writeEnable)
  else { c with memory := { c.memory with busyPolls := c.memory.busyPolls - 1 } }

/-- Lets a timer count `ticks` if its control register gives it a clock, and latches the high byte
of the count. -/
def counted (c : Chip) (control low ticks : Nat) : Chip :=
  let count := (c.reg (low + 1)).toNat * 256 + (c.reg low).toNat
  let count := if c.reg control &&& 0x07 = 0 then count else count + ticks
  let high := UInt8.ofNat (count / 256)
  let c := (c.setReg low (UInt8.ofNat count)).setReg (low + 1) high
  { c with timers := { c.timers with latch := high } }

/-- A poll of the debug output. -/
def polledDebug (c : Chip) : UInt8 × Chip :=
  if c.debug.busyPolls = 0 then (0x20, c)
  else (0, { c with debug := { c.debug with busyPolls := c.debug.busyPolls - 1 } })

/-- What a read of a register answers, and the chip after it. -/
def fetched (c : Chip) (addr : Nat) : UInt8 × Chip :=
  if addr = Reg.eecr then
    let c := c.polledStore
    (c.reg Reg.eecr, c)
  else if addr = Reg.tcnt1 then
    let timer := c.timers.card.next
    let c := { c with timers := { c.timers with card := timer } }
    let c := c.counted Reg.tccr1b Reg.tcnt1 timer.last
    (c.reg Reg.tcnt1, c)
  else if addr = Reg.tcnt3 then
    let timer := c.timers.terminal.next
    let c := { c with timers := { c.timers with terminal := timer } }
    let c := c.counted Reg.tccr3b Reg.tcnt3 timer.last
    (c.reg Reg.tcnt3, c)
  else if addr = Reg.tcnt1 + 1 ∨ addr = Reg.tcnt3 + 1 then (c.timers.latch, c)
  else if addr = Reg.inputB then
    let pin := c.pins.b.next
    (pin.last, { c with pins := { c.pins with b := pin } })
  else if addr = Reg.inputC then
    let pin := c.pins.c.next
    (pin.last, { c with pins := { c.pins with c := pin } })
  else if addr = Reg.inputD then
    let pin := c.pins.d.next
    (pin.last, { c with pins := { c.pins with d := pin } })
  else if addr = Reg.inputF then
    let pin := c.pins.f.next
    (pin.last, { c with pins := { c.pins with f := pin } })
  else if addr = Reg.ucsr1a then c.polledDebug
  else (c.reg addr, c)

/-- Whether a read stops the run: every scripted button was read. -/
def outOfButtons (c : Chip) (addr : Nat) : Bool :=
  addr == Reg.inputF && c.pins.buttonsScripted && c.pins.f.rest.isEmpty

/-- Reads a register. -/
def fetch (addr : Nat) : Run Chip UInt8 := fun s =>
  if s.machine.outOfButtons addr then .error (.stop .keys) s
  else
    let (value, c) := s.machine.fetched addr
    .ok value { s with machine := c.noted (.read addr value) }

/-! ## Writing -/

/-- The cell that the address registers select, 12 bits wide. -/
def cellAddress (c : Chip) : Nat :=
  ((c.reg Reg.eearh).toNat * 256 + (c.reg Reg.eearl).toNat) % 4096

/-- Reads the selected cell into the data register, if the store control asks for it. -/
def loadCell (c : Chip) : Chip :=
  if c.reg Reg.eecr &&& readEnable = 0 then c
  else
    let value := c.memory.cells[c.cellAddress]?.getD 0xFF
    (c.setReg Reg.eedr value).setReg Reg.eecr (c.reg Reg.eecr &&& ~~~readEnable)

/-- Starts to write the data register to the selected cell, if the store control asks for it and was
unlocked before. -/
def storeCell (c : Chip) (unlocked : Bool) : Chip :=
  if c.reg Reg.eecr &&& writeEnable = 0 ∨ ¬unlocked then c
  else
    let cells := c.memory.cells.setIfInBounds c.cellAddress (c.reg Reg.eedr)
    let memory := { c.memory with cells, busyPolls := c.memory.pollsPerWrite }
    { c with memory }.setReg Reg.eecr writeEnable

/-- The chip after a write to a register. -/
def written (c : Chip) (addr : Nat) (value : UInt8) : Chip :=
  if addr = Reg.eecr then
    let unlocked := c.reg Reg.eecr &&& writeUnlock != 0
    ((c.setReg addr value).loadCell).storeCell unlocked
  else if addr = Reg.udr1 then
    let debug := { c.debug with sent := value :: c.debug.sent, busyPolls := c.debug.pollsPerByte }
    { c.setReg addr value with debug }
  else c.setReg addr value

/-- Writes a register. -/
def store (addr : Nat) (value : UInt8) : Run Chip Unit :=
  Run.change fun c => (c.written addr value).noted (.write addr value)

/-! ## Other instructions -/

/-- Begins no-operations as far as they are granted; the first one that is not granted is begun as
well, but not completed. -/
def idled (c : Chip) (count : Nat) : Chip :=
  let begun := match c.nopsLeft with
    | some left => min (left + 1) count
    | none => count
  let c := { c with nopsLeft := c.nopsLeft.map (· - count) }
  if begun = 0 then c else c.noted (.nops begun)

/-- Executes no-operations; the run stops at the first one that is not granted. -/
def idle (count : Nat) : Run Chip Unit := do
  let granted ← Run.read fun c => c.nopsLeft.all (count ≤ ·)
  Run.change (·.idled count)
  unless granted do Run.halt (.stop .nops)

/-- The registers of the chip. -/
def registerFile : Device.Registers Chip where
  read := fetch
  write := store
  nops := idle
  serveWatchdog := Run.change (·.noted .serve)
  spin := Run.halt (.stop .restart)

/-- Calls the display driver. -/
def showCall (call : DisplayCall) : Run Chip Unit :=
  Run.change fun c => { c with display := { c.display with calls := call :: c.display.calls } }

/-- The display driver. -/
def lcd : Device.Lcd Chip where
  found := Run.read (·.display.connected)
  init := showCall .init
  off := showCall .off
  write text := showCall (.write text)

/-- The chip as a device. -/
def device : Device Chip where
  registers := registerFile
  lcd := lcd
  ram := ⟨Chip.ram, fun x c => { c with ram := x }⟩
  terminalCount := ⟨Chip.terminalCount, fun x c => { c with terminalCount := x }⟩
  cardCount := ⟨Chip.cardCount, fun x c => { c with cardCount := x }⟩

/-- Applications that note that they were called, and stop the run unless they return. -/
def applications : Applications Chip := fun entry => do
  Run.change fun c =>
    { c with programs := { c.programs with calls := entry :: c.programs.calls } }
  unless ← Run.read (·.programs.returning) do Run.halt (.stop (.application entry))

/-- The chip after a reset: the registers and the shared state start again, and a write in progress
is cut off.  The presence last seen, the store, the scripts and what was sent or called stay. -/
def reset (c : Chip) : Chip :=
  { c with
    registers := Vector.replicate 256 0
    memory := { c.memory with busyPolls := 0 }
    ram := { presence := c.ram.presence }
    terminalCount := {}
    cardCount := {} }

end Chip

end CardTap
