import CardTap.Bench.Bench
import CardTap.Proofs.Log.Flush
import CardTap.TerminalReset

/-!
# What a falling edge of the terminal reset line does

On the simulated board the handler returns the report of the flush, whatever the store holds.  It
leaves no captured exchanges, the planned writes of the flush in the store, the counter and the
warm-reset marker in their cells, and the watchdog armed.
-/

namespace CardTap.Bench

open CardTap.Run CardTap.Bench.Memory

variable {size : Nat} {b : Bench}

/-! ## Shared state -/

section Shared

theorem ram_returns {α : Type} {x : Run Ram α} {a : α} {r : Ram} (h : x.Returns b.ram a r) :
    ((board size).ram x).Returns b a { b with ram := r } := by
  show (Run.within ramPart.get ramPart.put x).Returns b a (ramPart.put r b)
  exact Returns.within h

theorem look_returns {α : Type} (f : Ram → α) : ((board size).look f).Returns b (f b.ram) b := by
  show ((board size).ram (Run.read f)).Returns b (f b.ram) b
  exact ram_returns (Returns.read f b.ram)

theorem shared_returns {α : Type} (f : Ram → α × Ram) :
    ((board size).shared f).Returns b (f b.ram).1 { b with ram := (f b.ram).2 } := by
  show ((board size).ram (Run.step f)).Returns b (f b.ram).1 { b with ram := (f b.ram).2 }
  exact ram_returns (Returns.step f b.ram)

theorem setSelected_returns (id : UInt8) :
    ((board size).setSelected id).Returns b () { b with ram.selected := id } :=
  shared_returns _

theorem capture_returns (x : Exchange) :
    ((board size).capture x).Returns b (b.ram.captured? x).1
      { b with ram := (b.ram.captured? x).2 } := by
  refine Returns.bind (shared_returns (Ram.captured? x)) ?_
  cases (b.ram.captured? x).1 with
  | true => exact Returns.pure true _
  | false => exact Returns.bind (Returns.note _ _) (Returns.pure false _)

end Shared

/-! ## Watchdog, reset line and LEDs -/

section Peripherals

theorem disable_returns (w : Watchdog) :
    Watchdog.watchdog.disable.Returns w ()
      { w with armed := none, disableCount := w.disableCount + 1 } :=
  Returns.change (fun w : Watchdog => { w with armed := none, disableCount := w.disableCount + 1 })
    w

theorem arm_returns (timeout : Timeout) (w : Watchdog) :
    (Watchdog.watchdog.arm timeout).Returns w () { w with armed := some timeout } :=
  Returns.change (fun w : Watchdog => { w with armed := some timeout }) w

theorem clockRunning_returns (r : ResetLine) :
    ResetLine.resetLine.clockRunning.Returns r r.clock r :=
  Returns.read ResetLine.clock r

theorem ignoreEdge_returns (r : ResetLine) :
    ResetLine.resetLine.ignoreEdge.Returns r () { r with interrupt := false } :=
  Returns.change (fun r : ResetLine => { r with interrupt := false }) r

theorem light_returns (led : Led) (on : Bool) :
    ((board size).panel.run (·.light led on)).Returns b ()
      { b with panel.leds := b.panel.leds.set led on } :=
  Returns.mounted (p := panelPart)
    (Returns.change (fun p : Panel => { p with leds := p.leds.set led on }) b.panel)

end Peripherals

/-! ## The handler -/

section Handler

/-- The bench once its watchdog is disabled. -/
def disarmed (b : Bench) : Bench :=
  { b with watchdog.armed := none, watchdog.disableCount := b.watchdog.disableCount + 1 }

/-- The bench after a terminal reset that leaves the store `m`. -/
def resetTo (b : Bench) (m : Memory) : Bench :=
  { b with
    memory := m
    watchdog.armed := some .restart
    watchdog.disableCount := b.watchdog.disableCount + 1
    resetLine.interrupt := false
    ram.captured := .empty }

/-- The store once the counter of the shared state is saved. -/
def counted (b : Bench) : Memory := b.memory.updated Layout.counter b.ram.counter

theorem cell?_counted (b : Bench) {i : Nat} (h : i ≠ Layout.counter) :
    b.counted.cell? i = b.memory.cell? i :=
  cell?_updated_of_ne _ h

theorem persistedCursor_counted (b : Bench) :
    b.counted.persistedCursor = b.memory.persistedCursor :=
  persistedCursor_congr (b.cell?_counted (by decide)) (b.cell?_counted (by decide))

variable (hsize : Layout.logEnd ≤ size) (hcells : size ≤ cellCount)

include hsize hcells

theorem saveCounter_returns :
    ((board size).saveCounter).Returns b () { b with memory := b.counted } := by
  have hcounter : Layout.counter < size := Nat.lt_of_lt_of_le (by decide) hsize
  refine Returns.bind (look_returns _) ?_
  refine Returns.bind (Returns.attempted (p := memoryPart)
    (setCounter_returns hcounter hcells b.ram.counter)) ?_
  exact Returns.pure () _

theorem saveCaptured_returns (b : Bench) :
    ∃ m', ((board size).saveCaptured).Returns b
        (some (Log.planned b.memory.persistedCursor (b.ram.captured.items.map Exchange.entry)
          b.ram.selected))
        { b with memory := m', ram.captured := .empty } ∧
      m'.settled = (b.memory.programmedAll (Log.flushWrites b.memory
        (b.ram.captured.items.map Exchange.entry) b.ram.selected)).settled := by
  obtain ⟨m', hflush, hm'⟩ := Log.flush_returns hsize hcells Exchange.entry b.ram.captured
    b.ram.selected b.memory
  have hcaptured : ((board size).flushCaptured b.ram.selected).Returns b
      (.ok (Log.planned b.memory.persistedCursor (b.ram.captured.items.map Exchange.entry)
        b.ram.selected))
      { b with memory := m', ram.captured := .empty } := by
    refine Returns.bind (ram_returns (Returns.read Ram.captured b.ram)) ?_
    refine Returns.bind (Returns.mounted (p := memoryPart) hflush) ?_
    refine Returns.bind (ram_returns (Returns.change _ _)) ?_
    exact Returns.pure _ _
  exact ⟨m', Returns.bind (look_returns _) (Returns.bind hcaptured (Returns.pure _ _)), hm'⟩

theorem saveWarmFlag_returns (clockRunning : Bool) :
    ((board size).saveWarmFlag clockRunning).Returns b ()
      { b with
        memory := b.memory.updated Layout.warmFlag
          (Log.nextWarmFlag (b.memory.byteAt Layout.warmFlag) clockRunning) } := by
  have hwarm : Layout.warmFlag < size := Nat.lt_of_lt_of_le (by decide) hsize
  refine Returns.bind (Returns.attempted (p := memoryPart)
    (Returns.bind_ok (warmFlag_returns hwarm hcells) (setWarmFlag_returns hwarm hcells _))) ?_
  exact Returns.pure () _

/-- **A terminal reset saves everything.** It returns the planned report of a flush of all captured
exchanges; the store is that after the flush, but for the cells of the counter and of the warm-reset
marker. -/
theorem handleTerminalReset_returns (b : Bench) :
    ∃ m' flushed : Memory, ((board size).handleTerminalReset).Returns b
        (some (Log.planned b.memory.persistedCursor (b.ram.captured.items.map Exchange.entry)
          b.ram.selected))
        (b.resetTo m') ∧
      flushed.settled = (b.counted.programmedAll (Log.flushWrites b.counted
        (b.ram.captured.items.map Exchange.entry) b.ram.selected)).settled ∧
      m' = (flushed.updated Layout.warmFlag
        (Log.nextWarmFlag (flushed.byteAt Layout.warmFlag) b.resetLine.clock)).settled := by
  obtain ⟨flushed, hsave, hflushed⟩ :=
    saveCaptured_returns hsize hcells { b.disarmed with memory := b.counted }
  have hcursor := b.persistedCursor_counted
  simp only [hcursor] at hsave
  refine ⟨_, flushed, ?_, hflushed, rfl⟩
  refine Returns.bind (Returns.mounted (p := watchdogPart) (disable_returns _)) ?_
  refine Returns.bind (saveCounter_returns (b := b.disarmed) hsize hcells) ?_
  refine Returns.bind hsave ?_
  refine Returns.bind (Returns.mounted (p := resetLinePart) (clockRunning_returns _)) ?_
  refine Returns.bind (saveWarmFlag_returns hsize hcells _) ?_
  refine Returns.bind (Returns.mounted (p := resetLinePart) (ignoreEdge_returns _)) ?_
  refine Returns.bind (Returns.mounted (p := memoryPart) sync_returns) ?_
  refine Returns.bind (Returns.mounted (p := watchdogPart) (arm_returns _ _)) ?_
  exact Returns.pure _ _

end Handler

end CardTap.Bench
