import CardTap.Proofs.Log.Overrun
import CardTap.Proofs.TerminalReset

/-!
# A terminal reset always restarts the device

The store of a board may be too small for any of the persisted values, or for the log.  Then a step
of the handler fails, but the handler does not: it goes on with the next step, and whatever happened
it ends with the captured exchanges gone, the reset interrupt off, no write in progress and the
watchdog armed (`handler_always_ends`).
-/

namespace CardTap.Bench

open CardTap.Run CardTap.Bench.Memory

variable {size : Nat}

/-- The handler went through all its steps on a store of `size` cells. -/
structure WentThrough (size : Nat) (b : Bench) (report : Option FlushSummary) (b' : Bench) :
    Prop where
  captured : b'.ram.captured = .empty
  interrupt : b'.resetLine.interrupt = false
  idle : b'.memory.busyPolls = 0
  armed : b'.watchdog.armed = some .ms15
  disabled : b'.watchdog.disableCount = b.watchdog.disableCount + 1
  served : b'.watchdog.serveCount = b.watchdog.serveCount
  /-- Every write went to a cell that the store has. -/
  writes : WritesOnly (· < size) b.memory b'.memory
  counter : b.memory.budget = none → Layout.counter < size →
    b'.memory.cell? Layout.counter = some b.ram.counter
  warmFlag : b.memory.budget = none → Layout.warmFlag < size →
    b'.memory.cell? Layout.warmFlag =
      some (Log.nextWarmFlag (b.memory.byteAt Layout.warmFlag) b.resetLine.clock)
  /-- There is a report exactly if the flush, begun behind the saved counter, did not fail. -/
  flush : ∃ flushed m,
    (Log.flush (eeprom size) Exchange.entry b.ram.captured b.ram.selected).Returns
      (b.memory.updatedWithin size Layout.counter b.ram.counter) flushed m ∧
    report = flushed.outcome.toOption ∧ (report = none ↔ ∃ e, flushed.outcome = .error e)
  /-- The flush fails exactly if it overruns the store. -/
  overruns : report = none ↔
    Log.Overruns size b.memory.persistedCursor (b.ram.captured.items.map Exchange.entry)
      b.ram.selected

section Steps

variable (hcells : size ≤ cellCount)

include hcells

theorem saveCounter_any (b : Bench) :
    ((board size).saveCounter).Returns b ()
      { b with memory := b.memory.updatedWithin size Layout.counter b.ram.counter } := by
  obtain ⟨r, m', hrun, rfl⟩ : (Settings.setCounter (eeprom size) b.ram.counter).run.Ends b.memory
      fun _ m' => m' = b.memory.updatedWithin size Layout.counter b.ram.counter :=
    update_one_ends b.ram.counter hcells
  refine Returns.bind (look_returns _) (Returns.bind (Returns.attempted (p := memoryPart) hrun) ?_)
  cases r with
  | ok _ => exact Returns.pure () _
  | error e => exact Returns.note _ _

theorem saveCaptured_any (b : Bench) :
    ((board size).saveCaptured).Ends b fun report b' =>
      ∃ flushed m m',
        (Log.flush (eeprom size) Exchange.entry b.ram.captured b.ram.selected).Returns b.memory
          flushed m' ∧
        report = flushed.outcome.toOption ∧
        ((∃ e, flushed.outcome = .error e) ↔ Log.Overruns size b.memory.persistedCursor
          (b.ram.captured.items.map Exchange.entry) b.ram.selected) ∧
        b' = { b with memory := m, ram.captured := .empty } ∧
        WritesOnly (Log.Cell size) b.memory m := by
  obtain ⟨⟨outcome, left⟩, m, hrun, hwrote, hfails, hleft⟩ := Log.flush_ends hcells Exchange.entry
    b.ram.captured b.ram.selected b.memory
  have hcaptured : ((board size).flushCaptured b.ram.selected).Returns b outcome
      { b with memory := m, ram.captured := left } := by
    refine Returns.bind (ram_returns (Returns.read Ram.captured b.ram)) ?_
    refine Returns.bind (Returns.mounted (p := memoryPart) hrun) ?_
    refine Returns.bind (ram_returns (Returns.change _ _)) ?_
    exact Returns.pure _ _
  refine Ends.after (look_returns _) (Ends.after hcaptured ?_)
  cases outcome with
  | ok r =>
    obtain rfl := hleft ⟨r, rfl⟩
    exact Ends.pure ⟨_, m, m, hrun, rfl, hfails, rfl, hwrote⟩
  | error e =>
    refine Ends.after (Returns.note _ _) (Ends.after (shared_returns _) ?_)
    exact Ends.pure ⟨_, m, m, hrun, rfl, hfails, rfl, hwrote⟩

theorem saveWarmFlag_any (clockRunning : Bool) (b : Bench) :
    ((board size).saveWarmFlag clockRunning).Returns b ()
      { b with
        memory := b.memory.updatedWithin size Layout.warmFlag
          (Log.nextWarmFlag (b.memory.byteAt Layout.warmFlag) clockRunning) } := by
  by_cases h : Layout.warmFlag < size
  · rw [updatedWithin_of_lt _ h]
    refine Returns.bind (Returns.attempted (p := memoryPart)
      (Returns.bind_ok (warmFlag_returns h hcells) (setWarmFlag_returns h hcells _))) ?_
    exact Returns.pure () _
  · have hrefused : (Settings.warmFlag (eeprom size)).run.Returns b.memory _ b.memory :=
      readByte_refuses (Nat.not_lt.1 h)
    rw [updatedWithin_of_le _ (Nat.not_lt.1 h)]
    refine Returns.bind (Returns.attempted (p := memoryPart)
      (Returns.bind hrefused (Returns.pure _ _))) ?_
    exact Returns.note _ _

end Steps

/-! ## The handler -/

section Handler

/-- The store that a terminal reset leaves: the counter, the flush and the warm-reset marker one
after the other, each as far as the store has the cells. -/
structure Saved (size : Nat) (b : Bench) (m : Memory) where
  flushed : Memory
  writes : WritesOnly (Log.Cell size) (b.memory.updatedWithin size Layout.counter b.ram.counter)
    flushed
  store : m = (flushed.updatedWithin size Layout.warmFlag
    (Log.nextWarmFlag (flushed.byteAt Layout.warmFlag) b.resetLine.clock)).settled

namespace Saved

variable {b : Bench} {m : Memory} (s : Saved size b m)

include s

theorem busyPolls_eq : m.busyPolls = 0 := by
  rw [s.store]
  rfl

theorem writesOnly : WritesOnly (· < size) b.memory m := by
  have hcount := (writesOnly_updatedWithin b.memory size Layout.counter
    b.ram.counter).mono fun _ h => h.1
  have hflush := s.writes.mono fun _ h => h.1
  have hwarm := (writesOnly_updatedWithin s.flushed size Layout.warmFlag
    (Log.nextWarmFlag (s.flushed.byteAt Layout.warmFlag) b.resetLine.clock)).mono fun _ h => h.1
  rw [s.store]
  exact ((hcount.trans hflush).trans hwarm).trans (.settled _)

/-- Neither the flush nor the warm-reset marker touches the counter. -/
theorem cell?_counter (hpower : b.memory.budget = none) (hcells : size ≤ cellCount)
    (h : Layout.counter < size) : m.cell? Layout.counter = some b.ram.counter := by
  have hwarm := writesOnly_updatedWithin s.flushed size Layout.warmFlag
    (Log.nextWarmFlag (s.flushed.byteAt Layout.warmFlag) b.resetLine.clock)
  rw [s.store, cell?_settled, hwarm.cell?_eq fun h => absurd h.2 (by decide),
    s.writes.cell?_eq Log.not_cell_counter]
  exact cell?_updatedWithin hpower hcells _ h

/-- Neither the counter nor the flush touches the warm-reset marker. -/
theorem cell?_warmFlag (hpower : b.memory.budget = none) (hcells : size ≤ cellCount)
    (h : Layout.warmFlag < size) :
    m.cell? Layout.warmFlag =
      some (Log.nextWarmFlag (b.memory.byteAt Layout.warmFlag) b.resetLine.clock) := by
  have hcount := writesOnly_updatedWithin b.memory size Layout.counter b.ram.counter
  have hold : s.flushed.byteAt Layout.warmFlag = b.memory.byteAt Layout.warmFlag :=
    byteAt_congr ((s.writes.cell?_eq Log.not_cell_warmFlag).trans
      (hcount.cell?_eq fun h => absurd h.2 (by decide)))
  rw [s.store, cell?_settled, ← hold]
  exact cell?_updatedWithin (s.writes.budget_of_none (hcount.budget_of_none hpower)) hcells _ h

/-- A cell outside the log, its cursor and the two saved values keeps its value. -/
theorem cell?_eq {i : Nat} (hcounter : i ≠ Layout.counter) (hwarm : i ≠ Layout.warmFlag)
    (hlog : ¬ Log.Cell size i) : m.cell? i = b.memory.cell? i := by
  have hcount := writesOnly_updatedWithin b.memory size Layout.counter b.ram.counter
  have hmarker := writesOnly_updatedWithin s.flushed size Layout.warmFlag
    (Log.nextWarmFlag (s.flushed.byteAt Layout.warmFlag) b.resetLine.clock)
  rw [s.store, cell?_settled, hmarker.cell?_eq fun h => hwarm h.2, s.writes.cell?_eq hlog,
    hcount.cell?_eq fun h => hcounter h.2]

end Saved

/-- The handler returns after all its steps, whatever becomes of each of them. -/
theorem handleTerminalReset_any (hcells : size ≤ cellCount) (b : Bench) :
    ∃ report m flushed left, ((board size).handleTerminalReset).Returns b report (b.resetTo m) ∧
      Nonempty (Saved size b m) ∧
      (Log.flush (eeprom size) Exchange.entry b.ram.captured b.ram.selected).Returns
        (b.memory.updatedWithin size Layout.counter b.ram.counter) flushed left ∧
      report = flushed.outcome.toOption ∧
      ((∃ e, flushed.outcome = .error e) ↔ Log.Overruns size b.memory.persistedCursor
        (b.ram.captured.items.map Exchange.entry) b.ram.selected) := by
  let counted := b.memory.updatedWithin size Layout.counter b.ram.counter
  obtain ⟨report, _, hsave, flushed, m, left, hflush, hreport, hfails, rfl, hwrote⟩ :=
    saveCaptured_any hcells { b.disarmed with memory := counted }
  have hpersisted : counted.persistedCursor = b.memory.persistedCursor := by
    have hcount := writesOnly_updatedWithin b.memory size Layout.counter b.ram.counter
    exact persistedCursor_congr (hcount.cell?_eq fun h => absurd h.2 (by decide))
      (hcount.cell?_eq fun h => absurd h.2 (by decide))
  rw [hpersisted] at hfails
  refine ⟨report, _, flushed, left, ?_, ⟨m, hwrote, rfl⟩, hflush, hreport, hfails⟩
  refine Returns.bind (Returns.mounted (p := watchdogPart) (disable_returns _)) ?_
  refine Returns.bind (saveCounter_any hcells b.disarmed) ?_
  refine Returns.bind hsave ?_
  refine Returns.bind (Returns.mounted (p := resetLinePart) (clockRunning_returns _)) ?_
  refine Returns.bind (saveWarmFlag_any hcells _ _) ?_
  refine Returns.bind (Returns.mounted (p := resetLinePart) (ignoreEdge_returns _)) ?_
  refine Returns.bind (Returns.mounted (p := memoryPart) sync_returns) ?_
  refine Returns.bind (Returns.mounted (p := watchdogPart) (arm_returns _ _)) ?_
  exact Returns.pure _ _

/-- **A terminal reset always ends.**  Whatever the store holds and however small it is, the handler
returns after all its steps, also if the flush or any other of them failed. -/
theorem handler_always_ends (hcells : size ≤ cellCount) (b : Bench) :
    ∃ report b', ((board size).handleTerminalReset).Returns b report b' ∧
      b' = b.resetTo b'.memory ∧ WentThrough size b report b' := by
  obtain ⟨report, m, flushed, left, hrun, ⟨saved⟩, hflush, hreport, hfails⟩ :=
    handleTerminalReset_any hcells b
  have hnone : report = none ↔ ∃ e, flushed.outcome = .error e := by
    rw [hreport]
    cases flushed.outcome <;> simp [Except.toOption]
  refine ⟨report, b.resetTo m, hrun, rfl, ?_⟩
  exact {
    captured := rfl
    interrupt := rfl
    idle := saved.busyPolls_eq
    armed := rfl
    disabled := rfl
    served := rfl
    writes := saved.writesOnly
    counter := fun hpower hsize => saved.cell?_counter hpower hcells hsize
    warmFlag := fun hpower hsize => saved.cell?_warmFlag hpower hcells hsize
    flush := ⟨flushed, left, hflush, hreport, hnone⟩
    overruns := hnone.trans hfails }

/-- A bench with one captured exchange and seven sessions counted. -/
def loaded : Bench where
  ram :=
    { captured := ⟨[⟨⟨⟨0x00, 0xB2, 0x01, 0x0C, 0x00⟩, [], Nat.zero_le _⟩,
        ⟨0x90, 0x00, [], Nat.zero_le _⟩⟩],
        by decide⟩
      selected := 3
      counter := 7 }

/-- The store ends in the middle of the exchange: the flush fails behind its command, and the
counter and the warm-reset marker are saved all the same. -/
theorem handler_always_ends_short_store :
    ∃ b', ((board 0x90).handleTerminalReset).Returns loaded none b' ∧
      WentThrough 0x90 loaded none b' ∧ b'.memory.cell? Layout.counter = some 7 ∧
      b'.memory.cell? Layout.warmFlag = some 0xAA := by
  obtain ⟨report, b', hrun, -, heffect⟩ :=
    handler_always_ends (show 0x90 ≤ cellCount by decide) loaded
  have hblank : loaded.memory.Blank := blank_default
  have hoverruns : Log.Overruns 0x90 loaded.memory.persistedCursor
      (loaded.ram.captured.items.map Exchange.entry) loaded.ram.selected := by
    rw [hblank.persistedCursor_eq]
    exact .inr ⟨by decide, by decide⟩
  obtain rfl := heffect.overruns.2 hoverruns
  have hwarm := heffect.warmFlag rfl (by decide)
  rw [byteAt, hblank _ (by decide)] at hwarm
  exact ⟨b', hrun, heffect, heffect.counter rfl (by decide), hwarm⟩

end Handler

end CardTap.Bench
