import CardTap.Proofs.Boot
import CardTap.Proofs.Log.Effect
import CardTap.Proofs.Log.RoundTrip

/-!
# Behind the cursor the store stays erased

A flush writes from the cursor on and never erases, so it relies on finding erased cells there, up
to the end of the store.  This is an invariant of the store alone (`Sound`): whatever the firmware
does, in any order and any number, it is never lost, also not in a region that is full or by a boot
that stops in its menu.  Only a power loss can break it.
-/

namespace CardTap.Log

open CardTap.Run CardTap.Bench CardTap.Bench.Memory

/-! ## The invariant -/

section Invariant

variable {m m' : Memory}

/-- The power is on, the cursor is unset or on a page of the log region, and every cell from the
next start on is erased. -/
structure Sound (m : Memory) : Prop where
  power : m.budget = none
  cursor : m.persistedCursor = Layout.unsetCursor ∨
    Layout.pageSize ∣ m.persistedCursor ∧ Layout.logStart ≤ m.persistedCursor ∧
      m.persistedCursor ≤ Layout.logEnd
  erased : ∀ i, startOf m.persistedCursor ≤ i → i < cellCount → m.cell? i = some 0xFF

theorem Sound.startOf_le (h : Sound m) : startOf m.persistedCursor ≤ Layout.logEnd := by
  rcases h.cursor with hunset | ⟨-, hlow, hend⟩
  · rw [hunset, startOf_unset]
    decide
  · rw [startOf_of_le hlow (Nat.ne_of_lt (Nat.lt_of_le_of_lt hend (by decide)))]
    exact hend

theorem Sound.appendable (h : Sound m) : Appendable m where
  power := h.power
  inside := h.startOf_le
  erased := slice_eq_replicate m fun i hi hend => h.erased i hi (Nat.lt_trans hend (by decide))

theorem Sound.congr (h : Sound m) (hsame : SameLog m m') (hpower : m'.budget = none) :
    Sound m' where
  power := hpower
  cursor := by rw [hsame.cursor]; exact h.cursor
  erased i hi hcell := by
    rw [hsame.cursor] at hi
    rw [hsame.cells i (Nat.le_trans (startOf_ge _) hi)]
    exact h.erased i hi hcell

theorem sound_of_blank (hpower : m.budget = none) (hblank : m.Blank) : Sound m where
  power := hpower
  cursor := .inl hblank.persistedCursor_eq
  erased i _ hcell := hblank i hcell

theorem Sound.settled (h : Sound m) : Sound m.settled :=
  h.congr (SameLog.settled ⟨rfl, fun _ _ => rfl⟩) h.power

theorem Sound.updated (h : Sound m) {addr : Nat} (haddr : addr < Layout.logStart)
    (hhigh : addr ≠ Layout.cursorHigh) (hlow : addr ≠ Layout.cursorLow) (b : UInt8) :
    Sound (m.updated addr b) :=
  h.congr (SameLog.updated ⟨rfl, fun _ _ => rfl⟩ haddr hhigh hlow b)
    (budget_updated_of_none h.power _ _)

/-- A factory reset makes every store sound that has its power. -/
theorem sound_defaults (hpower : m.budget = none) : Sound (m.defaults cellCount) where
  power := budget_defaults hpower
  cursor := by
    rw [persistedCursor_defaults hpower]
    exact .inr (by decide)
  erased i hi hcell := by
    rw [persistedCursor_defaults hpower] at hi
    exact cell?_defaults hpower (Nat.le_refl _) (Nat.le_trans (startOf_ge _) hi) hcell

/-- A flush puts the cursor behind what it writes, on a page, and leaves the cells behind it. -/
theorem Sound.flushed (h : Sound m) (entries : List Entry) (app : UInt8) :
    Sound (flushed m entries app) := by
  by_cases hroom : fits (startOf m.persistedCursor) 0
  · have hwrote := wrote_of_settled h.power entries app hroom rfl
    have hlow : Layout.logStart ≤ plannedCursor m.persistedCursor entries app :=
      Nat.le_trans (startOf_ge _) (Nat.le_of_lt hwrote.above)
    have hset : plannedCursor m.persistedCursor entries app ≠ Layout.unsetCursor :=
      Nat.ne_of_lt (Nat.lt_of_le_of_lt hwrote.inside (by decide))
    refine ⟨(h.appendable.flushed entries app).power, ?_, fun i hi hcell => ?_⟩
    · rw [Log.flushed, hwrote.persisted]
      exact .inr ⟨hwrote.aligned, hlow, hwrote.inside⟩
    · rw [Log.flushed, hwrote.persisted, startOf_of_le hlow hset] at hi
      have hbehind := Nat.le_trans hwrote.behind hi
      have hlog := Nat.le_trans hlow hi
      unfold Layout.logStart at hlog
      rw [Log.flushed, hwrote.cells i (by unfold Layout.cursorHigh; omega)
        (by unfold Layout.cursorLow; omega), if_neg (by omega)]
      exact h.erased i (by omega) hcell
  · have hnone : flushWrites m entries app = [] := by
      rw [flushWrites, plannedBytes_eq_nil entries app hroom,
        plannedCursor_of_full entries app hroom,
        cursorWrites_persisted]
      rfl
    rw [Log.flushed, hnone]
    exact h

/-- What a boot does to the store keeps it sound. -/
theorem lasting_sound : Lasting Sound where
  settled h := h.settled
  selected id h := h.updated (by decide) (by decide) (by decide) id
  reset h := sound_defaults h.power

end Invariant

/-! ## Whatever the firmware does -/

section Actions

/-- What the firmware does with its store. -/
inductive Action where
  | terminalReset
  | factoryReset
  | setApplication (id : UInt8)
  | setCounter (value : UInt8)
  | setWarmFlag (value : UInt8)
  | boot (ed : Edition)

/-- The run of the board that performs an action. -/
def Action.run : Action → Run Bench Unit
  | .terminalReset => do
    let _ ← (board cellCount).handleTerminalReset
  | .factoryReset => do
    let _ ← ((board cellCount).eeprom.attempt Settings.factoryReset).run
  | .setApplication id => do
    let _ ← ((board cellCount).eeprom.attempt (Settings.setApplication · id)).run
  | .setCounter value => do
    let _ ← ((board cellCount).eeprom.attempt (Settings.setCounter · value)).run
  | .setWarmFlag value => do
    let _ ← ((board cellCount).eeprom.attempt (Settings.setWarmFlag · value)).run
  | .boot ed => do
    let _ ← ((board cellCount).boot ed).run

/-- The stores that are reached from an erased one by actions.  Each action starts on a board of its
own, with any exchanges captured, any clock, panel and shared state, and it may end early. -/
inductive Reached : Memory → Prop where
  | erased {m : Memory} (power : m.budget = none) (cells : m.Blank) : Reached m
  | next {b : Bench} (a : Action) (before : Reached b.memory) :
    Reached (a.run.machineAfter b).memory

variable {m : Memory}

/-- A terminal reset flushes the sound store that it finds. -/
theorem terminalReset_keeps :
    ((board cellCount).handleTerminalReset).Keeps fun b => Sound b.memory :=
  Keeps.of_returns fun b hb => by
    obtain ⟨m', hrun, -, hsame, -, happ'⟩ := reset_returns hb.appendable
    have hcounted : Sound b.counted := hb.updated (by decide) (by decide) (by decide) _
    exact ⟨_, _, hrun, (hcounted.flushed _ _).congr hsame happ'.power⟩

/-- Every action keeps the store sound. -/
theorem Action.keeps (a : Action) : a.run.Keeps fun b => Sound b.memory := by
  cases a with
  | terminalReset => exact Keeps.bind terminalReset_keeps fun _ => Keeps.pure _
  | factoryReset =>
    refine Keeps.bind (attempt_keeps fun m hm => ?_) fun _ => Keeps.pure _
    exact ⟨_, _, factoryReset_returns (by decide) (Nat.le_refl _), sound_defaults hm.power⟩
  | setApplication id =>
    refine Keeps.bind (attempt_keeps fun m hm => ?_) fun _ => Keeps.pure _
    exact ⟨_, _, setApplication_returns (by decide) (Nat.le_refl _) id,
      hm.updated (by decide) (by decide) (by decide) id⟩
  | setCounter value =>
    refine Keeps.bind (attempt_keeps fun m hm => ?_) fun _ => Keeps.pure _
    exact ⟨_, _, setCounter_returns (by decide) (Nat.le_refl _) value,
      hm.updated (by decide) (by decide) (by decide) value⟩
  | setWarmFlag value =>
    refine Keeps.bind (attempt_keeps fun m hm => ?_) fun _ => Keeps.pure _
    exact ⟨_, _, setWarmFlag_returns (by decide) (Nat.le_refl _) value,
      hm.updated (by decide) (by decide) (by decide) value⟩
  | boot ed => exact Keeps.bind (boot_keeps lasting_sound ed) fun _ => Keeps.pure _

theorem Reached.sound (h : Reached m) : Sound m := by
  induction h with
  | erased power cells => exact sound_of_blank power cells
  | next a _ ih => exact a.keeps.machineAfter ih

/-- **Behind the cursor the store stays erased.** In every store reached, the cursor is unset or on
a page of the log region and the cells from the next start up to the end of the store are erased; so
a terminal reset on any board with such a store starts its flush on erased cells. -/
theorem erased_behind_cursor (h : Reached m) :
    (m.persistedCursor = Layout.unsetCursor ∨
      Layout.pageSize ∣ m.persistedCursor ∧ Layout.logStart ≤ m.persistedCursor ∧
        m.persistedCursor ≤ Layout.logEnd) ∧
    (∀ i, startOf m.persistedCursor ≤ i → i < cellCount → m.cell? i = some 0xFF) ∧
    ∀ b : Bench, b.memory = m →
      ∃ r b', ((board cellCount).handleTerminalReset).Returns b (some r) b' ∧
        r.start = startOf m.persistedCursor ∧
        ∀ i, r.start ≤ i → i < cellCount → m.cell? i = some 0xFF := by
  have hsound := h.sound
  refine ⟨hsound.cursor, hsound.erased, ?_⟩
  rintro b rfl
  obtain ⟨m', hrun, -⟩ := reset_returns hsound.appendable
  exact ⟨_, _, hrun, rfl, hsound.erased⟩

/-- The first terminal reset saves a short exchange; behind it everything is still erased. -/
theorem erased_behind_first_session :
    ∃ m, Reached m ∧ m.persistedCursor = 0xA0 ∧
      ∀ i, 0xA0 ≤ i → i < cellCount → m.cell? i = some 0xFF := by
  let b : Bench := { ram.captured := ⟨[shortExchange], by decide⟩ }
  have hblank : Appendable b.memory := (sound_of_blank rfl blank_default).appendable
  obtain ⟨m', hrun, hcounted, hsame, happ, -⟩ := reset_returns hblank
  have hmachine : Action.terminalReset.run.machineAfter b = b.resetTo m' :=
    Returns.machineAfter_eq (Returns.bind hrun (Returns.pure _ _))
  have hreached : Reached m' := by
    have hnext := Reached.next (b := b) .terminalReset (.erased rfl blank_default)
    rw [hmachine] at hnext
    exact hnext
  have hcursor : m'.persistedCursor = 0xA0 := by
    rw [hsame.cursor, persistedCursor_flushed happ, hcounted.cursor,
      blank_default.persistedCursor_eq]
    decide
  obtain ⟨-, herased, -⟩ := erased_behind_cursor hreached
  rw [hcursor] at herased
  exact ⟨m', hreached, hcursor, herased⟩

end Actions

end CardTap.Log
