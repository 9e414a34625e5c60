import CardTap.Proofs.Log.Flush

/-!
# The cursor under power loss

A flush that loses power performs a first part of its planned writes.  The log is written before the
cursor, and the cursor is two cells: a power loss between them leaves a cursor that was never meant.
That torn cursor is the one thing a power loss can invent.  `cursor_atomic_iff` says exactly when:
both of its bytes change and all writes but the last one reach the cells.
-/

namespace CardTap.Log

open CardTap.Run CardTap.Bench CardTap.Bench.Memory

/-! ## The cursor after a power loss -/

section Cursor

variable {m : Memory} {cursor : Nat}

/-- The high byte of the new cursor with the low byte of the old one. -/
def tornCursor (old new : Nat) : Nat := new / 256 * 256 + old % 256

/-- Both bytes of the cursor change. -/
def ChangesBoth (old new : Nat) : Prop := old / 256 ≠ new / 256 ∧ old % 256 ≠ new % 256

instance (old new : Nat) : Decidable (ChangesBoth old new) :=
  inferInstanceAs (Decidable (_ ∧ _))

/-- The cursor found after a flush that puts `logged` bytes into the log before it moves the cursor,
given the writes that reach the cells. -/
def cursorReached (old new logged : Nat) : Option Nat → Nat
  | none => new
  | some n =>
    if n ≤ logged then old
    else if n = logged + 1 ∧ ChangesBoth old new then tornCursor old new
    else new

theorem cursorReached_none (old new logged : Nat) : cursorReached old new logged none = new := rfl

theorem cursorReached_some (old new logged n : Nat) :
    cursorReached old new logged (some n) =
      if n ≤ logged then old
      else if n = logged + 1 ∧ ChangesBoth old new then tornCursor old new
      else new :=
  rfl

theorem tornCursor_ne {old new : Nat} (h : ChangesBoth old new) :
    tornCursor old new ≠ old ∧ tornCursor old new ≠ new := by
  obtain ⟨hhigh, hlow⟩ := h
  unfold tornCursor
  omega

theorem cursorReached_eq_or_iff {old new logged n : Nat} :
    (cursorReached old new logged (some n) = old ∨ cursorReached old new logged (some n) = new) ↔
      ¬ (ChangesBoth old new ∧ n = logged + 1) := by
  rw [cursorReached_some]
  by_cases hn : n ≤ logged
  · simp only [hn, ↓reduceIte, true_or, true_iff]
    omega
  · by_cases hone : n = logged + 1 ∧ ChangesBoth old new
    · rw [if_neg hn, if_pos hone]
      simp only [hone.1, hone.2, and_self, not_true_eq_false, iff_false, not_or]
      exact tornCursor_ne hone.2
    · simp only [hn, hone, ↓reduceIte, or_true, true_iff]
      exact fun h => hone ⟨h.2, h.1⟩

theorem cursorReached_eq_torn {old new logged n : Nat} (h : ChangesBoth old new)
    (hn : n = logged + 1) : cursorReached old new logged (some n) = tornCursor old new := by
  rw [cursorReached_some, if_neg (by omega), if_pos ⟨hn, h⟩]

theorem persistedCursor_div (m : Memory) :
    m.persistedCursor / 256 = (m.byteAt Layout.cursorHigh).toNat := by
  have hlow := (m.byteAt Layout.cursorLow).toNat_lt
  rw [persistedCursor, Settings.cursorOf]
  omega

theorem persistedCursor_mod (m : Memory) :
    m.persistedCursor % 256 = (m.byteAt Layout.cursorLow).toNat := by
  have hlow := (m.byteAt Layout.cursorLow).toNat_lt
  rw [persistedCursor, Settings.cursorOf]
  omega

theorem high_holds_iff (hcursor : cursor < 0x10000) :
    m.cell? Layout.cursorHigh = some (UInt8.ofNat (cursor / 256)) ↔
      m.persistedCursor / 256 = cursor / 256 := by
  rw [m.cell?_eq_byteAt (by decide), persistedCursor_div, Option.some_inj, ← UInt8.toNat_inj,
    UInt8.toNat_ofNat', Nat.mod_eq_of_lt (by omega)]

theorem low_holds_iff :
    m.cell? Layout.cursorLow = some (UInt8.ofNat cursor) ↔
      m.persistedCursor % 256 = cursor % 256 := by
  rw [m.cell?_eq_byteAt (by decide), persistedCursor_mod, Option.some_inj, ← UInt8.toNat_inj,
    UInt8.toNat_ofNat']

/-- A byte of the cursor is written exactly when it changes. -/
theorem cursorWrites_of_lt (hcursor : cursor < 0x10000) :
    cursorWrites m cursor =
      (if m.persistedCursor / 256 = cursor / 256 then []
        else [(Layout.cursorHigh, UInt8.ofNat (cursor / 256))]) ++
      (if m.persistedCursor % 256 = cursor % 256 then []
        else [(Layout.cursorLow, UInt8.ofNat cursor)]) := by
  simp only [cursorWrites_eq, high_holds_iff hcursor, low_holds_iff]

theorem length_cursorWrites (hcursor : cursor < 0x10000)
    (h : ChangesBoth m.persistedCursor cursor) : (cursorWrites m cursor).length = 2 := by
  rw [cursorWrites_of_lt hcursor, if_neg h.1, if_neg h.2]
  rfl

theorem cell?_high_cursorWrites (hpower : m.budget ≠ some 0) :
    (m.programmedAll (cursorWrites m cursor)).cell? Layout.cursorHigh =
      some (UInt8.ofNat (cursor / 256)) := by
  have hcell : Layout.cursorHigh < cellCount := by decide
  have hne : Layout.cursorLow ≠ Layout.cursorHigh := by decide
  rw [cursorWrites_eq, programmedAll_append, cell?_programmedAll_of_ne]
  · split
    · next h => exact h
    · exact (cell?_programmed m _ _ _).trans (if_pos ⟨rfl, hcell, hpower⟩)
  · intro w hw
    split at hw
    · exact absurd hw List.not_mem_nil
    · rw [List.mem_singleton.1 hw]
      exact hne

/-- The low byte is set as well, unless its write is the second one and only one is left. -/
theorem cell?_low_cursorWrites (hcursor : cursor < 0x10000) (hpower : m.budget ≠ some 0) :
    (m.programmedAll (cursorWrites m cursor)).cell? Layout.cursorLow =
      if m.budget = some 1 ∧ ChangesBoth m.persistedCursor cursor then m.cell? Layout.cursorLow
      else some (UInt8.ofNat cursor) := by
  have hcell : Layout.cursorLow < cellCount := by decide
  have hne : Layout.cursorLow ≠ Layout.cursorHigh := by decide
  rw [cursorWrites_of_lt hcursor]
  by_cases hlow : m.persistedCursor % 256 = cursor % 256
  · have hboth : ¬ (m.budget = some 1 ∧ ChangesBoth m.persistedCursor cursor) :=
      fun h => h.2.2 hlow
    rw [if_neg hboth, if_pos hlow, List.append_nil, cell?_programmedAll_of_ne]
    · exact low_holds_iff.2 hlow
    · intro w hw
      split at hw
      · exact absurd hw List.not_mem_nil
      · rw [List.mem_singleton.1 hw]
        exact hne.symm
  · rw [if_neg hlow]
    by_cases hhigh : m.persistedCursor / 256 = cursor / 256
    · have hboth : ¬ (m.budget = some 1 ∧ ChangesBoth m.persistedCursor cursor) :=
        fun h => h.2.1 hhigh
      rw [if_neg hboth, if_pos hhigh]
      exact (cell?_programmed m _ _ _).trans (if_pos ⟨rfl, hcell, hpower⟩)
    · -- both bytes are written, so the second write needs a second unit of power
      have hfirst (b : UInt8) :
          (m.programmed Layout.cursorHigh b).cell? Layout.cursorLow = m.cell? Layout.cursorLow :=
        (cell?_programmed m _ _ _).trans (if_neg fun h => hne h.1)
      have hsecond : m.budget.map (· - 1) ≠ some 0 ↔ m.budget ≠ some 1 := by
        cases hm : m.budget with
        | none => simp
        | some n =>
          rw [hm] at hpower
          have hn : n ≠ 0 := fun h => hpower (by rw [h])
          simp only [Option.map_some, ne_eq, Option.some.injEq]
          omega
      rw [if_neg hhigh]
      refine (cell?_programmed (m.programmed Layout.cursorHigh _) _ _ _).trans ?_
      rw [hfirst, budget_programmed]
      by_cases hone : m.budget = some 1
      · rw [if_neg (fun h => hsecond.1 h.2.2 hone), if_pos ⟨hone, hhigh, hlow⟩]
      · rw [if_pos ⟨rfl, hcell, hsecond.2 hone⟩, if_neg (fun h => hone h.1)]

/-- How far the power reaches decides the cursor: none of its writes, the first of two, or all. -/
theorem persistedCursor_cursorWrites (hcursor : cursor < 0x10000) :
    (m.programmedAll (cursorWrites m cursor)).persistedCursor =
      if m.budget = some 0 then m.persistedCursor
      else if m.budget = some 1 ∧ ChangesBoth m.persistedCursor cursor then
        tornCursor m.persistedCursor cursor
      else cursor := by
  by_cases hpower : m.budget = some 0
  · rw [if_pos hpower]
    exact persistedCursor_congr (cell?_programmedAll_of_lost m hpower)
      (cell?_programmedAll_of_lost m hpower)
  · rw [if_neg hpower, persistedCursor, byteAt, byteAt, cell?_high_cursorWrites hpower,
      cell?_low_cursorWrites hcursor hpower, Option.getD_some]
    split
    · rw [m.cell?_eq_byteAt (by decide), Option.getD_some, tornCursor, persistedCursor_mod,
        Settings.cursorOf, UInt8.toNat_ofNat', Nat.mod_eq_of_lt (by omega)]
    · exact cursorOf_ofNat hcursor

theorem plannedCursor_lt (m : Memory) (entries : List Entry) (app : UInt8) :
    plannedCursor m.persistedCursor entries app < 0x10000 := by
  unfold plannedCursor
  split
  · exact Nat.lt_of_le_of_lt (pageBehind_le _) (by decide)
  · exact m.persistedCursor_lt

theorem cell?_placed_of_lt {start : Nat} (bytes : List UInt8) (hstart : Layout.logStart ≤ start)
    {i : Nat} (hi : i < Layout.logStart) :
    (m.programmedAll (placed start bytes)).cell? i = m.cell? i := by
  refine cell?_programmedAll_of_ne _ fun w hw => ?_
  have := (mem_placed hw).1
  omega

/-- The cursor after the planned writes, `n` of which reach the cells. -/
theorem persistedCursor_flushWrites (entries : List Entry) (app : UInt8) :
    let old := m.persistedCursor
    let new := plannedCursor old entries app
    let logged := (plannedBytes (startOf old) entries app).length
    (m.programmedAll (flushWrites m entries app)).persistedCursor =
      cursorReached old new logged m.budget := by
  intro old new logged
  let filled := m.programmedAll (placed (startOf old) (plannedBytes (startOf old) entries app))
  have hhigh : filled.cell? Layout.cursorHigh = m.cell? Layout.cursorHigh :=
    cell?_placed_of_lt _ (startOf_ge _) (by decide)
  have hlow : filled.cell? Layout.cursorLow = m.cell? Layout.cursorLow :=
    cell?_placed_of_lt _ (startOf_ge _) (by decide)
  have hold : filled.persistedCursor = old := persistedCursor_congr hhigh hlow
  have hbudget : filled.budget = m.budget.map (· - logged) := by
    rw [budget_programmedAll, length_placed]
  rw [flushWrites, programmedAll_append, ← cursorWrites_congr _ hhigh hlow,
    persistedCursor_cursorWrites (m := filled) (plannedCursor_lt m entries app), hold, hbudget]
  cases m.budget with
  | none => simp [cursorReached, new, old]
  | some n =>
    simp only [cursorReached, Option.map_some, Option.some.injEq]
    by_cases hn : n ≤ logged
    · rw [if_pos hn, if_pos (by omega)]
    · rw [if_neg hn, if_neg (by omega)]
      by_cases hone : n = logged + 1 ∧ ChangesBoth old new
      · rw [if_pos hone, if_pos ⟨by omega, hone.2⟩]
      · rw [if_neg hone, if_neg (fun h => hone ⟨by omega, h.2⟩)]

end Cursor

/-! ## Flushes that may lose power -/

section Attempts

variable {α : Type}

/-- One flush of a history: what is flushed, and after how many writes the power is lost, if it is
lost at all. -/
structure Attempt (α : Type) where
  buffer : Buffer α
  app : UInt8
  cut : Option Nat := none

/-- The power supply of an attempt. -/
def Attempt.supplied (a : Attempt α) (m : Memory) : Memory :=
  match a.cut with
  | some n => m.losePowerAfter n
  | none => m.regainPower

/-- A flush under the power supply of the attempt; afterwards the power is back. -/
def Attempt.run (entry : α → Entry) (a : Attempt α) :
    Run Memory (Except StoreError FlushSummary) := do
  Run.change a.supplied
  let flushed ← flush (eeprom cellCount) entry a.buffer a.app
  Run.change Memory.regainPower
  pure flushed.outcome

@[simp] theorem Attempt.cell?_supplied (a : Attempt α) (m : Memory) (i : Nat) :
    (a.supplied m).cell? i = m.cell? i := by
  unfold supplied
  split <;> rfl

@[simp] theorem Attempt.persistedCursor_supplied (a : Attempt α) (m : Memory) :
    (a.supplied m).persistedCursor = m.persistedCursor :=
  persistedCursor_congr (a.cell?_supplied m _) (a.cell?_supplied m _)

@[simp] theorem Attempt.budget_supplied (a : Attempt α) (m : Memory) :
    (a.supplied m).budget = a.cut := by
  unfold supplied
  split <;> simp_all [losePowerAfter, regainPower]

@[simp] theorem Attempt.writes_supplied (a : Attempt α) (m : Memory) :
    (a.supplied m).writes = m.writes := by
  unfold supplied
  split <;> rfl

@[simp] theorem Attempt.flushWrites_supplied (a : Attempt α) (m : Memory) (entries : List Entry)
    (app : UInt8) : flushWrites (a.supplied m) entries app = flushWrites m entries app := by
  rw [flushWrites, flushWrites, a.persistedCursor_supplied,
    cursorWrites_congr _ (a.cell?_supplied m _) (a.cell?_supplied m _)]

/-- What an attempt leaves in the cells: the planned writes, as far as the power reached. -/
def Attempt.Leaves (entry : α → Entry) (a : Attempt α) (m m' : Memory) : Prop :=
  ∀ i, m'.cell? i =
    ((a.supplied m).programmedAll (flushWrites m (a.buffer.items.map entry) a.app)).cell? i

/-- Whatever happens to the power, the flush returns the planned report, and what reached the cells
are the first of the planned writes. -/
theorem Attempt.run_returns (entry : α → Entry) (a : Attempt α) (m : Memory) :
    ∃ m', (a.run entry).Returns m
        (.ok (planned m.persistedCursor (a.buffer.items.map entry) a.app)) m' ∧
      m'.budget = none ∧
      m'.writes = m.writes + (flushWrites m (a.buffer.items.map entry) a.app).length ∧
      a.Leaves entry m m' := by
  have hsize : Layout.logEnd ≤ cellCount := by decide
  obtain ⟨m₁, hflush, hm₁⟩ := flush_returns hsize (Nat.le_refl _) entry a.buffer a.app
    (a.supplied m)
  rw [a.persistedCursor_supplied] at hflush
  rw [a.flushWrites_supplied] at hm₁
  refine ⟨m₁.regainPower, Returns.bind (Returns.change _ m) (Returns.bind hflush
    (Returns.bind (Returns.change _ m₁) (Returns.pure _ _))), rfl, ?_, fun i => ?_⟩
  · show m₁.writes = _
    simpa using congrArg Memory.writes hm₁
  · exact cell?_of_settled hm₁ i

theorem Attempt.Leaves.persistedCursor {entry : α → Entry} {a : Attempt α} {m m' : Memory}
    (h : a.Leaves entry m m') :
    m'.persistedCursor = cursorReached m.persistedCursor
      (plannedCursor m.persistedCursor (a.buffer.items.map entry) a.app)
      (plannedBytes (startOf m.persistedCursor) (a.buffer.items.map entry) a.app).length a.cut := by
  have hvalue := persistedCursor_flushWrites (m := a.supplied m) (a.buffer.items.map entry) a.app
  simp only [a.flushWrites_supplied, a.persistedCursor_supplied, a.budget_supplied] at hvalue
  rw [← hvalue]
  exact persistedCursor_congr (h _) (h _)

/-- The log from the start of an attempt on: what of its bytes reached the store, and behind it what
stood there before. -/
theorem Attempt.Leaves.slice {entry : α → Entry} {a : Attempt α} {m m' : Memory}
    (h : a.Leaves entry m m') :
    let start := startOf m.persistedCursor
    let reached := landing a.cut (plannedBytes start (a.buffer.items.map entry) a.app)
    m'.slice start Layout.logEnd = reached ++ m.slice (start + reached.length) Layout.logEnd := by
  intro start reached
  have hlog := slice_flushWrites (m := a.supplied m) (a.buffer.items.map entry) a.app
  simp only [a.flushWrites_supplied, a.persistedCursor_supplied, a.budget_supplied] at hlog
  rw [slice_congr _ fun i _ _ => h i, hlog, slice_congr _ fun i _ _ => a.cell?_supplied m i]

/-- The cursor found in the store after an attempt. -/
def Attempt.cursorBehind (entry : α → Entry) (a : Attempt α) :
    Run Memory (Except StoreError Nat) := do
  let _ ← a.run entry
  (Settings.cursor (eeprom cellCount)).run

theorem cursorBehind_returns (entry : α → Entry) (buffer : Buffer α) (app : UInt8)
    (cut : Option Nat) (m : Memory) :
    let entries := buffer.items.map entry
    let logged := (plannedBytes (startOf m.persistedCursor) entries app).length
    let new := plannedCursor m.persistedCursor entries app
    ∃ m', (Attempt.cursorBehind entry ⟨buffer, app, cut⟩).Returns m
        (.ok (cursorReached m.persistedCursor new logged cut)) m' ∧
      m'.writes = m.writes + (logged + (cursorWrites m new).length) := by
  intro entries logged new
  obtain ⟨m', hrun, -, hwrites, hleaves⟩ := (Attempt.mk buffer app cut).run_returns entry m
  have hsize : Layout.cursorLow < cellCount := by decide
  have hcursor := cursor_returns (m := m') hsize (Nat.le_refl _)
  rw [hleaves.persistedCursor] at hcursor
  refine ⟨m'.settled, Returns.bind hrun hcursor, ?_⟩
  rw [writes_settled, hwrites, flushWrites, List.length_append, length_placed]

/-- **The cursor is updated atomically, but for one write.** After a power loss the store holds the
old cursor or the one that the flush would have left, unless both bytes of the cursor change and the
power is lost right between their writes, the last two of the flush.  Then the high byte is the new
one and the low byte the old one. -/
theorem cursor_atomic_iff (entry : α → Entry) (buffer : Buffer α) (app : UInt8) (n : Nat)
    (m : Memory) :
    ∃ (old new found : Nat) (before uncut cut : Memory),
      (Settings.cursor (eeprom cellCount)).run.Returns m (.ok old) before ∧
      (Attempt.cursorBehind entry ⟨buffer, app, none⟩).Returns m (.ok new) uncut ∧
      (Attempt.cursorBehind entry ⟨buffer, app, some n⟩).Returns m (.ok found) cut ∧
      ((found = old ∨ found = new) ↔
        ¬ (ChangesBoth old new ∧ uncut.writes = m.writes + n + 1)) ∧
      (¬ (found = old ∨ found = new) → found = tornCursor old new) := by
  obtain ⟨uncut, huncut, hwrites⟩ := cursorBehind_returns entry buffer app none m
  obtain ⟨cut, hcut, -⟩ := cursorBehind_returns entry buffer app (some n) m
  have hsize : Layout.cursorLow < cellCount := by decide
  have hbefore := cursor_returns (m := m) hsize (Nat.le_refl _)
  rw [cursorReached_none] at huncut
  refine ⟨_, _, _, m.settled, uncut, cut, hbefore, huncut, hcut, ?_, ?_⟩
  · -- the last two writes are those of the cursor, so the lost one is that of its low byte
    rw [cursorReached_eq_or_iff]
    refine not_congr (and_congr_right fun hboth => ?_)
    have htwo := length_cursorWrites (plannedCursor_lt m (buffer.items.map entry) app) hboth
    rw [hwrites, htwo]
    omega
  · intro hthird
    rw [cursorReached_eq_or_iff, Classical.not_not] at hthird
    exact cursorReached_eq_torn hthird.1 hthird.2

/-- The first flush of a blank store: cut off behind the high byte, it leaves a cursor that neither
stood there before nor was to be left. -/
theorem cursor_torn_on_blank_store :
    ∃ before uncut cut : Memory,
      (Settings.cursor (eeprom cellCount)).run.Returns {} (.ok 0xFFFF) before ∧
      (Attempt.cursorBehind Exchange.entry ⟨.empty, 1, none⟩).Returns {} (.ok 0x0088) uncut ∧
      (Attempt.cursorBehind Exchange.entry ⟨.empty, 1, some 6⟩).Returns {} (.ok 0x00FF) cut ∧
      ¬ (0x00FF = 0xFFFF ∨ 0x00FF = 0x0088) := by
  have hblank : ({} : Memory).persistedCursor = 0xFFFF := blank_default.persistedCursor_eq
  have hsize : Layout.cursorLow < cellCount := by decide
  have hbefore := cursor_returns (m := {}) hsize (Nat.le_refl _)
  obtain ⟨uncut, huncut, -⟩ := cursorBehind_returns Exchange.entry .empty 1 none {}
  obtain ⟨cut, hcut, -⟩ := cursorBehind_returns Exchange.entry .empty 1 (some 6) {}
  rw [hblank] at hbefore huncut hcut
  exact ⟨_, uncut, cut, hbefore, huncut, hcut, by decide⟩

end Attempts

end CardTap.Log
