import CardTap.Proofs.Capture
import CardTap.Proofs.Log.AppendOnly
import CardTap.Proofs.Log.Recovery
import CardTap.Proofs.TerminalReset

/-!
# Whole runs are read back

Captures, selections and terminal resets in any order, from an erased store on.  Two invariants
carry the run.  `Appendable`: everything from the next start on is erased, whatever was written.
`Holds`: the log up to the next start reads as the sessions saved so far, whatever comes to stand
behind it; this one needs the written exchanges to be clean.  Between two sessions stands at least
one erased cell, except at the end of the region, where nothing can follow.
-/

namespace CardTap.Log

open CardTap.Run CardTap.Bench CardTap.Bench.Memory

/-! ## The log between flushes -/

section Invariants

variable {m m' : Memory} {found : List Session}

/-- A store that flushes can append to: the power is on, the next start lies in the log region and
every cell from there on is erased. -/
structure Appendable (m : Memory) : Prop where
  power : m.budget = none
  inside : startOf m.persistedCursor ≤ Layout.logEnd
  erased : m.slice (startOf m.persistedCursor) Layout.logEnd =
    List.replicate (Layout.logEnd - startOf m.persistedCursor) 0xFF

/-- The log up to the next start reads as these sessions, and what stands behind is read after them;
nothing can stand behind the end of the region. -/
def Holds (m : Memory) (found : List Session) : Prop :=
  ∀ behind, (startOf m.persistedCursor = Layout.logEnd → behind = []) →
    sessions (m.slice Layout.logStart (startOf m.persistedCursor) ++ behind) =
      found ++ sessions behind

/-- Stores that agree on the log and on its cursor. -/
structure SameLog (m m' : Memory) : Prop where
  cursor : m'.persistedCursor = m.persistedCursor
  cells : ∀ i, Layout.logStart ≤ i → m'.cell? i = m.cell? i

theorem SameLog.slice (h : SameLog m m') {start stop : Nat} (hstart : Layout.logStart ≤ start) :
    m'.slice start stop = m.slice start stop :=
  slice_congr m fun i hi _ => h.cells i (Nat.le_trans hstart hi)

theorem SameLog.of_cells (hcursor : ∀ i, i = Layout.cursorHigh ∨ i = Layout.cursorLow →
    m'.cell? i = m.cell? i) (hlog : ∀ i, Layout.logStart ≤ i → m'.cell? i = m.cell? i) :
    SameLog m m' :=
  ⟨persistedCursor_congr (hcursor _ (.inl rfl)) (hcursor _ (.inr rfl)), hlog⟩

/-- The settings below the log, but for the cursor, do not matter to it. -/
theorem SameLog.updated (h : SameLog m m') {addr : Nat} (haddr : addr < Layout.logStart)
    (hhigh : addr ≠ Layout.cursorHigh) (hlow : addr ≠ Layout.cursorLow) (b : UInt8) :
    SameLog m (m'.updated addr b) where
  cursor := (persistedCursor_congr (cell?_updated_of_ne b hhigh.symm)
    (cell?_updated_of_ne b hlow.symm)).trans h.cursor
  cells i hi := (cell?_updated_of_ne b (by omega)).trans (h.cells i hi)

theorem SameLog.settled (h : SameLog m m') : SameLog m m'.settled := ⟨h.cursor, h.cells⟩

theorem Appendable.congr (h : Appendable m) (hsame : SameLog m m') (hpower : m'.budget = none) :
    Appendable m' where
  power := hpower
  inside := by rw [hsame.cursor]; exact h.inside
  erased := by rw [hsame.cursor, hsame.slice (startOf_ge _)]; exact h.erased

theorem Holds.congr (h : Holds m found) (hsame : SameLog m m') : Holds m' found := by
  intro behind hbehind
  rw [hsame.cursor] at hbehind ⊢
  rw [hsame.slice (Nat.le_refl _)]
  exact h behind hbehind

theorem sessions_nil : sessions [] = [] := by
  rw [sessions, records, recordsFrom_of_none rfl]
  rfl

theorem sessions_erased (n : Nat) (rest : List UInt8) :
    sessions (List.replicate n 0xFF ++ rest) = sessions rest :=
  sessions_skip_all (fun b hb => by rw [List.eq_of_mem_replicate hb]; decide) rest

theorem head?_erased_append_ne {n : Nat} {rest : List UInt8} (h : n = 0 → rest = []) :
    (List.replicate n 0xFF ++ rest).head? ≠ some Marker.finish.byte := by
  cases n with
  | zero => rw [h rfl]; exact nofun
  | succ n => exact fun hhead => absurd (Option.some.inj hhead) (by decide)

/-- Nothing else is read of the whole region. -/
theorem Holds.sessions_log (h : Holds m found) (happ : Appendable m) :
    sessions (m.slice Layout.logStart Layout.logEnd) = found := by
  have hbehind : startOf m.persistedCursor = Layout.logEnd →
      m.slice (startOf m.persistedCursor) Layout.logEnd = [] := by
    intro hend
    rw [happ.erased, hend, Nat.sub_self, List.replicate_zero]
  rw [← m.slice_append (startOf_ge m.persistedCursor) happ.inside (by decide), h _ hbehind,
    happ.erased, ← List.append_nil (List.replicate _ _), sessions_erased, sessions_nil,
    List.append_nil]

theorem holds_nil (h : startOf m.persistedCursor = Layout.logStart) : Holds m [] := by
  intro behind _
  have hnone : m.slice Layout.logStart Layout.logStart = [] :=
    List.eq_nil_of_length_eq_zero (by rw [length_slice _ (by decide), Nat.sub_self])
  rw [h, hnone]
  rfl

end Invariants

/-! ## One flush -/

section Flush

variable {m : Memory}

/-- The session that a flush that starts here writes, if it writes one. -/
def sessionAt (start : Nat) (app : UInt8) (exchanges : List Exchange) : Option Session :=
  if opens start (exchanges.map Exchange.entry) then
    some (.written app (exchanges.take (takenCount start (exchanges.map Exchange.entry))))
  else none

/-- What a flush writes reads as its session; an end marker alone reads as nothing. -/
theorem sessions_plannedBytes (start : Nat) (app : UInt8) {exchanges : List Exchange}
    (hroom : exchanges.length ≤ Session.capacity)
    (hclean : CleanSession (exchanges.take (takenCount start (exchanges.map Exchange.entry))))
    {rest : List UInt8}
    (hrest : fits start 0 → rest.head? ≠ some Marker.finish.byte) :
    sessions (plannedBytes start (exchanges.map Exchange.entry) app ++ rest) =
      (sessionAt start app exchanges).toList ++ sessions rest := by
  by_cases hopen : opens start (exchanges.map Exchange.entry)
  · have hlen (n : Nat) : (exchanges.take n).length ≤ Session.capacity :=
      Nat.le_trans (List.length_take_le' n exchanges) hroom
    rw [plannedBytes_opens app hopen, ← List.map_take, sessionAt, if_pos hopen,
      sessions_written app hclean (hlen _) (hrest (opens_room hopen))]
    rfl
  · have hnoise : ∀ b ∈ plannedBytes start (exchanges.map Exchange.entry) app,
        b ≠ Marker.application.byte := by
      intro b hb
      rw [plannedBytes, plannedBody, if_neg hopen] at hb
      split at hb
      · rw [eq_byte_of_mem hb]
        decide
      · exact absurd hb List.not_mem_nil
    rw [sessions_skip_all hnoise, sessionAt, if_neg hopen]
    rfl

/-- The store after the planned writes of a flush. -/
def flushed (m : Memory) (entries : List Entry) (app : UInt8) : Memory :=
  m.programmedAll (flushWrites m entries app)

theorem persistedCursor_flushed (h : Appendable m) (entries : List Entry) (app : UInt8) :
    (flushed m entries app).persistedCursor = plannedCursor m.persistedCursor entries app := by
  have hcursor := persistedCursor_flushWrites (m := m) entries app
  rw [h.power] at hcursor
  exact hcursor

/-- The next start is not below the end of what was written, and above it short of the end of the
region. -/
theorem startOf_flushed (h : Appendable m) (entries : List Entry) (app : UInt8) :
    let start := startOf m.persistedCursor
    let len := (plannedBytes start entries app).length
    let next := startOf (flushed m entries app).persistedCursor
    start + len ≤ next ∧ next ≤ Layout.logEnd ∧
      (fits start 0 → next = start + len → next = Layout.logEnd) := by
  intro start len next
  by_cases hroom : fits start 0
  · have hfit := plannedBytes_fit entries app hroom
    have hnext : next = pageBehind (start + len) := by
      show startOf (flushed m entries app).persistedCursor = _
      rw [persistedCursor_flushed h entries app, startOf_plannedCursor entries app hroom,
        plannedCursor, if_pos hroom]
    rw [hnext]
    refine ⟨le_pageBehind hfit, pageBehind_le _, fun _ hsame => ?_⟩
    have hlast : ¬ start + len < Layout.logEnd := by
      intro hlt
      have := lt_pageBehind hlt
      omega
    omega
  · have hnext : next = start := by
      show startOf (flushed m entries app).persistedCursor = _
      rw [persistedCursor_flushed h entries app, plannedCursor_of_full entries app hroom]
    have hlen : len = 0 := congrArg List.length (plannedBytes_eq_nil entries app hroom)
    rw [hnext, hlen]
    exact ⟨Nat.le_refl _, h.inside, fun hfits => absurd hfits hroom⟩

theorem slice_flushed (h : Appendable m) (entries : List Entry) (app : UInt8) :
    let start := startOf m.persistedCursor
    let bytes := plannedBytes start entries app
    (flushed m entries app).slice start Layout.logEnd =
      bytes ++ List.replicate (Layout.logEnd - (start + bytes.length)) 0xFF := by
  intro start bytes
  have hlog := slice_flushWrites (m := m) entries app
  simp only [h.power, landing] at hlog
  rw [flushed, hlog, ← drop_slice, h.erased, List.drop_replicate, Nat.sub_sub]

theorem slice_flushed_below (entries : List Entry) (app : UInt8) {stop : Nat}
    (hstop : stop ≤ startOf m.persistedCursor) :
    (flushed m entries app).slice Layout.logStart stop = m.slice Layout.logStart stop := by
  refine slice_congr m fun i hlog hi => cell?_programmedAll_of_ne m fun w hw => ?_
  unfold Layout.logStart at hlog
  have hmem := mem_flushWrites hw
  unfold Layout.cursorHigh Layout.cursorLow at hmem
  omega

/-- A flush leaves a store that the next one can append to. -/
theorem Appendable.flushed (h : Appendable m) (entries : List Entry) (app : UInt8) :
    Appendable (flushed m entries app) where
  power := by rw [Log.flushed, budget_programmedAll, h.power]; rfl
  inside := (startOf_flushed h entries app).2.1
  erased := by
    obtain ⟨hpast, hend, -⟩ := startOf_flushed h entries app
    have hdrop := drop_slice (Log.flushed m entries app) (startOf m.persistedCursor) Layout.logEnd
      (startOf (Log.flushed m entries app).persistedCursor - startOf m.persistedCursor)
    rw [slice_flushed h entries app, Nat.add_sub_cancel' (by omega), List.drop_append,
      List.drop_eq_nil_of_le (by omega), List.nil_append, List.drop_replicate] at hdrop
    rw [← hdrop]
    exact congrArg (List.replicate · 0xFF) (by omega)

/-- Up to the next start, the log grows by what was written and the erased cells behind it. -/
theorem slice_flushed_next (h : Appendable m) (entries : List Entry) (app : UInt8) :
    let start := startOf m.persistedCursor
    let bytes := plannedBytes start entries app
    let next := startOf (flushed m entries app).persistedCursor
    (flushed m entries app).slice Layout.logStart next = m.slice Layout.logStart start ++
      (bytes ++ List.replicate (next - (start + bytes.length)) 0xFF) := by
  intro start bytes next
  obtain ⟨hpast, hend, -⟩ : start + bytes.length ≤ next ∧ next ≤ Layout.logEnd ∧ _ :=
    startOf_flushed h entries app
  have hlow : Layout.logStart ≤ start := startOf_ge _
  have hlog : (flushed m entries app).slice start Layout.logEnd = bytes ++ _ :=
    slice_flushed h entries app
  rw [← slice_append _ hlow (by omega) (Nat.le_trans hend (by decide)),
    slice_flushed_below entries app (Nat.le_refl _), ← take_slice _ hend, hlog, List.take_append,
    List.take_of_length_le (by omega), List.take_replicate,
    show min (next - start - bytes.length) (Layout.logEnd - (start + bytes.length)) =
      next - (start + bytes.length) by omega]

/-- A flush of clean exchanges adds its session to those that the log holds. -/
theorem Holds.flushed {found : List Session} (h : Holds m found) (happ : Appendable m) (app : UInt8)
    {exchanges : List Exchange} (hroom : exchanges.length ≤ Session.capacity)
    (hclean : CleanSession (exchanges.take
      (takenCount (startOf m.persistedCursor) (exchanges.map Exchange.entry)))) :
    Holds (flushed m (exchanges.map Exchange.entry) app)
      (found ++ (sessionAt (startOf m.persistedCursor) app exchanges).toList) := by
  intro behind hbehind
  let start := startOf m.persistedCursor
  let bytes := plannedBytes start (exchanges.map Exchange.entry) app
  let next := startOf (Log.flushed m (exchanges.map Exchange.entry) app).persistedCursor
  let gap : List UInt8 := List.replicate (next - (start + bytes.length)) 0xFF
  obtain ⟨hpast, hend, hgap⟩ : start + bytes.length ≤ next ∧ next ≤ Layout.logEnd ∧
    (fits start 0 → next = start + bytes.length → next = Layout.logEnd) :=
    startOf_flushed happ _ app
  have hfull : start = Layout.logEnd → bytes ++ (gap ++ behind) = [] := by
    intro hstart
    have hbytes : bytes = [] := List.eq_nil_of_length_eq_zero (by omega)
    have hzero : next - (start + bytes.length) = 0 := by omega
    show bytes ++ (List.replicate (next - (start + bytes.length)) 0xFF ++ behind) = []
    rw [hzero, hbytes, hbehind (by show next = _; omega)]
    rfl
  have hrest (hfits : fits start 0) : (gap ++ behind).head? ≠ some Marker.finish.byte :=
    head?_erased_append_ne fun hzero => hbehind (hgap hfits (by omega))
  rw [slice_flushed_next happ, List.append_assoc, List.append_assoc, h _ hfull,
    sessions_plannedBytes _ app hroom hclean hrest, sessions_erased, List.append_assoc]

/-- A store with the log of a flushed one keeps the invariants: it can be appended to, has the
cursor that the flush reports, and holds the session of the flush behind those before it. -/
theorem flushed_keeps {m' : Memory} (happ : Appendable m) {exchanges : List Exchange}
    (hroom : exchanges.length ≤ Session.capacity) (app : UInt8)
    (hsame : SameLog (flushed m (exchanges.map Exchange.entry) app) m')
    (hpower : m'.budget = none) :
    let r := planned m.persistedCursor (exchanges.map Exchange.entry) app
    Appendable m' ∧ m'.persistedCursor = r.cursor ∧
      ∀ found, Holds m found → CleanSession (exchanges.take r.written) →
        Holds m' (found ++ (sessionAt r.start app exchanges).toList) := by
  intro r
  refine ⟨(happ.flushed _ app).congr hsame hpower, ?_, fun found hfound hclean => ?_⟩
  · rw [hsame.cursor, persistedCursor_flushed happ]
    rfl
  · exact (hfound.flushed happ app hroom hclean).congr hsame

end Flush

/-! ## Events -/

section Events

/-- What happens on the board in a run. -/
inductive Event where
  | capture (x : Captured)
  | select (id : UInt8)
  | reset

/-- The run of the board through events; it answers, for each reset, the cursor that the reset finds
in the store, and its report. -/
def drive : List Event → Run Bench (List (Nat × Option FlushSummary))
  | [] => pure []
  | .capture x :: rest => do
    let _ ← (board cellCount).capture x.exchange
    drive rest
  | .select id :: rest => do
    (board cellCount).setSelected id
    drive rest
  | .reset :: rest => do
    let cursor ← Run.read fun b => b.memory.persistedCursor
    let report ← (board cellCount).handleTerminalReset
    let answers ← drive rest
    pure ((cursor, report) :: answers)

/-- What a reset finds: the application in use, the exchanges accepted since the last reset, and the
cursor in the store. -/
structure Saved where
  app : UInt8
  accepted : List Captured
  cursor : Nat

/-- What a reset reports. -/
def Saved.report (s : Saved) : FlushSummary :=
  planned s.cursor ((s.accepted.map Captured.exchange).map Exchange.entry) s.app

/-- What `drive` answers for a reset. -/
def Saved.answer (s : Saved) : Nat × Option FlushSummary := (s.cursor, some s.report)

/-- What the resets among the events find, given the application in use, the exchanges accepted so
far and the cursor.  Without room an exchange is dropped. -/
def saves (app : UInt8) (accepted : List Captured) (cursor : Nat) : List Event → List Saved
  | [] => []
  | .capture x :: rest =>
    saves app (if accepted.length < Buffer.capacity then accepted ++ [x] else accepted) cursor rest
  | .select id :: rest => saves id accepted cursor rest
  | .reset :: rest =>
    let s : Saved := ⟨app, accepted, cursor⟩
    s :: saves app [] s.report.cursor rest

/-- The session that a reset leaves in the log: none without exchanges, and none if an application
record and an end marker find no room from the start that its cursor stands for. -/
def Saved.session? (s : Saved) : Option Session :=
  if !s.accepted.isEmpty && startOf s.cursor + 11 ≤ Layout.logEnd then
    some ⟨s.app, (s.accepted.take s.report.written).map Captured.logged, true⟩
  else none

/-- The exchanges that a reset writes are clean. -/
def Saved.Clean (s : Saved) : Prop :=
  CleanSession ((s.accepted.take s.report.written).map Captured.exchange)

instance (s : Saved) : Decidable s.Clean := inferInstanceAs (Decidable (CleanSession _))

/-- A session is read as it is written: the command as it stood on the line, the response with its
status first. -/
theorem Saved.session?_eq (s : Saved) :
    s.session? = sessionAt (startOf s.cursor) s.app (s.accepted.map Captured.exchange) := by
  have hempty : ((s.accepted.map Captured.exchange).map Exchange.entry).isEmpty =
      s.accepted.isEmpty := by
    simp
  have hlogged (xs : List Captured) :
      (xs.map Captured.exchange).map Exchange.logged = xs.map Captured.logged := by
    rw [List.map_map]
    exact List.map_congr_left fun x _ => x.logged_exchange
  rw [Saved.session?, sessionAt, opens, hempty, Session.written, ← List.map_take, hlogged]
  rfl

theorem filterMap_cons_toList {α β : Type} (f : α → Option β) (a : α) (as : List α) :
    (a :: as).filterMap f = (f a).toList ++ as.filterMap f := by
  cases h : f a with
  | none => exact List.filterMap_cons_none h
  | some b => exact List.filterMap_cons_some h

end Events

/-! ## Runs -/

section Runs

/-- A store before its first flush, with the power on: erased, or just reset to its defaults. -/
inductive Fresh : Memory → Prop where
  | erased {m : Memory} (power : m.budget = none) (cells : m.Blank) : Fresh m
  | reset {before m : Memory} (power : before.budget = none)
      (ran : (Settings.factoryReset (eeprom cellCount)).run.Returns before (.ok ()) m) : Fresh m

theorem Fresh.startOf_eq {m : Memory} (h : Fresh m) :
    startOf m.persistedCursor = Layout.logStart := by
  cases h with
  | erased _ cells => rw [cells.persistedCursor_eq, startOf_unset]
  | reset power ran =>
    obtain ⟨-, rfl⟩ := ran.unique (factoryReset_returns (by decide) (Nat.le_refl _))
    rw [persistedCursor_defaults power]
    rfl

theorem Fresh.appendable {m : Memory} (h : Fresh m) : Appendable m := by
  have hstart := h.startOf_eq
  have hcells (i : Nat) (hlog : Layout.logStart ≤ i) (hi : i < Layout.logEnd) :
      m.cell? i = some 0xFF := by
    have hcell : i < cellCount := Nat.lt_trans hi (by decide)
    cases h with
    | erased _ cells => exact cells i hcell
    | reset power ran =>
      obtain ⟨-, rfl⟩ := ran.unique (factoryReset_returns (by decide) (Nat.le_refl _))
      exact cell?_defaults power (Nat.le_refl _) hlog hcell
  have hpower : m.budget = none := by
    cases h with
    | erased power _ => exact power
    | reset power ran =>
      obtain ⟨-, rfl⟩ := ran.unique (factoryReset_returns (by decide) (Nat.le_refl _))
      exact budget_defaults power
  refine ⟨hpower, by rw [hstart]; decide, ?_⟩
  rw [hstart]
  exact slice_eq_replicate m hcells

variable {b : Bench}

/-- A terminal reset is a flush of the log and leaves the rest of the log alone. -/
theorem reset_returns (happ : Appendable b.memory) :
    let entries := b.ram.captured.items.map Exchange.entry
    ∃ m', ((board cellCount).handleTerminalReset).Returns b
        (some (planned b.memory.persistedCursor entries b.ram.selected)) (b.resetTo m') ∧
      SameLog b.memory b.counted ∧ SameLog (flushed b.counted entries b.ram.selected) m' ∧
      Appendable b.counted ∧ Appendable m' := by
  intro entries
  obtain ⟨m', written, hrun, hwritten, rfl⟩ :=
    handleTerminalReset_returns (show Layout.logEnd ≤ cellCount by decide) (Nat.le_refl _) b
  have hcounted : SameLog b.memory b.counted :=
    SameLog.updated ⟨rfl, fun _ _ => rfl⟩ (by decide) (by decide) (by decide) _
  have happ₁ : Appendable b.counted :=
    happ.congr hcounted (budget_updated_of_none happ.power _ _)
  have hpower : written.budget = none :=
    (budget_of_settled hwritten).trans (happ₁.flushed entries b.ram.selected).power
  have hsame : SameLog (flushed b.counted entries b.ram.selected) written :=
    .of_cells (fun i _ => cell?_of_settled hwritten i) (fun i _ => cell?_of_settled hwritten i)
  have hwarm (value : UInt8) : SameLog (flushed b.counted entries b.ram.selected)
      (written.updated Layout.warmFlag value).settled :=
    (hsame.updated (by decide) (by decide) (by decide) value).settled
  exact ⟨_, hrun, hcounted, hwarm _, happ₁, (happ₁.flushed entries b.ram.selected).congr (hwarm _)
    (budget_updated_of_none hpower _ _)⟩

/-- One reset keeps the invariants: it adds the session of what it found to those that the log
holds. -/
theorem reset_saves {accepted : List Captured}
    (haccepted : b.ram.captured.items = accepted.map Captured.exchange)
    (happ : Appendable b.memory) :
    let s : Saved := ⟨b.ram.selected, accepted, b.memory.persistedCursor⟩
    ∃ m', ((board cellCount).handleTerminalReset).Returns b (some s.report) (b.resetTo m') ∧
      Appendable m' ∧ m'.persistedCursor = s.report.cursor ∧
      ∀ found, Holds b.memory found → s.Clean → Holds m' (found ++ s.session?.toList) := by
  intro s
  obtain ⟨m', hrun, hcounted, hsame, happ₁, happ'⟩ := reset_returns happ
  rw [haccepted] at hrun hsame
  have hroom : (accepted.map Captured.exchange).length ≤ Session.capacity := by
    rw [← haccepted]
    exact b.ram.captured.items_le
  obtain ⟨-, hcursor, hsave⟩ := flushed_keeps happ₁ hroom _ hsame happ'.power
  rw [hcounted.cursor] at hcursor hsave
  refine ⟨m', hrun, happ', hcursor, fun found hfound hclean => ?_⟩
  rw [s.session?_eq]
  refine hsave found (hfound.congr hcounted) ?_
  rw [← List.map_take]
  exact hclean

theorem captured?_items (r : Ram) (x : Exchange) :
    (r.captured? x).2.captured.items =
        (if r.captured.items.length < Buffer.capacity then r.captured.items ++ [x]
          else r.captured.items) ∧
      (r.captured? x).2.selected = r.selected := by
  unfold Ram.captured? Buffer.append? Buffer.capacity
  by_cases h : r.captured.items.length < 8
  · simp [h]
  · simp [h]

/-- Every run answers what its resets find and report, leaves a log that can be appended to and, if
what it writes is clean, adds the sessions of the resets to those that the log holds. -/
theorem drive_returns (events : List Event) (accepted : List Captured)
    (haccepted : b.ram.captured.items = accepted.map Captured.exchange)
    (happ : Appendable b.memory) :
    let resets := saves b.ram.selected accepted b.memory.persistedCursor events
    ∃ b', (drive events).Returns b (resets.map Saved.answer) b' ∧ Appendable b'.memory ∧
      ∀ found, Holds b.memory found → (∀ s ∈ resets, s.Clean) →
        Holds b'.memory (found ++ resets.filterMap Saved.session?) := by
  induction events generalizing b accepted with
  | nil =>
    refine ⟨b, Returns.pure _ _, happ, fun found hfound _ => ?_⟩
    rw [saves, List.filterMap_nil, List.append_nil]
    exact hfound
  | cons event rest ih =>
    cases event with
    | capture x =>
      obtain ⟨hitems, hselected⟩ := captured?_items b.ram x.exchange
      have hnext : (b.ram.captured? x.exchange).2.captured.items =
          (if accepted.length < Buffer.capacity then accepted ++ [x] else accepted).map
            Captured.exchange := by
        rw [hitems, haccepted, List.length_map]
        split
        · rw [List.map_append, List.map_singleton]
        · rfl
      obtain ⟨b', hrun, hrest⟩ :=
        ih (b := { b with ram := (b.ram.captured? x.exchange).2 }) _ hnext happ
      simp only [hselected] at hrun hrest
      exact ⟨b', Returns.bind (capture_returns x.exchange) hrun, hrest⟩
    | select id =>
      obtain ⟨b', hrun, hrest⟩ :=
        ih (b := { b with ram.selected := id }) accepted haccepted happ
      exact ⟨b', Returns.bind (setSelected_returns id) hrun, hrest⟩
    | reset =>
      obtain ⟨m', hreset, happ', hcursor, hsave⟩ := reset_saves haccepted happ
      -- the rest of the run starts from the cursor that this reset leaves
      obtain ⟨b', hrun, hend, hholds⟩ := ih (b := b.resetTo m') [] rfl happ'
      rw [show (b.resetTo m').memory.persistedCursor = _ from hcursor] at hrun hholds
      refine ⟨b', Returns.bind (Returns.read _ b) (Returns.bind hreset (Returns.bind hrun
        (Returns.pure _ _))), hend, fun found hfound hclean => ?_⟩
      have hnow := hsave found hfound (hclean _ List.mem_cons_self)
      have hall := hholds _ hnow fun s hs => hclean s (List.mem_cons_of_mem _ hs)
      rw [saves, filterMap_cons_toList, ← List.append_assoc]
      exact hall

/-- **The log round trip.** Whatever is captured, selected and reset in whatever order, every reset
returns its report.  If the exchanges written are clean, the log reads as exactly the sessions that
the resets saved, in order: one for each reset that found exchanges and room, with the application
in use and the first of the accepted exchanges, as many as reported. -/
theorem log_round_trip (hstore : Fresh b.memory) (hempty : b.ram.captured.items = [])
    (events : List Event) :
    let resets := saves b.ram.selected [] b.memory.persistedCursor events
    ∃ b', (drive events).Returns b (resets.map Saved.answer) b' ∧
      ((∀ s ∈ resets, s.Clean) →
        sessions (b'.memory.slice Layout.logStart Layout.logEnd) =
          resets.filterMap Saved.session?) := by
  obtain ⟨b', hrun, happ, hholds⟩ := drive_returns events [] hempty hstore.appendable
  exact ⟨b', hrun, fun hclean =>
    (hholds [] (holds_nil hstore.startOf_eq) hclean).sessions_log happ⟩

/-- A command without data and its shortest response. -/
def shortest : Captured where
  command := [0x00, 0xB2, 0x01, 0x0C, 0x00]
  response := [0x90, 0x00]
  exchange := shortExchange
  ofLine := rfl

/-- One exchange, saved by the first of two resets of an erased board. -/
theorem log_round_trip_shortest :
    ∃ b', (drive [.select 3, .capture shortest, .reset, .reset]).Returns {}
        [(0xFFFF, some ⟨0x80, 0xA0, 1, 0, 0⟩), (0xA0, some ⟨0xA0, 0xA8, 0, 0, 0⟩)] b' ∧
      sessions (b'.memory.slice Layout.logStart Layout.logEnd) =
        [⟨3, [⟨some [0x00, 0xB2, 0x01, 0x0C, 0x00], some [0x90, 0x00]⟩], true⟩] := by
  obtain ⟨b', hrun, hread⟩ := log_round_trip (b := {}) (.erased rfl blank_default) rfl
    [.select 3, .capture shortest, .reset, .reset]
  rw [show ({} : Bench).memory.persistedCursor = 0xFFFF from blank_default.persistedCursor_eq]
    at hrun hread
  exact ⟨b', hrun, hread (by decide)⟩

end Runs

end CardTap.Log
