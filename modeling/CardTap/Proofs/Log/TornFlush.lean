import CardTap.Proofs.Log.Effect
import CardTap.Proofs.Log.RoundTrip
import CardTap.Proofs.Log.TornSession

/-!
# The flush that loses power

Flushes with the power on, one after the other, and then one that is cut off behind its application
record.  The earlier sessions are read as before, and behind them one more, which is told by how
many bytes reached the store.  It is a first part of what was to be written, exactly unless the
power was lost at a place where the reader is led astray (`torn_flush_iff`).
-/

namespace CardTap.Log

open CardTap.Run CardTap.Bench CardTap.Bench.Memory

section TornFlush

variable {m m' : Memory} {found : List Session}

/-- Flushes one after the other, each under its own power supply; they answer their outcomes. -/
def flushAll (attempts : List (Attempt Exchange)) :
    Run Memory (List (Except StoreError FlushSummary)) :=
  attempts.mapM (Attempt.run Exchange.entry)

/-- What a flush of a store with this cursor reports. -/
def Attempt.report (a : Attempt Exchange) (cursor : Nat) : FlushSummary :=
  planned cursor (a.buffer.items.map Exchange.entry) a.app

/-- The session that an uncut flush of a store with this cursor leaves in the log: none without
exchanges, and none if an application record and an end marker find no room from the start that the
cursor stands for. -/
def Attempt.session? (a : Attempt Exchange) (cursor : Nat) : Option Session :=
  if !a.buffer.items.isEmpty && startOf cursor + 11 ≤ Layout.logEnd then
    some (.written a.app (a.buffer.items.take (a.report cursor).written))
  else none

/-- The exchanges that a flush of a store with this cursor writes are clean. -/
def Attempt.Clean (a : Attempt Exchange) (cursor : Nat) : Prop :=
  CleanSession (a.buffer.items.take (a.report cursor).written)

instance (a : Attempt Exchange) (cursor : Nat) : Decidable (a.Clean cursor) :=
  inferInstanceAs (Decidable (CleanSession _))

/-- Uncut flushes in a row, each with the cursor that it finds: the first one the given cursor, each
other one what the flush before it has left. -/
def withCursors (cursor : Nat) : List (Attempt Exchange) → List (Attempt Exchange × Nat)
  | [] => []
  | a :: rest => (a, cursor) :: withCursors (a.report cursor).cursor rest

/-- What uncut flushes report, from a cursor on. -/
def reportsOf (cursor : Nat) (attempts : List (Attempt Exchange)) : List FlushSummary :=
  (withCursors cursor attempts).map fun p => p.1.report p.2

/-- What uncut flushes write, from a cursor on, is clean. -/
def AllClean (cursor : Nat) (attempts : List (Attempt Exchange)) : Prop :=
  ∀ p ∈ withCursors cursor attempts, p.1.Clean p.2

instance (cursor : Nat) (attempts : List (Attempt Exchange)) :
    Decidable (AllClean cursor attempts) :=
  inferInstanceAs (Decidable (∀ p ∈ withCursors cursor attempts, p.1.Clean p.2))

/-- The sessions that uncut flushes leave in the log, from a cursor on. -/
def sessionsOf (cursor : Nat) (attempts : List (Attempt Exchange)) : List Session :=
  (withCursors cursor attempts).filterMap fun p => p.1.session? p.2

theorem sessionsOf_cons (cursor : Nat) (a : Attempt Exchange) (rest : List (Attempt Exchange)) :
    sessionsOf cursor (a :: rest) =
      (a.session? cursor).toList ++ sessionsOf (a.report cursor).cursor rest :=
  filterMap_cons_toList _ (a, cursor) _

theorem Attempt.session?_eq (a : Attempt Exchange) (cursor : Nat) :
    a.session? cursor = sessionAt (startOf cursor) a.app a.buffer.items := by
  rw [Attempt.session?, sessionAt, opens, List.isEmpty_map]
  rfl

theorem Attempt.supplied_of_uncut {a : Attempt Exchange} (huncut : a.cut = none)
    (hpower : m.budget = none) : a.supplied m = m := by
  rw [Attempt.supplied, huncut]
  show { m with budget := none } = m
  rw [← hpower]

/-- One uncut flush keeps the invariants: it adds its session to those that the log holds. -/
theorem Attempt.saves {a : Attempt Exchange} (huncut : a.cut = none) (happ : Appendable m) :
    let r := a.report m.persistedCursor
    ∃ m', (a.run Exchange.entry).Returns m (.ok r) m' ∧ Appendable m' ∧
      m'.persistedCursor = r.cursor ∧
      ∀ found, Holds m found → a.Clean m.persistedCursor →
        Holds m' (found ++ (a.session? m.persistedCursor).toList) := by
  intro r
  obtain ⟨m', hrun, hpower, -, hleaves⟩ := a.run_returns Exchange.entry m
  have hcells (i : Nat) :
      m'.cell? i = (flushed m (a.buffer.items.map Exchange.entry) a.app).cell? i := by
    rw [hleaves i, a.supplied_of_uncut huncut happ.power]
    rfl
  have hsame : SameLog (flushed m (a.buffer.items.map Exchange.entry) a.app) m' :=
    .of_cells (fun i _ => hcells i) fun i _ => hcells i
  rw [a.session?_eq]
  exact ⟨m', hrun, flushed_keeps happ a.buffer.items_le a.app hsame hpower⟩

/-- Uncut flushes leave a log that can be appended to and, if what they write is clean, add their
sessions to those that the log holds. -/
theorem flushAll_returns {attempts : List (Attempt Exchange)}
    (huncut : ∀ a ∈ attempts, a.cut = none) (happ : Appendable m) :
    ∃ m', (flushAll attempts).Returns m ((reportsOf m.persistedCursor attempts).map .ok) m' ∧
      Appendable m' ∧
      ∀ found, Holds m found → AllClean m.persistedCursor attempts →
        Holds m' (found ++ sessionsOf m.persistedCursor attempts) := by
  induction attempts generalizing m with
  | nil =>
    refine ⟨m, Returns.pure _ _, happ, fun found hfound _ => ?_⟩
    rw [sessionsOf, withCursors, List.filterMap_nil, List.append_nil]
    exact hfound
  | cons a rest ih =>
    obtain ⟨m₁, hrun, happ₁, hcursor, hsave⟩ := Attempt.saves (huncut a List.mem_cons_self) happ
    obtain ⟨m', hrest, happ', hholds⟩ :=
      ih (fun b hb => huncut b (List.mem_cons_of_mem a hb)) happ₁
    rw [hcursor] at hrest hholds
    refine ⟨m', ?_, happ', fun found hfound hclean => ?_⟩
    · rw [flushAll, List.mapM_cons]
      exact Returns.bind hrun (Returns.bind hrest (Returns.pure _ _))
    · have hnow := hsave found hfound (hclean _ List.mem_cons_self)
      have hall := hholds _ hnow fun p hp => hclean p (List.mem_cons_of_mem _ hp)
      rw [sessionsOf_cons, ← List.append_assoc]
      exact hall

/-- The log after a flush that may be cut off: as before up to its start, then what reached the
store, and erased cells behind. -/
theorem Attempt.Leaves.slice_log {a : Attempt Exchange} (h : a.Leaves Exchange.entry m m')
    (happ : Appendable m) :
    let start := startOf m.persistedCursor
    let reached := landing a.cut (plannedBytes start (a.buffer.items.map Exchange.entry) a.app)
    m'.slice Layout.logStart Layout.logEnd = m.slice Layout.logStart start ++
      (reached ++ List.replicate (Layout.logEnd - start - reached.length) 0xFF) := by
  intro start reached
  have hcells (i : Nat) : m'.cell? i =
      (flushed (a.supplied m) (a.buffer.items.map Exchange.entry) a.app).cell? i := by
    rw [h i, flushed, a.flushWrites_supplied]
  have hstart : start ≤ startOf (a.supplied m).persistedCursor :=
    Nat.le_of_eq (congrArg startOf (a.persistedCursor_supplied m).symm)
  have hbelow : m'.slice Layout.logStart start = m.slice Layout.logStart start := by
    rw [slice_congr _ fun i _ _ => hcells i, slice_flushed_below _ _ hstart,
      slice_congr _ fun i _ _ => a.cell?_supplied m i]
  have habove : m'.slice start Layout.logEnd = reached ++ _ := h.slice
  rw [← drop_slice, happ.erased, List.drop_replicate] at habove
  rw [← slice_append _ (startOf_ge _) happ.inside (by decide), hbelow, habove]

section Cut

variable {a : Attempt Exchange} {n : Nat}

/-- What is read after a flush that is cut off behind its application record. -/
theorem sessions_of_cut (hcut : a.cut = some n) (hn : 6 ≤ n) (hne : a.buffer.items ≠ [])
    (h : a.Leaves Exchange.entry m m') (happ : Appendable m) (hholds : Holds m found) :
    let start := startOf m.persistedCursor
    let exchanges := a.buffer.items.take (a.report m.persistedCursor).written
    CleanSession exchanges → start + 11 ≤ Layout.logEnd →
      sessions (m'.slice Layout.logStart Layout.logEnd) =
        found ++ [tornSession a.app exchanges (n - 6)] := by
  intro start exchanges hclean hroom
  have hopen : opens start (a.buffer.items.map Exchange.entry) :=
    opens_iff.2 ⟨fun hnil => hne (List.map_eq_nil_iff.1 hnil), hroom⟩
  have hbytes : landing a.cut (plannedBytes start (a.buffer.items.map Exchange.entry) a.app) =
      (sessionBytes a.app (exchanges.map Exchange.entry)).take (6 + (n - 6)) := by
    rw [hcut, plannedBytes_opens a.app hopen, Nat.add_sub_cancel' hn, List.map_take]
    rfl
  have hlen : exchanges.length ≤ Session.capacity :=
    Nat.le_trans (List.length_take_le' _ _) a.buffer.items_le
  have hinside : startOf m.persistedCursor ≠ Layout.logEnd := by
    intro hend
    have : Layout.logEnd + 11 ≤ Layout.logEnd := hend ▸ hroom
    omega
  rw [h.slice_log happ, hholds _ fun hend => absurd hend hinside]
  refine congrArg (found ++ ·) ?_
  rw [← sessions_torn a.app hclean hlen (n - 6)]
  exact congrArg (fun bytes => sessions (bytes ++ _)) hbytes

/-- A flush without room for an application record adds nothing that is read. -/
theorem sessions_of_full (h : a.Leaves Exchange.entry m m') (happ : Appendable m)
    (hholds : Holds m found) (hfull : ¬ startOf m.persistedCursor + 11 ≤ Layout.logEnd) :
    sessions (m'.slice Layout.logStart Layout.logEnd) = found := by
  let start := startOf m.persistedCursor
  let bytes := plannedBytes start (a.buffer.items.map Exchange.entry) a.app
  have hclosed : ¬ opens start (a.buffer.items.map Exchange.entry) :=
    fun hopen => hfull (opens_iff.1 hopen).2
  have hbytes : bytes = if fits start 0 then Marker.finish.bytes else [] := by
    show plannedBytes _ _ _ = _
    rw [plannedBytes, plannedBody, if_neg hclosed, List.nil_append]
  have hnoise : ∀ b ∈ landing a.cut bytes, b ≠ Marker.application.byte := by
    intro b hb
    have hin : b ∈ bytes := mem_of_mem_landing hb
    rw [hbytes] at hin
    split at hin
    · rw [eq_byte_of_mem hin]
      decide
    · exact absurd hin List.not_mem_nil
  have hend (hstart : start = Layout.logEnd) : bytes = [] := by
    rw [hbytes, hstart]
    rfl
  rw [h.slice_log happ, hholds, sessions_skip_all hnoise, ← List.append_nil (List.replicate _ _),
    sessions_erased, sessions_nil, List.append_nil]
  intro hstart
  show landing a.cut bytes ++ List.replicate (Layout.logEnd - start - _) 0xFF = []
  rw [hend hstart, landing_nil, show start = Layout.logEnd from hstart, Nat.sub_self, Nat.zero_sub]
  rfl

end Cut

/-- **A session cut off by a power loss is read up to where the power was lost, but for the places
where the reader is led astray.**  Uncut flushes of clean exchanges, then one of a clean buffer that
loses power after its application record: the log reads as the earlier sessions and one more of the
last application.  What this one holds is a first part of the exchanges that were being written,
unless the power was lost inside the marker behind a body, whose bytes are then read as part of the
body, or where a response ends like the marker of the next command.  Without room for an application
record only the earlier sessions are read. -/
theorem torn_flush_iff (hstore : Fresh m) {earlier : List (Attempt Exchange)}
    (huncut : ∀ a ∈ earlier, a.cut = none) (buffer : Buffer Exchange) (hne : buffer.items ≠ [])
    (app : UInt8) {n : Nat} (hn : 6 ≤ n) :
    let last : Attempt Exchange := ⟨buffer, app, some n⟩
    let saved := sessionsOf m.persistedCursor earlier
    ∃ m₁ m₂,
      (flushAll earlier).Returns m ((reportsOf m.persistedCursor earlier).map .ok) m₁ ∧
      (last.run Exchange.entry).Returns m₁ (.ok (last.report m₁.persistedCursor)) m₂ ∧
      (AllClean m.persistedCursor earlier → last.Clean m₁.persistedCursor →
        (startOf m₁.persistedCursor + 11 ≤ Layout.logEnd →
          let exchanges := buffer.items.take (last.report m₁.persistedCursor).written
          ∃ torn, sessions (m₂.slice Layout.logStart Layout.logEnd) = saved ++ [torn] ∧
            torn = tornSession app exchanges (n - 6) ∧
            (CutOf buffer.items torn.exchanges ↔ ¬ Misread exchanges (n - 6))) ∧
        (¬ startOf m₁.persistedCursor + 11 ≤ Layout.logEnd →
          sessions (m₂.slice Layout.logStart Layout.logEnd) = saved)) := by
  intro last saved
  obtain ⟨m₁, hearlier, happ, hholds⟩ := flushAll_returns huncut hstore.appendable
  obtain ⟨m₂, hrun, -, -, hleaves⟩ := last.run_returns Exchange.entry m₁
  refine ⟨m₁, m₂, hearlier, hrun, fun hclean hlast => ?_⟩
  have hfound := hholds [] (holds_nil hstore.startOf_eq) hclean
  refine ⟨fun hroom => ⟨_, ?_, rfl, ?_⟩, fun hfull => ?_⟩
  · exact sessions_of_cut rfl hn hne hleaves happ hfound hlast hroom
  · rw [← cutOf_tornExchanges_iff]
    exact cutOf_take_iff (length_tornExchanges _ _)
  · exact sessions_of_full hleaves happ hfound hfull

/-- A whole session, and one that is cut off between the two status bytes of its second response. -/
theorem torn_flush_inside_response :
    ∃ m₁ m₂,
      (flushAll [⟨⟨[shortExchange], by decide⟩, 1, none⟩]).Returns {}
        [.ok ⟨0x80, 0xA0, 1, 0, 0⟩] m₁ ∧
      (Attempt.run Exchange.entry
        ⟨⟨[longExchange, shortExchange], by decide⟩, 2, some 45⟩).Returns m₁
          (.ok ⟨0xA0, 0xD8, 2, 0, 0⟩) m₂ ∧
      sessions (m₂.slice Layout.logStart Layout.logEnd) =
        [.written 1 [shortExchange], ⟨2, [longExchange.logged,
          ⟨some [0x00, 0xB2, 0x01, 0x0C, 0x00], some [0x90]⟩], false⟩] ∧
      CutOf [longExchange, shortExchange] [longExchange.logged,
        ⟨some [0x00, 0xB2, 0x01, 0x0C, 0x00], some [0x90]⟩] := by
  let first : Attempt Exchange := ⟨⟨[shortExchange], by decide⟩, 1, none⟩
  let last : Attempt Exchange := ⟨⟨[longExchange, shortExchange], by decide⟩, 2, some 45⟩
  have huncut : ∀ a ∈ [first], a.cut = none := fun a ha => by rw [List.mem_singleton.1 ha]
  obtain ⟨m₁, m₂, hearlier, hrun, hread⟩ :=
    torn_flush_iff (.erased rfl blank_default) huncut last.buffer (by decide) last.app
      (show 6 ≤ 45 by decide)
  -- the first flush fixes the cursor that the second one finds
  obtain ⟨m₁', hfirst, -, -, hleaves⟩ := first.run_returns Exchange.entry {}
  have hall : (flushAll [first]).Returns {} [.ok (first.report ({} : Memory).persistedCursor)]
      m₁' := by
    rw [flushAll, List.mapM_cons, List.mapM_nil]
    exact Returns.bind hfirst (Returns.bind (Returns.pure _ _) (Returns.pure _ _))
  obtain ⟨-, rfl⟩ := hearlier.unique hall
  have hblank : ({} : Memory).persistedCursor = Layout.unsetCursor :=
    blank_default.persistedCursor_eq
  have hcursor : m₁.persistedCursor = 160 := by
    rw [hleaves.persistedCursor, hblank]
    decide
  have hreports : reportsOf Layout.unsetCursor [first] = [⟨0x80, 0xA0, 1, 0, 0⟩] := by decide
  have hreport : last.report 160 = ⟨0xA0, 0xD8, 2, 0, 0⟩ := by decide
  rw [hblank] at hearlier hread
  rw [hreports] at hearlier
  rw [hcursor] at hrun hread
  rw [hreport] at hrun
  obtain ⟨torn, hsessions, rfl, hcut⟩ := (hread (by decide) (by decide)).1 (by decide)
  exact ⟨m₁, m₂, hearlier, hrun, hsessions, hcut.2 (by decide)⟩

/-- Cut off behind the first byte of the response's marker, the command is read with that byte. -/
theorem marker_joins_command :
    ∃ m₂, (Attempt.run Exchange.entry ⟨⟨[shortExchange], by decide⟩, 1, some 17⟩).Returns {}
        (.ok ⟨0x80, 0xA0, 1, 0, 0⟩) m₂ ∧
      CleanSession [shortExchange] ∧ 0x80 + 11 ≤ Layout.logEnd ∧
      sessions (m₂.slice Layout.logStart Layout.logEnd) =
        [⟨1, [⟨some [0x00, 0xB2, 0x01, 0x0C, 0x00, 0xAA], none⟩], false⟩] ∧
      ¬ CutOf [shortExchange] [⟨some [0x00, 0xB2, 0x01, 0x0C, 0x00, 0xAA], none⟩] := by
  let a : Attempt Exchange := ⟨⟨[shortExchange], by decide⟩, 1, some 17⟩
  have hblank : ({} : Memory).persistedCursor = Layout.unsetCursor :=
    blank_default.persistedCursor_eq
  have hstore : Fresh {} := .erased rfl blank_default
  obtain ⟨m₂, hrun, -, -, hleaves⟩ := a.run_returns Exchange.entry {}
  have hread := sessions_of_cut rfl (show 6 ≤ 17 by decide) (by decide) hleaves hstore.appendable
    (holds_nil hstore.startOf_eq)
  have hreport : a.report Layout.unsetCursor = ⟨0x80, 0xA0, 1, 0, 0⟩ := by decide
  rw [hblank] at hrun hread
  rw [← hreport]
  refine ⟨m₂, hrun, by decide, by decide, hread (by decide) (by decide), fun h => ?_⟩
  have hlong := (cutOf_singleton.1 h).1 _ rfl
  exact absurd hlong.length_le (by decide)

end TornFlush

end CardTap.Log
