import CardTap.Proofs.Log.Plan

/-!
# A flush does what was planned

The parts of a flush one after the other: opening the session, writing the exchanges, closing the
session.  Each returns and performs a row of writes that the plan names, so `flush_returns` speaks
of every store, every buffer and every power budget: the plan is fixed before the first write, and a
power loss only decides how many of the planned writes reach the cells.
-/

namespace CardTap.Log

open CardTap.Run CardTap.Bench CardTap.Bench.Memory

section Parts

variable {size : Nat} (hsize : Layout.logEnd ≤ size) (hcells : size ≤ cellCount) {m : Memory}

include hsize hcells

theorem writeAt_returns {cursor : Nat} (bytes : List UInt8)
    (hfit : cursor + bytes.length ≤ Layout.logEnd) :
    (writeAt (eeprom size) cursor bytes).run.Returns m (.ok (cursor + bytes.length))
      (m.programmedAll (placed cursor bytes)) :=
  Returns.bind_ok (write_returns bytes (Nat.le_trans hfit hsize) hcells) (Returns.ok _ _)

theorem writeRecord_returns {cursor : Nat} (marker : Marker) (half : Option (List UInt8))
    (hfit : cursor + recordSize half ≤ Layout.logEnd) :
    (writeRecord (eeprom size) marker cursor half).run.Returns m
      (.ok (cursor + recordSize half))
      (m.programmedAll (placed cursor (recordBytes marker half))) := by
  cases half with
  | none => exact Returns.ok cursor m
  | some bytes =>
    simp only [recordSize] at hfit ⊢
    rw [recordBytes, placed_append, programmedAll_append, length_bytes]
    rw [← length_bytes marker] at hfit ⊢
    have hmarker := writeAt_returns hsize hcells (m := m) marker.bytes
      (show cursor + marker.bytes.length ≤ Layout.logEnd by omega)
    refine Returns.bind_ok hmarker ?_
    rw [← Nat.add_assoc]
    exact writeAt_returns hsize hcells bytes (by omega)

theorem writeExchange_returns_fit {p : Progress} (x : Entry) (hopen : p.full = false)
    (hfit : fits p.cursor (framed x).length) :
    (writeExchange (eeprom size) p x).run.Returns m
      (.ok { p with
        cursor := p.cursor + (framed x).length, written := p.written + 1,
        skipped := p.skipped + missing x })
      (m.programmedAll (placed p.cursor (framed x))) := by
  have hlen := length_framed x
  have hroom : p.cursor + (framed x).length + 5 ≤ Layout.logEnd := fits_iff.1 hfit
  unfold writeExchange
  simp only [hopen, Bool.false_eq_true, ↓reduceIte]
  rw [← hlen, if_pos hfit, framed, placed_append, programmedAll_append, List.length_append,
    length_recordBytes, length_recordBytes]
  refine Returns.bind_ok (writeRecord_returns hsize hcells .command x.command (by omega)) ?_
  refine Returns.bind_ok (writeRecord_returns hsize hcells .response x.response (by omega)) ?_
  rw [missing, ← Nat.add_assoc, ← Nat.add_assoc]
  exact Returns.ok _ _

omit hsize hcells in
/-- An exchange without room ends the writing. -/
theorem writeExchange_returns_full {p : Progress} (x : Entry) (hopen : p.full = false)
    (hfit : ¬ fits p.cursor (framed x).length) :
    (writeExchange (eeprom size) p x).run.Returns m
      (.ok { p with skipped := p.skipped + missing x, full := true, dropped := p.dropped + 1 })
      m := by
  unfold writeExchange
  simp only [hopen, Bool.false_eq_true, ↓reduceIte]
  rw [← length_framed, if_neg hfit]
  refine Returns.bind_ok (Returns.lift (Returns.note _ m)) ?_
  rw [missing, ← Nat.add_assoc]
  exact Returns.ok _ _

omit hsize hcells in
/-- After that every exchange is dropped, also one that would fit. -/
theorem writeExchanges_returns_full (entries : List Entry) {p : Progress} (hfull : p.full = true) :
    (entries.foldlM (writeExchange (eeprom size)) p).run.Returns m
      (.ok { p with dropped := p.dropped + entries.length }) m := by
  induction entries generalizing p with
  | nil => exact Returns.ok p m
  | cons x rest ih =>
    have hdrop : (writeExchange (eeprom size) p x).run.Returns m
        (.ok { p with dropped := p.dropped + 1 }) m := by
      unfold writeExchange
      rw [if_pos hfull]
      exact Returns.ok _ m
    have hrest := ih (p := { p with dropped := p.dropped + 1 }) hfull
    rw [List.length_cons, Nat.add_comm rest.length 1, ← Nat.add_assoc]
    exact Returns.bind_ok hdrop hrest

/-- From an open session on, the exchanges that fit are written and the others are dropped. -/
theorem writeExchanges_returns (entries : List Entry) {p : Progress} (hopen : p.full = false) :
    let taken := entries.take (fitting p.cursor entries)
    ∃ p' : Progress, (entries.foldlM (writeExchange (eeprom size)) p).run.Returns m (.ok p')
        (m.programmedAll (placed p.cursor (taken.flatMap framed))) ∧
      p'.cursor = p.cursor + (taken.flatMap framed).length ∧
      p'.written = p.written + fitting p.cursor entries ∧
      p'.skipped = p.skipped +
        ((entries.take (fitting p.cursor entries + 1)).map missing).sum ∧
      p'.dropped = p.dropped + (entries.length - fitting p.cursor entries) := by
  intro taken
  subst taken
  induction entries generalizing m p with
  | nil => exact ⟨p, Returns.ok p m, rfl, rfl, rfl, rfl⟩
  | cons x rest ih =>
    rw [fitting]
    by_cases hx : fits p.cursor (framed x).length
    · obtain ⟨p', hrun, hcursor, hwritten, hskipped, hdropped⟩ := ih
        (m := m.programmedAll (placed p.cursor (framed x)))
        (p := { p with
          cursor := p.cursor + (framed x).length, written := p.written + 1,
          skipped := p.skipped + missing x }) hopen
      rw [if_pos hx]
      refine ⟨p', ?_, ?_, ?_, ?_, ?_⟩
      · rw [List.take_succ_cons, List.flatMap_cons, placed_append, programmedAll_append]
        exact Returns.bind_ok (writeExchange_returns_fit hsize hcells x hopen hx) hrun
      · rw [hcursor, List.take_succ_cons, List.flatMap_cons, List.length_append]
        exact Nat.add_assoc _ _ _
      · rw [hwritten]
        simp only
        omega
      · rw [hskipped, List.take_succ_cons, List.map_cons, List.sum_cons]
        simp only
        omega
      · rw [hdropped, List.length_cons]
        simp only
        omega
    · rw [if_neg hx]
      refine ⟨_, Returns.bind_ok (writeExchange_returns_full x hopen hx)
        (writeExchanges_returns_full rest rfl), rfl, rfl, ?_, ?_⟩
      · simp
      · simp only [List.length_cons, Nat.sub_zero]
        omega

theorem closeSession_returns_fit (persisted : Nat) {cursor : Nat} (hroom : fits cursor 0) :
    (closeSession (eeprom size) persisted cursor).run.Returns m
      (.ok (pageBehind (cursor + Marker.finish.bytes.length)))
      (let closed := m.programmedAll (placed cursor Marker.finish.bytes)
       let next := pageBehind (cursor + Marker.finish.bytes.length)
       (closed.updated Layout.cursorHigh (UInt8.ofNat (next / 256))).updated Layout.cursorLow
        (UInt8.ofNat next)) := by
  have hend : cursor + Marker.finish.bytes.length ≤ Layout.logEnd := by
    rw [length_bytes]
    exact fits_iff.1 hroom
  have hlow : Layout.cursorLow < size := Nat.lt_of_lt_of_le (by decide) hsize
  unfold closeSession
  rw [if_pos hroom]
  refine Returns.bind_ok (writeAt_returns hsize hcells Marker.finish.bytes hend) ?_
  refine Returns.bind_ok (Returns.lift (Returns.checked (nextPage_eq hend) _)) ?_
  exact Returns.bind_ok (setCursor_returns hlow hcells _) (Returns.ok _ _)

omit hsize hcells in
theorem closeSession_returns_full (persisted : Nat) {cursor : Nat} (hroom : ¬ fits cursor 0) :
    (closeSession (eeprom size) persisted cursor).run.Returns m (.ok persisted) m := by
  unfold closeSession
  rw [if_neg hroom]
  exact Returns.ok persisted m

theorem openSession_returns (app : UInt8) (entries : List Entry) :
    let start := startOf m.persistedCursor
    (openSession (eeprom size) app entries.isEmpty).run.Returns m
      (.ok ⟨m.persistedCursor, start,
        if opens start entries then some (start + (Marker.size + 1)) else none⟩)
      (m.settled.programmedAll
        (if opens start entries then placed start (Marker.application.bytes ++ [app])
          else [])) := by
  intro start
  have hlow : Layout.cursorLow < size := Nat.lt_of_lt_of_le (by decide) hsize
  refine Returns.bind_ok (cursor_returns hlow hcells) ?_
  show Returns (ExceptT.run (if opens start entries then _ else _)) _ _ _
  by_cases hopen : opens start entries
  · have hfit : start + (Marker.size + 1) + 5 ≤ Layout.logEnd := fits_iff.1 (opens_fits hopen)
    simp only [hopen, ↓reduceIte]
    rw [placed_append, programmedAll_append, length_bytes]
    have hmarker := writeAt_returns hsize hcells (m := m.settled) Marker.application.bytes
      (show start + Marker.application.bytes.length ≤ Layout.logEnd by rw [length_bytes]; omega)
    rw [length_bytes] at hmarker
    refine Returns.bind_ok hmarker (Returns.bind_ok (writeAt_returns hsize hcells [app]
      (by rw [List.length_singleton]; omega)) (Returns.ok _ _))
  · simp only [hopen, Bool.false_eq_true, ↓reduceIte]
    exact Returns.ok _ _

end Parts

/-! ## The whole flush -/

section Whole

variable {m : Memory}

theorem cursorWrites_congr {m' : Memory} (cursor : Nat)
    (hhigh : m'.cell? Layout.cursorHigh = m.cell? Layout.cursorHigh)
    (hlow : m'.cell? Layout.cursorLow = m.cell? Layout.cursorLow) :
    cursorWrites m' cursor = cursorWrites m cursor := by
  simp [cursorWrites, List.filter_cons, hhigh, hlow]

theorem cursorWrites_eq (m : Memory) (cursor : Nat) :
    cursorWrites m cursor =
      (if m.cell? Layout.cursorHigh = some (UInt8.ofNat (cursor / 256)) then []
        else [(Layout.cursorHigh, UInt8.ofNat (cursor / 256))]) ++
      (if m.cell? Layout.cursorLow = some (UInt8.ofNat cursor) then []
        else [(Layout.cursorLow, UInt8.ofNat cursor)]) := by
  by_cases hhigh : m.cell? Layout.cursorHigh = some (UInt8.ofNat (cursor / 256)) <;>
    by_cases hlow : m.cell? Layout.cursorLow = some (UInt8.ofNat cursor) <;>
    simp [cursorWrites, hhigh, hlow]

theorem mem_cursorWrites {cursor : Nat} {w : Nat × UInt8} (h : w ∈ cursorWrites m cursor) :
    w.1 = Layout.cursorHigh ∨ w.1 = Layout.cursorLow := by
  have hpair := (List.mem_filter.1 h).1
  simp only [List.mem_cons, List.not_mem_nil, or_false] at hpair
  exact hpair.imp (fun h => by rw [h]) (fun h => by rw [h])

theorem cursorWrites_persisted (m : Memory) : cursorWrites m m.persistedCursor = [] := by
  have hhigh := m.cell?_eq_byteAt (i := Layout.cursorHigh) (by decide)
  have hlow := m.cell?_eq_byteAt (i := Layout.cursorLow) (by decide)
  rw [cursorWrites_eq, hhigh, hlow, persistedCursor, highByte_cursorOf, lowByte_cursorOf,
    if_pos rfl, if_pos rfl]
  rfl

theorem settled_setCursor (m : Memory) (cursor : Nat) :
    ((m.updated Layout.cursorHigh (UInt8.ofNat (cursor / 256))).updated Layout.cursorLow
      (UInt8.ofNat cursor)).settled = (m.programmedAll (cursorWrites m cursor)).settled := by
  rw [settled_updated, cell?_updated_of_ne _ (by decide), ← settled_programmedAll_settled,
    settled_updated, settled_programmedAll_settled, ← programmedAll_append, cursorWrites_eq]

/-- Closing a session performs the planned writes behind those already made. -/
theorem settled_close {start : Nat} (bytes : List UInt8) (cursor : Nat)
    (hstart : Layout.logStart ≤ start) :
    let filled := m.settled.programmedAll (placed start bytes)
    ((filled.updated Layout.cursorHigh (UInt8.ofNat (cursor / 256))).updated Layout.cursorLow
      (UInt8.ofNat cursor)).settled =
        (m.programmedAll (placed start bytes ++ cursorWrites m cursor)).settled := by
  intro filled
  have hkept : ∀ i, i < Layout.logStart → filled.cell? i = m.cell? i := fun i hi => by
    refine (cell?_programmedAll_of_ne _ fun w hw => ?_).trans (cell?_settled m i)
    have := (mem_placed hw).1
    omega
  rw [settled_setCursor, cursorWrites_congr (m := m) cursor (hkept _ (by decide))
    (hkept _ (by decide)), ← programmedAll_append, settled_programmedAll_settled]

/-- The exchanges of an opened session are written behind its application record. -/
theorem writeExchanges_opening_returns {size : Nat} (hsize : Layout.logEnd ≤ size)
    (hcells : size ≤ cellCount) (m : Memory) (persisted start : Nat) (entries : List Entry)
    (app : UInt8) :
    ∃ p : Progress,
      (writeExchanges (eeprom size) ⟨persisted, start,
        if opens start entries then some (start + (Marker.size + 1)) else none⟩ entries).run.Returns
          (m.programmedAll
            (if opens start entries then placed start (Marker.application.bytes ++ [app]) else []))
          (.ok p) (m.programmedAll (placed start (plannedBody start entries app))) ∧
      p.cursor = start + (plannedBody start entries app).length ∧
      p.written = takenCount start entries ∧
      p.skipped = (if opens start entries then
        ((entries.take (takenCount start entries + 1)).map missing).sum else 0) ∧
      p.dropped = entries.length - takenCount start entries := by
  by_cases hopen : opens start entries
  · obtain ⟨p, hrun, hcursor, hwritten, hskipped, hdropped⟩ := writeExchanges_returns hsize hcells
      (m := m.programmedAll (placed start (Marker.application.bytes ++ [app]))) entries
      (p := { cursor := start + (Marker.size + 1) }) rfl
    have htaken : fitting (start + (Marker.size + 1)) entries = takenCount start entries := by
      rw [takenCount, if_pos hopen]
    simp only [htaken, Nat.zero_add] at hrun hcursor hwritten hskipped hdropped
    have hhead : (Marker.application.bytes ++ [app]).length = Marker.size + 1 := by
      rw [List.length_append, length_bytes, List.length_singleton]
    simp only [hopen, ↓reduceIte, plannedBody]
    refine ⟨p, ?_, ?_, hwritten, hskipped, hdropped⟩
    · rw [placed_append start (Marker.application.bytes ++ [app]), programmedAll_append, hhead]
      exact hrun
    · rw [hcursor, List.length_append, hhead, Nat.add_assoc]
  · simp only [hopen, Bool.false_eq_true, ↓reduceIte, plannedBody, takenCount]
    exact ⟨{ cursor := start, dropped := entries.length }, Returns.ok _ _, rfl, rfl, rfl, rfl⟩

theorem writeSession_returns {size : Nat} {m₁ m₂ m₃ : Memory} {o : Opening} {entries : List Entry}
    {p : Progress} {cursor : Nat}
    (hrun : (writeExchanges (eeprom size) o entries).run.Returns m₁ (.ok p) m₂)
    (hclose : (closeSession (eeprom size) o.persisted p.cursor).run.Returns m₂ (.ok cursor) m₃) :
    (writeSession (eeprom size) o entries).run.Returns m₁
      (.ok ⟨o.start, cursor, p.written, p.skipped, p.dropped⟩) m₃ :=
  Returns.bind_ok hrun (Returns.bind_ok hclose
    (Returns.bind_ok (Returns.lift (Returns.note _ _)) (Returns.ok _ _)))

/-- **A flush does what was planned.** It returns the planned report and an empty buffer, and leaves
the store as the planned writes do. -/
theorem flush_returns {size : Nat} (hsize : Layout.logEnd ≤ size) (hcells : size ≤ cellCount)
    {α : Type} (entry : α → Entry) (buffer : Buffer α) (app : UInt8) (m : Memory) :
    ∃ m', (flush (eeprom size) entry buffer app).Returns m
        ⟨.ok (planned m.persistedCursor (buffer.items.map entry) app), .empty⟩ m' ∧
      m'.settled = (m.programmedAll (flushWrites m (buffer.items.map entry) app)).settled := by
  have hempty : buffer.isEmpty = (buffer.items.map entry).isEmpty := by
    simp [Buffer.isEmpty]
  unfold flush
  rw [hempty]
  generalize buffer.items.map entry = entries
  have hopening := openSession_returns hsize hcells (m := m) app entries
  obtain ⟨p, hrun, hcursor, hwritten, hskipped, hdropped⟩ := writeExchanges_opening_returns hsize
    hcells m.settled m.persistedCursor (startOf m.persistedCursor) entries app
  have hreport : ∀ cursor, cursor = plannedCursor m.persistedCursor entries app →
      (⟨startOf m.persistedCursor, cursor, p.written, p.skipped, p.dropped⟩ : FlushSummary) =
        planned m.persistedCursor entries app := by
    intro cursor h
    rw [h, hwritten, hskipped, hdropped, planned]
  by_cases hroom : fits (startOf m.persistedCursor) 0
  · have hbytes : plannedBytes (startOf m.persistedCursor) entries app =
        plannedBody (startOf m.persistedCursor) entries app ++ Marker.finish.bytes := if_pos hroom
    have hnext : pageBehind (p.cursor + Marker.finish.bytes.length) =
        plannedCursor m.persistedCursor entries app := by
      rw [plannedCursor, if_pos hroom, hbytes, List.length_append, hcursor, Nat.add_assoc]
    have hclose := closeSession_returns_fit hsize hcells m.persistedCursor
      (m := m.settled.programmedAll
        (placed (startOf m.persistedCursor) (plannedBody (startOf m.persistedCursor) entries app)))
      (hcursor ▸ fits_plannedBody entries app hroom)
    rw [← hreport _ hnext]
    refine ⟨_, Returns.bind hopening (Returns.bind (writeSession_returns hrun hclose)
      (Returns.pure _ _)), ?_⟩
    rw [hcursor] at hnext
    simp only [hcursor]
    rw [← programmedAll_append, ← placed_append, ← hbytes, settled_close _ _ (startOf_ge _),
      flushWrites, hnext]
  · have hbody : plannedBody (startOf m.persistedCursor) entries app = [] :=
      if_neg fun hopen => hroom (opens_room hopen)
    have hkept : m.persistedCursor = plannedCursor m.persistedCursor entries app := by
      rw [plannedCursor, if_neg hroom]
    have hclose : (closeSession (eeprom size) m.persistedCursor p.cursor).run.Returns
        (m.settled.programmedAll (placed (startOf m.persistedCursor)
          (plannedBody (startOf m.persistedCursor) entries app))) (.ok m.persistedCursor) _ :=
      closeSession_returns_full m.persistedCursor (by rw [hcursor, hbody]; exact hroom)
    rw [← hreport _ hkept]
    refine ⟨_, Returns.bind hopening (Returns.bind (writeSession_returns hrun hclose)
      (Returns.pure _ _)), ?_⟩
    rw [flushWrites, plannedBytes_eq_nil entries app hroom, hbody, ← hkept, cursorWrites_persisted]
    rfl

/-- The log after a flush: what of the planned bytes reached the store, and behind it what stood
there before. -/
theorem slice_flushWrites (entries : List Entry) (app : UInt8) :
    let start := startOf m.persistedCursor
    let reached := landing m.budget (plannedBytes start entries app)
    (m.programmedAll (flushWrites m entries app)).slice start Layout.logEnd =
      reached ++ m.slice (start + reached.length) Layout.logEnd := by
  intro start reached
  have hlog (i : Nat) (hi : start ≤ i) :
      (m.programmedAll (flushWrites m entries app)).cell? i =
        (m.programmedAll (placed start (plannedBytes start entries app))).cell? i := by
    have hstart := startOf_ge m.persistedCursor
    rw [flushWrites, programmedAll_append]
    refine cell?_programmedAll_of_ne _ fun w hw => ?_
    have hpair := mem_cursorWrites hw
    unfold Layout.logStart at hstart
    unfold Layout.cursorHigh Layout.cursorLow at hpair
    omega
  rw [slice_congr _ fun i hi _ => hlog i hi]
  by_cases hroom : fits start 0
  · exact slice_programmedAll_placed m (plannedBytes_fit entries app hroom) (by decide)
  · have hnone : plannedBytes start entries app = [] := plannedBytes_eq_nil entries app hroom
    have hreached : reached = [] := (congrArg _ hnone).trans (landing_nil m.budget)
    rw [hnone, hreached]
    rfl

end Whole

end CardTap.Log
