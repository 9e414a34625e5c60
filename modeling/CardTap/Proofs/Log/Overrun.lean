import CardTap.Proofs.Bench.Bounds
import CardTap.Proofs.Log.Plan

/-!
# A flush into a store of any size

A store may end in front of the cursor cells or inside the log region.  The first access that does
not fit then ends the flush, with what was written before it left in the store.  The sizes alone
decide it: `Overruns` compares what the flush plans to write with the cells that there are, and
`flush_ends` shows that the flush fails in exactly these cases.
-/

namespace CardTap.Log

open CardTap.Run CardTap.Bench CardTap.Bench.Memory

variable {size : Nat} {m m' m'' : Memory}

/-- The cells that a flush may write: the log region and the cursor, as far as the store has
them. -/
def Cell (size i : Nat) : Prop :=
  i < size ∧ (Layout.logStart ≤ i ∨ i = Layout.cursorHigh ∨ i = Layout.cursorLow)

theorem not_cell_counter : ¬ Cell size Layout.counter := fun h => absurd h.2 (by decide)

theorem not_cell_warmFlag : ¬ Cell size Layout.warmFlag := fun h => absurd h.2 (by decide)

/-- Some writing up to `stop` either came to its end, within the store, or was refused because the
store ends before. -/
def WroteUpTo (size stop : Nat) (m : Memory) (r : Except StoreError Nat) (m' : Memory) : Prop :=
  WritesOnly (Cell size) m m' ∧
    match r with
    | .ok cursor => cursor = stop ∧ stop ≤ size
    | .error _ => size < stop

/-! ## Records -/

section Records

variable (hcells : size ≤ cellCount)

include hcells

theorem writeAt_ends {cursor : Nat} (bytes : List UInt8) (hstart : Layout.logStart ≤ cursor) :
    (writeAt (eeprom size) cursor bytes).run.Ends m (WroteUpTo size (cursor + bytes.length) m) := by
  by_cases hfit : cursor + bytes.length ≤ size
  · refine Ends.after_ok (write_returns bytes hfit hcells) (Ends.ok ⟨?_, rfl, hfit⟩)
    refine .placed fun i hi hlast => ⟨Nat.lt_of_lt_of_le hlast hfit, .inl ?_⟩
    exact Nat.le_trans hstart hi
  · refine Returns.ends (Returns.bind (write_refuses (Nat.lt_of_not_le hfit)) (Returns.pure _ m)) ?_
    exact ⟨.refl m, Nat.lt_of_not_le hfit⟩

omit hcells in
/-- Two writings in a row, the second from where the first ended. -/
theorem WroteUpTo.bind_ends {x : StoreRun Memory Nat} {f : Nat → StoreRun Memory Nat}
    {middle stop : Nat} (hx : x.run.Ends m (WroteUpTo size middle m)) (hle : middle ≤ stop)
    (hf : ∀ m', middle ≤ size → (f middle).run.Ends m' (WroteUpTo size stop m')) :
    (x >>= f).run.Ends m (WroteUpTo size stop m) := by
  refine Ends.bind_ok hx ?_ ?_
  · rintro cursor m' ⟨hwrote, rfl, hfit⟩
    refine (hf m' hfit).mono ?_
    rintro r m'' ⟨hrest, hr⟩
    exact ⟨hwrote.trans hrest, hr⟩
  · rintro e m' ⟨hwrote, hshort⟩
    exact ⟨hwrote, Nat.lt_of_lt_of_le hshort hle⟩

theorem writeRecord_ends {cursor : Nat} (marker : Marker) (half : Option (List UInt8))
    (hstart : Layout.logStart ≤ cursor) (hfit : cursor ≤ size) :
    (writeRecord (eeprom size) marker cursor half).run.Ends m
      (WroteUpTo size (cursor + recordSize half) m) := by
  cases half with
  | none => exact Ends.ok ⟨.refl m, rfl, hfit⟩
  | some bytes =>
    have hmarker := writeAt_ends hcells (m := m) marker.bytes hstart
    rw [length_bytes] at hmarker
    rw [recordSize, ← Nat.add_assoc]
    refine WroteUpTo.bind_ends hmarker (Nat.le_add_right _ _) ?_
    intro m' _
    exact writeAt_ends hcells bytes (Nat.le_add_right_of_le hstart)

end Records

/-! ## Exchanges -/

section Exchanges

variable (hcells : size ≤ cellCount)

include hcells

theorem writeExchange_ends_fit {p : Progress} (x : Entry) (hopen : p.full = false)
    (hfits : fits p.cursor (framed x).length) (hstart : Layout.logStart ≤ p.cursor)
    (hfit : p.cursor ≤ size) :
    (writeExchange (eeprom size) p x).run.Ends m fun r m' =>
      WritesOnly (Cell size) m m' ∧
        match r with
        | .ok p' => p'.full = false ∧ p'.cursor = p.cursor + (framed x).length ∧ p'.cursor ≤ size
        | .error _ => size < p.cursor + (framed x).length := by
  have hlen := length_framed x
  have hwrite : (writeRecord (eeprom size) .command p.cursor x.command >>= fun cursor =>
      writeRecord (eeprom size) .response cursor x.response).run.Ends m
        (WroteUpTo size (p.cursor + (framed x).length) m) := by
    rw [hlen, ← Nat.add_assoc]
    refine WroteUpTo.bind_ends (writeRecord_ends hcells .command x.command hstart hfit)
      (Nat.le_add_right _ _) ?_
    intro m' hcommand
    exact writeRecord_ends hcells .response x.response (Nat.le_add_right_of_le hstart) hcommand
  unfold writeExchange
  simp only [hopen, Bool.false_eq_true, ↓reduceIte]
  rw [← hlen, if_pos hfits, ← bind_assoc]
  refine Ends.bind_ok hwrite ?_ ?_
  · rintro cursor m' ⟨hwrote, rfl, hend⟩
    exact Ends.ok ⟨hwrote, rfl, rfl, hend⟩
  · rintro e m' ⟨hwrote, hshort⟩
    exact ⟨hwrote, hshort⟩

omit hcells in
theorem writeExchange_ends_full {p : Progress} (x : Entry) (hopen : p.full = false)
    (hfits : ¬ fits p.cursor (framed x).length) :
    (writeExchange (eeprom size) p x).run.Ends m fun r m' =>
      m' = m ∧ ∃ p', r = .ok p' ∧ p'.full = true ∧ p'.cursor = p.cursor := by
  unfold writeExchange
  simp only [hopen, Bool.false_eq_true, ↓reduceIte]
  rw [← length_framed, if_neg hfits]
  refine Ends.after_ok (Returns.lift (Returns.note _ m)) ?_
  exact Ends.ok ⟨rfl, _, rfl, rfl, rfl⟩

omit hcells in
theorem writeExchanges_ends_full (entries : List Entry) {p : Progress} (hfull : p.full = true) :
    (entries.foldlM (writeExchange (eeprom size)) p).run.Ends m fun r m' =>
      m' = m ∧ ∃ p', r = .ok p' ∧ p'.cursor = p.cursor := by
  induction entries generalizing p with
  | nil => exact Ends.ok ⟨rfl, p, rfl, rfl⟩
  | cons x rest ih =>
    have hdrop : (writeExchange (eeprom size) p x).run.Returns m
        (.ok { p with dropped := p.dropped + 1 }) m := by
      unfold writeExchange
      rw [if_pos hfull]
      exact Returns.ok _ m
    rw [List.foldlM_cons]
    exact Ends.after_ok hdrop (ih hfull)

/-- From an open session on, the exchanges that the log region takes are written, or the store ends
inside them. -/
theorem writeExchanges_ends (entries : List Entry) {p : Progress} (hopen : p.full = false)
    (hstart : Layout.logStart ≤ p.cursor) (hfit : p.cursor ≤ size) :
    (entries.foldlM (writeExchange (eeprom size)) p).run.Ends m fun r m' =>
      WroteUpTo size
        (p.cursor + ((entries.take (fitting p.cursor entries)).flatMap framed).length) m
        (r.map (·.cursor)) m' := by
  induction entries generalizing m p with
  | nil => exact Ends.ok ⟨.refl m, rfl, hfit⟩
  | cons x rest ih =>
    rw [List.foldlM_cons, fitting]
    by_cases hx : fits p.cursor (framed x).length
    · rw [if_pos hx, List.take_succ_cons, List.flatMap_cons, List.length_append, ← Nat.add_assoc]
      refine Ends.bind_ok (writeExchange_ends_fit hcells x hopen hx hstart hfit) ?_ ?_
      · rintro p' m' ⟨hwrote, hopen', hcursor, hend⟩
        have hrest := ih (m := m') hopen' (by rw [hcursor]; exact Nat.le_add_right_of_le hstart)
          hend
        rw [hcursor] at hrest
        refine hrest.mono ?_
        rintro r m'' ⟨hmore, hr⟩
        exact ⟨hwrote.trans hmore, hr⟩
      · rintro e m' ⟨hwrote, hshort⟩
        exact ⟨hwrote, Nat.lt_of_lt_of_le hshort (Nat.le_add_right _ _)⟩
    · rw [if_neg hx, List.take_zero, List.flatMap_nil, List.length_nil, Nat.add_zero]
      refine Ends.bind_ok (writeExchange_ends_full x hopen hx) ?_ ?_
      · rintro p' m' ⟨rfl, p'', heq, hfull, hcursor⟩
        obtain rfl : p' = p'' := Except.ok.inj heq
        refine (writeExchanges_ends_full rest hfull).mono ?_
        rintro r m'' ⟨rfl, q, rfl, hq⟩
        exact ⟨.refl _, hq.trans hcursor, hfit⟩
      · rintro e m' ⟨-, p', heq, -⟩
        cases heq

end Exchanges

/-! ## The whole flush -/

section Whole

/-- The store ends before a flush can read its cursor, or inside what the flush has to write. -/
def Overruns (size persisted : Nat) (entries : List Entry) (app : UInt8) : Prop :=
  size ≤ Layout.cursorLow ∨
    fits (startOf persisted) 0 ∧
      size < startOf persisted + (plannedBytes (startOf persisted) entries app).length

theorem cursor_refuses (h : size ≤ Layout.cursorLow) :
    (Settings.cursor (eeprom size)).run.Ends m fun r m' =>
      WritesOnly (Cell size) m m' ∧ ∃ e, r = .error e := by
  by_cases hhigh : Layout.cursorHigh < size
  · refine Ends.after_ok (readByte_returns hhigh (m.cell?_eq_byteAt (by decide))) ?_
    refine Returns.ends (Returns.bind (readByte_refuses h) (Returns.pure _ _)) ?_
    exact ⟨.settled m, _, rfl⟩
  · refine Returns.ends (Returns.bind (readByte_refuses (Nat.not_lt.1 hhigh)) (Returns.pure _ _)) ?_
    exact ⟨.refl m, _, rfl⟩

variable (hcells : size ≤ cellCount) (hlow : Layout.cursorLow < size)

include hcells hlow

/-- The opening of a session, up to where its exchanges start. -/
theorem openSession_ends (app : UInt8) (entries : List Entry) :
    (openSession (eeprom size) app entries.isEmpty).run.Ends m fun r m' =>
      WritesOnly (Cell size) m m' ∧
        match r with
        | .ok o =>
          o = ⟨m.persistedCursor, startOf m.persistedCursor,
              if opens (startOf m.persistedCursor) entries then
                some (startOf m.persistedCursor + (Marker.size + 1)) else none⟩ ∧
            (opens (startOf m.persistedCursor) entries →
              startOf m.persistedCursor + (Marker.size + 1) ≤ size)
        | .error _ => opens (startOf m.persistedCursor) entries ∧
            size < startOf m.persistedCursor + (Marker.size + 1) := by
  refine Ends.after_ok (cursor_returns hlow hcells) ?_
  show Ends (ExceptT.run (if opens (startOf m.persistedCursor) entries then _ else _)) _ _
  by_cases hopen : opens (startOf m.persistedCursor) entries
  · have hhead : (writeAt (eeprom size) (startOf m.persistedCursor) Marker.application.bytes >>=
        fun cursor => writeAt (eeprom size) cursor [app]).run.Ends m.settled
          (WroteUpTo size (startOf m.persistedCursor + (Marker.size + 1)) m.settled) := by
      have hmarker := writeAt_ends hcells (m := m.settled) Marker.application.bytes
        (startOf_ge m.persistedCursor)
      rw [length_bytes] at hmarker
      refine WroteUpTo.bind_ends hmarker (by omega) ?_
      intro m' _
      exact writeAt_ends hcells [app] (Nat.le_add_right_of_le (startOf_ge _))
    simp only [hopen, ↓reduceIte]
    rw [← bind_assoc]
    refine Ends.bind_ok hhead ?_ ?_
    · rintro cursor m' ⟨hwrote, rfl, hfit⟩
      exact Ends.ok ⟨(WritesOnly.settled m).trans hwrote, rfl, fun _ => hfit⟩
    · rintro e m' ⟨hwrote, hshort⟩
      exact ⟨(WritesOnly.settled m).trans hwrote, trivial, hshort⟩
  · simp only [hopen, Bool.false_eq_true, ↓reduceIte]
    exact Ends.ok ⟨.settled m, rfl, nofun⟩

omit hcells in
theorem setCursor_writesOnly (cursor : Nat) :
    WritesOnly (Cell size) m
      ((m.updated Layout.cursorHigh (UInt8.ofNat (cursor / 256))).updated Layout.cursorLow
        (UInt8.ofNat cursor)) := by
  have hhigh : Cell size Layout.cursorHigh := ⟨Nat.lt_trans (by decide) hlow, .inr (.inl rfl)⟩
  exact (WritesOnly.updated _ hhigh).trans (.updated _ ⟨hlow, .inr (.inr rfl)⟩)

/-- The end of a session: it fails exactly if its end marker runs over the end of the store. -/
theorem closeSession_ends (persisted : Nat) {cursor : Nat} (hstart : Layout.logStart ≤ cursor) :
    (closeSession (eeprom size) persisted cursor).run.Ends m fun r m' =>
      WritesOnly (Cell size) m m' ∧
        ((∃ e, r = .error e) ↔ fits cursor 0 ∧ size < cursor + Marker.size) := by
  unfold closeSession
  by_cases hroom : fits cursor 0
  · rw [if_pos hroom]
    have hmarker := writeAt_ends hcells (m := m) Marker.finish.bytes hstart
    rw [length_bytes] at hmarker
    refine Ends.bind_ok hmarker ?_ ?_
    · rintro _ m' ⟨hwrote, rfl, hfit⟩
      have hnext : nextPage (cursor + Marker.size) = .ok (pageBehind (cursor + Marker.size)) :=
        nextPage_eq (fits_iff.1 hroom)
      refine Ends.after_ok (Returns.lift (Returns.checked hnext _)) ?_
      refine Ends.after_ok (setCursor_returns hlow hcells _) ?_
      refine Ends.ok ⟨hwrote.trans (setCursor_writesOnly hlow _), ?_⟩
      simp only [reduceCtorEq, exists_false, false_iff, not_and, Nat.not_lt]
      exact fun _ => hfit
    · rintro e m' ⟨hwrote, hshort⟩
      exact ⟨hwrote, fun _ => ⟨hroom, hshort⟩, fun _ => ⟨e, rfl⟩⟩
  · rw [if_neg hroom]
    refine Ends.ok ⟨.refl m, ?_⟩
    simp [hroom]

omit hlow in
/-- The exchanges of a session come to stand behind its opening, or the store ends inside them. -/
theorem writeExchanges_opening_ends (persisted : Nat) {start : Nat} (entries : List Entry)
    (app : UInt8) (hstart : Layout.logStart ≤ start)
    (hfit : opens start entries → start + (Marker.size + 1) ≤ size) :
    (writeExchanges (eeprom size) ⟨persisted, start,
      if opens start entries then some (start + (Marker.size + 1)) else none⟩ entries).run.Ends m
        fun r m' =>
          WritesOnly (Cell size) m m' ∧
            match r with
            | .ok p => p.cursor = start + (plannedBody start entries app).length
            | .error _ => opens start entries ∧
                size < start + (plannedBody start entries app).length := by
  by_cases hopen : opens start entries
  · have hlen : start + (plannedBody start entries app).length = start + (Marker.size + 1) +
        ((entries.take (fitting (start + (Marker.size + 1)) entries)).flatMap framed).length := by
      rw [plannedBody, if_pos hopen, takenCount, if_pos hopen, List.length_append,
        List.length_append, length_bytes, List.length_singleton]
      omega
    simp only [hopen, ↓reduceIte, true_and, hlen]
    refine (writeExchanges_ends hcells entries (p := { cursor := start + (Marker.size + 1) }) rfl
      (Nat.le_add_right_of_le hstart) (hfit hopen)).mono ?_
    rintro r m' ⟨hwrote, hr⟩
    cases r with
    | ok p => exact ⟨hwrote, hr.1⟩
    | error e => exact ⟨hwrote, hr⟩
  · simp only [hopen, Bool.false_eq_true, ↓reduceIte, plannedBody]
    exact Ends.ok ⟨.refl m, rfl⟩

/-- The part of a flush behind the opening fails exactly if the planned bytes run over the end of
the store. -/
theorem writeSession_ends (persisted : Nat) {start : Nat} (entries : List Entry) (app : UInt8)
    (hstart : Layout.logStart ≤ start)
    (hfit : opens start entries → start + (Marker.size + 1) ≤ size) :
    (writeSession (eeprom size) ⟨persisted, start,
      if opens start entries then some (start + (Marker.size + 1)) else none⟩ entries).run.Ends m
        fun r m' =>
          WritesOnly (Cell size) m m' ∧
            ((∃ e, r = .error e) ↔
              fits start 0 ∧ size < start + (plannedBytes start entries app).length) := by
  have hlen (hroom : fits start 0) : start + (plannedBytes start entries app).length =
      start + (plannedBody start entries app).length + Marker.size := by
    rw [plannedBytes, if_pos hroom, List.length_append, length_bytes, Nat.add_assoc]
  refine Ends.bind_ok
    (writeExchanges_opening_ends hcells persisted entries app hstart hfit) ?_ ?_
  · rintro p m' ⟨hwrote, hcursor⟩
    refine Ends.bind_ok (closeSession_ends hcells hlow persisted
      (by rw [hcursor]; exact Nat.le_add_right_of_le hstart)) ?_ ?_
    · rintro cursor m'' ⟨hmore, hclosed⟩
      refine Ends.after_ok (Returns.lift (Returns.note _ _)) (Ends.ok ⟨hwrote.trans hmore, ?_⟩)
      have hok : ¬ (fits p.cursor 0 ∧ size < p.cursor + Marker.size) := by
        intro h
        obtain ⟨e, he⟩ := hclosed.2 h
        cases he
      rw [hcursor] at hok
      constructor
      · rintro ⟨e, he⟩
        cases he
      · rintro ⟨hroom, hshort⟩
        exact absurd ⟨fits_plannedBody entries app hroom, hlen hroom ▸ hshort⟩ hok
    · rintro e m'' ⟨hmore, hclosed⟩
      obtain ⟨hroom, hshort⟩ := hclosed.1 ⟨e, rfl⟩
      rw [hcursor] at hroom hshort
      have hfirst : fits start 0 := by
        rw [fits_iff] at hroom ⊢
        omega
      exact ⟨hwrote.trans hmore, fun _ => ⟨hfirst, hlen hfirst ▸ hshort⟩, fun _ => ⟨e, rfl⟩⟩
  · rintro e m' ⟨hwrote, hopen, hshort⟩
    have hroom := opens_room hopen
    refine ⟨hwrote, fun _ => ⟨hroom, ?_⟩, fun _ => ⟨e, rfl⟩⟩
    rw [hlen hroom]
    omega

omit hlow in
/-- **A flush returns, whatever the size of the store.**  It writes only cells of its own, it fails
exactly if it overruns the store, and only then it may leave exchanges in the buffer. -/
theorem flush_ends {α : Type} (entry : α → Entry) (buffer : Buffer α) (app : UInt8) (m : Memory) :
    (flush (eeprom size) entry buffer app).Ends m fun flushed m' =>
      WritesOnly (Cell size) m m' ∧
        ((∃ e, flushed.outcome = .error e) ↔
          Overruns size m.persistedCursor (buffer.items.map entry) app) ∧
        ((∃ r, flushed.outcome = .ok r) → flushed.left = .empty) := by
  have hempty : buffer.isEmpty = (buffer.items.map entry).isEmpty := by
    simp [Buffer.isEmpty]
  unfold flush
  rw [hempty]
  generalize buffer.items.map entry = entries
  by_cases hlow : Layout.cursorLow < size
  · refine Ends.bind (openSession_ends hcells hlow app entries) ?_
    rintro r m' ⟨hwrote, hr⟩
    cases r with
    | error e =>
      obtain ⟨hopen, hshort⟩ := hr
      refine Ends.pure ⟨hwrote, ⟨fun _ => .inr ⟨opens_room hopen, ?_⟩, fun _ => ⟨e, rfl⟩⟩, nofun⟩
      rw [plannedBytes_opens app hopen, sessionBytes, List.length_append, List.length_append,
        List.length_append, length_bytes, List.length_singleton]
      omega
    | ok o =>
      obtain ⟨rfl, hfit⟩ := hr
      refine Ends.bind (writeSession_ends hcells hlow m.persistedCursor entries app
        (startOf_ge _) hfit) ?_
      rintro r m'' ⟨hmore, hfails⟩
      refine Ends.pure ⟨hwrote.trans hmore, ?_, fun _ => rfl⟩
      rw [hfails, Overruns, or_iff_right (Nat.not_le.2 hlow)]
  · have hshort := Nat.not_lt.1 hlow
    have hrefused : (openSession (eeprom size) app entries.isEmpty).run.Ends m fun r m' =>
        WritesOnly (Cell size) m m' ∧ ∃ e, r = .error e := by
      refine Ends.bind_ok (cursor_refuses hshort) ?_ ?_
      · rintro cursor m' ⟨-, e, he⟩
        cases he
      · rintro e m' ⟨hwrote, -⟩
        exact ⟨hwrote, e, rfl⟩
    refine Ends.bind hrefused ?_
    rintro r m' ⟨hwrote, e, rfl⟩
    exact Ends.pure ⟨hwrote, ⟨fun _ => .inl hshort, fun _ => ⟨e, rfl⟩⟩, nofun⟩

end Whole

end CardTap.Log
