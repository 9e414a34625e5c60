import CardTap.Proofs.Log.AppendOnly
import CardTap.Proofs.Log.Recovery

/-!
# What a flush leaves

The effect of a flush with the power on, told from the store and the buffer alone: which of its
three ways the flush takes, how many exchanges it writes, which bytes come to stand where, and what
it reports.  The count is the largest one that leaves room for the end marker (`Fills`): an exchange
that finds no room ends the session, and since the room only shrinks, no larger number would fit.
-/

namespace CardTap

/-- The bytes that an exchange takes in the log, its two markers included. -/
def Exchange.logSize (x : Exchange) : Nat := 10 + x.command.bytes.length + x.response.bytes.length

namespace Log

open CardTap.Run CardTap.Bench CardTap.Bench.Memory

/-! ## How many exchanges are written -/

section Count

variable {start : Nat} {exchanges : List Exchange}

/-- The bytes that the first `k` exchanges take in the log. -/
def takenSize (exchanges : List Exchange) (k : Nat) : Nat :=
  ((exchanges.take k).map Exchange.logSize).sum

/-- `k` is the largest number of exchanges of a session from `start` on that leave room for the end
marker; the application record and the end marker take eleven bytes. -/
structure Fills (start : Nat) (exchanges : List Exchange) (k : Nat) : Prop where
  le_length : k ≤ exchanges.length
  room : start + 11 + takenSize exchanges k ≤ Layout.logEnd
  greatest : ∀ j, j ≤ exchanges.length → start + 11 + takenSize exchanges j ≤ Layout.logEnd → j ≤ k

theorem Fills.unique {j k : Nat} (hj : Fills start exchanges j) (hk : Fills start exchanges k) :
    j = k :=
  Nat.le_antisymm (hk.greatest j hj.le_length hj.room) (hj.greatest k hk.le_length hk.room)

theorem length_framed_entry (x : Exchange) : (framed x.entry).length = x.logSize := by
  rw [length_framed, Exchange.entry, recordSize, recordSize, Exchange.logSize, Marker.size]
  omega

theorem length_flatMap_framed (exchanges : List Exchange) (k : Nat) :
    (((exchanges.map Exchange.entry).take k).flatMap framed).length = takenSize exchanges k := by
  rw [← List.map_take, takenSize, List.length_flatMap, List.map_map]
  exact congrArg List.sum (List.map_congr_left fun x _ => length_framed_entry x)

theorem fitting_le_length (cursor : Nat) (entries : List Entry) :
    fitting cursor entries ≤ entries.length := by
  induction entries generalizing cursor with
  | nil => exact Nat.le_refl _
  | cons x rest ih =>
    rw [fitting]
    split
    · exact Nat.succ_le_succ (ih _)
    · exact Nat.zero_le _

/-- No larger number of exchanges leaves room for the end marker. -/
theorem le_fitting {cursor : Nat} {entries : List Entry} {j : Nat} (hj : j ≤ entries.length)
    (hroom : fits (cursor + ((entries.take j).flatMap framed).length) 0) :
    j ≤ fitting cursor entries := by
  induction entries generalizing cursor j with
  | nil => exact hj
  | cons x rest ih =>
    cases j with
    | zero => exact Nat.zero_le _
    | succ j =>
      rw [List.take_succ_cons, List.flatMap_cons, List.length_append, ← Nat.add_assoc] at hroom
      have hx : fits cursor (framed x).length := by
        rw [fits_iff] at hroom ⊢
        omega
      rw [fitting, if_pos hx]
      exact Nat.succ_le_succ (ih (Nat.le_of_succ_le_succ hj) hroom)

theorem opens_iff {start : Nat} {entries : List Entry} :
    opens start entries ↔ entries ≠ [] ∧ start + 11 ≤ Layout.logEnd := by
  rw [opens, Bool.and_eq_true, fits_iff, Marker.size]
  simp

/-- A flush that opens a session writes as many exchanges as the room takes. -/
theorem fills_takenCount (hopen : opens start (exchanges.map Exchange.entry)) :
    Fills start exchanges (takenCount start (exchanges.map Exchange.entry)) := by
  have hfirst : fits (start + (Marker.size + 1)) 0 := opens_fits hopen
  rw [takenCount, if_pos hopen]
  refine ⟨?_, ?_, fun j hj hroom => ?_⟩
  · exact List.length_map Exchange.entry ▸ fitting_le_length _ _
  · have hall := fits_iff.1 (fits_fitting (exchanges.map Exchange.entry) hfirst)
    rw [length_flatMap_framed, Marker.size] at hall
    rw [Marker.size]
    omega
  · refine le_fitting (by rwa [List.length_map]) ?_
    rw [length_flatMap_framed, fits_iff, Marker.size]
    omega

end Count

/-! ## What comes to stand in the store -/

section Store

variable {m m' : Memory}

/-- The bytes were written from `start` on and the cursor behind them, and nothing else was. -/
structure Wrote (m m' : Memory) (start : Nat) (bytes : List UInt8) (cursor : Nat) : Prop where
  cells : ∀ i, i ≠ Layout.cursorHigh → i ≠ Layout.cursorLow →
    m'.cell? i = if start ≤ i ∧ i < start + bytes.length then bytes[i - start]? else m.cell? i
  persisted : m'.persistedCursor = cursor
  writes : m'.writes = m.writes + bytes.length + (cursorWrites m cursor).length
  page : cursor = pageBehind (start + bytes.length)
  aligned : Layout.pageSize ∣ cursor
  above : start < cursor
  behind : start + bytes.length ≤ cursor
  inside : cursor ≤ Layout.logEnd

theorem pageSize_dvd_pageBehind (cursor : Nat) : Layout.pageSize ∣ pageBehind cursor := by
  simp only [pageBehind, Layout.pageSize, Layout.logEnd]
  omega

/-- The planned writes of a flush with room for its end marker. -/
theorem wrote_of_settled (hpower : m.budget = none) (entries : List Entry) (app : UInt8)
    (hroom : fits (startOf m.persistedCursor) 0)
    (h : m'.settled = (m.programmedAll (flushWrites m entries app)).settled) :
    Wrote m m' (startOf m.persistedCursor) (plannedBytes (startOf m.persistedCursor) entries app)
      (plannedCursor m.persistedCursor entries app) := by
  have hfit := plannedBytes_fit entries app hroom
  have hcells : Layout.logEnd ≤ cellCount := by decide
  have hpage : plannedCursor m.persistedCursor entries app = pageBehind
      (startOf m.persistedCursor +
        (plannedBytes (startOf m.persistedCursor) entries app).length) := if_pos hroom
  obtain ⟨habove, hinside⟩ := plannedCursor_of_fits entries app hroom
  refine ⟨fun i hhigh hlow => ?_, ?_, ?_, hpage, ?_, habove, ?_, hinside⟩
  · rw [cell?_of_settled h, flushWrites, programmedAll_append, cell?_programmedAll_of_ne,
      cell?_programmedAll_placed m (Nat.le_trans hfit hcells), hpower]
    · rfl
    · intro w hw
      rcases mem_cursorWrites hw with h | h
      · exact h ▸ hhigh.symm
      · exact h ▸ hlow.symm
  · have hcursor := persistedCursor_flushWrites (m := m) entries app
    rw [hpower] at hcursor
    exact (persistedCursor_congr (cell?_of_settled h _) (cell?_of_settled h _)).trans hcursor
  · have hwrites := congrArg Memory.writes h
    rw [writes_settled, writes_settled, writes_programmedAll, flushWrites, List.length_append,
      length_placed] at hwrites
    rw [hwrites, Nat.add_assoc]
  · exact hpage ▸ pageSize_dvd_pageBehind _
  · exact hpage ▸ le_pageBehind hfit

/-- Captured exchanges have both their halves, so nothing is skipped. -/
theorem skipped_planned (persisted : Nat) (exchanges : List Exchange) (app : UInt8) :
    (planned persisted (exchanges.map Exchange.entry) app).skipped = 0 := by
  rw [planned]
  split
  · have hwhole : missing ∘ Exchange.entry = fun _ => 0 := rfl
    rw [List.map_take, List.map_map, hwhole, List.map_const', List.take_replicate,
      List.sum_replicate_nat, Nat.mul_zero]
  · rfl

/-- **What a flush does.** It returns, empties the buffer and takes one of three ways: without room
for an end marker it writes nothing, without exchanges or without room for an application record it
writes an end marker only, and otherwise it writes a session of as many exchanges as the room
takes. -/
theorem flush_effect (hpower : m.budget = none) (buffer : Buffer Exchange) (app : UInt8) :
    let start := startOf m.persistedCursor
    let n := buffer.items.length
    ∃ r m', (flush (eeprom cellCount) Exchange.entry buffer app).Returns m ⟨.ok r, .empty⟩ m' ∧
      r.start = start ∧ r.skipped = 0 ∧
      if Layout.logEnd < start + 5 then
        m'.writes = m.writes ∧ (∀ i, m'.cell? i = m.cell? i) ∧
          r.cursor = m.persistedCursor ∧ r.written = 0 ∧ r.dropped = n
      else if n = 0 ∨ Layout.logEnd < start + 11 then
        Wrote m m' start Marker.finish.bytes r.cursor ∧ r.written = 0 ∧ r.dropped = n
      else
        ∃ k, Fills start buffer.items k ∧
          Wrote m m' start (sessionBytes app ((buffer.items.take k).map Exchange.entry)) r.cursor ∧
          r.written = k ∧ r.dropped = n - k := by
  intro start n
  obtain ⟨m', hrun, hm'⟩ := flush_returns (show Layout.logEnd ≤ cellCount by decide)
    (Nat.le_refl _) Exchange.entry buffer app m
  have hskipped := skipped_planned m.persistedCursor buffer.items app
  have hdropped : (planned m.persistedCursor (buffer.items.map Exchange.entry) app).dropped =
      n - takenCount start (buffer.items.map Exchange.entry) := by
    rw [planned, List.length_map]
  refine ⟨_, m', hrun, rfl, hskipped, ?_⟩
  by_cases hroom : fits start 0
  · have hwrote := wrote_of_settled hpower (buffer.items.map Exchange.entry) app hroom hm'
    rw [if_neg (Nat.not_lt.2 (fits_iff.1 hroom))]
    by_cases hopen : opens start (buffer.items.map Exchange.entry)
    · obtain ⟨hne, hfirst⟩ := opens_iff.1 hopen
      rw [ne_eq, List.map_eq_nil_iff, ← ne_eq, ← List.length_pos_iff] at hne
      rw [if_neg (by omega)]
      refine ⟨_, fills_takenCount hopen, ?_, rfl, hdropped⟩
      rw [List.map_take, ← plannedBytes_opens app hopen]
      exact hwrote
    · have hnone : takenCount start (buffer.items.map Exchange.entry) = 0 := if_neg hopen
      have hbytes : plannedBytes start (buffer.items.map Exchange.entry) app =
          Marker.finish.bytes := by
        rw [plannedBytes, if_pos hroom, plannedBody, if_neg hopen, List.nil_append]
      have hcase : n = 0 ∨ Layout.logEnd < start + 11 := by
        rw [opens_iff, ne_eq, List.map_eq_nil_iff, ← ne_eq, ← List.length_pos_iff] at hopen
        omega
      rw [if_pos hcase]
      exact ⟨hbytes ▸ hwrote, hnone, by rw [hdropped, hnone, Nat.sub_zero]⟩
  · have hnone : takenCount start (buffer.items.map Exchange.entry) = 0 :=
      if_neg fun hopen => hroom (opens_room hopen)
    have hkept : plannedCursor m.persistedCursor (buffer.items.map Exchange.entry) app =
        m.persistedCursor := plannedCursor_of_full _ app hroom
    have hwrites : flushWrites m (buffer.items.map Exchange.entry) app = [] := by
      rw [flushWrites, plannedBytes_eq_nil _ app hroom, hkept, cursorWrites_persisted]
      rfl
    rw [hwrites] at hm'
    have hfull : Layout.logEnd < start + 5 := Nat.lt_of_not_le fun h => hroom (fits_iff.2 h)
    rw [if_pos hfull]
    have hstarted := congrArg Memory.writes hm'
    rw [writes_settled, writes_settled] at hstarted
    exact ⟨hstarted, cell?_of_settled hm', hkept, hnone, by rw [hdropped, hnone, Nat.sub_zero]⟩

/-- An erased store but for the cursor, which leaves room for one short exchange. -/
def nearlyFull : Memory :=
  (({} : Memory).updated Layout.cursorHigh 0x0F).updated Layout.cursorLow 0xC0

theorem budget_nearlyFull : nearlyFull.budget = none :=
  budget_updated_of_none (budget_updated_of_none rfl _ _) _ _

theorem persistedCursor_nearlyFull : nearlyFull.persistedCursor = 0xFC0 := by
  have hpower : (({} : Memory).updated Layout.cursorHigh 0x0F).budget = none :=
    budget_updated_of_none rfl _ _
  have hhigh : nearlyFull.cell? Layout.cursorHigh = some 0x0F := by
    rw [nearlyFull, cell?_updated_of_ne _ (by decide), cell?_updated rfl,
      if_pos ⟨rfl, by decide⟩]
  have hlow : nearlyFull.cell? Layout.cursorLow = some 0xC0 := by
    rw [nearlyFull, cell?_updated hpower, if_pos ⟨rfl, by decide⟩]
  rw [persistedCursor, byteAt, byteAt, hhigh, hlow]
  rfl

/-- Of two exchanges the first still fits and the second is dropped. -/
theorem flush_effect_nearlyFull :
    ∃ m', (flush (eeprom cellCount) Exchange.entry
        ⟨[shortExchange, shortExchange], by decide⟩ 3).Returns nearlyFull
          ⟨.ok ⟨0xFC0, 0xFE0, 1, 0, 1⟩, .empty⟩ m' ∧
      Wrote nearlyFull m' 0xFC0 (sessionBytes 3 [shortExchange.entry]) 0xFE0 := by
  have heffect := flush_effect budget_nearlyFull ⟨[shortExchange, shortExchange], by decide⟩ 3
  have hfirst : startOf nearlyFull.persistedCursor = 0xFC0 := by
    rw [persistedCursor_nearlyFull, startOf_of_le (by decide) (by decide)]
  have hroom : ¬ Layout.logEnd < 0xFC0 + 5 := by decide
  have hopen : ¬ ([shortExchange, shortExchange].length = 0 ∨ Layout.logEnd < 0xFC0 + 11) := by
    decide
  simp only [hfirst, hroom, hopen, ↓reduceIte] at heffect
  obtain ⟨⟨start, cursor, written, skipped, dropped⟩, m', hrun, rfl, rfl, k, hfills, hwrote,
    hwritten, hdropped⟩ := heffect
  obtain rfl : k = 1 := hfills.unique ⟨by decide, by decide, by decide⟩
  have hcursor : cursor = 0xFE0 := hwrote.page
  subst hwritten hdropped hcursor
  exact ⟨m', hrun, hwrote⟩

end Store

end Log

end CardTap
