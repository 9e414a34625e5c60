import CardTap.Proofs.Log.PowerLoss
import CardTap.Proofs.Log.Reading

/-!
# The first flush after a power loss

A flush of a blank store that is cut off leaves bytes in the log without moving the cursor, unless
it came as far as the cursor.  The next flush starts at the same place and writes over the
leftovers, but not behind its own end marker.  What is left there is read along: a leftover byte
that looks like the end marker makes the last response of the new session grow
(`sessions_after_cut`), and this is the only way in which the new session is not read back as
written (`intact_after_cut_iff`).
-/

namespace CardTap.Log

open CardTap.Run CardTap.Bench CardTap.Bench.Memory

/-! ## Leftovers -/

section Leftovers

variable {α : Type} {entry : α → Entry} {m m₁ : Memory}

/-- What a flush of a blank store that is cut off after `n` writes leaves from the next start on:
the bytes it came to write, or nothing if it came to move the cursor. -/
def leftovers (bytes : List UInt8) (n : Nat) : List UInt8 :=
  if n ≤ bytes.length then bytes.take n else []

/-- A flush of a blank store that reaches the cursor leads the next one past everything it wrote. -/
theorem le_startOf_reached {new logged n : Nat} (hlog : Layout.logStart ≤ new)
    (hend : new ≤ Layout.logEnd) (hn : logged < n) :
    new ≤ startOf (cursorReached Layout.unsetCursor new logged (some n)) := by
  have hstart (cursor : Nat) (hge : new ≤ cursor) (hset : cursor ≠ Layout.unsetCursor) :
      new ≤ startOf cursor := by
    rwa [startOf_of_le (Nat.le_trans hlog hge) hset]
  unfold Layout.logEnd at hend
  rw [cursorReached_some, if_neg (Nat.not_le.2 hn)]
  split
  · -- the low byte of the torn cursor is that of the unset one, 0xFF
    refine hstart _ ?_ ?_ <;> unfold tornCursor Layout.unsetCursor <;> omega
  · exact hstart _ (Nat.le_refl _) (by unfold Layout.unsetCursor; omega)

/-- From the next start on, the log holds the leftovers and is erased behind them. -/
theorem slice_after_cut (hblank : m.Blank) {a : Attempt α} {n : Nat} (hcut : a.cut = some n)
    (h : a.Leaves entry m m₁) :
    ∃ k, m₁.slice (startOf m₁.persistedCursor) Layout.logEnd =
      leftovers (plannedBytes Layout.logStart (a.buffer.items.map entry) a.app) n ++
        List.replicate k 0xFF := by
  have hunset : m.persistedCursor = Layout.unsetCursor := hblank.persistedCursor_eq
  have hstart : startOf m.persistedCursor = Layout.logStart := by rw [hunset, startOf_unset]
  have hcursor := h.persistedCursor
  have hlog := h.slice
  have hroom : fits Layout.logStart 0 := rfl
  have hfit := plannedBytes_fit (a.buffer.items.map entry) a.app hroom
  rw [hstart, hunset, hcut] at hcursor
  have hcells : Layout.logEnd ≤ cellCount := by decide
  simp only [hstart, hcut, landing, hblank.slice_eq hcells] at hlog
  generalize hbytes : plannedBytes Layout.logStart (a.buffer.items.map entry) a.app = bytes at *
  by_cases hn : n ≤ bytes.length
  · rw [cursorReached_some, if_pos hn] at hcursor
    rw [hcursor, leftovers, if_pos hn]
    exact ⟨_, hlog⟩
  · have hnew : plannedCursor Layout.unsetCursor (a.buffer.items.map entry) a.app =
        pageBehind (Layout.logStart + bytes.length) := by
      rw [plannedCursor, startOf_unset, if_pos hroom, hbytes]
    have hup := le_pageBehind hfit
    have hpast : Layout.logStart + bytes.length ≤ startOf m₁.persistedCursor := by
      rw [hcursor, hnew]
      exact Nat.le_trans hup (le_startOf_reached (Nat.le_trans (Nat.le_add_right _ _) hup)
        (pageBehind_le _) (Nat.not_le.1 hn))
    have hdrop := drop_slice m₁ Layout.logStart Layout.logEnd
      (startOf m₁.persistedCursor - Layout.logStart)
    rw [Nat.add_sub_cancel' (startOf_ge _), hlog, List.take_of_length_le (by omega),
      List.drop_append, List.drop_eq_nil_of_le (by omega), List.drop_replicate] at hdrop
    rw [leftovers, if_neg hn, ← hdrop]
    exact ⟨_, rfl⟩

theorem takeWhile_append_erased (bytes : List UInt8) (k : Nat) :
    (bytes ++ List.replicate k 0xFF).takeWhile (· == Marker.finish.byte) =
      bytes.takeWhile (· == Marker.finish.byte) := by
  rw [List.takeWhile_append]
  split
  · next h =>
    have hall : bytes.takeWhile (· == Marker.finish.byte) = bytes :=
      (List.takeWhile_prefix _).eq_of_length h
    rw [hall, List.takeWhile_replicate, if_neg (by decide), List.append_nil]
  · rfl

end Leftovers

/-! ## The session behind the power loss -/

section Sessions

variable {α : Type} {m : Memory}

/-- A flush that drops nothing of a buffer that is not empty writes all of it as a session. -/
theorem plannedBytes_of_kept {persisted : Nat} {entries : List Entry} (app : UInt8)
    (hne : entries ≠ []) (hkept : (planned persisted entries app).dropped = 0) :
    plannedBytes (startOf persisted) entries app = sessionBytes app entries := by
  have hall : entries.length ≤ takenCount (startOf persisted) entries :=
    Nat.le_of_sub_eq_zero hkept
  have hopen : opens (startOf persisted) entries := by
    have hpos := List.length_pos_iff.2 hne
    rw [takenCount] at hall
    split at hall
    · assumption
    · omega
  rw [plannedBytes_opens app hopen, List.take_of_length_le hall]

/-- What is read of the session that follows a power loss: the last response grows by the leftovers
right behind the end marker that look like it. -/
theorem sessions_after_cut (hblank : m.Blank) (entry : α → Entry) (first : Buffer α) (app₁ : UInt8)
    (n : Nat) (second : Buffer Exchange) (app₂ : UInt8) (hne : second.items ≠ [])
    (hclean : CleanSession second.items) :
    let bytes₁ := plannedBytes Layout.logStart (first.items.map entry) app₁
    let bytes₂ := sessionBytes app₂ (second.items.map Exchange.entry)
    let cursor := cursorReached Layout.unsetCursor
      (plannedCursor Layout.unsetCursor (first.items.map entry) app₁) bytes₁.length (some n)
    ∃ r₁ m₁ m₂,
      (Attempt.run entry ⟨first, app₁, some n⟩).Returns m (.ok r₁) m₁ ∧
      m₁.persistedCursor = cursor ∧
      (Attempt.run Exchange.entry ⟨second, app₂, none⟩).Returns m₁
        (.ok (planned cursor (second.items.map Exchange.entry) app₂)) m₂ ∧
      ((planned cursor (second.items.map Exchange.entry) app₂).dropped = 0 →
        (sessions (m₂.slice (startOf cursor) Layout.logEnd)).head? =
          some ⟨app₂, loggedWith (((leftovers bytes₁ n).drop bytes₂.length).takeWhile
            (· == Marker.finish.byte)) second.items, true⟩) := by
  intro bytes₁ bytes₂ cursor
  obtain ⟨m₁, hrun₁, -, -, hleaves₁⟩ := (Attempt.mk first app₁ (some n)).run_returns entry m
  obtain ⟨m₂, hrun₂, -, -, hleaves₂⟩ :=
    (Attempt.mk second app₂ none).run_returns Exchange.entry m₁
  obtain ⟨k, hleft⟩ := slice_after_cut hblank rfl hleaves₁
  have hcursor : m₁.persistedCursor = cursor := by
    have hvalue := hleaves₁.persistedCursor
    rw [hblank.persistedCursor_eq] at hvalue
    exact hvalue
  have hlog := hleaves₂.slice
  rw [hcursor] at hrun₂ hlog hleft
  refine ⟨_, m₁, m₂, hrun₁, hcursor, hrun₂, fun hkept => ?_⟩
  have hne' : second.items.map Exchange.entry ≠ [] := fun h => hne (List.map_eq_nil_iff.1 h)
  have hbytes := plannedBytes_of_kept app₂ hne' hkept
  have hbehind : m₁.slice (startOf cursor + bytes₂.length) Layout.logEnd =
      (leftovers bytes₁ n).drop bytes₂.length ++
        List.replicate (k - (bytes₂.length - (leftovers bytes₁ n).length)) 0xFF := by
    rw [← drop_slice, hleft, List.drop_append, List.drop_replicate]
  simp only [landing, hbytes] at hlog
  rw [hlog, hbehind, sessions_sessionBytes app₂ hclean second.items_le, takeWhile_append_erased]
  rfl

/-- **After a power loss the next session is intact, but for one leftover byte.** A blank store, a
flush that is cut off after `n` writes, and a flush of clean exchanges that drops none of them: the
first session read from the second flush on is what was flushed, unless the first flush never came
to its cursor and left a byte of the end marker's value right behind the new end marker. -/
theorem intact_after_cut_iff (hblank : m.Blank) (entry : α → Entry) (first : Buffer α)
    (app₁ : UInt8) (n : Nat) (second : Buffer Exchange) (app₂ : UInt8) (hne : second.items ≠ [])
    (hclean : CleanSession second.items) :
    ∃ r₁ m₁ m₂,
      (Attempt.run entry ⟨first, app₁, some n⟩).Returns m (.ok r₁) m₁ ∧
      let r₂ := planned m₁.persistedCursor (second.items.map Exchange.entry) app₂
      (Attempt.run Exchange.entry ⟨second, app₂, none⟩).Returns m₁ (.ok r₂) m₂ ∧
      (r₂.dropped = 0 →
        ((sessions (m₂.slice r₂.start Layout.logEnd)).head? =
            some (.written app₂ second.items) ↔
          (leftovers (plannedBytes Layout.logStart (first.items.map entry) app₁) n)[(sessionBytes
            app₂ (second.items.map Exchange.entry)).length]? ≠ some Marker.finish.byte)) := by
  obtain ⟨r₁, m₁, m₂, hrun₁, hcursor, hrun₂, hread⟩ :=
    sessions_after_cut hblank entry first app₁ n second app₂ hne hclean
  refine ⟨r₁, m₁, m₂, hrun₁, ?_⟩
  rw [hcursor]
  refine ⟨hrun₂, fun hkept => ?_⟩
  have hrest (rest : List UInt8) :
      rest.takeWhile (· == Marker.finish.byte) = [] ↔ rest.head? ≠ some Marker.finish.byte := by
    cases rest with
    | nil => simp
    | cons b rest => simp [List.takeWhile_cons]
  show (sessions (m₂.slice (startOf _) Layout.logEnd)).head? = _ ↔ _
  rw [hread hkept, Option.some_inj, ← List.head?_drop, ← hrest, ← loggedWith_eq_iff hne,
    Session.written, Session.mk.injEq]
  simp only [true_and, and_true]

/-- A long exchange, whose response ends with a byte of the end marker's value. -/
def longExchange : Exchange :=
  ⟨⟨⟨0x00, 0xB2, 0x01, 0x0C, 0x00⟩, [], by decide⟩,
    ⟨0x90, 0x00, [0x00, 0x00, 0x00, 0x00, 0x00, 0xBB], by decide⟩⟩

/-- The same command with the shortest response. -/
def shortExchange : Exchange :=
  ⟨⟨⟨0x00, 0xB2, 0x01, 0x0C, 0x00⟩, [], by decide⟩, ⟨0x90, 0x00, [], by decide⟩⟩

/-- The long exchange cut off inside its command leaves nothing that could be read along. -/
theorem intact_after_early_cut :
    ∃ r₁ m₁ m₂,
      (Attempt.run Exchange.entry ⟨⟨[longExchange], by decide⟩, 1, some 12⟩).Returns {}
        (.ok r₁) m₁ ∧
      (Attempt.run Exchange.entry ⟨⟨[shortExchange], by decide⟩, 2, none⟩).Returns m₁
        (.ok ⟨0x80, 0xA0, 1, 0, 0⟩) m₂ ∧
      (sessions (m₂.slice 0x80 Layout.logEnd)).head? = some (.written 2 [shortExchange]) := by
  obtain ⟨r₁, m₁, m₂, hrun₁, hrun₂, hread⟩ := intact_after_cut_iff blank_default Exchange.entry
    ⟨[longExchange], by decide⟩ 1 12 ⟨[shortExchange], by decide⟩ 2 (by decide)
    (by decide)
  -- the power is lost before the cursor is reached
  obtain ⟨m, hfirst, -, -, hleaves⟩ :=
    (Attempt.mk ⟨[longExchange], by decide⟩ 1 (some 12)).run_returns Exchange.entry {}
  obtain ⟨-, rfl⟩ := hrun₁.unique hfirst
  have hcursor : m₁.persistedCursor = Layout.unsetCursor := by
    rw [hleaves.persistedCursor, blank_default.persistedCursor_eq]
    decide
  have hreport : planned Layout.unsetCursor ([shortExchange].map Exchange.entry) 2 =
      ⟨0x80, 0xA0, 1, 0, 0⟩ := by decide
  rw [hcursor, hreport] at hrun₂ hread
  exact ⟨r₁, m₁, m₂, hrun₁, hrun₂, (hread rfl).2 (by decide)⟩

/-- Cut off right behind its last response, the long exchange leaves one byte behind the short one,
and the response of the short one is read with that byte. -/
theorem leftover_joins_response :
    ∃ r₁ m₁ m₂,
      (Attempt.run Exchange.entry ⟨⟨[longExchange], by decide⟩, 1, some 29⟩).Returns {}
        (.ok r₁) m₁ ∧
      (Attempt.run Exchange.entry ⟨⟨[shortExchange], by decide⟩, 2, none⟩).Returns m₁
        (.ok ⟨0x80, 0xA0, 1, 0, 0⟩) m₂ ∧
      CleanSession [shortExchange] ∧
      (sessions (m₂.slice 0x80 Layout.logEnd)).head? =
        some ⟨2, [⟨some [0x00, 0xB2, 0x01, 0x0C, 0x00], some [0x90, 0x00, 0xBB]⟩], true⟩ ∧
      (sessions (m₂.slice 0x80 Layout.logEnd)).head? ≠ some (.written 2 [shortExchange]) := by
  obtain ⟨r₁, m₁, m₂, hrun₁, -, hrun₂, hread⟩ := sessions_after_cut blank_default
    Exchange.entry ⟨[longExchange], by decide⟩ 1 29 ⟨[shortExchange], by decide⟩ 2 (by decide)
    (by decide)
  have hreport : planned (cursorReached Layout.unsetCursor
      (plannedCursor Layout.unsetCursor ([longExchange].map Exchange.entry) 1)
      (plannedBytes Layout.logStart ([longExchange].map Exchange.entry) 1).length (some 29))
      ([shortExchange].map Exchange.entry) 2 = ⟨0x80, 0xA0, 1, 0, 0⟩ := by decide
  rw [hreport] at hrun₂ hread
  have hfirst := hread rfl
  refine ⟨r₁, m₁, m₂, hrun₁, hrun₂, by decide, hfirst, fun h => ?_⟩
  exact absurd (hfirst.symm.trans h) (by decide)

end Sessions

end CardTap.Log
