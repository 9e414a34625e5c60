import CardTap.Proofs.Bench.Memory
import CardTap.Proofs.Run
import CardTap.Store.Settings

/-!
# Accesses to the simulated store

An access that fits into the store never halts: it returns, and its effect on the store is a row of
single writes.  This holds for every size of the store, every content and every power budget, and
also when the access finds a write in progress.
-/

namespace CardTap.Store

open CardTap.Run

variable {σ : Type} {e : Eeprom σ} {m : σ} {start len : Nat}

/-- An access that fits passes its check. -/
theorem check_returns (h : start + len ≤ e.size) :
    (check e start len).run.Returns m (.ok ()) m := by
  unfold check
  rw [if_pos h]
  exact Returns.ok () m

/-- An access that does not fit is refused and leaves the store alone. -/
theorem check_refuses (h : e.size < start + len) :
    (check e start len).run.Returns m (.error (.overflow e.size (start + len))) m := by
  unfold check
  rw [if_neg (Nat.not_le.2 h)]
  exact Returns.throw _ m

end CardTap.Store

namespace CardTap.Bench.Memory

open CardTap.Run

variable {size : Nat} {m : Memory}

/-! ## Primitives -/

section Primitives

theorem polled_returns : (eeprom size).busy.Returns m (polled m).1 (polled m).2 :=
  Returns.step polled m

theorem fetch_returns {addr : Nat} {b : UInt8} (hidle : m.busyPolls = 0)
    (hb : m.cell? addr = some b) : ((eeprom size).read addr).Returns m b m := by
  refine Returns.bind (Returns.read id m) ?_
  simp only [id_eq, hidle, ne_eq, not_true_eq_false, ↓reduceIte, hb]
  exact Returns.pure b m

theorem store_returns {addr : Nat} (b : UInt8) (hfit : addr < cellCount) :
    (store addr b).Returns m () (m.poke addr b) := by
  unfold store
  rw [if_pos hfit]
  exact Returns.change _ m

theorem beginWrite_returns {addr : Nat} (b : UInt8) (hidle : m.busyPolls = 0)
    (hfit : addr < cellCount) :
    ((eeprom size).beginWrite addr b).Returns m () (m.programmed addr b) := by
  refine Returns.bind (Returns.read _ m) ?_
  simp only [hidle, ne_eq, not_true_eq_false, ↓reduceIte]
  refine Returns.bind (Returns.change _ m) (Returns.bind (Returns.read _ _) ?_)
  cases hm : m.budget with
  | none =>
    simp only
    have h := store_returns (m := { m with writes := m.writes + 1, busyPolls := pollsPerWrite })
      b hfit
    simpa [programmed, poke, hm] using h
  | some n =>
    cases n with
    | zero =>
      simp only
      have h := Returns.pure () { m with writes := m.writes + 1, busyPolls := pollsPerWrite }
      simpa [programmed, hm] using h
    | succ n =>
      simp only
      refine Returns.bind (Returns.change _ _) ?_
      have h := store_returns
        (m := { m with writes := m.writes + 1, busyPolls := pollsPerWrite, budget := some n })
        b hfit
      simpa [programmed, poke, hm] using h

end Primitives

/-! ## Bounds-checked accesses -/

section Checked

theorem poll_returns {n : Nat} (h : m.busyPolls < n) :
    (Store.poll (eeprom size) n).Returns m () m.settled := by
  induction n generalizing m with
  | zero => omega
  | succ n ih =>
    refine Returns.bind polled_returns ?_
    cases hm : m.busyPolls with
    | zero =>
      have hsettled : m.settled = m := by rw [settled, ← hm]
      rw [hsettled]
      simp only [polled, hm, Bool.false_eq_true, ↓reduceIte]
      exact Returns.pure () m
    | succ left =>
      simp only [polled, hm, ↓reduceIte]
      exact ih (m := { m with busyPolls := left }) (by show left < n; omega)

theorem sync_returns : (Store.sync (eeprom size)).Returns m () m.settled :=
  Returns.bind (Returns.read _ m) (poll_returns (Nat.lt_succ_self _))

theorem readByte_returns {addr : Nat} {b : UInt8} (hsize : addr < size)
    (hb : m.cell? addr = some b) :
    (Store.readByte (eeprom size) addr).run.Returns m (.ok b) m.settled :=
  Returns.bind_ok (Store.check_returns hsize) (Returns.bind_ok (Returns.lift sync_returns)
    (Returns.lift (fetch_returns rfl hb)))

theorem writeFrom_returns {addr : Nat} (bytes : List UInt8)
    (hfit : addr + bytes.length ≤ cellCount) :
    (Store.writeFrom (eeprom size) addr bytes).Returns m ()
      (m.programmedAll (placed addr bytes)) := by
  induction bytes generalizing m addr with
  | nil => exact Returns.pure () m
  | cons b bytes ih =>
    rw [List.length_cons] at hfit
    exact Returns.bind sync_returns (Returns.bind (beginWrite_returns b rfl (by omega))
      (ih (by omega)))

theorem write_returns {start : Nat} (bytes : List UInt8) (hsize : start + bytes.length ≤ size)
    (hcells : size ≤ cellCount) :
    (Store.write (eeprom size) start bytes).run.Returns m (.ok ())
      (m.programmedAll (placed start bytes)) :=
  Returns.bind_ok (Store.check_returns hsize)
    (Returns.lift (writeFrom_returns bytes (Nat.le_trans hsize hcells)))

/-- An update answers the number of writes that it started. -/
theorem updateFrom_returns {addr : Nat} (written : Nat) (bytes : List UInt8)
    (hfit : addr + bytes.length ≤ cellCount) :
    ∃ n, (Store.updateFrom (eeprom size) written addr bytes).Returns m (written + n)
      (m.updatedAll (placed addr bytes)) ∧
        (m.updatedAll (placed addr bytes)).writes = m.writes + n := by
  induction bytes generalizing m addr written with
  | nil => exact ⟨0, Returns.pure written m, rfl⟩
  | cons b bytes ih =>
    rw [List.length_cons] at hfit
    obtain ⟨old, hold⟩ := m.exists_cell (i := addr) (by omega)
    by_cases h : old = b
    · have hkept : m.updated addr b = m.settled := by rw [updated, if_pos (by rw [hold, h])]
      obtain ⟨n, hn, hwrites⟩ := ih (m := m.settled) written
        (show addr + 1 + bytes.length ≤ cellCount by omega)
      refine ⟨n, ?_, ?_⟩
      · refine Returns.bind sync_returns (Returns.bind (fetch_returns rfl hold) ?_)
        show Returns (if old = b then _ else _) _ _ ((m.updated addr b).updatedAll _)
        rw [if_pos h, hkept]
        exact hn
      · show ((m.updated addr b).updatedAll _).writes = _
        rw [hkept, hwrites, writes_settled]
    · have hput : m.updated addr b = m.settled.programmed addr b := by
        rw [updated, if_neg (by rw [hold]; simpa using h), programmed_settled]
      obtain ⟨n, hn, hwrites⟩ := ih (m := m.settled.programmed addr b) (written + 1)
        (show addr + 1 + bytes.length ≤ cellCount by omega)
      refine ⟨n + 1, ?_, ?_⟩
      · refine Returns.bind sync_returns (Returns.bind (fetch_returns rfl hold) ?_)
        show Returns (if old = b then _ else _) _ _ ((m.updated addr b).updatedAll _)
        rw [if_neg h, hput, Nat.add_comm n 1, ← Nat.add_assoc]
        exact Returns.bind (beginWrite_returns b rfl (by omega)) hn
      · show ((m.updated addr b).updatedAll _).writes = _
        rw [hput, hwrites, writes_programmed, writes_settled]
        omega

theorem update_returns {start : Nat} (bytes : List UInt8) (hsize : start + bytes.length ≤ size)
    (hcells : size ≤ cellCount) :
    ∃ n, (Store.update (eeprom size) start bytes).run.Returns m (.ok n)
      (m.updatedAll (placed start bytes)) ∧
        (m.updatedAll (placed start bytes)).writes = m.writes + n := by
  obtain ⟨n, hn, hwrites⟩ : ∃ n, (Store.updateFrom (eeprom size) 0 start bytes).Returns m (0 + n)
      (m.updatedAll (placed start bytes)) ∧ _ :=
    updateFrom_returns 0 bytes (Nat.le_trans hsize hcells)
  rw [Nat.zero_add] at hn
  exact ⟨n, Returns.bind_ok (Store.check_returns hsize) (Returns.lift hn), hwrites⟩

theorem update_one_returns {addr : Nat} (b : UInt8) (hsize : addr < size)
    (hcells : size ≤ cellCount) :
    (do let _ ← Store.update (eeprom size) addr [b] : StoreRun Memory Unit).run.Returns m (.ok ())
      (m.updated addr b) := by
  obtain ⟨n, hn, -⟩ := update_returns (m := m) [b] (show addr + [b].length ≤ size from hsize) hcells
  exact Returns.bind_ok hn (Returns.ok () _)

end Checked

end CardTap.Bench.Memory
