import CardTap.Proofs.Bench.PlainArray

/-!
# The factory reset

What a factory reset leaves in a store of any size, and how many writes it takes.  The erase skips
the cells that are erased already, and each of the five default bytes differs from an erased cell,
so that a reset behind a reset erases five cells and writes them again.
-/

namespace CardTap.Bench.Memory

open CardTap.Run

variable {size : Nat} {m : Memory}

/-! ## Writes -/

section Writes

theorem writes_updated_of_ne {addr : Nat} {b : UInt8} (h : m.cell? addr ≠ some b) :
    (m.updated addr b).writes = m.writes + 1 := by
  simp [updated, h]

/-- Cells that do not hold their new values yet take one write each. -/
theorem writes_updatedAll_of_ne {ws : List (Nat × UInt8)} (hdistinct : (ws.map Prod.fst).Nodup)
    (hchanged : ∀ w ∈ ws, m.cell? w.1 ≠ some w.2) :
    (m.updatedAll ws).writes = m.writes + ws.length := by
  induction ws generalizing m with
  | nil => rfl
  | cons w ws ih =>
    simp only [List.map_cons, List.nodup_cons, List.mem_map, not_exists, not_and] at hdistinct
    have hfirst := writes_updated_of_ne (hchanged w List.mem_cons_self)
    have hrest : ∀ v ∈ ws, (m.updated w.1 w.2).cell? v.1 ≠ some v.2 := by
      intro v hv
      rw [cell?_updated_of_ne w.2 (hdistinct.1 v hv)]
      exact hchanged v (List.mem_cons_of_mem w hv)
    rw [updatedAll_cons, ih hdistinct.2 hrest, hfirst, List.length_cons]
    omega

theorem countP_zip_replicate (l : List UInt8) (b : UInt8) :
    ((l.zip (List.replicate l.length b)).countP fun w => w.1 != w.2) = l.countP (· != b) := by
  induction l with
  | nil => rfl
  | cons a l ih => simp [List.replicate_succ, List.countP_cons, ih]

/-- An erase takes a write for each cell that is not erased yet. -/
theorem writes_erased (hcells : size ≤ cellCount) :
    (m.erased size).writes = m.writes + (m.slice 0 size).countP (· != 0xFF) := by
  have hfit : 0 + (List.replicate size (0xFF : UInt8)).length ≤ size := by simp
  have hlen : (m.slice 0 size).length = size := m.length_slice hcells
  have hcount := countP_zip_replicate (m.slice 0 size) 0xFF
  rw [hlen] at hcount
  rw [erased, writes_updatedAll_placed hfit hcells, Store.Plain.differing, drop_plain, hcount]

/-- None of the default bytes is in its place after an erase. -/
theorem writes_defaults (hpower : m.budget = none) (hsize : Layout.cursorLow < size)
    (hcells : size ≤ cellCount) :
    (m.defaults size).writes = m.writes + (m.slice 0 size).countP (· != 0xFF) + 5 := by
  rw [defaults, writes_settled, writes_updatedAll_of_ne (by decide), writes_erased hcells]
  · rfl
  · intro w hw
    have hw₁ : w.1 ≤ Layout.cursorLow ∧ w.2 ≠ 0xFF := by
      revert w
      decide
    rw [cell?_erased hpower hcells (Nat.lt_of_le_of_lt hw₁.1 hsize)]
    simpa using hw₁.2.symm

end Writes

/-! ## Cells -/

section Cells

/-- A factory reset leaves the cells behind the store alone. -/
theorem cell?_defaults_behind (hsize : Layout.cursorLow < size) {i : Nat} (hi : size ≤ i) :
    (m.defaults size).cell? i = m.cell? i := by
  rw [defaults, cell?_settled, cell?_updatedAll_of_ne, erased, cell?_updatedAll_of_ne]
  · intro w hw
    have hlt := (mem_placed hw).2
    rw [List.length_replicate] at hlt
    omega
  · intro w hw
    have hle : w.1 ≤ Layout.cursorLow := by
      revert w
      decide
    omega

/-- Five cells are not erased after a factory reset. -/
theorem countP_slice_defaults (hpower : m.budget = none) (hsize : Layout.cursorLow < size)
    (hcells : size ≤ cellCount) :
    ((m.defaults size).slice 0 size).countP (· != 0xFF) = 5 := by
  have hfront : (m.defaults size).slice 0 (Layout.cursorLow + 1) =
      (List.range' 0 (Layout.cursorLow + 1)).map defaultByte :=
    slice_eq_map _ fun i _ hi => cell?_defaults_eq hpower hcells (Nat.lt_of_lt_of_le hi hsize)
  have hback : (m.defaults size).slice (Layout.cursorLow + 1) size =
      List.replicate (size - (Layout.cursorLow + 1)) 0xFF := by
    apply slice_eq_replicate
    intro i hi hlt
    rw [cell?_defaults_eq hpower hcells hlt, defaultByte_of_lt hi]
  rw [← slice_append _ (Nat.zero_le _) hsize hcells, List.countP_append, hfront, hback]
  simp only [List.countP_replicate, bne_self_eq_false, Bool.false_eq_true, ↓reduceIte]
  decide

end Cells

/-! ## The reset -/

/-- What a factory reset of the first `size` cells leaves. -/
structure Reset (size : Nat) (m m' : Memory) : Prop where
  cells : ∀ i < size, m'.cell? i = some (defaultByte i)
  behind : ∀ i, size ≤ i → m'.cell? i = m.cell? i
  idle : m'.busyPolls = 0
  writes : m'.writes = m.writes + (m.slice 0 size).countP (· != 0xFF) + 5

theorem reset_defaults (hpower : m.budget = none) (hsize : Layout.cursorLow < size)
    (hcells : size ≤ cellCount) : Reset size m (m.defaults size) where
  cells _ hi := cell?_defaults_eq hpower hcells hi
  behind _ hi := cell?_defaults_behind hsize hi
  idle := rfl
  writes := writes_defaults hpower hsize hcells

/-- **A factory reset restores the defaults.**  In a store of any size that has room for them, from
any content, and also while a write is in progress, it erases every cell and writes the five default
bytes, and starts no write that is not needed for that.  A second one changes no cell. -/
theorem factory_reset_restores (hsize : Layout.cursorLow < size) (hcells : size ≤ cellCount)
    (hpower : m.budget = none) :
    ∃ m', (Settings.factoryReset (eeprom size)).run.Returns m (.ok ()) m' ∧ Reset size m m' ∧
      ∃ m'', (Settings.factoryReset (eeprom size)).run.Returns m' (.ok ()) m'' ∧
        (∀ i, m''.cell? i = m'.cell? i) ∧ m''.writes = m'.writes + 10 := by
  have hreset := reset_defaults hpower hsize hcells
  have hagain := reset_defaults (m := m.defaults size) (budget_defaults hpower) hsize hcells
  refine ⟨_, factoryReset_returns hsize hcells, hreset, _, factoryReset_returns hsize hcells,
    ?_, ?_⟩
  · intro i
    by_cases hi : i < size
    · rw [hagain.cells i hi, hreset.cells i hi]
    · exact hagain.behind i (Nat.le_of_not_lt hi)
  · rw [hagain.writes, countP_slice_defaults hpower hsize hcells]

/-- In a store that ends within a chunk, while a write is in progress. -/
theorem factory_reset_restores_short_store :
    Layout.cursorLow < 0x4B ∧ 0x4B ≤ cellCount ∧ ({ busyPolls := 2 } : Memory).budget = none ∧
      ∃ m', (Settings.factoryReset (eeprom 0x4B)).run.Returns { busyPolls := 2 } (.ok ()) m' ∧
        m'.cell? 0x49 = some 0x80 ∧ m'.cell? 0x4A = some 0xFF ∧ m'.writes = 5 := by
  have hsize : Layout.cursorLow < 0x4B := by decide
  have hcells : 0x4B ≤ cellCount := by decide
  have hblank : ({ busyPolls := 2 } : Memory).Blank := blank_default
  obtain ⟨m', hrun, hreset, -⟩ := factory_reset_restores (m := { busyPolls := 2 }) hsize hcells rfl
  refine ⟨hsize, hcells, rfl, m', hrun, hreset.cells _ (by decide), hreset.cells _ (by decide), ?_⟩
  rw [hreset.writes, hblank.slice_eq hcells]
  decide

end CardTap.Bench.Memory
