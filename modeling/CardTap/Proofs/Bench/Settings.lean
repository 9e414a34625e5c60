import CardTap.Proofs.Bench.Access

/-!
# The persisted values in the simulated store

Reading and setting the persisted values, and the factory reset, as effects on the cells.  The log
cursor is two cells that are set one after the other; everything said about a torn cursor starts
from `cursor_returns` and `setCursor_returns`.
-/

namespace CardTap.Bench.Memory

open CardTap.Run

variable {size : Nat} {m : Memory}

/-! ## Cells as values -/

section Values

/-- The value of a cell, erased where there is none. -/
def byteAt (m : Memory) (i : Nat) : UInt8 := (m.cell? i).getD 0xFF

/-- The log cursor that the cells hold. -/
def persistedCursor (m : Memory) : Nat :=
  Settings.cursorOf (m.byteAt Layout.cursorHigh) (m.byteAt Layout.cursorLow)

theorem cell?_eq_byteAt (m : Memory) {i : Nat} (h : i < cellCount) :
    m.cell? i = some (m.byteAt i) := by
  obtain ⟨b, hb⟩ := m.exists_cell h
  rw [byteAt, hb, Option.getD_some]

theorem byteAt_congr {m' : Memory} {i : Nat} (h : m'.cell? i = m.cell? i) :
    m'.byteAt i = m.byteAt i := by
  rw [byteAt, byteAt, h]

theorem persistedCursor_congr {m' : Memory}
    (hhigh : m'.cell? Layout.cursorHigh = m.cell? Layout.cursorHigh)
    (hlow : m'.cell? Layout.cursorLow = m.cell? Layout.cursorLow) :
    m'.persistedCursor = m.persistedCursor := by
  rw [persistedCursor, persistedCursor, byteAt_congr hhigh, byteAt_congr hlow]

theorem persistedCursor_lt (m : Memory) : m.persistedCursor < 0x10000 := by
  have hhigh := (m.byteAt Layout.cursorHigh).toNat_lt
  have hlow := (m.byteAt Layout.cursorLow).toNat_lt
  unfold persistedCursor Settings.cursorOf
  omega

/-- Every cell is erased. -/
def Blank (m : Memory) : Prop := ∀ i, i < cellCount → m.cell? i = some 0xFF

theorem blank_default : ({} : Memory).Blank := by
  intro i hi
  show (Vector.replicate cellCount (0xFF : UInt8))[i]? = some 0xFF
  rw [Vector.getElem?_replicate, if_pos hi]

theorem Blank.persistedCursor_eq (h : m.Blank) : m.persistedCursor = Layout.unsetCursor := by
  rw [persistedCursor, byteAt, byteAt, h _ (by decide), h _ (by decide)]
  rfl

theorem Blank.slice_eq (h : m.Blank) {start stop : Nat} (hstop : stop ≤ cellCount) :
    m.slice start stop = List.replicate (stop - start) 0xFF :=
  slice_eq_replicate m fun i _ hi => h i (Nat.lt_of_lt_of_le hi hstop)

theorem highByte_cursorOf (high low : UInt8) :
    UInt8.ofNat (Settings.cursorOf high low / 256) = high := by
  have hlow := low.toNat_lt
  rw [Settings.cursorOf, show (high.toNat * 256 + low.toNat) / 256 = high.toNat by omega]
  exact UInt8.ofNat_toNat

theorem lowByte_cursorOf (high low : UInt8) :
    UInt8.ofNat (Settings.cursorOf high low) = low := by
  have hlow := low.toNat_lt
  apply UInt8.toNat_inj.1
  rw [UInt8.toNat_ofNat', Settings.cursorOf]
  omega

/-- The cursor that the two bytes of a word stand for is the word. -/
theorem cursorOf_ofNat {cursor : Nat} (h : cursor < 0x10000) :
    Settings.cursorOf (UInt8.ofNat (cursor / 256)) (UInt8.ofNat cursor) = cursor := by
  rw [Settings.cursorOf, UInt8.toNat_ofNat', UInt8.toNat_ofNat']
  omega

end Values

/-! ## Updated cells -/

section Updated

@[simp] theorem budget_updated_of_none (hpower : m.budget = none) (addr : Nat) (b : UInt8) :
    (m.updated addr b).budget = none := by
  unfold updated
  split <;> simp [hpower]

theorem cell?_updated (hpower : m.budget = none) (addr : Nat) (b : UInt8) (i : Nat) :
    (m.updated addr b).cell? i = if i = addr ∧ addr < cellCount then some b else m.cell? i := by
  unfold updated
  split
  · next h =>
    rw [cell?_settled]
    split
    · next hi => rw [hi.1, h]
    · rfl
  · rw [cell?_programmed]
    simp [hpower]

theorem cell?_updated_of_ne {addr : Nat} (b : UInt8) {i : Nat} (h : i ≠ addr) :
    (m.updated addr b).cell? i = m.cell? i := by
  unfold updated
  split
  · rfl
  · rw [cell?_programmed, if_neg (fun hi => h hi.1)]

theorem cell?_updatedAll_of_ne {ws : List (Nat × UInt8)} {i : Nat} (h : ∀ w ∈ ws, w.1 ≠ i) :
    (m.updatedAll ws).cell? i = m.cell? i := by
  induction ws generalizing m with
  | nil => rfl
  | cons w ws ih =>
    rw [updatedAll_cons, ih fun v hv => h v (List.mem_cons_of_mem w hv)]
    exact cell?_updated_of_ne w.2 (h w List.mem_cons_self).symm

theorem budget_updatedAll_of_none (hpower : m.budget = none) (ws : List (Nat × UInt8)) :
    (m.updatedAll ws).budget = none := by
  induction ws generalizing m with
  | nil => exact hpower
  | cons w ws ih => exact ih (budget_updated_of_none hpower w.1 w.2)

theorem cell?_updatedAll_placed (hpower : m.budget = none) {addr : Nat} {bytes : List UInt8}
    (hfit : addr + bytes.length ≤ cellCount) (i : Nat) :
    (m.updatedAll (placed addr bytes)).cell? i =
      if addr ≤ i ∧ i < addr + bytes.length then bytes[i - addr]? else m.cell? i := by
  induction bytes generalizing m addr with
  | nil => rw [if_neg (by simp)]; rfl
  | cons b bytes ih =>
    rw [List.length_cons] at hfit ⊢
    show ((m.updated addr b).updatedAll (placed (addr + 1) bytes)).cell? i = _
    rw [ih (budget_updated_of_none hpower addr b) (by omega), cell?_updated hpower]
    by_cases hi : i = addr
    · subst hi
      rw [if_neg (by omega), if_pos ⟨rfl, by omega⟩, if_pos ⟨Nat.le_refl i, by omega⟩]
      simp
    · by_cases hin : addr + 1 ≤ i ∧ i < addr + 1 + bytes.length
      · rw [if_pos hin, if_pos ⟨by omega, by omega⟩,
          show i - addr = (i - (addr + 1)) + 1 by omega, List.getElem?_cons_succ]
      · rw [if_neg hin, if_neg (fun h => hi h.1), if_neg (by omega)]

end Updated

/-! ## Single values -/

section Single

theorem setCounter_returns (hsize : Layout.counter < size) (hcells : size ≤ cellCount)
    (value : UInt8) :
    (Settings.setCounter (eeprom size) value).run.Returns m (.ok ())
      (m.updated Layout.counter value) :=
  update_one_returns value hsize hcells

theorem setApplication_returns (hsize : Layout.application < size) (hcells : size ≤ cellCount)
    (id : UInt8) :
    (Settings.setApplication (eeprom size) id).run.Returns m (.ok ())
      (m.updated Layout.application id) :=
  update_one_returns id hsize hcells

theorem setWarmFlag_returns (hsize : Layout.warmFlag < size) (hcells : size ≤ cellCount)
    (value : UInt8) :
    (Settings.setWarmFlag (eeprom size) value).run.Returns m (.ok ())
      (m.updated Layout.warmFlag value) :=
  update_one_returns value hsize hcells

theorem warmFlag_returns (hsize : Layout.warmFlag < size) (hcells : size ≤ cellCount) :
    (Settings.warmFlag (eeprom size)).run.Returns m (.ok (m.byteAt Layout.warmFlag)) m.settled :=
  readByte_returns hsize (m.cell?_eq_byteAt (Nat.lt_of_lt_of_le hsize hcells))

theorem cursor_returns (hsize : Layout.cursorLow < size) (hcells : size ≤ cellCount) :
    (Settings.cursor (eeprom size)).run.Returns m (.ok m.persistedCursor) m.settled := by
  have hhigh : Layout.cursorHigh < size := Nat.lt_trans (by decide) hsize
  exact Returns.bind_ok
    (readByte_returns hhigh (m.cell?_eq_byteAt (Nat.lt_of_lt_of_le hhigh hcells)))
    (Returns.bind_ok
      (readByte_returns hsize (m.settled.cell?_eq_byteAt (Nat.lt_of_lt_of_le hsize hcells)))
      (Returns.ok _ _))

theorem setCursor_returns (hsize : Layout.cursorLow < size) (hcells : size ≤ cellCount)
    (cursor : Nat) :
    (Settings.setCursor (eeprom size) cursor).run.Returns m (.ok ())
      ((m.updated Layout.cursorHigh (UInt8.ofNat (cursor / 256))).updated Layout.cursorLow
        (UInt8.ofNat cursor)) := by
  have hhigh : Layout.cursorHigh + 1 ≤ size := Nat.lt_trans (by decide) hsize
  obtain ⟨n, hn, -⟩ := update_returns (m := m) [UInt8.ofNat (cursor / 256)] hhigh hcells
  exact Returns.bind_ok hn (update_one_returns (UInt8.ofNat cursor) hsize hcells)

end Single

/-! ## Factory reset -/

section FactoryReset

/-- The store with its first `size` cells erased. -/
def erased (m : Memory) (size : Nat) : Memory :=
  m.updatedAll (placed 0 (List.replicate size 0xFF))

/-- The store after a factory reset of its first `size` cells. -/
def defaults (m : Memory) (size : Nat) : Memory :=
  ((m.erased size).updatedAll [(Layout.warmFlag, 0), (Layout.application, 0), (Layout.counter, 0),
    (Layout.cursorHigh, UInt8.ofNat (Layout.logStart / 256)),
    (Layout.cursorLow, UInt8.ofNat Layout.logStart)]).settled

/-- The chunks from `first` on erase what of the store lies in them. -/
theorem erase_chunks_returns (hcells : size ≤ cellCount) {n first : Nat}
    (hlast : (first + n) * Settings.eraseStep < size + Settings.eraseStep) :
    ((List.range' first n).forM fun i => do
      let start := i * Settings.eraseStep
      let _ ← Store.update (eeprom size) start
        (List.replicate (min Settings.eraseStep ((eeprom size).size - start)) 0xFF) :
      StoreRun Memory Unit).run.Returns m (.ok ())
      (m.updatedAll (placed (first * Settings.eraseStep) (List.replicate
        (min ((first + n) * Settings.eraseStep) size - first * Settings.eraseStep) 0xFF))) := by
  induction n generalizing m first with
  | zero =>
    rw [Nat.add_zero, Nat.sub_eq_zero_of_le (Nat.min_le_left _ _)]
    exact Returns.ok () m
  | succ n ih =>
    simp only [Settings.eraseStep] at hlast ih ⊢
    have hchunk : first * 32 + (List.replicate (min 32 (size - first * 32)) (0xFF : UInt8)).length ≤
        size := by
      rw [List.length_replicate]
      omega
    obtain ⟨k, hk, -⟩ := update_returns (m := m) _ hchunk hcells
    have hrest := ih (m := m.updatedAll (placed (first * 32)
      (List.replicate (min 32 (size - first * 32)) 0xFF)))
      (show (first + 1 + n) * 32 < size + 32 by omega)
    have hsplit : List.replicate (min ((first + (n + 1)) * 32) size - first * 32) (0xFF : UInt8) =
        List.replicate (min 32 (size - first * 32)) 0xFF ++
          List.replicate (min ((first + 1 + n) * 32) size - (first + 1) * 32) 0xFF := by
      rw [List.replicate_append_replicate]
      congr 1
      omega
    have haddr : placed (first * 32 + min 32 (size - first * 32))
        (List.replicate (min ((first + 1 + n) * 32) size - (first + 1) * 32) (0xFF : UInt8)) =
        placed ((first + 1) * 32)
          (List.replicate (min ((first + 1 + n) * 32) size - (first + 1) * 32) 0xFF) := by
      by_cases hfull : 32 ≤ size - first * 32
      · rw [Nat.min_eq_left hfull, Nat.succ_mul]
      · rw [show min ((first + 1 + n) * 32) size - (first + 1) * 32 = 0 by omega]
        rfl
    rw [hsplit, placed_append, updatedAll_append, List.length_replicate, haddr]
    exact Returns.bind_ok (Returns.bind_ok hk (Returns.ok () _)) hrest

theorem erase_returns (hcells : size ≤ cellCount) :
    (Settings.erase (eeprom size)).run.Returns m (.ok ()) (m.erased size) := by
  have hlast : (0 + (size + Settings.eraseStep - 1) / Settings.eraseStep) * Settings.eraseStep <
      size + Settings.eraseStep := by
    simp only [Settings.eraseStep]
    omega
  have hchunks := erase_chunks_returns (m := m) hcells hlast
  rw [show min ((0 + (size + Settings.eraseStep - 1) / Settings.eraseStep) * Settings.eraseStep)
      size - 0 * Settings.eraseStep = size by simp only [Settings.eraseStep]; omega,
    Nat.zero_mul, ← List.range_eq_range'] at hchunks
  exact hchunks

/-- A factory reset erases the store and then writes the five default bytes. -/
theorem factoryReset_returns (hsize : Layout.cursorLow < size) (hcells : size ≤ cellCount) :
    (Settings.factoryReset (eeprom size)).run.Returns m (.ok ()) (m.defaults size) := by
  have hwarm : Layout.warmFlag < size := Nat.lt_trans (by decide) hsize
  have happ : Layout.application < size := Nat.lt_trans (by decide) hsize
  have hcount : Layout.counter < size := Nat.lt_trans (by decide) hsize
  simp only [defaults, updatedAll_cons, updatedAll_nil]
  refine Returns.bind_ok (erase_returns hcells) ?_
  refine Returns.bind_ok (setWarmFlag_returns hwarm hcells 0) ?_
  refine Returns.bind_ok (setApplication_returns happ hcells 0) ?_
  refine Returns.bind_ok (setCounter_returns hcount hcells 0) ?_
  refine Returns.bind_ok (setCursor_returns hsize hcells Layout.logStart) ?_
  exact Returns.bind_ok (Returns.lift sync_returns) (Returns.lift (Returns.note _ _))

theorem budget_defaults (hpower : m.budget = none) : (m.defaults size).budget = none := by
  rw [defaults, budget_settled]
  exact budget_updatedAll_of_none (budget_updatedAll_of_none hpower _) _

theorem cell?_erased (hpower : m.budget = none) (hcells : size ≤ cellCount) {i : Nat}
    (hi : i < size) : (m.erased size).cell? i = some 0xFF := by
  rw [erased, cell?_updatedAll_placed hpower (by rw [List.length_replicate]; omega),
    if_pos ⟨Nat.zero_le i, by rw [List.length_replicate]; omega⟩]
  simp [hi]

/-- What a factory reset leaves in a cell. -/
def defaultByte (i : Nat) : UInt8 :=
  if i = Layout.cursorLow then 0x80
  else if i = Layout.warmFlag ∨ i = Layout.application ∨ i = Layout.counter ∨ i = Layout.cursorHigh
    then 0
  else 0xFF

theorem defaultByte_of_lt {i : Nat} (h : Layout.cursorLow < i) : defaultByte i = 0xFF := by
  rw [defaultByte, if_neg (Nat.ne_of_gt h), if_neg]
  unfold Layout.cursorLow at h
  unfold Layout.warmFlag Layout.application Layout.counter Layout.cursorHigh
  omega

theorem cell?_defaults_eq (hpower : m.budget = none) (hcells : size ≤ cellCount) {i : Nat}
    (hi : i < size) : (m.defaults size).cell? i = some (defaultByte i) := by
  have h₀ : (m.erased size).budget = none := budget_updatedAll_of_none hpower _
  have h₁ := budget_updated_of_none h₀ Layout.warmFlag 0
  have h₂ := budget_updated_of_none h₁ Layout.application 0
  have h₃ := budget_updated_of_none h₂ Layout.counter 0
  have h₄ := budget_updated_of_none h₃ Layout.cursorHigh (UInt8.ofNat (Layout.logStart / 256))
  simp only [defaults, cell?_settled, updatedAll_cons, updatedAll_nil]
  rw [cell?_updated h₄, cell?_updated h₃, cell?_updated h₂, cell?_updated h₁, cell?_updated h₀,
    cell?_erased hpower hcells hi, defaultByte]
  have hinside : Layout.warmFlag < cellCount ∧ Layout.application < cellCount ∧
      Layout.counter < cellCount ∧ Layout.cursorHigh < cellCount ∧
      Layout.cursorLow < cellCount := by decide
  have hbytes : UInt8.ofNat (Layout.logStart / 256) = 0 ∧ UInt8.ofNat Layout.logStart = 0x80 := by
    decide
  grind

/-- A factory reset leaves the log erased. -/
theorem cell?_defaults (hpower : m.budget = none) (hcells : size ≤ cellCount) {i : Nat}
    (hlog : Layout.logStart ≤ i) (hi : i < size) :
    (m.defaults size).cell? i = some 0xFF := by
  rw [cell?_defaults_eq hpower hcells hi,
    defaultByte_of_lt (Nat.lt_of_lt_of_le (by decide) hlog)]

theorem persistedCursor_defaults (hpower : m.budget = none) :
    (m.defaults size).persistedCursor = Layout.logStart := by
  have h₀ : (m.erased size).budget = none := budget_updatedAll_of_none hpower _
  have h₁ := budget_updated_of_none h₀ Layout.warmFlag 0
  have h₂ := budget_updated_of_none h₁ Layout.application 0
  have h₃ := budget_updated_of_none h₂ Layout.counter 0
  have h₄ := budget_updated_of_none h₃ Layout.cursorHigh (UInt8.ofNat (Layout.logStart / 256))
  simp only [persistedCursor, defaults, byteAt, cell?_settled, updatedAll_cons, updatedAll_nil]
  rw [cell?_updated h₄, cell?_updated h₄, cell?_updated h₃, if_neg (by decide),
    if_pos ⟨rfl, by decide⟩, if_pos ⟨rfl, by decide⟩]
  rfl

end FactoryReset

end CardTap.Bench.Memory
