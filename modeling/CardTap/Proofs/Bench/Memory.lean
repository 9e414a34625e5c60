import CardTap.Bench.Memory

/-!
# The simulated store, write by write

What an access does to the simulated store is told by two functions on its state: `settled`, after
waiting for the write in progress, and `programmed`, after starting one write.  A longer access is a
list of single writes, of which the power budget lets a first part reach the cells
(`cell?_programmedAll_placed`).
-/

namespace CardTap.Bench.Memory

/-! ## Single writes -/

section Effects

/-- The store once no write is in progress. -/
def settled (m : Memory) : Memory := { m with busyPolls := 0 }

/-- The store right after a write was started. -/
def programmed (m : Memory) (addr : Nat) (b : UInt8) : Memory where
  cells := if m.budget = some 0 then m.cells else m.cells.setIfInBounds addr b
  busyPolls := pollsPerWrite
  writes := m.writes + 1
  budget := m.budget.map (· - 1)

/-- The store after a row of writes, each an address and a value. -/
def programmedAll (m : Memory) (ws : List (Nat × UInt8)) : Memory :=
  ws.foldl (fun m w => m.programmed w.1 w.2) m

/-- The store after a cell was brought to a value: no write if it already holds it. -/
def updated (m : Memory) (addr : Nat) (b : UInt8) : Memory :=
  if m.cell? addr = some b then m.settled else m.programmed addr b

/-- The store after a row of cells was brought to values. -/
def updatedAll (m : Memory) (ws : List (Nat × UInt8)) : Memory :=
  ws.foldl (fun m w => m.updated w.1 w.2) m

/-- The writes that put bytes into the cells from an address on. -/
def placed : Nat → List UInt8 → List (Nat × UInt8)
  | _, [] => []
  | addr, b :: rest => (addr, b) :: placed (addr + 1) rest

/-- The part of a row of writes that still reaches the cells. -/
def landing {α : Type} (budget : Option Nat) (ws : List α) : List α :=
  match budget with
  | none => ws
  | some n => ws.take n

variable (m : Memory) {addr : Nat} {b : UInt8} {ws vs : List (Nat × UInt8)}

@[simp] theorem cell?_settled (i : Nat) : m.settled.cell? i = m.cell? i := rfl

@[simp] theorem budget_settled : m.settled.budget = m.budget := rfl

@[simp] theorem writes_settled : m.settled.writes = m.writes := rfl

/-- Stores that only differ in the write in progress hold the same cells and the same power. -/
theorem cell?_of_settled {m m' : Memory} (h : m.settled = m'.settled) (i : Nat) :
    m.cell? i = m'.cell? i := by
  rw [← cell?_settled m, h, cell?_settled]

theorem budget_of_settled {m m' : Memory} (h : m.settled = m'.settled) : m.budget = m'.budget := by
  rw [← budget_settled m, h, budget_settled]

@[simp] theorem programmed_settled (addr : Nat) (b : UInt8) :
    m.settled.programmed addr b = m.programmed addr b := rfl

@[simp] theorem budget_programmed (addr : Nat) (b : UInt8) :
    (m.programmed addr b).budget = m.budget.map (· - 1) := rfl

@[simp] theorem writes_programmed (addr : Nat) (b : UInt8) :
    (m.programmed addr b).writes = m.writes + 1 := rfl

@[simp] theorem programmedAll_nil : m.programmedAll [] = m := rfl

@[simp] theorem programmedAll_cons (w : Nat × UInt8) (ws : List (Nat × UInt8)) :
    m.programmedAll (w :: ws) = (m.programmed w.1 w.2).programmedAll ws := rfl

theorem programmedAll_append (ws vs : List (Nat × UInt8)) :
    m.programmedAll (ws ++ vs) = (m.programmedAll ws).programmedAll vs := by
  simp [programmedAll]

@[simp] theorem updatedAll_nil : m.updatedAll [] = m := rfl

@[simp] theorem updatedAll_cons (w : Nat × UInt8) (ws : List (Nat × UInt8)) :
    m.updatedAll (w :: ws) = (m.updated w.1 w.2).updatedAll ws := rfl

theorem updatedAll_append (ws vs : List (Nat × UInt8)) :
    m.updatedAll (ws ++ vs) = (m.updatedAll ws).updatedAll vs := by
  simp [updatedAll]

@[simp] theorem writes_programmedAll (ws : List (Nat × UInt8)) :
    (m.programmedAll ws).writes = m.writes + ws.length := by
  induction ws generalizing m with
  | nil => rfl
  | cons w ws ih => rw [programmedAll_cons, ih, writes_programmed, List.length_cons]; omega

@[simp] theorem budget_programmedAll (ws : List (Nat × UInt8)) :
    (m.programmedAll ws).budget = m.budget.map (· - ws.length) := by
  induction ws generalizing m with
  | nil => cases h : m.budget <;> simp [h]
  | cons w ws ih =>
    rw [programmedAll_cons, ih, budget_programmed]
    cases m.budget <;> simp [Nat.sub_sub, Nat.add_comm]

/-- Whether the store is settled before a row of writes makes no difference after it. -/
theorem settled_programmedAll_settled (ws : List (Nat × UInt8)) :
    (m.settled.programmedAll ws).settled = (m.programmedAll ws).settled := by
  cases ws with
  | nil => rfl
  | cons w ws => rfl

theorem settled_updated (addr : Nat) (b : UInt8) :
    (m.updated addr b).settled =
      (m.programmedAll (if m.cell? addr = some b then [] else [(addr, b)])).settled := by
  unfold updated
  split <;> rfl

end Effects

/-! ## The cells after writes -/

section Cells

variable (m : Memory) {i : Nat}

theorem exists_cell (h : i < cellCount) : ∃ b, m.cell? i = some b :=
  ⟨m.cells[i], Vector.getElem?_eq_getElem h⟩

theorem cell?_programmed (addr : Nat) (b : UInt8) (i : Nat) :
    (m.programmed addr b).cell? i =
      if i = addr ∧ addr < cellCount ∧ m.budget ≠ some 0 then some b else m.cell? i := by
  unfold programmed cell?
  by_cases hb : m.budget = some 0
  · simp [hb]
  · simp only [hb, ↓reduceIte, Vector.getElem?_setIfInBounds, ne_eq, not_false_eq_true, and_true]
    by_cases hi : addr = i
    · subst hi
      by_cases hc : addr < cellCount
      · simp [hc]
      · simp [hc]
    · simp [hi, Ne.symm hi]

theorem cell?_programmedAll_of_ne {ws : List (Nat × UInt8)} (h : ∀ w ∈ ws, w.1 ≠ i) :
    (m.programmedAll ws).cell? i = m.cell? i := by
  induction ws generalizing m with
  | nil => rfl
  | cons w ws ih =>
    have hw : i ≠ w.1 := (h w List.mem_cons_self).symm
    rw [programmedAll_cons, ih _ fun v hv => h v (List.mem_cons_of_mem w hv), cell?_programmed]
    simp [hw]

theorem cell?_programmedAll_of_lost {ws : List (Nat × UInt8)} (h : m.budget = some 0) :
    (m.programmedAll ws).cell? i = m.cell? i := by
  induction ws generalizing m with
  | nil => rfl
  | cons w ws ih =>
    rw [programmedAll_cons, ih _ (by simp [h]), cell?_programmed]
    simp [h]

theorem length_placed (addr : Nat) (bytes : List UInt8) :
    (placed addr bytes).length = bytes.length := by
  induction bytes generalizing addr with
  | nil => rfl
  | cons b bytes ih => simp [placed, ih]

theorem placed_append (addr : Nat) (xs ys : List UInt8) :
    placed addr (xs ++ ys) = placed addr xs ++ placed (addr + xs.length) ys := by
  induction xs generalizing addr with
  | nil => simp [placed]
  | cons x xs ih => simp [placed, ih, Nat.add_assoc, Nat.add_comm 1]

theorem mem_placed {addr : Nat} {bytes : List UInt8} {w : Nat × UInt8} (h : w ∈ placed addr bytes) :
    addr ≤ w.1 ∧ w.1 < addr + bytes.length := by
  induction bytes generalizing addr with
  | nil => simp [placed] at h
  | cons b bytes ih =>
    rcases List.mem_cons.1 h with rfl | h
    · simp
    · have := ih h
      rw [List.length_cons]
      omega

@[simp] theorem landing_nil {α : Type} (budget : Option Nat) :
    landing budget ([] : List α) = [] := by
  cases budget <;> simp [landing]

theorem mem_of_mem_landing {α : Type} {budget : Option Nat} {ws : List α} {w : α}
    (h : w ∈ landing budget ws) : w ∈ ws := by
  cases budget with
  | none => exact h
  | some n => exact List.mem_of_mem_take h

theorem length_landing_le {α : Type} (budget : Option Nat) (ws : List α) :
    (landing budget ws).length ≤ ws.length := by
  cases budget with
  | none => exact Nat.le_refl _
  | some n => exact List.length_take_le' n ws

/-- After bytes were written in a row, their cells hold what of them still reached the store. -/
theorem cell?_programmedAll_placed {addr : Nat} {bytes : List UInt8}
    (hfit : addr + bytes.length ≤ cellCount) (i : Nat) :
    (m.programmedAll (placed addr bytes)).cell? i =
      if addr ≤ i ∧ i < addr + (landing m.budget bytes).length then
        (landing m.budget bytes)[i - addr]?
      else m.cell? i := by
  induction bytes generalizing m addr with
  | nil =>
    rw [landing_nil, if_neg (by simp)]
    rfl
  | cons b bytes ih =>
    rw [List.length_cons] at hfit
    by_cases hlost : m.budget = some 0
    · have hland : landing m.budget (b :: bytes) = [] := by simp [landing, hlost]
      rw [cell?_programmedAll_of_lost m hlost, hland, if_neg (by simp)]
    · have hland : landing m.budget (b :: bytes) =
          b :: landing (m.programmed addr b).budget bytes := by
        cases hm : m.budget with
        | none => simp [landing, hm]
        | some n =>
          cases n with
          | zero => exact absurd hm hlost
          | succ n => simp [landing, hm]
      show ((m.programmed addr b).programmedAll (placed (addr + 1) bytes)).cell? i = _
      rw [ih (m.programmed addr b) (by omega), hland, List.length_cons, cell?_programmed]
      by_cases hi : i = addr
      · subst hi
        rw [if_neg (by omega), if_pos ⟨rfl, by omega, hlost⟩, if_pos ⟨Nat.le_refl i, by omega⟩]
        simp
      · by_cases hin : addr + 1 ≤ i ∧
          i < addr + 1 + (landing (m.programmed addr b).budget bytes).length
        · rw [if_pos hin, if_pos ⟨by omega, by omega⟩]
          rw [show i - addr = (i - (addr + 1)) + 1 by omega, List.getElem?_cons_succ]
        · rw [if_neg hin, if_neg (fun h => hi h.1), if_neg (by omega)]

end Cells

/-! ## Slices -/

section Slices

variable (m : Memory) {start mid stop : Nat}

theorem getElem?_slice (start stop i : Nat) :
    (m.slice start stop)[i]? = if start + i < stop then m.cell? (start + i) else none := by
  unfold slice cell?
  rw [Array.toList_extract, List.extract_eq_take_drop, List.getElem?_take, List.getElem?_drop]
  simp only [Array.getElem?_toList, Vector.getElem?_toArray]
  split <;> split <;> first | rfl | omega

theorem length_slice (hstop : stop ≤ cellCount) : (m.slice start stop).length = stop - start := by
  simp only [slice, Array.length_toList, Array.size_extract, Vector.size_toArray]
  omega

theorem slice_append (hmid : start ≤ mid) (hstop : mid ≤ stop) (hfit : stop ≤ cellCount) :
    m.slice start mid ++ m.slice mid stop = m.slice start stop := by
  apply List.ext_getElem?
  intro i
  have hlen : (m.slice start mid).length = mid - start := m.length_slice (Nat.le_trans hstop hfit)
  rw [List.getElem?_append, hlen]
  simp only [getElem?_slice]
  split
  · rw [if_pos (by omega), if_pos (by omega)]
  · rw [show mid + (i - (mid - start)) = start + i by omega]

theorem slice_congr {m' : Memory}
    (h : ∀ i, start ≤ i → i < stop → m'.cell? i = m.cell? i) :
    m'.slice start stop = m.slice start stop := by
  apply List.ext_getElem?
  intro i
  simp only [getElem?_slice]
  split
  · exact h _ (by omega) ‹_›
  · rfl

theorem slice_eq_map {f : Nat → UInt8}
    (h : ∀ i, start ≤ i → i < stop → m.cell? i = some (f i)) :
    m.slice start stop = (List.range' start (stop - start)).map f := by
  apply List.ext_getElem?
  intro i
  rw [getElem?_slice, List.getElem?_map]
  by_cases hi : start + i < stop
  · rw [if_pos hi, h _ (by omega) hi, List.getElem?_range' (by omega), Nat.one_mul, Option.map_some]
  · rw [if_neg hi, List.getElem?_eq_none (by rw [List.length_range']; omega), Option.map_none]

theorem slice_eq_replicate {b : UInt8}
    (h : ∀ i, start ≤ i → i < stop → m.cell? i = some b) :
    m.slice start stop = List.replicate (stop - start) b := by
  rw [m.slice_eq_map h, List.map_const', List.length_range']

theorem drop_slice (start stop n : Nat) :
    (m.slice start stop).drop n = m.slice (start + n) stop := by
  apply List.ext_getElem?
  intro i
  simp only [List.getElem?_drop, getElem?_slice, Nat.add_assoc]

theorem take_slice (hstop : mid ≤ stop) :
    (m.slice start stop).take (mid - start) = m.slice start mid := by
  apply List.ext_getElem?
  intro i
  simp only [List.getElem?_take, getElem?_slice]
  by_cases hi : start + i < mid
  · rw [if_pos (by omega), if_pos (by omega), if_pos hi]
  · rw [if_neg (by omega), if_neg hi]

/-- Bytes written in a row are read back as far as they reached the store. -/
theorem slice_programmedAll_placed {addr : Nat} {bytes : List UInt8}
    (hfit : addr + bytes.length ≤ stop) (hstop : stop ≤ cellCount) :
    (m.programmedAll (placed addr bytes)).slice addr stop =
      landing m.budget bytes ++ m.slice (addr + (landing m.budget bytes).length) stop := by
  have hlen := length_landing_le m.budget bytes
  apply List.ext_getElem?
  intro i
  rw [getElem?_slice, cell?_programmedAll_placed m (Nat.le_trans hfit hstop), List.getElem?_append]
  by_cases hi : i < (landing m.budget bytes).length
  · rw [if_pos (by omega), if_pos ⟨by omega, by omega⟩, if_pos hi, Nat.add_sub_cancel_left]
  · have haddr : addr + (landing m.budget bytes).length + (i - (landing m.budget bytes).length) =
        addr + i := by omega
    rw [if_neg hi, getElem?_slice, haddr, if_neg (c := addr ≤ addr + i ∧ _) (by omega)]

end Slices

end CardTap.Bench.Memory
