import CardTap.Proofs.Bench.Settings
import CardTap.Proofs.Ends

/-!
# Accesses to a store of any size

A store may have fewer cells than an access wants.  Such an access is refused before anything
happens, so whatever a longer run does to the store is still a row of single writes to cells that
the store has (`WritesOnly`), also when the run gives up in the middle.
-/

namespace CardTap.Bench.Memory

open CardTap.Run

variable {size : Nat} {m m' m'' : Memory} {P P' : Nat → Prop}

/-! ## Where writes went -/

section Writes

/-- What was done to the store is a row of single writes to cells with the property. -/
def WritesOnly (P : Nat → Prop) (m m' : Memory) : Prop :=
  ∃ ws : List (Nat × UInt8), (∀ w ∈ ws, P w.1) ∧ m'.settled = (m.programmedAll ws).settled

namespace WritesOnly

theorem of_settled (h : m'.settled = m.settled) : WritesOnly P m m' := ⟨[], by simp, h⟩

theorem refl (m : Memory) : WritesOnly P m m := of_settled rfl

theorem settled (m : Memory) : WritesOnly P m m.settled := of_settled rfl

theorem trans (h : WritesOnly P m m') (h' : WritesOnly P m' m'') : WritesOnly P m m'' := by
  obtain ⟨ws, hws, hm'⟩ := h
  obtain ⟨vs, hvs, hm''⟩ := h'
  refine ⟨ws ++ vs, ?_, ?_⟩
  · intro w hw
    rcases List.mem_append.1 hw with hw | hw
    · exact hws w hw
    · exact hvs w hw
  · rw [hm'', ← settled_programmedAll_settled, hm', settled_programmedAll_settled,
      programmedAll_append]

theorem mono (h : WritesOnly P m m') (hP : ∀ i, P i → P' i) : WritesOnly P' m m' := by
  obtain ⟨ws, hws, hm'⟩ := h
  exact ⟨ws, fun w hw => hP _ (hws w hw), hm'⟩

theorem placed {addr : Nat} {bytes : List UInt8}
    (h : ∀ i, addr ≤ i → i < addr + bytes.length → P i) :
    WritesOnly P m (m.programmedAll (placed addr bytes)) :=
  ⟨_, fun w hw => h w.1 (mem_placed hw).1 (mem_placed hw).2, rfl⟩

theorem updated {addr : Nat} (b : UInt8) (h : P addr) : WritesOnly P m (m.updated addr b) := by
  refine ⟨_, ?_, m.settled_updated addr b⟩
  intro w hw
  split at hw
  · cases hw
  · rw [List.mem_singleton] at hw
    exact hw ▸ h

/-- A cell without the property keeps its value. -/
theorem cell?_eq (h : WritesOnly P m m') {i : Nat} (hi : ¬ P i) : m'.cell? i = m.cell? i := by
  obtain ⟨ws, hws, hm'⟩ := h
  rw [cell?_of_settled hm', cell?_programmedAll_of_ne]
  intro w hw heq
  exact hi (heq ▸ hws w hw)

theorem budget_of_none (h : WritesOnly P m m') (hpower : m.budget = none) : m'.budget = none := by
  obtain ⟨ws, -, hm'⟩ := h
  rw [budget_of_settled hm', budget_programmedAll, hpower]
  rfl

end WritesOnly

end Writes

/-! ## Refused accesses -/

section Refused

theorem write_refuses {start : Nat} {bytes : List UInt8} (h : size < start + bytes.length) :
    (Store.write (eeprom size) start bytes).run.Returns m
      (.error (.overflow size (start + bytes.length))) m :=
  Returns.bind (Store.check_refuses h) (Returns.pure _ m)

theorem readByte_refuses {addr : Nat} (h : size ≤ addr) :
    (Store.readByte (eeprom size) addr).run.Returns m (.error (.overflow size (addr + 1))) m :=
  Returns.bind (Store.check_refuses (Nat.lt_succ_of_le h)) (Returns.pure _ m)

theorem update_one_refuses {addr : Nat} (b : UInt8) (h : size ≤ addr) :
    (do let _ ← Store.update (eeprom size) addr [b] : StoreRun Memory Unit).run.Returns m
      (.error (.overflow size (addr + 1))) m :=
  Returns.bind (Returns.bind (Store.check_refuses (Nat.lt_succ_of_le h)) (Returns.pure _ m))
    (Returns.pure _ m)

end Refused

/-! ## Single cells -/

section Cells

/-- The store after a cell was brought to a value, if the store has it. -/
def updatedWithin (m : Memory) (size addr : Nat) (b : UInt8) : Memory :=
  if addr < size then m.updated addr b else m

theorem updatedWithin_of_lt {addr : Nat} (b : UInt8) (h : addr < size) :
    m.updatedWithin size addr b = m.updated addr b :=
  if_pos h

theorem updatedWithin_of_le {addr : Nat} (b : UInt8) (h : size ≤ addr) :
    m.updatedWithin size addr b = m :=
  if_neg (Nat.not_lt.2 h)

theorem update_one_ends {addr : Nat} (b : UInt8) (hcells : size ≤ cellCount) :
    (do let _ ← Store.update (eeprom size) addr [b] : StoreRun Memory Unit).run.Ends m
      fun _ m' => m' = m.updatedWithin size addr b := by
  by_cases h : addr < size
  · exact (update_one_returns b h hcells).ends (updatedWithin_of_lt b h).symm
  · exact (update_one_refuses b (Nat.not_lt.1 h)).ends
      (updatedWithin_of_le b (Nat.not_lt.1 h)).symm

theorem writesOnly_updatedWithin (m : Memory) (size addr : Nat) (b : UInt8) :
    WritesOnly (fun i => i < size ∧ i = addr) m (m.updatedWithin size addr b) := by
  unfold updatedWithin
  split
  · next h => exact .updated b ⟨h, rfl⟩
  · exact .refl m

theorem cell?_updatedWithin (hpower : m.budget = none) (hcells : size ≤ cellCount) {addr : Nat}
    (b : UInt8) (h : addr < size) : (m.updatedWithin size addr b).cell? addr = some b := by
  rw [updatedWithin_of_lt b h, cell?_updated hpower,
    if_pos ⟨rfl, Nat.lt_of_lt_of_le h hcells⟩]

end Cells

end CardTap.Bench.Memory
