import CardTap.Proofs.Bench.Bounds
import CardTap.Store.Reply

/-!
# The store is a plain array

To its users the simulated store is an array of bytes.  That a write takes its time, and that a
longer access is made cell by cell, cannot be told from the replies.  `Plain` is such an array
together with a count of the writes; `Memory.plain` looks at a store in this way, and every row of
accesses does to the store what it does to the array (`serve_refines`).
-/

namespace CardTap.Store

/-! ## Plain arrays -/

/-- An array of bytes, and how many writes were made to it. -/
structure Plain where
  cells : List UInt8
  writes : Nat
  deriving DecidableEq, Repr

namespace Plain

/-- Puts bytes in the place of those from `start` on, by so many writes. -/
def put (p : Plain) (start : Nat) (bytes : List UInt8) (count : Nat) : Plain where
  cells := p.cells.take start ++ bytes ++ p.cells.drop (start + bytes.length)
  writes := p.writes + count

/-- In how many places bytes differ from those that they would replace. -/
def differing (p : Plain) (start : Nat) (bytes : List UInt8) : Nat :=
  ((p.cells.drop start).zip bytes).countP fun w => w.1 != w.2

/-- The reply to an access that fits, and the array behind it.  An update leaves the same bytes as a
write, by the writes that are needed for it. -/
def answer (p : Plain) : Operation → Reply × Plain
  | .readByte addr => (.byte (p.cells.getD addr 0xFF), p)
  | .read start len => (.bytes ((p.cells.drop start).take len), p)
  | .write start bytes => (.done, p.put start bytes bytes.length)
  | .update start bytes =>
    (.count (p.differing start bytes), p.put start bytes (p.differing start bytes))
  | .sync => (.done, p)

/-- The reply to an access: one that does not fit is refused and changes nothing. -/
def ask (p : Plain) (op : Operation) : Except StoreError Reply × Plain :=
  if op.stop ≤ p.cells.length then
    let (reply, p) := p.answer op
    (.ok reply, p)
  else (.error (.overflow p.cells.length op.stop), p)

/-- The replies to accesses in a row. -/
def serve (p : Plain) : List Operation → List (Except StoreError Reply) × Plain
  | [] => ([], p)
  | op :: rest =>
    let (reply, p) := p.ask op
    let (replies, p) := p.serve rest
    (reply :: replies, p)

end Plain

end CardTap.Store

namespace CardTap.Bench.Memory

open CardTap.Run CardTap.Store

variable {size start : Nat} {m m' : Memory} {old : UInt8} {bytes : List UInt8}

/-- The first `size` cells as a plain array. -/
def plain (m : Memory) (size : Nat) : Plain := ⟨m.slice 0 size, m.writes⟩

/-! ## Reading -/

section Reading

theorem length_plain (hcells : size ≤ cellCount) : (m.plain size).cells.length = size :=
  m.length_slice hcells

theorem drop_plain (m : Memory) (size start : Nat) :
    (m.plain size).cells.drop start = m.slice start size := by
  rw [plain, drop_slice, Nat.zero_add]

theorem slice_eq_cons {addr stop : Nat} {b : UInt8} (hb : m.cell? addr = some b)
    (haddr : addr < stop) : m.slice addr stop = b :: m.slice (addr + 1) stop := by
  apply List.ext_getElem?
  intro i
  rw [getElem?_slice]
  cases i with
  | zero => rw [Nat.add_zero, if_pos haddr, hb, List.getElem?_cons_zero]
  | succ i => rw [List.getElem?_cons_succ, getElem?_slice, Nat.add_right_comm, Nat.add_assoc]

theorem fetchAll_returns {len : Nat} (hidle : m.busyPolls = 0) (hfit : start + len ≤ cellCount) :
    ((List.range' start len).mapM fun addr => (liftM ((eeprom size).read addr) :
      StoreRun Memory UInt8)).run.Returns m (.ok (m.slice start (start + len))) m := by
  induction len generalizing start with
  | zero =>
    have hnone : m.slice start (start + 0) = [] :=
      List.eq_nil_of_length_eq_zero (by rw [m.length_slice hfit]; omega)
    rw [hnone]
    exact Returns.ok [] m
  | succ len ih =>
    obtain ⟨b, hb⟩ := m.exists_cell (i := start) (by omega)
    have hstop : start + (len + 1) = start + 1 + len := by omega
    have hrest := ih (hstop ▸ hfit)
    rw [List.range'_succ, List.mapM_cons, slice_eq_cons hb (by omega), hstop]
    exact Returns.bind_ok (Returns.lift (fetch_returns hidle hb))
      (Returns.bind_ok hrest (Returns.ok _ m))

theorem read_returns {len : Nat} (hsize : start + len ≤ size) (hcells : size ≤ cellCount) :
    (Store.read (eeprom size) start len).run.Returns m
      (.ok (((m.plain size).cells.drop start).take len)) m.settled := by
  have htake : ((m.plain size).cells.drop start).take len =
      m.settled.slice start (start + len) := by
    have hlen : (m.settled.slice start size).take (start + len - start) =
        m.settled.slice start (start + len) := m.settled.take_slice hsize
    rw [Nat.add_sub_cancel_left] at hlen
    rw [← hlen]
    exact congrArg _ (m.drop_plain size start)
  rw [htake]
  exact Returns.bind_ok (check_returns hsize) (Returns.bind_ok (Returns.lift sync_returns)
    (fetchAll_returns rfl (Nat.le_trans hsize hcells)))

end Reading

/-! ## Writing -/

section Writing

/-- New bytes in one place, and all other cells untouched. -/
theorem plain_eq_put (hfit : start + bytes.length ≤ size) (hcells : size ≤ cellCount) {count : Nat}
    (hwrites : m'.writes = m.writes + count)
    (hcell : ∀ i, m'.cell? i =
      if start ≤ i ∧ i < start + bytes.length then bytes[i - start]? else m.cell? i) :
    m'.plain size = (m.plain size).put start bytes count := by
  have hslice : m'.slice 0 size =
      m.slice 0 start ++ bytes ++ m.slice (start + bytes.length) size := by
    have hlen : (m.slice 0 start).length = start := m.length_slice (by omega)
    apply List.ext_getElem?
    intro i
    rw [getElem?_slice, Nat.zero_add, hcell, List.append_assoc, List.getElem?_append, hlen]
    by_cases hbefore : i < start
    · rw [if_pos (by omega), if_neg (by omega), if_pos hbefore, getElem?_slice, Nat.zero_add,
        if_pos hbefore]
    · rw [if_neg hbefore, List.getElem?_append]
      by_cases hinside : i - start < bytes.length
      · rw [if_pos (by omega), if_pos ⟨by omega, by omega⟩, if_pos hinside]
      · have hbehind : start + bytes.length + (i - start - bytes.length) = i := by omega
        rw [if_neg (c := start ≤ i ∧ _) (by omega), if_neg hinside, getElem?_slice, hbehind]
  have htake : (m.slice 0 size).take (start - 0) = m.slice 0 start := m.take_slice (by omega)
  rw [Nat.sub_zero] at htake
  rw [plain, Plain.put, hslice, hwrites, plain, htake, drop_slice, Nat.zero_add]

theorem writes_updated (hold : m.cell? start = some old) (b : UInt8) :
    (m.updated start b).writes = m.writes + if old != b then 1 else 0 := by
  unfold updated
  by_cases h : old = b
  · simp [hold, h]
  · simp [hold, h]

/-- The writes that an update starts are those of the bytes that differ. -/
theorem writes_updatedAll_placed (hfit : start + bytes.length ≤ size) (hcells : size ≤ cellCount) :
    (m.updatedAll (placed start bytes)).writes =
      m.writes + (m.plain size).differing start bytes := by
  rw [Plain.differing, drop_plain]
  induction bytes generalizing m start with
  | nil => simp [placed]
  | cons b bytes ih =>
    rw [List.length_cons] at hfit
    obtain ⟨old, hold⟩ := m.exists_cell (i := start) (by omega)
    have hrest : (m.updated start b).slice (start + 1) size = m.slice (start + 1) size :=
      slice_congr _ fun i hi _ => cell?_updated_of_ne b (by omega)
    show ((m.updated start b).updatedAll (placed (start + 1) bytes)).writes = _
    rw [ih (by omega), writes_updated hold, hrest, slice_eq_cons hold (by omega),
      List.zip_cons_cons, List.countP_cons]
    exact (Nat.add_right_comm ..).trans (Nat.add_assoc ..)

theorem write_plain (hpower : m.budget = none) (hfit : start + bytes.length ≤ size)
    (hcells : size ≤ cellCount) :
    (m.programmedAll (placed start bytes)).plain size =
      (m.plain size).put start bytes bytes.length := by
  refine plain_eq_put hfit hcells ?_ fun i => ?_
  · rw [writes_programmedAll, length_placed]
  · have hcell := m.cell?_programmedAll_placed (Nat.le_trans hfit hcells) i
    simpa only [hpower, landing] using hcell

theorem update_plain (hpower : m.budget = none) (hfit : start + bytes.length ≤ size)
    (hcells : size ≤ cellCount) :
    (m.updatedAll (placed start bytes)).plain size =
      (m.plain size).put start bytes ((m.plain size).differing start bytes) :=
  plain_eq_put hfit hcells (writes_updatedAll_placed hfit hcells)
    (cell?_updatedAll_placed hpower (Nat.le_trans hfit hcells))

end Writing

/-! ## Rows of accesses -/

section Rows

/-- A store that is left with the power on and without a change behind its first `size` cells, and
looks like the array. -/
structure Leaves (size : Nat) (m : Memory) (p : Plain) (m' : Memory) : Prop where
  plain : m'.plain size = p
  power : m'.budget = none
  behind : ∀ i, size ≤ i → m'.cell? i = m.cell? i

variable (hcells : size ≤ cellCount)
include hcells

/-- An access that fits does to the store what it does to the array. -/
theorem answer_refines (hpower : m.budget = none) (op : Operation) (hfit : op.stop ≤ size) :
    (op.ask (eeprom size)).run.Ends m fun reply m' =>
      reply = .ok ((m.plain size).answer op).1 ∧ Leaves size m ((m.plain size).answer op).2 m' := by
  have hsettled : Leaves size m (m.plain size) m.settled := ⟨rfl, hpower, fun _ _ => rfl⟩
  cases op with
  | readByte addr =>
    obtain ⟨b, hb⟩ := m.exists_cell (Nat.lt_of_lt_of_le hfit hcells)
    have hget : (m.plain size).cells.getD addr 0xFF = b := by
      rw [List.getD_eq_getElem?_getD, plain, getElem?_slice, Nat.zero_add,
        if_pos (show addr < size from hfit), hb]
      rfl
    refine Ends.after_ok (readByte_returns hfit hb) (Ends.ok ⟨?_, hsettled⟩)
    rw [Plain.answer, hget]
  | read start len =>
    exact Ends.after_ok (read_returns hfit hcells) (Ends.ok ⟨rfl, hsettled⟩)
  | write start bytes =>
    refine Ends.after_ok (write_returns bytes hfit hcells) (Ends.ok ⟨rfl, ?_, ?_, ?_⟩)
    · exact write_plain hpower hfit hcells
    · simp [hpower]
    · intro i hi
      refine cell?_programmedAll_of_ne m fun w hw => ?_
      exact Nat.ne_of_lt (Nat.lt_of_lt_of_le (mem_placed hw).2 (Nat.le_trans hfit hi))
  | update start bytes =>
    obtain ⟨n, hrun, hn⟩ := update_returns (m := m) bytes hfit hcells
    have hcount : n = (m.plain size).differing start bytes := by
      rw [writes_updatedAll_placed hfit hcells] at hn
      omega
    refine Ends.after_ok hrun (Ends.ok ⟨?_, ?_, ?_, ?_⟩)
    · rw [hcount, Plain.answer]
    · exact update_plain hpower hfit hcells
    · exact budget_updatedAll_of_none hpower _
    · intro i hi
      rw [cell?_updatedAll_placed hpower (Nat.le_trans hfit hcells), if_neg]
      exact fun h => absurd (Nat.lt_of_lt_of_le h.2 (Nat.le_trans hfit hi)) (Nat.lt_irrefl i)
  | sync => exact Ends.after_ok (Returns.lift sync_returns) (Ends.ok ⟨rfl, hsettled⟩)

omit hcells in
/-- An access that does not fit is refused and leaves the store alone. -/
theorem ask_refuses (op : Operation) (hshort : size < op.stop) :
    (op.ask (eeprom size)).run.Returns m (.error (.overflow size op.stop)) m := by
  cases op with
  | sync => exact absurd hshort (Nat.not_lt_zero _)
  | _ =>
    exact Returns.bind (Returns.bind (check_refuses hshort) (Returns.pure _ m)) (Returns.pure _ m)

theorem ask_refines (hpower : m.budget = none) (op : Operation) :
    (op.ask (eeprom size)).run.Ends m fun reply m' =>
      reply = ((m.plain size).ask op).1 ∧ Leaves size m ((m.plain size).ask op).2 m' := by
  rw [Plain.ask, length_plain hcells]
  by_cases hfit : op.stop ≤ size
  · rw [if_pos hfit]
    exact answer_refines hcells hpower op hfit
  · rw [if_neg hfit]
    exact (ask_refuses op (Nat.lt_of_not_le hfit)).ends ⟨rfl, rfl, hpower, fun _ _ => rfl⟩

/-- **The store is a plain array.**  Whatever the cells hold and however long the write in progress
still takes, accesses in a row come to their ends, so that none of them reads or writes during a
write.  Their replies are those of a plain array of the first `size` cells, which is also what they
leave, down to the number of writes; the cells behind are untouched. -/
theorem serve_refines (hpower : m.budget = none) (ops : List Operation) :
    (Store.serve (eeprom size) ops).Ends m fun replies m' =>
      replies = ((m.plain size).serve ops).1 ∧ Leaves size m ((m.plain size).serve ops).2 m' := by
  induction ops generalizing m with
  | nil => exact Ends.pure ⟨rfl, rfl, hpower, fun _ _ => rfl⟩
  | cons op rest ih =>
    refine Ends.bind (ask_refines hcells hpower op) ?_
    rintro _ m₁ ⟨rfl, h₁⟩
    refine Ends.bind (ih h₁.power) ?_
    rintro _ m₂ ⟨rfl, h₂⟩
    rw [h₁.plain] at h₂ ⊢
    refine Ends.pure ⟨rfl, h₂.plain, h₂.power, fun i hi => ?_⟩
    rw [h₂.behind i hi, h₁.behind i hi]

omit hcells in
/-- An update, a read of the same cells, a write that does not fit, and a read of one byte, begun
while a write is in progress. -/
theorem serve_refines_four_cells :
    4 ≤ cellCount ∧ ({ busyPolls := 2 } : Memory).budget = none ∧
      (Store.serve (eeprom 4)
        [.update 0 [1, 0xFF, 2], .read 0 4, .write 3 [5, 6], .readByte 2]).Ends
          { busyPolls := 2 } fun replies m' =>
            replies = [.ok (.count 2), .ok (.bytes [1, 0xFF, 2, 0xFF]), .error (.overflow 4 5),
              .ok (.byte 2)] ∧ m'.writes = 2 := by
  have hcells : 4 ≤ cellCount := by decide
  have hblank : ({ busyPolls := 2 } : Memory).Blank := fun i hi => blank_default i hi
  have hplain : ({ busyPolls := 2 } : Memory).plain 4 = ⟨List.replicate 4 0xFF, 0⟩ := by
    rw [plain, hblank.slice_eq hcells]
  refine ⟨hcells, rfl, ?_⟩
  refine (serve_refines (m := { busyPolls := 2 }) hcells rfl
    [.update 0 [1, 0xFF, 2], .read 0 4, .write 3 [5, 6], .readByte 2]).mono ?_
  intro replies m' h
  rw [hplain] at h
  have hwrites : m'.writes = _ := congrArg Plain.writes h.2.plain
  exact ⟨h.1.trans rfl, hwrites.trans rfl⟩

end Rows

end CardTap.Bench.Memory
