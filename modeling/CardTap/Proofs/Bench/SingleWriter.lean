import CardTap.Bench.Preempted
import CardTap.Proofs.AlwaysRestarts
import Mathlib.Logic.Function.Basic

/-!
# One writer at a time

Between the poll that finds the store idle and the write that follows it, a terminal reset may come
in and write the store itself.  The access goes on as if nothing had happened, and that is right:
the handler ends with no write in progress, so a store found idle is still idle behind it.

`Consistent` says how an interrupted access stands: every cell that it has not brought to a value
holds what the bench, or the handler, left there.  Each call of an access keeps this (`border_ends`
and one lemma for each kind of call), so a whole access does (`single_writer`).
-/

namespace CardTap.Bench.Preempted

open CardTap.Run CardTap.Bench.Memory CardTap.Store

variable {size point : Nat} {b : Bench} {values : Nat → Option UInt8} {s : Preempted}

/-! ## How an interrupted access stands -/

section Standing

/-- The store as it would be without the access: `m` before the interrupt, and what the handler left
behind it. -/
def ground (m : Memory) (s : Preempted) : Memory := (s.handled.map (·.2)).getD m

/-- The interrupt, if it came, left a cell as it was. -/
def Spares (s : Preempted) (i : Nat) : Prop :=
  ∀ found left, s.handled = some (found, left) → left.cell? i = found.cell? i

/-- An access that began on the bench `b` has brought cells to `values`, and the handler has run if
the access made more than `point` calls. -/
structure Consistent (size : Nat) (b : Bench) (point : Nat) (values : Nat → Option UInt8)
    (s : Preempted) : Prop where
  point_eq : s.point = point
  arrived : s.handled.isSome ↔ point < s.calls
  waiting : s.handled = none → s.bench = { b with memory := s.memory }
  /-- What ran in between is the handler, on the bench with the store that it found. -/
  handler : ∀ found left, s.handled = some (found, left) →
    (∃ report, ((board size).handleTerminalReset).Returns { b with memory := found } report
      (b.resetTo left)) ∧ s.bench = b.resetTo s.memory
  power : b.memory.budget = none → s.memory.budget = none
  outside : ∀ i, values i = none → s.memory.cell? i = (s.ground b.memory).cell? i
  inside : b.memory.budget = none → ∀ i v, values i = some v → s.Spares i →
    s.memory.cell? i = some v

theorem Consistent.start (size : Nat) (b : Bench) (point : Nat) :
    Consistent size b point (fun _ => none) { bench := b, point } where
  point_eq := rfl
  arrived := by simp
  waiting _ := rfl
  handler := nofun
  power := id
  outside _ _ := rfl
  inside _ _ _ := nofun

/-- A change of the store that brings further cells to their values and leaves the others alone. -/
theorem Consistent.put {values' : Nat → Option UInt8} (h : Consistent size b point values s)
    {m : Memory}
    (hpower : b.memory.budget = none → s.memory.budget = none → m.budget = none)
    (houtside : ∀ i, values' i = none → values i = none ∧ m.cell? i = s.memory.cell? i)
    (hinside : b.memory.budget = none → s.memory.budget = none → ∀ i v, values' i = some v →
      m.cell? i = some v ∨ values i = some v ∧ m.cell? i = s.memory.cell? i) :
    Consistent size b point values' (storePart.put m s) where
  point_eq := h.point_eq
  arrived := h.arrived
  waiting hnone := by
    have hbench := h.waiting hnone
    show ({ s.bench with memory := m } : Bench) = _
    rw [hbench]
    rfl
  handler found left hsome := by
    obtain ⟨hrun, hbench⟩ := h.handler found left hsome
    refine ⟨hrun, ?_⟩
    show ({ s.bench with memory := m } : Bench) = _
    rw [hbench]
    rfl
  power hnone := hpower hnone (h.power hnone)
  outside i hi := by
    obtain ⟨hvalue, hcell⟩ := houtside i hi
    exact hcell.trans (h.outside i hvalue)
  inside hnone i v hv hspared := by
    rcases hinside hnone (h.power hnone) i v hv with hcell | ⟨hvalue, hcell⟩
    · exact hcell
    · exact hcell.trans (h.inside hnone i v hvalue hspared)

/-- Work on the store that leaves its cells alone. -/
theorem Consistent.put_same (h : Consistent size b point values s) {m : Memory}
    (hcells : ∀ i, m.cell? i = s.memory.cell? i) (hbudget : m.budget = s.memory.budget) :
    Consistent size b point values (storePart.put m s) := by
  refine h.put (fun _ hnone => hbudget.trans hnone) ?_ ?_
  · intro i hi
    exact ⟨hi, hcells i⟩
  · intro _ _ i v hv
    exact .inr ⟨hv, hcells i⟩

/-- A change of the store that brings one more cell to its value. -/
theorem Consistent.put_value (h : Consistent size b point values s) {m : Memory} {addr : Nat}
    {v : UInt8} (hpower : s.memory.budget = none → m.budget = none)
    (hother : ∀ i, i ≠ addr → m.cell? i = s.memory.cell? i)
    (hcell : s.memory.budget = none → m.cell? addr = some v) :
    Consistent size b point (Function.update values addr (some v)) (storePart.put m s) := by
  refine h.put (fun _ => hpower) ?_ ?_
  · intro i hi
    have hne : i ≠ addr := by
      rintro rfl
      simp at hi
    rw [Function.update_of_ne hne] at hi
    exact ⟨hi, hother i hne⟩
  · intro _ hnone i w hw
    by_cases hat : i = addr
    · subst hat
      rw [Function.update_self] at hw
      exact .inl ((hcell hnone).trans hw)
    · rw [Function.update_of_ne hat] at hw
      exact .inr ⟨hw, hother i hat⟩

/-- A write of one cell. -/
theorem Consistent.put_programmed (h : Consistent size b point values s) {addr : Nat} (v : UInt8)
    (hfit : addr < cellCount) :
    Consistent size b point (Function.update values addr (some v))
      (storePart.put (s.memory.programmed addr v) s) := by
  refine h.put_value ?_ ?_ ?_
  · intro hnone
    rw [budget_programmed, hnone]
    rfl
  · intro i hne
    rw [cell?_programmed, if_neg fun hat => hne hat.1]
  · intro hnone
    rw [cell?_programmed, if_pos ⟨rfl, hfit, by simp [hnone]⟩]

/-- A cell that is found to hold its value needs no write. -/
theorem Consistent.found (h : Consistent size b point values s) {addr : Nat} {v : UInt8}
    (hcell : s.memory.cell? addr = some v) :
    Consistent size b point (Function.update values addr (some v)) s :=
  h.put_value (m := s.memory) id (fun _ _ => rfl) fun _ => hcell

end Standing

/-! ## Single calls -/

section Calls

variable (hcells : size ≤ cellCount)

include hcells

/-- The handler leaves the store as it wants it, with no write in progress. -/
theorem interrupt_ends (h : Consistent size b point values s) (hpoint : s.calls = s.point) :
    (interrupt size).Ends s fun _ s' => s'.calls = s.calls ∧ s'.memory.busyPolls = 0 ∧
      Consistent size b point values { s' with calls := s'.calls + 1 } := by
  have hnone : s.handled = none := by
    have hlate := h.arrived
    rw [hpoint, h.point_eq] at hlate
    simpa using hlate
  obtain ⟨report, m, _, _, hrun, ⟨saved⟩, -⟩ := handleTerminalReset_any hcells s.bench
  have hhandler : (Run.within benchPart.get benchPart.put (board size).handleTerminalReset).Returns
      s report (benchPart.put _ s) := Returns.within hrun
  refine Ends.after (Returns.read _ s) (Ends.after hhandler ?_)
  refine (Returns.change _ _).ends ⟨rfl, saved.busyPolls_eq, ?_⟩
  have hbench := h.waiting hnone
  exact {
    point_eq := h.point_eq
    arrived := by
      show true = true ↔ point < s.calls + 1
      rw [hpoint, h.point_eq]
      simp
    waiting := nofun
    handler := by
      intro found left hsome
      obtain ⟨rfl, rfl⟩ := Prod.mk.inj (Option.some.inj hsome)
      rw [hbench] at hrun
      refine ⟨⟨report, hrun⟩, ?_⟩
      show s.bench.resetTo m = _
      rw [hbench]
      rfl
    power := fun hpower => saved.writesOnly.budget_of_none (h.power hpower)
    outside := fun _ _ => rfl
    inside := by
      intro hpower i v hv hspared
      refine (hspared _ _ rfl).trans (h.inside hpower i v hv ?_)
      intro found left hsome
      rw [hnone] at hsome
      cases hsome }

/-- Whether or not the handler runs at a border, no write is in progress behind it that was not
before. -/
theorem border_ends (h : Consistent size b point values s) :
    (border size).Ends s fun _ s' =>
      Consistent size b point values s' ∧ s'.memory.busyPolls ≤ s.memory.busyPolls := by
  refine Ends.after (Returns.read id s) ?_
  by_cases hpoint : s.calls = s.point
  · simp only [id_eq, hpoint, ↓reduceIte]
    refine Ends.bind (interrupt_ends hcells h hpoint) ?_
    rintro _ s' ⟨-, hidle, hrest⟩
    refine (Returns.change _ s').ends ⟨hrest, ?_⟩
    show s'.memory.busyPolls ≤ _
    omega
  · simp only [id_eq, hpoint, ↓reduceIte]
    rw [h.point_eq] at hpoint
    refine Returns.ends (Returns.change _ s) ?_
    refine ⟨?_, Nat.le_refl _⟩
    refine { h with arrived := h.arrived.trans ?_ }
    show point < s.calls ↔ point < s.calls + 1
    omega

/-- A call, with the border in front of it. -/
theorem call_ends {α : Type} {x : Run Memory α} {Q : α → Preempted → Prop}
    (h : Consistent size b point values s)
    (hx : ∀ s' : Preempted, Consistent size b point values s' →
      s'.memory.busyPolls ≤ s.memory.busyPolls →
      x.Ends s'.memory fun a m => Q a (storePart.put m s')) :
    (call size x).Ends s Q := by
  refine Ends.bind (border_ends hcells h) ?_
  rintro _ s' ⟨h', hbusy⟩
  exact Ends.within (hx s' h' hbusy)

/-- Reading an idle store: a value is answered that the cell holds right then. -/
theorem fetch_ends (h : Consistent size b point values s) (hidle : s.memory.busyPolls = 0)
    (addr : Nat) (hfit : addr < cellCount) :
    ((eeprom size).read addr).Ends s fun v s' =>
      Consistent size b point values s' ∧ s'.memory.busyPolls = 0 ∧
        s'.memory.cell? addr = some v := by
  refine call_ends hcells h ?_
  intro s' h' hbusy
  obtain ⟨v, hv⟩ := s'.memory.exists_cell hfit
  have hidle' : s'.memory.busyPolls = 0 := by omega
  exact (fetch_returns hidle' hv).ends ⟨h', hidle', hv⟩

/-- Writing to an idle store. -/
theorem beginWrite_ends (h : Consistent size b point values s) (hidle : s.memory.busyPolls = 0)
    {addr : Nat} (v : UInt8) (hfit : addr < cellCount) :
    ((eeprom size).beginWrite addr v).Ends s fun _ s' =>
      Consistent size b point (Function.update values addr (some v)) s' := by
  refine call_ends hcells h ?_
  intro s' h' hbusy
  exact (beginWrite_returns v (by omega) hfit).ends (h'.put_programmed v hfit)

/-- Polling brings the write in progress closer to its end. -/
theorem busy_ends (h : Consistent size b point values s) :
    (eeprom size).busy.Ends s fun more s' => Consistent size b point values s' ∧
      (more = true → s'.memory.busyPolls < s.memory.busyPolls) ∧
      (more = false → s'.memory.busyPolls = 0) := by
  refine call_ends hcells h ?_
  intro s' h' hbusy
  refine polled_returns.ends ?_
  cases hm : s'.memory.busyPolls with
  | zero =>
    simp only [polled, hm]
    exact ⟨h', fun hmore => absurd hmore (by decide), fun _ => hm⟩
  | succ left =>
    simp only [polled, hm]
    refine ⟨h'.put_same (fun _ => rfl) rfl, fun _ => ?_, fun hdone => absurd hdone (by decide)⟩
    show left < _
    omega

theorem poll_ends {n : Nat} (h : Consistent size b point values s) (hn : s.memory.busyPolls < n) :
    (Store.poll (eeprom size) n).Ends s fun _ s' =>
      Consistent size b point values s' ∧ s'.memory.busyPolls = 0 := by
  induction n generalizing s with
  | zero => omega
  | succ n ih =>
    refine Ends.bind (busy_ends hcells h) ?_
    rintro more s' ⟨h', hmore, hdone⟩
    cases more with
    | false => exact Ends.pure ⟨h', hdone rfl⟩
    | true =>
      have hless := hmore rfl
      exact ih h' (by omega)

/-- The wait for the write in progress ends, also if the handler runs in the middle of it. -/
theorem sync_ends (h : Consistent size b point values s) :
    (Store.sync (eeprom size)).Ends s fun _ s' =>
      Consistent size b point values s' ∧ s'.memory.busyPolls = 0 :=
  Ends.after (Returns.read _ s) (poll_ends hcells h (Nat.lt_succ_self _))

end Calls

/-! ## Whole accesses -/

section Accesses

/-- The values of a row of cells, on top of other values. -/
def overlaid (addr : Nat) (bytes : List UInt8) (values : Nat → Option UInt8) (i : Nat) :
    Option UInt8 :=
  (valueFrom addr bytes i).or (values i)

theorem overlaid_nil (addr : Nat) : overlaid addr [] values = values := by
  funext i
  simp [overlaid, valueFrom]

/-- The first cell of a row may as well be brought to its value first. -/
theorem overlaid_cons (addr : Nat) (v : UInt8) (bytes : List UInt8) :
    overlaid addr (v :: bytes) values =
      overlaid (addr + 1) bytes (Function.update values addr (some v)) := by
  funext i
  simp only [overlaid, valueFrom]
  by_cases hi : i = addr
  · subst hi
    rw [if_pos (Nat.le_refl i), if_neg (Nat.not_succ_le_self i), Nat.sub_self,
      List.getElem?_cons_zero, Function.update_self]
    rfl
  · rw [Function.update_of_ne hi]
    by_cases hle : addr ≤ i
    · rw [if_pos hle, if_pos (by omega), show i - addr = i - (addr + 1) + 1 by omega,
        List.getElem?_cons_succ]
    · rw [if_neg hle, if_neg (by omega)]

theorem overlaid_none (addr : Nat) (bytes : List UInt8) :
    overlaid addr bytes (fun _ => none) = valueFrom addr bytes := by
  funext i
  exact Option.or_none

variable (hcells : size ≤ cellCount)

include hcells

theorem writeFrom_ends (h : Consistent size b point values s) {addr : Nat} {bytes : List UInt8}
    (hfit : addr + bytes.length ≤ cellCount) :
    (Store.writeFrom (eeprom size) addr bytes).Ends s fun _ s' =>
      Consistent size b point (overlaid addr bytes values) s' := by
  induction bytes generalizing s addr values with
  | nil =>
    rw [overlaid_nil]
    exact Ends.pure h
  | cons v rest ih =>
    rw [List.length_cons] at hfit
    rw [overlaid_cons]
    refine Ends.bind (sync_ends hcells h) ?_
    rintro _ s' ⟨h', hidle⟩
    refine Ends.bind (beginWrite_ends hcells h' hidle v (by omega)) ?_
    intro _ s'' h''
    exact ih h'' (by omega)

/-- The read in front of each write finds the cell as it is, so a cell that is passed over holds its
value. -/
theorem updateFrom_ends (h : Consistent size b point values s) {addr : Nat} {bytes : List UInt8}
    (written : Nat) (hfit : addr + bytes.length ≤ cellCount) :
    (Store.updateFrom (eeprom size) written addr bytes).Ends s fun _ s' =>
      Consistent size b point (overlaid addr bytes values) s' := by
  induction bytes generalizing s addr values written with
  | nil =>
    rw [overlaid_nil]
    exact Ends.pure h
  | cons v rest ih =>
    rw [List.length_cons] at hfit
    rw [overlaid_cons]
    refine Ends.bind (sync_ends hcells h) ?_
    rintro _ s' ⟨h', hidle⟩
    refine Ends.bind (fetch_ends hcells h' hidle addr (by omega)) ?_
    rintro old t ⟨ht, hidle', hold⟩
    by_cases hsame : old = v
    · subst hsame
      simp only [↓reduceIte]
      exact ih (ht.found hold) written (by omega)
    · simp only [hsame, ↓reduceIte]
      refine Ends.bind (beginWrite_ends hcells ht hidle' v (by omega)) ?_
      intro _ t' ht'
      exact ih ht' (written + 1) (by omega)

/-! ### Checked accesses -/

omit hcells in
/-- An access succeeded and has brought its cells to their values. -/
def Done {α : Type} (size : Nat) (b : Bench) (point : Nat) (values : Nat → Option UInt8)
    (r : Except StoreError α) (s : Preempted) : Prop :=
  (∃ a, r = .ok a) ∧ Consistent size b point values s

omit hcells in
theorem Done.lift {α : Type} {x : Run Preempted α}
    (hx : x.Ends s fun _ s' => Consistent size b point values s') :
    (liftM x : StoreRun Preempted α).run.Ends s (Done size b point values) := by
  refine Ends.lift (hx.mono ?_)
  intro a s' h
  exact ⟨⟨a, rfl⟩, h⟩

omit hcells in
theorem Done.bind {α β : Type} {x : StoreRun Preempted α} {f : α → StoreRun Preempted β}
    {values' : Nat → Option UInt8} (hx : x.run.Ends s (Done size b point values))
    (hf : ∀ a s', Consistent size b point values s' →
      (f a).run.Ends s' (Done size b point values')) :
    (x >>= f).run.Ends s (Done size b point values') := by
  refine Ends.bind_ok hx ?_ ?_
  · rintro a s' ⟨-, h⟩
    exact hf a s' h
  · rintro e s' ⟨⟨a, hok⟩, -⟩
    cases hok

omit hcells in
/-- What an access answers may be dropped. -/
theorem Done.drop {α : Type} {x : StoreRun Preempted α}
    (hx : x.run.Ends s (Done size b point values)) :
    (do let _ ← x : StoreRun Preempted Unit).run.Ends s (Done size b point values) :=
  Done.bind hx fun _ _ h => Ends.ok ⟨⟨_, rfl⟩, h⟩

theorem readAll_ends (h : Consistent size b point values s) (hidle : s.memory.busyPolls = 0)
    {addrs : List Nat} (hfit : ∀ addr ∈ addrs, addr < cellCount) :
    (addrs.mapM fun addr => (liftM ((eeprom size).read addr) : StoreRun Preempted UInt8)).run.Ends
      s (Done size b point values) := by
  induction addrs generalizing s with
  | nil => exact Ends.ok ⟨⟨_, rfl⟩, h⟩
  | cons addr rest ih =>
    have hrest : ∀ a ∈ rest, a < cellCount := fun a ha => hfit a (List.mem_cons_of_mem _ ha)
    obtain ⟨v, s', hrun, h', hidle', -⟩ :=
      fetch_ends hcells h hidle addr (hfit addr List.mem_cons_self)
    rw [List.mapM_cons]
    refine Ends.after_ok (Returns.lift hrun) (Done.bind (ih h' hidle' hrest) ?_)
    intro bytes s'' h''
    exact Ends.ok ⟨⟨_, rfl⟩, h''⟩

/-- An access that fits succeeds and has brought its cells to their values. -/
theorem run_ends (h : Consistent size b point (fun _ => none) s) (op : Operation)
    (hfit : op.stop ≤ size) :
    (op.run (eeprom size)).run.Ends s (Done size b point op.value?) := by
  cases op with
  | readByte addr =>
    obtain ⟨_, s', hrun, h', hidle⟩ := sync_ends hcells h
    refine Done.drop (Ends.after_ok (check_returns hfit) (Ends.after_ok (Returns.lift hrun) ?_))
    refine Done.lift ((fetch_ends hcells h' hidle addr (Nat.lt_of_lt_of_le hfit hcells)).mono ?_)
    rintro v s'' ⟨h'', -⟩
    exact h''
  | read start len =>
    obtain ⟨_, s', hrun, h', hidle⟩ := sync_ends hcells h
    refine Done.drop (Ends.after_ok (check_returns hfit) (Ends.after_ok (Returns.lift hrun) ?_))
    refine readAll_ends hcells h' hidle ?_
    intro addr haddr
    rw [List.mem_range'_1] at haddr
    exact Nat.lt_of_lt_of_le haddr.2 (Nat.le_trans hfit hcells)
  | write start bytes =>
    refine Ends.after_ok (check_returns hfit) (Done.lift ?_)
    rw [Operation.value?, ← overlaid_none]
    exact writeFrom_ends hcells h (Nat.le_trans hfit hcells)
  | update start bytes =>
    refine Done.drop (Ends.after_ok (check_returns hfit) (Done.lift ?_))
    rw [Operation.value?, ← overlaid_none]
    exact updateFrom_ends hcells h 0 (Nat.le_trans hfit hcells)
  | sync =>
    refine Done.lift ((sync_ends hcells h).mono ?_)
    rintro _ s' ⟨h', -⟩
    exact h'

omit hcells in
/-- An access that does not fit is refused before it calls the store. -/
theorem run_refuses (op : Operation) (hshort : size < op.stop) :
    (op.run (eeprom size)).run.Returns s (.error (.overflow size op.stop)) s := by
  cases op with
  | readByte addr =>
    exact Returns.bind (Returns.bind (check_refuses hshort) (Returns.pure _ s)) (Returns.pure _ s)
  | read start len =>
    exact Returns.bind (Returns.bind (check_refuses hshort) (Returns.pure _ s)) (Returns.pure _ s)
  | write start bytes => exact Returns.bind (check_refuses hshort) (Returns.pure _ s)
  | update start bytes =>
    exact Returns.bind (Returns.bind (check_refuses hshort) (Returns.pure _ s)) (Returns.pure _ s)
  | sync => exact absurd hshort (Nat.not_lt_zero _)

end Accesses

/-! ## The main statement -/

section Main

/-- The handler spares every cell but those of the log, its cursor and the two saved values. -/
theorem Consistent.spares (h : Consistent size b point values s) (hcells : size ≤ cellCount)
    {i : Nat} (hcounter : i ≠ Layout.counter) (hwarm : i ≠ Layout.warmFlag)
    (hlog : ¬ Log.Cell size i) : s.Spares i := by
  intro found left hsome
  obtain ⟨⟨report, hrun⟩, -⟩ := h.handler found left hsome
  obtain ⟨_, m, _, _, hrun', ⟨saved⟩, -⟩ := handleTerminalReset_any hcells
    { b with memory := found }
  have hleft : left = m := congrArg Bench.memory (hrun.unique hrun').2
  rw [hleft]
  exact saved.cell?_eq hcounter hwarm hlog

/-- **One writer at a time.**  A terminal reset may interrupt an access at any of its calls to the
store, whatever write was in progress when the access began: both come to their ends, so neither
reads or writes during a write.  An access that fits has then brought every cell that the handler
spared to its value, and all other cells are as the handler left them; an access that does not fit
has done nothing. -/
theorem single_writer (hcells : size ≤ cellCount) (op : Operation) (b : Bench) (point : Nat) :
    ∃ r s, (op.run (eeprom size)).run.Returns { bench := b, point } r s ∧
      (r = .ok () ∧ op.stop ≤ size ∧ Consistent size b point op.value? s ∨
        r = .error (.overflow size op.stop) ∧ size < op.stop ∧ s = { bench := b, point }) := by
  rcases Nat.lt_or_ge size op.stop with hshort | hfit
  · exact ⟨_, _, run_refuses op hshort, .inr ⟨rfl, hshort, rfl⟩⟩
  · obtain ⟨r, s, hrun, ⟨_, rfl⟩, h⟩ := run_ends hcells (Consistent.start size b point) op hfit
    exact ⟨_, s, hrun, .inl ⟨rfl, hfit, h⟩⟩

/-- The handler comes in front of the third call of an update, which is the write of its first
byte: the poll before it found the store idle and the read found another value. -/
theorem single_writer_update :
    ∃ s, ((Operation.update 0x30 [1, 2, 3]).run (eeprom cellCount)).run.Returns
        { bench := loaded, point := 2 } (.ok ()) s ∧
      s.memory.cell? 0x30 = some 1 ∧ s.memory.cell? 0x31 = some 2 ∧
        s.memory.cell? 0x32 = some 3 := by
  obtain ⟨r, s, hrun, ⟨rfl, -, h⟩ | ⟨-, hshort, -⟩⟩ :=
    single_writer (Nat.le_refl cellCount) (.update 0x30 [1, 2, 3]) loaded 2
  · have hspared (i : Nat) (hi : 0x30 ≤ i ∧ i < 0x33) : s.Spares i := by
      refine h.spares (Nat.le_refl _) ?_ ?_ ?_
      · rintro rfl
        exact absurd hi (by decide)
      · rintro rfl
        exact absurd hi (by decide)
      · rintro ⟨-, hlog | rfl | rfl⟩
        · exact absurd (Nat.le_trans hlog (Nat.le_of_lt hi.2)) (by decide)
        · exact absurd hi (by decide)
        · exact absurd hi (by decide)
    refine ⟨s, hrun, ?_, ?_, ?_⟩
    · exact h.inside rfl 0x30 1 rfl (hspared _ (by decide))
    · exact h.inside rfl 0x31 2 rfl (hspared _ (by decide))
    · exact h.inside rfl 0x32 3 rfl (hspared _ (by decide))
  · exact absurd hshort (by decide)

end Main

end CardTap.Bench.Preempted
