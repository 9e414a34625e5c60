import Mathlib.Data.List.Induction
import CardTap.Proofs.AlwaysRestarts
import CardTap.Proofs.Log.Recovery
import CardTap.Proofs.PowerUp

/-!
# The counter and the warm-reset marker over power cycles

In each power cycle the device boots without the menu key, works, and is reset by the terminal.  The
counter goes from the store into the shared state, is counted on there and comes back with the
reset; the marker is moved on by the reset alone.  Neither depends on what is captured, nor on how
much of it still finds room in the log (`counter_and_marker_last`).
-/

namespace CardTap.Bench

open CardTap.Run CardTap.Bench.Memory

/-! ## One power cycle -/

/-- What happens between a boot and the terminal reset. -/
inductive Work where
  | capture (x : Exchange)
  | count

namespace Work

/-- Whether a session is counted. -/
def counts : Work → Bool
  | .capture _ => false
  | .count => true

/-- The work done. -/
def run : Work → Run Bench Unit
  | .capture x => do let _ ← (board cellCount).capture x
  | .count => do let _ ← (board cellCount).incrementCounter

end Work

/-- A power cycle: a power-up without the menu key, work, and a terminal reset with or without the
clock of the terminal. -/
structure Cycle where
  up : PowerUp
  reads : up.script ≠ []
  keyless : up.entersMenu = false
  work : List Work
  clock : Bool

namespace Cycle

/-- The power cycle behind its boot. -/
def finish (c : Cycle) : Run Bench Unit := do
  c.work.forM Work.run
  Run.change fun b => { b with resetLine.clock := c.clock }
  let _ ← (board cellCount).handleTerminalReset

/-- A whole power cycle. -/
def run (ed : Edition) (c : Cycle) : StoreRun Bench Unit := do
  let _ ← c.up.boot ed
  (c.finish : Run Bench Unit)

/-- The sessions counted in a power cycle. -/
def counted (c : Cycle) : Nat := c.work.countP Work.counts

variable {c : Cycle} {b : Bench}

theorem finishes (c : Cycle) (ed : Edition) : c.up.Finishes ed :=
  ⟨c.reads, fun hmenu => absurd hmenu (by rw [c.keyless]; decide)⟩

/-- The boot of a power cycle takes the counter and the marker over and leaves their cells alone. -/
theorem boot_ends (ed : Edition) (hpower : b.memory.budget = none) :
    (c.up.boot ed).run.Ends b fun r b' =>
      (∃ result, r = .ok result) ∧ b'.memory.budget = none ∧
        (∀ i, i ≠ Layout.application → b'.memory.cell? i = b.memory.cell? i) ∧
        b'.ram.warm = b.memory.byteAt Layout.warmFlag ∧
        b'.ram.counter = b.memory.byteAt Layout.counter := by
  refine (PowerUp.boot_ends (c.finishes ed) b).mono ?_
  rintro _ b' ⟨rfl, hbooted⟩
  have hreason : c.up.reason? ed ≠ some .erased := by
    rw [PowerUp.reason?_of_keyless c.keyless]
    exact nofun
  refine ⟨⟨_, rfl⟩, ?_, fun i hi => ?_, hbooted.warm, hbooted.counter⟩
  · rw [hbooted.memory]
    exact PowerUp.budget_storeAfter hpower
  · rw [hbooted.memory]
    exact PowerUp.cell?_storeAfter hpower hreason hi

theorem counter_captured? (r : Ram) (x : Exchange) : (r.captured? x).2.counter = r.counter := by
  unfold Ram.captured?
  split <;> rfl

/-- Work counts sessions in the shared state and leaves the store alone. -/
theorem work_ends (work : List Work) (b : Bench) :
    (work.forM Work.run).Ends b fun _ b' => b'.memory = b.memory ∧
      b'.ram.counter = b.ram.counter + UInt8.ofNat (work.countP Work.counts) := by
  induction work generalizing b with
  | nil => exact Ends.pure ⟨rfl, (UInt8.add_zero _).symm⟩
  | cons w work ih =>
    cases w with
    | capture x =>
      refine Ends.after (Returns.bind (capture_returns x) (Returns.pure _ _)) ((ih _).mono ?_)
      rintro _ b' ⟨hmemory, hcounter⟩
      rw [counter_captured?] at hcounter
      exact ⟨hmemory, hcounter⟩
    | count =>
      refine Ends.after (Returns.bind (shared_returns Ram.incremented) (Returns.pure _ _))
        ((ih _).mono ?_)
      rintro _ b' ⟨hmemory, hcounter⟩
      refine ⟨hmemory, hcounter.trans ?_⟩
      rw [List.countP_cons_of_pos rfl, UInt8.ofNat_add, UInt8.add_comm (UInt8.ofNat _)]
      exact UInt8.add_assoc _ _ _

/-- A terminal reset saves the counter and moves the marker on, full log or not. -/
theorem finish_ends (hpower : b.memory.budget = none) :
    c.finish.Ends b fun _ b' => b'.memory.budget = none ∧
      b'.memory.byteAt Layout.counter = b.ram.counter + UInt8.ofNat c.counted ∧
      b'.memory.byteAt Layout.warmFlag =
        Log.nextWarmFlag (b.memory.byteAt Layout.warmFlag) c.clock := by
  refine Ends.bind (work_ends c.work b) ?_
  rintro _ b₁ ⟨hmemory, hcounter⟩
  refine Ends.after (Returns.change _ _) ?_
  obtain ⟨report, m, _, _, hreset, ⟨saved⟩, -⟩ := handleTerminalReset_any (Nat.le_refl cellCount)
    { b₁ with resetLine.clock := c.clock }
  have hpower₁ : b₁.memory.budget = none := by rw [hmemory]; exact hpower
  refine Ends.after hreset (Ends.pure ⟨saved.writesOnly.budget_of_none hpower₁, ?_, ?_⟩)
  · rw [byteAt]
    show (m.cell? Layout.counter).getD 0xFF = _
    rw [saved.cell?_counter hpower₁ (Nat.le_refl _) (by decide), Option.getD_some]
    exact hcounter
  · rw [byteAt]
    show (m.cell? Layout.warmFlag).getD 0xFF = _
    rw [saved.cell?_warmFlag hpower₁ (Nat.le_refl _) (by decide), Option.getD_some]
    show Log.nextWarmFlag (b₁.memory.byteAt _) _ = _
    rw [hmemory]

end Cycle

/-! ## Power cycles in a row -/

section Row

/-- Power cycles one after the other. -/
def runAll (ed : Edition) (cycles : List Cycle) : StoreRun Bench Unit := cycles.forM (Cycle.run ed)

/-- The sessions counted in a row of power cycles. -/
def countedIn (cycles : List Cycle) : Nat := (cycles.map Cycle.counted).sum

/-- The marker behind a row of power cycles. -/
def markerAfter (marker : UInt8) (cycles : List Cycle) : UInt8 :=
  cycles.foldl (fun marker c => Log.nextWarmFlag marker c.clock) marker

/-- The terminal resets with the clock running since the last one without. -/
def clockedSince (cycles : List Cycle) : Nat := (cycles.reverse.takeWhile Cycle.clock).length

theorem countedIn_append (cycles later : List Cycle) :
    countedIn (cycles ++ later) = countedIn cycles + countedIn later := by
  simp [countedIn]

theorem markerAfter_append (marker : UInt8) (cycles later : List Cycle) :
    markerAfter marker (cycles ++ later) = markerAfter (markerAfter marker cycles) later :=
  List.foldl_append

@[simp] theorem markerAfter_singleton (marker : UInt8) (c : Cycle) :
    markerAfter marker [c] = Log.nextWarmFlag marker c.clock := rfl

theorem nextWarmFlag_stopped (marker : UInt8) : Log.nextWarmFlag marker false = 0 :=
  if_neg fun h => nomatch h.1

theorem nextWarmFlag_running {marker : UInt8} (h : marker ≠ Layout.warmValue) :
    Log.nextWarmFlag marker true = Layout.warmValue :=
  if_pos ⟨rfl, h⟩

theorem clockedSince_append (cycles : List Cycle) (c : Cycle) :
    clockedSince (cycles ++ [c]) = if c.clock then clockedSince cycles + 1 else 0 := by
  rw [clockedSince, List.reverse_append, List.reverse_singleton, List.singleton_append,
    List.takeWhile_cons]
  split <;> rfl

/-- The marker toggles with each terminal reset with the clock running, from the last one without
on or from a cleared marker on. -/
theorem markerAfter_eq {marker : UInt8} {cycles : List Cycle} (hcycles : cycles ≠ [])
    (hclear : marker ≠ Layout.warmValue ∨ ∃ c ∈ cycles, c.clock = false) :
    markerAfter marker cycles =
      if clockedSince cycles % 2 = 1 then Layout.warmValue else 0 := by
  induction cycles using List.reverseRecOn with
  | nil => exact absurd rfl hcycles
  | append_singleton cycles c ih =>
    rw [markerAfter_append, markerAfter_singleton, clockedSince_append]
    cases hclock : c.clock with
    | false => exact nextWarmFlag_stopped _
    | true =>
      have hclear' : marker ≠ Layout.warmValue ∨ ∃ c' ∈ cycles, c'.clock = false := by
        refine hclear.imp_right fun ⟨c', hmem, hstopped⟩ => ⟨c', ?_, hstopped⟩
        refine (List.mem_append.1 hmem).resolve_right fun hlast => ?_
        obtain rfl := List.mem_singleton.1 hlast
        exact absurd (hclock.symm.trans hstopped) (by decide)
      rw [if_pos rfl]
      by_cases hfirst : cycles = []
      · subst hfirst
        exact nextWarmFlag_running (hclear'.resolve_right fun ⟨_, hmem, _⟩ => nomatch hmem)
      · rw [ih hfirst hclear']
        by_cases hodd : clockedSince cycles % 2 = 1
        · rw [if_pos hodd, if_neg (by omega)]
          rfl
        · rw [if_neg hodd, if_pos (by omega)]
          rfl

/-- What a row of power cycles does to the counter and the marker. -/
structure Cycled (cycles : List Cycle) (m m' : Memory) : Prop where
  power : m'.budget = none
  counter : m'.byteAt Layout.counter =
    m.byteAt Layout.counter + UInt8.ofNat (countedIn cycles)
  marker : m'.byteAt Layout.warmFlag = markerAfter (m.byteAt Layout.warmFlag) cycles

theorem Cycled.trans {cycles later : List Cycle} {m m' m'' : Memory} (h : Cycled cycles m m')
    (hlater : Cycled later m' m'') : Cycled (cycles ++ later) m m'' where
  power := hlater.power
  counter := by
    rw [hlater.counter, h.counter, UInt8.add_assoc, ← UInt8.ofNat_add, countedIn_append]
  marker := by rw [hlater.marker, h.marker, markerAfter_append]

/-- A boot and the rest of its power cycle. -/
theorem Cycle.ends (c : Cycle) (ed : Edition) {b : Bench} (hpower : b.memory.budget = none) :
    ∃ r b' b'', (c.up.boot ed).run.Returns b (.ok r) b' ∧ c.finish.Returns b' () b'' ∧
      b'.memory.cell? Layout.warmFlag = some b'.ram.warm ∧ Cycled [c] b.memory b''.memory := by
  obtain ⟨_, b', hboot, ⟨r, rfl⟩, hpower', hcells, hwarm, hcounter⟩ := c.boot_ends ed hpower
  obtain ⟨_, b'', hfinish, hpower'', hcounter', hmarker⟩ := c.finish_ends hpower'
  have hflag : b'.memory.byteAt Layout.warmFlag = b.memory.byteAt Layout.warmFlag :=
    byteAt_congr (hcells _ (by decide))
  refine ⟨r, b', b'', hboot, hfinish, ?_, hpower'', ?_, ?_⟩
  · rw [cell?_eq_byteAt _ (by decide), hflag, hwarm]
  · rw [hcounter', hcounter, countedIn, List.map_singleton, List.sum_singleton]
  · rw [hmarker, hflag, markerAfter_singleton]

theorem runAll_ends (ed : Edition) (cycles : List Cycle) {b : Bench}
    (hpower : b.memory.budget = none) :
    (runAll ed cycles).run.Ends b fun r b' => r = .ok () ∧ Cycled cycles b.memory b'.memory := by
  induction cycles generalizing b with
  | nil => exact Ends.ok ⟨rfl, hpower, (UInt8.add_zero _).symm, rfl⟩
  | cons c cycles ih =>
    obtain ⟨r, b', b'', hboot, hfinish, -, hcycled⟩ := c.ends ed hpower
    obtain ⟨_, b₃, hrest, rfl, hlater⟩ := ih hcycled.power
    have hall : (runAll ed (c :: cycles)).run.Returns b (.ok ()) b₃ :=
      Returns.bind_ok (Returns.bind_ok hboot (Returns.lift hfinish)) hrest
    exact hall.ends ⟨rfl, hcycled.trans hlater⟩

/-- **No count and no reset is lost.** Behind any row of power cycles, the next one takes the marker
over as it stands in its cell, and leaves the counter of all sessions counted so far.  Once a reset
came without the clock, or if the marker was clear at first, it leaves the marker set exactly if an
odd number of resets with the clock running followed. -/
theorem counter_and_marker_last (ed : Edition) {b : Bench} (hpower : b.memory.budget = none)
    (past : List Cycle) (next : Cycle) :
    ∃ b₁ r b₂ b₃,
      (runAll ed past).run.Returns b (.ok ()) b₁ ∧
      (next.up.boot ed).run.Returns b₁ (.ok r) b₂ ∧
      next.finish.Returns b₂ () b₃ ∧
      b₂.memory.cell? Layout.warmFlag = some b₂.ram.warm ∧
      b₃.memory.cell? Layout.counter =
        some (b.memory.byteAt Layout.counter + UInt8.ofNat (countedIn (past ++ [next]))) ∧
      (b.memory.byteAt Layout.warmFlag ≠ Layout.warmValue ∨
          (∃ c ∈ past ++ [next], c.clock = false) →
        b₃.memory.cell? Layout.warmFlag =
          some (if clockedSince (past ++ [next]) % 2 = 1 then Layout.warmValue else 0)) := by
  obtain ⟨_, b₁, hpast, rfl, hcycled⟩ := runAll_ends ed past hpower
  obtain ⟨r, b₂, b₃, hboot, hfinish, hwarm, hnext⟩ := next.ends ed hcycled.power
  have hall := hcycled.trans hnext
  refine ⟨b₁, r, b₂, b₃, hpast, hboot, hfinish, hwarm, ?_, fun hclear => ?_⟩
  · rw [cell?_eq_byteAt _ (by decide), hall.counter]
  · rw [cell?_eq_byteAt _ (by decide), hall.marker, markerAfter_eq (by simp) hclear]

/-- A power cycle in which one exchange is captured and counted. -/
def oneSession : Cycle where
  up := running
  reads := by decide
  keyless := by decide
  work := [.capture Log.shortExchange, .count]
  clock := true

/-- Two such power cycles of an erased store: the counter wraps around, and the marker is set and
cleared again. -/
theorem counter_and_marker_twice :
    ∃ b₁ r b₂ b₃,
      (runAll ⟨false, false⟩ [oneSession]).run.Returns {} (.ok ()) b₁ ∧
      (oneSession.up.boot ⟨false, false⟩).run.Returns b₁ (.ok r) b₂ ∧
      oneSession.finish.Returns b₂ () b₃ ∧
      b₃.memory.cell? Layout.counter = some 0x01 ∧ b₃.memory.cell? Layout.warmFlag = some 0 := by
  obtain ⟨b₁, r, b₂, b₃, hpast, hboot, hfinish, -, hcounter, hmarker⟩ :=
    counter_and_marker_last ⟨false, false⟩ (b := {}) rfl [oneSession] oneSession
  have herased {i : Nat} (hi : i < cellCount) : ({} : Memory).byteAt i = 0xFF := by
    rw [byteAt, blank_default i hi]
    rfl
  rw [herased (by decide)] at hcounter hmarker
  exact ⟨b₁, r, b₂, b₃, hpast, hboot, hfinish, hcounter, hmarker (.inl (by decide))⟩

end Row

end CardTap.Bench
