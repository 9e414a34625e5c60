import CardTap.Proofs.Device.Changes

/-!
# The order in which the card contacts are switched

A card must not get power before its other contacts are low, and must lose it last.  Each operation
of the slot is a row of changes of registers, or two rows with the detect switch read in between.
What the rows keep and where they touch the power is read off the changes; nothing is assumed of the
registers that an operation finds, so that no history of operations matters.
-/

namespace CardTap.Device

open CardTap.Run

/-! ## The contacts of the card -/

section Contacts

/-- The contact RST. -/
def cardReset : Contacts := ⟨Reg.outputD, Reg.directionD, Pin.cardRst⟩

/-- The contacts CLK and I/O. -/
def cardLines : Contacts := ⟨Reg.outputB, Reg.directionB, Pin.cardClk ||| Pin.cardIo⟩

/-- The power, which is on while it is an output at low. -/
def cardPower : Contacts := ⟨Reg.outputD, Reg.directionD, Pin.cardVcc⟩

/-- What else is in bank B. -/
def restOfB : Contacts := ⟨Reg.outputB, Reg.directionB, ~~~(Pin.cardIo ||| Pin.cardClk)⟩

/-- What else is in bank D. -/
def restOfD : Contacts := ⟨Reg.outputD, Reg.directionD, ~~~(Pin.cardRst ||| Pin.cardVcc)⟩

/-- The card has power. -/
def Powered (v : Values) : Prop := (cardPower.bits v).2 ≠ 0 ∧ (cardPower.bits v).1 = 0

instance (v : Values) : Decidable (Powered v) := inferInstanceAs (Decidable (_ ∧ _))

/-- RST, CLK and I/O are outputs at low. -/
structure ContactsLow (v : Values) : Prop where
  reset : cardReset.Low v
  lines : cardLines.Low v

/-- The control registers of the clock of the card and of its timer. -/
def timerControls : List Nat := [Reg.tccr0a, Reg.tccr0b, Reg.tccr1a, Reg.tccr1b]

/-- The clock of the card and its timer do not run. -/
structure TimersStopped (v : Values) : Prop where
  clock : v Reg.tccr0a = 0 ∧ v Reg.tccr0b = 0
  timer : v Reg.tccr1a = 0 ∧ v Reg.tccr1b = 0

/-- A write switches the power on. -/
def Write.TurnsOn (w : Write) : Prop := ¬Powered w.before ∧ Powered w.after

/-- A write leaves everything else in the two banks as it is. -/
structure Write.KeepsOthers (w : Write) : Prop where
  bankB : restOfB.bits w.after = restOfB.bits w.before
  bankD : restOfD.bits w.after = restOfD.bits w.before

/-- The slot says that the card has power if it has. -/
theorem powered_returns (m : RegisterFile) :
    ∃ accesses, RegisterFile.registers.slot.powered.Returns m (decide (Powered m.values))
      { m with accesses } := by
  have hdirection := RegisterFile.anySet_returns (m := m) Pin.cardVcc
    (show Reg.directionD ≠ Reg.inputD by decide)
  let m₁ : RegisterFile :=
    { m with accesses := m.accesses ++ [.read Reg.directionD (m.values Reg.directionD)] }
  have houtput := RegisterFile.anySet_returns (m := m₁) Pin.cardVcc
    (show Reg.outputD ≠ Reg.inputD by decide)
  by_cases hdriven : m.values Reg.directionD &&& Pin.cardVcc = 0
  · refine ⟨m₁.accesses, Returns.bind hdirection ?_⟩
    simpa [hdriven, Powered, Contacts.bits, cardPower] using Returns.pure false m₁
  · refine ⟨m₁.accesses ++ [.read Reg.outputD (m.values Reg.outputD)],
      Returns.bind hdirection ?_⟩
    have hoff : (!(m.values Reg.outputD &&& Pin.cardVcc != 0)) = decide (Powered m.values) := by
      rw [Bool.eq_iff_iff]
      simp [hdriven, Powered, Contacts.bits, cardPower]
    rw [if_pos (by simpa using hdriven), ← hoff]
    exact Returns.bind houtput (Returns.pure _ _)

end Contacts

/-! ## Rows of changes -/

section Rows

/-- Makes contacts low outputs. -/
def Contacts.lower (k : Contacts) : List Change :=
  [.clear k.output k.mask, .set k.direction k.mask]

/-- Stops the clock and the timer. -/
def stopClock : List Change :=
  [.put Reg.tccr0a 0, .put Reg.tccr0b 0, .put Reg.tccr1a 0, .put Reg.tccr1b 0]

/-- Cuts the power. -/
def cutPower : List Change := [.set Reg.outputD Pin.cardVcc, .set Reg.directionD Pin.cardVcc]

/-- Lets the card drive I/O. -/
def listen : List Change := [.clear Reg.directionB Pin.cardIo, .set Reg.outputB Pin.cardIo]

/-- Starts the clock and the timer. -/
def startClock : List Change :=
  [.put Reg.ocr0a cardCompare, .put Reg.tcnt0 0, .put Reg.tccr0a 0x42, .put Reg.tccr0b 0x01,
    .put Reg.tccr1a 0, .put Reg.tccr1b 0x01]

/-- Gives the contacts up. -/
def shutDown : List Change := cardReset.lower ++ stopClock ++ cardLines.lower ++ cutPower

/-- What comes before the switch is read in a cold activation. -/
def prepare : List Change := cardLines.lower ++ cardReset.lower

/-- What comes behind, by the answer of the switch. -/
def proceed (found : Bool) : List Change :=
  if found then cardPower.lower ++ (listen ++ startClock) else shutDown

/-- The changes of a call that does not read the switch. -/
def changesOf : Slot.Call → List Change
  | .activate _ => cardReset.lower ++ listen
  | .driveReset true => [.set Reg.outputD Pin.cardRst]
  | .driveReset false => [.clear Reg.outputD Pin.cardRst]
  | .deactivate => shutDown
  | .watchEdge => [.set Reg.eicra 0x04, .clear Reg.eicra 0x08, .set Reg.eimsk 0x02]
  | .ignoreEdge => [.clear Reg.eimsk 0x02]

end Rows

/-! ## What the rows do to the contacts -/

section Effects

open Change

variable {cs : List Change} {v : Values} {w : Write} {found : Bool}

theorem low_lower {k : Contacts} (h : k.output ≠ k.direction) (v : Values) :
    k.Low (doneAll v k.lower) := by
  have hself : k.mask &&& k.mask = k.mask := UInt8.and_self
  simp only [Contacts.lower, doneAll, List.foldl_cons, List.foldl_nil]
  have hclear := done_addr (.clear k.output k.mask) v
  have hset := done_addr (.set k.direction k.mask) ((Change.clear k.output k.mask).done v)
  simp only [addr, result] at hclear hset
  rw [Contacts.Low, Contacts.bits, done_of_ne (c := .set k.direction k.mask) h, hclear, hset,
    and_clear_of_subset hself, and_or_of_subset hself]

theorem not_powered_of_output {v : Values} (h : v Reg.outputD &&& Pin.cardVcc = Pin.cardVcc) :
    ¬Powered v := by
  intro hon
  have hzero : v Reg.outputD &&& Pin.cardVcc = 0 := hon.2
  rw [h] at hzero
  exact absurd hzero (by decide)

theorem not_turnsOn_of_spares (hspares : ∀ c ∈ cs, c.Spares cardPower) (hw : w ∈ writes v cs) :
    ¬w.TurnsOn := by
  intro hon
  have hpowered := hon.2
  rw [Powered, bits_write hspares hw] at hpowered
  exact hon.1 hpowered

theorem not_turnsOn_cutPower (hw : w ∈ writes v cutPower) : ¬w.TurnsOn := by
  have hself : Pin.cardVcc &&& Pin.cardVcc = Pin.cardVcc := UInt8.and_self
  have hoff : ∀ old : UInt8, (old ||| Pin.cardVcc) &&& Pin.cardVcc = Pin.cardVcc :=
    fun _ => and_or_of_subset hself
  simp only [writes, cutPower, List.mem_cons, List.not_mem_nil, or_false] at hw
  intro hon
  apply not_powered_of_output ?_ hon.2
  rcases hw with rfl | rfl
  · exact hoff _
  · exact hoff _

theorem not_powered_cutPower (v : Values) : ¬Powered (doneAll v cutPower) := by
  apply not_powered_of_output
  exact and_or_of_subset UInt8.and_self

theorem contactsLow_prepare (v : Values) : ContactsLow (doneAll v prepare) := by
  rw [prepare, doneAll_append]
  constructor
  · exact low_lower (by decide) _
  · exact low_doneAll (by decide) (low_lower (by decide) _)

theorem timersStopped_stopClock (v : Values) : TimersStopped (doneAll v stopClock) :=
  ⟨⟨rfl, rfl⟩, ⟨rfl, rfl⟩⟩

theorem timersStopped_done {c : Change} (h : c.addr ∉ timerControls) (hv : TimersStopped v) :
    TimersStopped (c.done v) := by
  simp only [timerControls, List.mem_cons, List.not_mem_nil, or_false, not_or] at h
  obtain ⟨h₀a, h₀b, h₁a, h₁b⟩ := h
  constructor
  · rw [done_of_ne (Ne.symm h₀a), done_of_ne (Ne.symm h₀b)]
    exact hv.clock
  · rw [done_of_ne (Ne.symm h₁a), done_of_ne (Ne.symm h₁b)]
    exact hv.timer

theorem timersStopped_doneAll (h : ∀ c ∈ cs, c.addr ∉ timerControls) (hv : TimersStopped v) :
    TimersStopped (doneAll v cs) :=
  doneAll_keeps (fun c hc _ => timersStopped_done (h c hc)) hv

theorem timersStopped_before (h : ∀ c ∈ cs, c.addr ∉ timerControls) (hv : TimersStopped v)
    (hw : w ∈ writes v cs) : TimersStopped w.before :=
  (mem_writes (fun c hc _ => timersStopped_done (h c hc)) hv hw).1

theorem not_turnsOn_shutDown (hw : w ∈ writes v shutDown) : ¬w.TurnsOn := by
  simp only [shutDown, writes_append, List.mem_append] at hw
  rcases hw with ((hw | hw) | hw) | hw
  · exact not_turnsOn_of_spares (by decide) hw
  · exact not_turnsOn_of_spares (by decide) hw
  · exact not_turnsOn_of_spares (by decide) hw
  · exact not_turnsOn_cutPower hw

/-- Once the contacts are low, a write switches the power on only if there is a card, and finds them
low. -/
theorem contactsLow_of_turnsOn (hlow : ContactsLow v) (hw : w ∈ writes v (proceed found))
    (hon : w.TurnsOn) : found = true ∧ ContactsLow w.before := by
  cases found with
  | false => exact absurd hon (not_turnsOn_shutDown hw)
  | true =>
    rw [show proceed true = cardPower.lower ++ (listen ++ startClock) from rfl, writes_append,
      List.mem_append] at hw
    rcases hw with hw | hw
    · exact ⟨rfl, low_before (by decide) hlow.reset hw, low_before (by decide) hlow.lines hw⟩
    · exact absurd hon (not_turnsOn_of_spares (by decide) hw)

end Effects

/-! ## Giving the contacts up -/

section ShutDown

open Change

/-- Writes that give the contacts up in four stages, each of which finds the earlier ones done. -/
structure Stages (reset timers lines power : List Write) : Prop where
  resetAddr : reset.map Write.addr = [Reg.outputD, Reg.directionD]
  timersAddr : timers.map Write.addr = timerControls
  linesAddr : lines.map Write.addr = [Reg.outputB, Reg.directionB]
  powerAddr : power.map Write.addr = [Reg.outputD, Reg.directionD]
  resetLow : ∀ w ∈ timers ++ lines ++ power, cardReset.Low w.before
  timersStopped : ∀ w ∈ lines ++ power, TimersStopped w.before
  linesLow : ∀ w ∈ power, cardLines.Low w.before
  powerKept : ∀ w ∈ reset ++ timers ++ lines, cardPower.bits w.after = cardPower.bits w.before

/-- Writes that give the contacts up: RST low, the timers stopped, CLK and I/O low, and only then
the power cut. -/
def ShutsDown (ws : List Write) : Prop :=
  ∃ reset timers lines power, ws = reset ++ timers ++ lines ++ power ∧
    Stages reset timers lines power

theorem shutsDown_writes (v : Values) : ShutsDown (writes v shutDown) := by
  let v₁ := doneAll v cardReset.lower
  let v₂ := doneAll v₁ stopClock
  let v₃ := doneAll v₂ cardLines.lower
  have hreset₁ : cardReset.Low v₁ := low_lower (by decide) v
  have hreset₂ : cardReset.Low v₂ := low_doneAll (by decide) hreset₁
  have hreset₃ : cardReset.Low v₃ := low_doneAll (by decide) hreset₂
  have hstopped₂ : TimersStopped v₂ := timersStopped_stopClock v₁
  have hstopped₃ : TimersStopped v₃ := timersStopped_doneAll (by decide) hstopped₂
  have hlines₃ : cardLines.Low v₃ := low_lower (by decide) v₂
  have hwrites : writes v shutDown =
      writes v cardReset.lower ++ writes v₁ stopClock ++ writes v₂ cardLines.lower ++
        writes v₃ cutPower := by
    simp only [shutDown, writes_append, doneAll_append, v₁, v₂, v₃]
  refine ⟨_, _, _, _, hwrites, ⟨rfl, rfl, rfl, rfl, ?_, ?_, ?_, ?_⟩⟩
  · intro w hw
    simp only [List.mem_append] at hw
    rcases hw with (hw | hw) | hw
    · exact low_before (by decide) hreset₁ hw
    · exact low_before (by decide) hreset₂ hw
    · exact low_before (by decide) hreset₃ hw
  · intro w hw
    rcases List.mem_append.1 hw with hw | hw
    · exact timersStopped_before (by decide) hstopped₂ hw
    · exact timersStopped_before (by decide) hstopped₃ hw
  · intro w hw
    exact low_before (by decide) hlines₃ hw
  · intro w hw
    simp only [List.mem_append] at hw
    rcases hw with (hw | hw) | hw
    · exact bits_write (by decide) hw
    · exact bits_write (by decide) hw
    · exact bits_write (by decide) hw

theorem not_powered_shutDown (v : Values) : ¬Powered (doneAll v shutDown) := by
  rw [shutDown, doneAll_append]
  exact not_powered_cutPower _

end ShutDown

/-! ## The operations as rows -/

section Operations

open RegisterFile

theorem lowerCardReset_makes : Makes registers.lowerCardReset cardReset.lower :=
  (Makes.clear _ (by decide)).seq (Makes.set _ (by decide))

theorem lowerCardLines_makes : Makes registers.lowerCardLines cardLines.lower :=
  (Makes.clear _ (by decide)).seq (Makes.set _ (by decide))

theorem powerCard_makes : Makes registers.powerCard cardPower.lower :=
  (Makes.clear _ (by decide)).seq (Makes.set _ (by decide))

theorem receiveFromCard_makes : Makes registers.receiveFromCard listen :=
  (Makes.clear _ (by decide)).seq (Makes.set _ (by decide))

theorem stopCardClock_makes : Makes registers.stopCardClock stopClock :=
  (Makes.put _ _).seq ((Makes.put _ _).seq ((Makes.put _ _).seq (Makes.put _ _)))

theorem startCardClock_makes : Makes registers.startCardClock startClock :=
  (Makes.put _ _).seq ((Makes.put _ _).seq ((Makes.put _ _).seq ((Makes.put _ _).seq
    ((Makes.put _ _).seq (Makes.put _ _)))))

theorem deactivateCard_makes : Makes registers.deactivateCard shutDown :=
  lowerCardReset_makes.seq (stopCardClock_makes.seq (lowerCardLines_makes.seq
    ((Makes.set _ (by decide)).seq (Makes.set _ (by decide)))))

/-- Every call but a cold activation is a row of changes. -/
theorem call_returns {call : Slot.Call} (h : call ≠ .activate false) (m : RegisterFile) :
    (call.make registers.slot).Returns m true (m.changed (changesOf call)) := by
  have hdone (m : RegisterFile) : (pure true : Run RegisterFile Bool).Returns m true m :=
    Returns.pure true m
  cases call with
  | activate warm =>
    cases warm with
    | false => exact absurd rfl h
    | true =>
      have hwarm := (lowerCardReset_makes m).bind (f := fun _ => do
        registers.receiveFromCard
        pure true) ((receiveFromCard_makes _).bind (hdone _))
      rw [changed_append] at hwarm
      exact hwarm
  | driveReset high =>
    cases high with
    | false => exact (Makes.clear _ (by decide) m).bind (hdone _)
    | true => exact (Makes.set _ (by decide) m).bind (hdone _)
  | deactivate => exact (deactivateCard_makes m).bind (hdone _)
  | watchEdge =>
    have hwatch : Makes registers.slot.watchEdge (changesOf .watchEdge) :=
      (Makes.set _ (by decide)).seq ((Makes.clear _ (by decide)).seq (Makes.set _ (by decide)))
    exact (hwatch m).bind (hdone _)
  | ignoreEdge => exact (Makes.clear _ (by decide) m).bind (hdone _)

theorem cardInserted_returns (m : RegisterFile) :
    registers.cardInserted.Returns m (m.pins 0 &&& Pin.cardSwitch != 0)
      { m with
        pins := fun n => m.pins (n + 1)
        accesses := m.accesses ++ [.read Reg.inputD (m.pins 0)] } :=
  Returns.bind (Returns.step (fun m : RegisterFile => m.fetched Reg.inputD) m) (Returns.pure _ _)

/-- The accesses of a cold activation, by what the input of bank D answers. -/
def coldAccesses (v : Values) (answer : UInt8) : List Access :=
  Change.trace v prepare ++ .read Reg.inputD answer ::
    Change.trace (Change.doneAll v prepare) (proceed (answer &&& Pin.cardSwitch != 0))

/-- The registers behind a cold activation. -/
def coldAfter (v : Values) (answer : UInt8) : Values :=
  Change.doneAll (Change.doneAll v prepare) (proceed (answer &&& Pin.cardSwitch != 0))

theorem proceed_returns (found : Bool) (m : RegisterFile) :
    (if found then do
        registers.powerCard
        registers.pauseUs 50
        registers.receiveFromCard
        registers.startCardClock
        pure true
      else do
        registers.deactivateCard
        pure false : Run RegisterFile Bool).Returns m found (m.changed (proceed found)) := by
  cases found with
  | false => exact Returns.bind (deactivateCard_makes m) (Returns.pure false _)
  | true =>
    have hrows : m.changed (proceed true) =
        ((m.changed cardPower.lower).changed listen).changed startClock := by
      rw [changed_append, changed_append]
      rfl
    rw [hrows]
    exact Returns.bind (powerCard_makes m) (Returns.bind (Returns.pure () _)
      (Returns.bind (receiveFromCard_makes _) (Returns.bind (startCardClock_makes _)
        (Returns.pure true _))))

/-- A cold activation asks the detect switch once, between two rows of changes. -/
theorem activateCold_returns (m : RegisterFile) :
    (Slot.Call.make registers.slot (.activate false)).Returns m (m.pins 0 &&& Pin.cardSwitch != 0)
      { values := coldAfter m.values (m.pins 0)
        pins := fun n => m.pins (n + 1)
        accesses := m.accesses ++ coldAccesses m.values (m.pins 0) } := by
  let m₁ : RegisterFile :=
    { m.changed prepare with
      pins := fun n => m.pins (n + 1)
      accesses := (m.changed prepare).accesses ++ [.read Reg.inputD (m.pins 0)] }
  have hlines := lowerCardLines_makes m
  have hreset := lowerCardReset_makes (m.changed cardLines.lower)
  rw [changed_append] at hreset
  have hasked : registers.cardInserted.Returns (m.changed prepare)
      (m.pins 0 &&& Pin.cardSwitch != 0) m₁ := cardInserted_returns (m.changed prepare)
  have hend : m₁.changed (proceed (m.pins 0 &&& Pin.cardSwitch != 0)) =
      { values := coldAfter m.values (m.pins 0)
        pins := fun n => m.pins (n + 1)
        accesses := m.accesses ++ coldAccesses m.values (m.pins 0) } := by
    simp [m₁, changed, coldAfter, coldAccesses]
  rw [← hend]
  exact Returns.bind hlines (Returns.bind hreset (Returns.bind (Returns.pure () _)
    (Returns.bind hasked (proceed_returns _ m₁))))

end Operations

/-! ## Safe calls -/

section Calls

open Change RegisterFile

/-- A call that was made: its reply, its accesses and the registers behind it. -/
structure Done where
  call : Slot.Call
  reply : Bool
  accesses : List Access
  after : Values

/-- A call leads from one register file to another. -/
structure Done.Between (d : Done) (m m' : RegisterFile) : Prop where
  returns : (d.call.make registers.slot).Returns m d.reply m'
  accesses : m'.accesses = m.accesses ++ d.accesses
  after : m'.values = d.after

/-- Calls lead, one after the other, from one register file to another. -/
inductive Performed : RegisterFile → List Done → RegisterFile → Prop where
  | nil (m : RegisterFile) : Performed m [] m
  | cons {m m₁ m' : RegisterFile} {d : Done} {ds : List Done} (hfirst : d.Between m m₁)
      (hrest : Performed m₁ ds m') : Performed m (d :: ds) m'

/-- What makes a call safe for the card and for its neighbours. -/
structure Done.Safe (d : Done) : Prop where
  others : ∀ w, .write w ∈ d.accesses → w.KeepsOthers
  /-- The power comes in a cold activation only, behind the answer of the switch that there is a
  card, and finds the other contacts low. -/
  power : ∀ earlier w later, d.accesses = earlier ++ .write w :: later → w.TurnsOn →
    d.call = .activate false ∧ earlier.filterMap Access.found? = [true] ∧ ContactsLow w.before
  /-- A cold activation asks the switch once and answers what it said. -/
  cold : d.call = .activate false → d.accesses.filterMap Access.found? = [d.reply]
  refused : d.call = .activate false → d.reply = false →
    (∃ earlier ws, d.accesses.filterMap Access.write? = earlier ++ ws ∧ ShutsDown ws) ∧
      ¬Powered d.after
  deactivated : d.call = .deactivate →
    ShutsDown (d.accesses.filterMap Access.write?) ∧ ¬Powered d.after

theorem changesOf_spares (call : Slot.Call) :
    (∀ c ∈ changesOf call, c.Spares restOfB) ∧ ∀ c ∈ changesOf call, c.Spares restOfD := by
  cases call with
  | activate warm => cases warm <;> decide
  | driveReset high => cases high <;> decide
  | _ => decide

theorem not_turnsOn_changesOf {call : Slot.Call} {v : Values} {w : Write}
    (hw : w ∈ writes v (changesOf call)) : ¬w.TurnsOn := by
  cases call with
  | activate warm =>
    have hspares : ∀ c ∈ cardReset.lower ++ listen, c.Spares cardPower := by decide
    exact not_turnsOn_of_spares hspares hw
  | driveReset high =>
    apply not_turnsOn_of_spares ?_ hw
    cases high <;> decide
  | deactivate => exact not_turnsOn_shutDown hw
  | watchEdge => exact not_turnsOn_of_spares (by decide) hw
  | ignoreEdge => exact not_turnsOn_of_spares (by decide) hw

theorem mem_of_trace_eq {v : Values} {cs : List Change} {earlier later : List Access} {w : Write}
    (h : trace v cs = earlier ++ .write w :: later) : w ∈ writes v cs := by
  apply mem_trace
  simp [h]

/-- A call that is one row of changes is safe. -/
theorem row_safe {call : Slot.Call} (hcall : call ≠ .activate false) (v : Values) :
    Done.Safe ⟨call, true, trace v (changesOf call), doneAll v (changesOf call)⟩ where
  others w hw := by
    obtain ⟨hB, hD⟩ := changesOf_spares call
    exact ⟨bits_write hB (mem_trace hw), bits_write hD (mem_trace hw)⟩
  power earlier w later h hon := absurd hon (not_turnsOn_changesOf (mem_of_trace_eq h))
  cold h := absurd h hcall
  refused h := absurd h hcall
  deactivated h := by
    subst h
    rw [writes_trace]
    exact ⟨shutsDown_writes v, not_powered_shutDown v⟩

theorem found_prepare (v : Values) : (trace v prepare).filterMap Access.found? = [] :=
  found_trace (by decide) v

theorem found_proceed (found : Bool) (v : Values) :
    (trace v (proceed found)).filterMap Access.found? = [] := by
  apply found_trace
  cases found <;> decide

theorem found_coldAccesses (v : Values) (answer : UInt8) :
    (coldAccesses v answer).filterMap Access.found? = [answer &&& Pin.cardSwitch != 0] := by
  simp [coldAccesses, found_prepare, found_proceed, Access.found?]

theorem writes_coldAccesses (v : Values) (answer : UInt8) :
    (coldAccesses v answer).filterMap Access.write? = writes v prepare ++
      writes (doneAll v prepare) (proceed (answer &&& Pin.cardSwitch != 0)) := by
  rw [coldAccesses, List.filterMap_append, writes_trace, List.filterMap_cons_none rfl, writes_trace]

theorem mem_coldAccesses {v : Values} {answer : UInt8} {w : Write}
    (hw : .write w ∈ coldAccesses v answer) :
    w ∈ writes v prepare ∨
      w ∈ writes (doneAll v prepare) (proceed (answer &&& Pin.cardSwitch != 0)) := by
  simp only [coldAccesses, List.mem_append, List.mem_cons, reduceCtorEq, false_or] at hw
  exact hw.imp mem_trace mem_trace

theorem proceed_spares (found : Bool) :
    (∀ c ∈ proceed found, c.Spares restOfB) ∧ ∀ c ∈ proceed found, c.Spares restOfD := by
  cases found <;> decide

/-- A write behind the question to the switch has the question before it. -/
theorem split_behind {α : Type} {first second earlier later : List α} {a b : α} (hne : b ≠ a)
    (hb : b ∉ first) (h : first ++ a :: second = earlier ++ b :: later) :
    ∃ rest, earlier = first ++ a :: rest ∧ second = rest ++ b :: later := by
  obtain ⟨between, hfirst, hrest⟩ | ⟨between, hfirst, hrest⟩ := List.append_eq_append_iff.1 h
  · cases between with
    | nil =>
      simp only [List.nil_append, List.cons.injEq] at hrest
      exact absurd hrest.1.symm hne
    | cons c rest =>
      simp only [List.cons_append, List.cons.injEq] at hrest
      obtain ⟨rfl, hsecond⟩ := hrest
      exact ⟨rest, hfirst, hsecond⟩
  · cases between with
    | nil =>
      simp only [List.nil_append, List.cons.injEq] at hrest
      exact absurd hrest.1 hne
    | cons c rest =>
      simp only [List.cons_append, List.cons.injEq] at hrest
      obtain ⟨rfl, -⟩ := hrest
      exact absurd (by simp [hfirst]) hb

/-- A cold activation is safe. -/
theorem cold_safe (v : Values) (answer : UInt8) :
    Done.Safe ⟨.activate false, answer &&& Pin.cardSwitch != 0, coldAccesses v answer,
      coldAfter v answer⟩ where
  others w hw := by
    obtain ⟨hB, hD⟩ := proceed_spares (answer &&& Pin.cardSwitch != 0)
    rcases mem_coldAccesses hw with hw | hw
    · exact ⟨bits_write (by decide) hw, bits_write (by decide) hw⟩
    · exact ⟨bits_write hB hw, bits_write hD hw⟩
  power earlier w later h hon := by
    have hprepare : .write w ∉ trace v prepare := by
      intro hw
      exact not_turnsOn_of_spares (by decide) (mem_trace hw) hon
    obtain ⟨rest, rfl, hsecond⟩ := split_behind (by simp) hprepare h
    obtain ⟨hfound, hlow⟩ :=
      contactsLow_of_turnsOn (contactsLow_prepare v) (mem_of_trace_eq hsecond) hon
    have hrest := found_proceed (answer &&& Pin.cardSwitch != 0) (doneAll v prepare)
    rw [hsecond, List.filterMap_append, List.append_eq_nil_iff] at hrest
    exact ⟨rfl, by simp [found_prepare, hrest.1, Access.found?, hfound], hlow⟩
  cold _ := found_coldAccesses v answer
  refused _ hreply := by
    have hproceed : proceed (answer &&& Pin.cardSwitch != 0) = shutDown := congrArg proceed hreply
    refine ⟨⟨writes v prepare, writes (doneAll v prepare) shutDown, ?_, shutsDown_writes _⟩, ?_⟩
    · rw [writes_coldAccesses, hproceed]
    · rw [coldAfter, hproceed]
      exact not_powered_shutDown _
  deactivated h := nomatch h

theorem exists_done (call : Slot.Call) (m : RegisterFile) :
    ∃ (d : Done) (m' : RegisterFile), d.call = call ∧ d.Between m m' ∧ d.Safe := by
  by_cases hcold : call = .activate false
  · subst hcold
    exact ⟨_, _, rfl, ⟨activateCold_returns m, rfl, rfl⟩, cold_safe m.values (m.pins 0)⟩
  · exact ⟨_, _, rfl, ⟨call_returns hcold m, rfl, rfl⟩, row_safe hcold m.values⟩

/-- **The card contacts are switched in a safe order.**  From any registers, whatever the detect
switch answers, and after any calls before it, every call of the card slot comes to its end and is
safe: its writes leave all other contacts of the two banks alone, the power comes only to a card
that was found and whose other contacts are low, and it goes last. -/
theorem contacts_switched_in_order (m : RegisterFile) (calls : List Slot.Call) :
    ∃ ds m', Performed m ds m' ∧ ds.map Done.call = calls ∧ ∀ d ∈ ds, d.Safe := by
  induction calls generalizing m with
  | nil => exact ⟨[], m, .nil m, rfl, by simp⟩
  | cons call calls ih =>
    obtain ⟨d, m₁, rfl, hfirst, hsafe⟩ := exists_done call m
    obtain ⟨ds, m', hrest, rfl, hall⟩ := ih m₁
    exact ⟨d :: ds, m', .cons hfirst hrest, rfl, List.forall_mem_cons.2 ⟨hsafe, hall⟩⟩

end Calls

end CardTap.Device
