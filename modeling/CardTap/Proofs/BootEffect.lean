import CardTap.Proofs.Ends
import CardTap.Proofs.Menu
import CardTap.Proofs.Presence

/-!
# How a boot ends

A boot takes over the persisted values and then goes one of two ways.  Without the menu key it runs
the application that the store names, or the standard one, which is then persisted.  With the menu
key it lets the user choose, persists the choice or erases the store, and restarts.  Each way
returns (`boot_stored_ends`, `boot_menu_ends`), and what it leaves is told by `Booted`: the store,
the application in use and the two other values taken over.
-/

namespace CardTap

namespace Application

/-- The application that is booted into for a persisted id. -/
def booted (ed : Edition) (id : UInt8) : Application := (ofPersisted? ed id).getD standard

theorem ofPersisted?_id {ed : Edition} {app : Application} (hmenu : app ∈ menu ed)
    (herase : app ≠ .eraseStore) : ofPersisted? ed app.id = some app := by
  obtain ⟨diagnostics, presenceInterrupt⟩ := ed
  cases app with
  | eraseStore => exact absurd rfl herase
  | testTerminal | testCard =>
    cases diagnostics with
    | true => rfl
    | false => exact absurd hmenu (by simp [menu])
  | _ => rfl

theorem of_ofPersisted? {ed : Edition} {id : UInt8} {app : Application}
    (h : ofPersisted? ed id = some app) : app ∈ menu ed ∧ app ≠ .eraseStore ∧ app.id = id := by
  obtain ⟨hfind, herase⟩ := Option.filter_eq_some_iff.1 h
  have hid := List.find?_some hfind
  exact ⟨List.mem_of_find?_eq_some hfind, by simpa using herase, by simpa using hid⟩

/-- Only applications of the menu are booted into, and erasing is none of them. -/
theorem booted_mem (ed : Edition) (id : UInt8) :
    booted ed id ∈ menu ed ∧ booted ed id ≠ .eraseStore := by
  unfold booted
  cases h : ofPersisted? ed id with
  | none => exact ⟨List.mem_cons_self, by decide⟩
  | some app =>
    obtain ⟨hmenu, herase, -⟩ := of_ofPersisted? h
    exact ⟨hmenu, herase⟩

/-- Once booted into, an application is booted into again. -/
theorem ofPersisted?_booted (ed : Edition) (id : UInt8) :
    ofPersisted? ed (booted ed id).id = some (booted ed id) :=
  ofPersisted?_id (booted_mem ed id).1 (booted_mem ed id).2

end Application

namespace RestartReason

/-- Why the device restarts for what was chosen in the menu. -/
def ofChoice : Option Application → RestartReason
  | some .eraseStore => .erased
  | some app => .selected app
  | none => .nothingChosen

/-- The persisted id that the restart finds. -/
def id : RestartReason → UInt8
  | .selected app => app.id
  | _ => 0

end RestartReason

namespace Bench

open CardTap.Run CardTap.Bench.Memory

/-! ## Stores that a boot leaves -/

namespace Memory

variable {m : Memory}

/-- The store once an application was persisted. -/
def persisting (m : Memory) (id : UInt8) : Memory := (m.updated Layout.application id).settled

/-- The store that a restart finds. -/
def restarting (m : Memory) : RestartReason → Memory
  | .erased => m.defaults cellCount
  | reason => m.persisting reason.id

theorem cell?_persisting (hpower : m.budget = none) (id : UInt8) (i : Nat) :
    (m.persisting id).cell? i = if i = Layout.application then some id else m.cell? i := by
  have hinside : Layout.application < cellCount := by decide
  rw [persisting, cell?_settled, cell?_updated hpower]
  simp only [hinside, and_true]

theorem byteAt_persisting (hpower : m.budget = none) (id : UInt8) :
    (m.persisting id).byteAt Layout.application = id := by
  rw [byteAt, cell?_persisting hpower, if_pos rfl, Option.getD_some]

theorem cell?_persisting_of_ne (hpower : m.budget = none) (id : UInt8) {i : Nat}
    (hi : i ≠ Layout.application) : (m.persisting id).cell? i = m.cell? i := by
  rw [cell?_persisting hpower, if_neg hi]

theorem budget_persisting (hpower : m.budget = none) (id : UInt8) :
    (m.persisting id).budget = none :=
  budget_updated_of_none hpower _ _

/-- An application that is persisted already is not written again. -/
theorem persisting_of_eq {id : UInt8} (h : m.byteAt Layout.application = id) :
    m.persisting id = m.settled := by
  rw [persisting, updated, if_pos (by rw [m.cell?_eq_byteAt (by decide), h])]
  rfl

theorem budget_restarting (hpower : m.budget = none) (reason : RestartReason) :
    (m.restarting reason).budget = none := by
  cases reason with
  | erased => exact budget_defaults hpower
  | selected app => exact budget_persisting hpower _
  | nothingChosen => exact budget_persisting hpower _

theorem byteAt_application_restarting (hpower : m.budget = none) (reason : RestartReason) :
    (m.restarting reason).byteAt Layout.application = reason.id := by
  cases reason with
  | erased =>
    rw [byteAt, restarting, cell?_defaults_eq hpower (Nat.le_refl _) (by decide)]
    rfl
  | selected app => exact byteAt_persisting hpower _
  | nothingChosen => exact byteAt_persisting hpower _

end Memory

/-! ## Bringing the board up -/

section Init

variable {b : Bench}

/-- The board once it was brought up: the persisted values are taken over, nothing was written, and
the panel is ready. -/
structure Ready (b b' : Bench) : Prop where
  memory : b'.memory = b.memory.settled
  script : b'.panel.script = b.panel.script
  pausedMs : b'.panel.pausedMs = b.panel.pausedMs
  captured : b'.ram.captured = b.ram.captured
  warm : b'.ram.warm = b.memory.byteAt Layout.warmFlag
  counter : b'.ram.counter = b.memory.byteAt Layout.counter
  selected : b'.ram.selected = b.memory.byteAt Layout.application

theorem persisted_returns (addr : Nat) (haddr : addr < cellCount) (m : Memory) :
    (Store.readByte (eeprom cellCount) addr).run.Returns m (.ok (m.byteAt addr)) m.settled :=
  readByte_returns haddr (m.cell?_eq_byteAt haddr)

theorem loadSettings_returns :
    ((board cellCount).loadSettings).run.Returns b (.ok ())
      { b with
        memory := b.memory.settled
        ram.warm := b.memory.byteAt Layout.warmFlag
        ram.counter := b.memory.byteAt Layout.counter
        ram.selected := b.memory.byteAt Layout.application } := by
  refine Returns.bind_ok (Returns.attempted (p := memoryPart)
    (persisted_returns Layout.warmFlag (by decide) _)) ?_
  refine Returns.bind_ok (Returns.lift (shared_returns _)) ?_
  refine Returns.bind_ok (Returns.attempted (p := memoryPart)
    (persisted_returns Layout.counter (by decide) _)) ?_
  refine Returns.bind_ok (Returns.lift (shared_returns _)) ?_
  refine Returns.bind_ok (Returns.attempted (p := memoryPart)
    (persisted_returns Layout.application (by decide) _)) ?_
  exact Returns.lift (shared_returns _)

theorem systemInit_returns :
    ((board cellCount).system.run (·.init)).Returns b ()
      { b with system := { initialised := true, interrupts := false } } :=
  Returns.mounted (p := systemPart)
    (Returns.change (fun _ : System => { initialised := true, interrupts := false }) b.system)

theorem watchdogDisable_returns :
    ((board cellCount).watchdog.run (·.disable)).Returns b () b.disarmed :=
  Returns.mounted (p := watchdogPart) (disable_returns b.watchdog)

theorem displayConnected_ends :
    ((board cellCount).displayConnected).Ends b fun display b' =>
      display = b.panel.connected ∧ ∃ powered, b' = { b with panel.powered := powered } := by
  have hread : ((board cellCount).panel.run (·.hasDisplay)).Ends b fun display b' =>
      display = b.panel.connected ∧ b = b' :=
    (Returns.mounted (p := panelPart) (Returns.read Panel.connected b.panel)).ends ⟨rfl, rfl⟩
  refine Ends.bind hread ?_
  rintro display _ ⟨hdisplay, rfl⟩
  cases display with
  | true =>
    refine Ends.after (Returns.mounted (p := panelPart)
      (Returns.change (fun p : Panel => { p with powered := false }) b.panel)) ?_
    exact Ends.pure ⟨hdisplay, false, rfl⟩
  | false => exact Ends.pure ⟨hdisplay, b.panel.powered, rfl⟩

theorem init_ends (ed : Edition) :
    ((board cellCount).init ed).run.Ends b fun r b' =>
      r = .ok b.panel.connected ∧ Ready b b' := by
  refine Ends.after_ok (Returns.lift systemInit_returns) ?_
  refine Ends.after_ok (Returns.lift watchdogDisable_returns) ?_
  refine Ends.after_ok (Returns.lift (light_returns .power true)) ?_
  refine Ends.after_ok loadSettings_returns ?_
  refine Ends.bind_ok (R := fun r b' => r = .ok b.panel.connected ∧ Ready b b')
    (Ends.lift (displayConnected_ends.mono ?_)) ?_ fun _ _ h => nomatch h.1
  · rintro display _ ⟨rfl, powered, rfl⟩
    exact ⟨rfl, rfl, rfl, rfl, rfl, rfl, rfl, rfl⟩
  · rintro display b' ⟨hdisplay, hready⟩
    obtain rfl := Except.ok.inj hdisplay
    refine Ends.after_ok (Returns.lift (Returns.mounted (p := systemPart)
      (Returns.change (fun s : System => { s with interrupts := true }) _))) ?_
    cases ed.presenceInterrupt with
    | true =>
      refine Ends.after_ok (Returns.lift watchPresence_returns) ?_
      exact Ends.ok ⟨rfl, { hready with }⟩
    | false => exact Ends.ok ⟨rfl, { hready with }⟩

end Init

/-! ## The two ways of a boot -/

section Ways

variable {b : Bench}

theorem commitSelection_returns (id : UInt8) :
    ((board cellCount).commitSelection id).run.Returns b (.ok ())
      { b with memory := b.memory.persisting id, ram.selected := id } := by
  have hstore : ((board cellCount).eeprom.attempt fun e => do
      Settings.setApplication e id
      Store.sync e).run.Returns b (.ok ()) { b with memory := b.memory.persisting id } :=
    Returns.attempted (p := memoryPart) (Returns.bind_ok
      (setApplication_returns (by decide) (Nat.le_refl _) id) (Returns.lift sync_returns))
  exact Returns.bind_ok hstore (Returns.lift (setSelected_returns id))

theorem storedSelect_returns (ed : Edition) :
    let app := Application.booted ed (b.memory.byteAt Layout.application)
    ((board cellCount).storedSelect ed).run.Returns b (.ok app)
      { b with memory := b.memory.persisting app.id, ram.selected := app.id } := by
  intro app
  have hread : ((board cellCount).eeprom.attempt Settings.application).run.Returns b
      (.ok (b.memory.byteAt Layout.application)) { b with memory := b.memory.settled } :=
    Returns.attempted (p := memoryPart) (persisted_returns _ (by decide) b.memory)
  refine Returns.bind_ok hread ?_
  cases hstored : Application.ofPersisted? ed (b.memory.byteAt Layout.application) with
  | some found =>
    obtain rfl : app = found := by
      show Application.booted ed _ = _
      rw [Application.booted, hstored, Option.getD_some]
    rw [persisting_of_eq (Application.of_ofPersisted? hstored).2.2.symm]
    exact Returns.bind_ok (Returns.ok app _) (Returns.bind_ok
      (Returns.lift (setSelected_returns app.id)) (Returns.ok app _))
  | none =>
    have happ : app = Application.standard := by
      show Application.booted ed _ = _
      rw [Application.booted, hstored, Option.getD_none]
    rw [happ]
    refine Returns.bind_ok (Returns.lift (Returns.note _ _)) ?_
    refine Returns.bind_ok (commitSelection_returns _) ?_
    exact Returns.bind_ok (Returns.ok Application.standard _) (Returns.bind_ok
      (Returns.lift (setSelected_returns _)) (Returns.ok Application.standard _))

theorem resetStore_returns :
    ((board cellCount).eeprom.attempt Settings.factoryReset).run.Returns b (.ok ())
      { b with memory := b.memory.defaults cellCount } :=
  Returns.attempted (p := memoryPart) (factoryReset_returns (by decide) (Nat.le_refl _))

theorem eraseSettings_ends :
    ((board cellCount).eraseSettings).run.Ends b fun r b' =>
      r = .ok () ∧ ∃ leds, b' =
        { b with
          memory := b.memory.defaults cellCount
          panel.leds := leds
          ram.selected := 0 } := by
  refine Ends.after_ok (Returns.lift (light_returns .l2 true)) ?_
  refine Ends.after_ok resetStore_returns ?_
  refine Ends.after_ok (Returns.lift (light_returns .l2 false)) ?_
  exact (Returns.lift (setSelected_returns 0)).ends ⟨rfl, _, rfl⟩

theorem menuSelect_ends (ed : Edition) {display : Bool} {chosen : Option Application}
    {panel : Panel}
    (hchoose : (Panel.panel.chooseApplication (Application.menu ed) display).Returns b.panel
      chosen panel) :
    ((board cellCount).menuSelect ed display).run.Ends b fun r b' =>
      let reason := RestartReason.ofChoice chosen
      r = .ok reason ∧ ∃ panel, b' =
        { b with
          memory := b.memory.restarting reason
          panel := panel
          ram.selected := reason.id } := by
  have hmenu : ((board cellCount).panel.run
      (·.chooseApplication (Application.menu ed) display)).Returns b chosen
        { b with panel := panel } := Returns.mounted (p := panelPart) hchoose
  refine Ends.after_ok (Returns.lift hmenu) ?_
  have hcommit (id : UInt8) (reason : RestartReason) :
      (do
        (board cellCount).commitSelection id
        pure reason : StoreRun Bench RestartReason).run.Returns { b with panel := panel }
        (.ok reason) { b with
          memory := b.memory.persisting id
          panel := panel
          ram.selected := id } :=
    Returns.bind_ok (commitSelection_returns id) (Returns.ok reason _)
  cases chosen with
  | none => exact (hcommit 0 .nothingChosen).ends ⟨rfl, panel, rfl⟩
  | some app =>
    cases app with
    | eraseStore =>
      refine Ends.bind_ok eraseSettings_ends ?_ fun _ _ h => nomatch h.1
      rintro _ _ ⟨-, leds, rfl⟩
      exact Ends.ok ⟨rfl, _, rfl⟩
    | _ => exact (hcommit _ _).ends ⟨rfl, panel, rfl⟩

/-- What a boot from the bench `b` leaves: a store, in which the application in use is persisted,
and the values taken over. -/
structure Booted (b b' : Bench) (m : Memory) (id : UInt8) : Prop where
  memory : b'.memory = m
  captured : b'.ram.captured = b.ram.captured
  warm : b'.ram.warm = b.memory.byteAt Layout.warmFlag
  counter : b'.ram.counter = b.memory.byteAt Layout.counter
  selected : b'.ram.selected = id

variable {held : Buttons} {rest : List Buttons}

theorem powerOn_ends (ed : Edition) (hscript : b.panel.script = held :: rest) :
    ((board cellCount).step ed .powerOn).run.Ends b fun r b' =>
      r = .ok (if held.holds menuKey then .menuSelect b.panel.connected else .storedSelect) ∧
        Ready { b with panel.script := rest } b' := by
  refine Ends.bind_ok (init_ends ed) ?_ fun _ _ h => nomatch h.1
  rintro display b₁ ⟨hdisplay, hready⟩
  obtain rfl := Except.ok.inj hdisplay
  have hbuttons : ((board cellCount).panel.run (·.buttons)).Returns b₁ held
      { b₁ with panel.script := rest } :=
    Returns.mounted (p := panelPart) (Panel.nextButtons_returns (hready.script.trans hscript))
  refine Ends.after_ok (Returns.lift hbuttons) ?_
  refine Ends.after_ok (Returns.ok _ _) ?_
  refine Ends.after_ok (Returns.lift (Returns.note _ _)) ?_
  exact Ends.ok ⟨rfl, { hready with script := rfl }⟩

theorem step_stored_returns (ed : Edition) :
    let app := Application.booted ed (b.memory.byteAt Layout.application)
    ((board cellCount).step ed .storedSelect).run.Returns b (.ok (.launching app))
      { b with memory := b.memory.persisting app.id, ram.selected := app.id } := by
  intro app
  refine Returns.bind_ok (a := BootState.launching app) ?_
    (Returns.bind_ok (Returns.lift (Returns.note _ _)) (Returns.ok _ _))
  exact Returns.bind (storedSelect_returns ed) (Returns.pure _ _)

theorem step_menu_ends (ed : Edition) {display : Bool} {chosen : Option Application}
    {panel : Panel}
    (hchoose : (Panel.panel.chooseApplication (Application.menu ed) display).Returns b.panel
      chosen panel) :
    ((board cellCount).step ed (.menuSelect display)).run.Ends b fun r b' =>
      let reason := RestartReason.ofChoice chosen
      r = .ok (.restarting reason) ∧ ∃ panel, b' =
        { b with
          memory := b.memory.restarting reason
          panel := panel
          ram.selected := reason.id } := by
  obtain ⟨_, b', hrun, rfl, hb'⟩ := menuSelect_ends ed hchoose
  refine Returns.ends (Returns.bind_ok (a := BootState.restarting (.ofChoice chosen)) ?_
    (Returns.bind_ok (Returns.lift (Returns.note _ _)) (Returns.ok _ _))) ⟨rfl, hb'⟩
  exact Returns.bind hrun (Returns.pure _ _)

/-- **Without the menu key** a boot runs the application that the store names. -/
theorem boot_stored_ends (ed : Edition) (hscript : b.panel.script = held :: rest)
    (hkey : held.holds menuKey = false) :
    ((board cellCount).boot ed).run.Ends b fun r b' =>
      let app := Application.booted ed (b.memory.byteAt Layout.application)
      r = .ok (.launch app) ∧ Booted b b' (b.memory.persisting app.id) app.id := by
  refine Ends.bind_ok (powerOn_ends ed hscript) ?_ fun _ _ h => nomatch h.1
  rintro next b₁ ⟨hnext, hready⟩
  rw [hkey] at hnext
  obtain rfl := Except.ok.inj hnext
  have hmemory : b₁.memory = b.memory.settled := hready.memory
  refine Ends.after_ok (step_stored_returns ed) (Ends.ok ?_)
  rw [hmemory]
  exact ⟨rfl, rfl, hready.captured, hready.warm, hready.counter, rfl⟩

/-- **With the menu key** a boot persists what is chosen, or erases the store, and restarts. -/
theorem boot_menu_ends (ed : Edition) (hscript : b.panel.script = held :: rest)
    (hkey : held.holds menuKey = true) {chosen : Option Application}
    (hchoose : ∀ p : Panel, p.script = rest → p.pausedMs = b.panel.pausedMs →
      ∃ p', (Panel.panel.chooseApplication (Application.menu ed) b.panel.connected).Returns p
        chosen p') :
    ((board cellCount).boot ed).run.Ends b fun r b' =>
      let reason := RestartReason.ofChoice chosen
      r = .ok (.restart reason) ∧
        Booted b b' (b.memory.settled.restarting reason) reason.id := by
  refine Ends.bind_ok (powerOn_ends ed hscript) ?_ fun _ _ h => nomatch h.1
  rintro next b₁ ⟨hnext, hready⟩
  rw [hkey] at hnext
  obtain rfl := Except.ok.inj hnext
  obtain ⟨panel, hpanel⟩ := hchoose b₁.panel hready.script hready.pausedMs
  obtain ⟨_, _, hrun, rfl, panel, rfl⟩ := step_menu_ends (b := b₁) ed hpanel
  refine Ends.after_ok hrun (Ends.ok ?_)
  exact ⟨rfl, congrArg (restarting · _) hready.memory, hready.captured, hready.warm,
    hready.counter, rfl⟩

end Ways

end Bench

end CardTap
