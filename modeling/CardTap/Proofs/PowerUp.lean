import CardTap.Proofs.BootEffect
import CardTap.Proofs.MenuCycle

/-!
# Power-ups in a row

A selection takes two boots: the one in which it is made persists it and restarts, the next one
runs it.  Only the store is left in between.  `PowerUp` is what else a boot meets, `bootAll` runs
boots in a row, and `selection_survives` tells what any boot does behind any row of them: which
application it runs, which one is in use, and which cells it changes.
-/

namespace CardTap

namespace Application

theorem ofPersisted?_zero (ed : Edition) : ofPersisted? ed 0 = none := by
  obtain ⟨diagnostics, presenceInterrupt⟩ := ed
  cases diagnostics <;> rfl

theorem booted_of_some {ed : Edition} {id : UInt8} {app : Application}
    (h : ofPersisted? ed id = some app) : booted ed id = app := by
  rw [booted, h, Option.getD_some]

end Application

/-- The application that is booted into behind a restart. -/
def RestartReason.application : RestartReason → Application
  | .selected app => app
  | _ => .standard

theorem RestartReason.booted_id {ed : Edition} {chosen : Option Application}
    (hmenu : ∀ app ∈ chosen, app ∈ Application.menu ed) :
    Application.booted ed (ofChoice chosen).id = (ofChoice chosen).application := by
  have hzero : Application.booted ed 0 = .standard := by
    rw [Application.booted, Application.ofPersisted?_zero, Option.getD_none]
  cases chosen with
  | none => exact hzero
  | some app =>
    have happ := hmenu app rfl
    cases app with
    | eraseStore => exact hzero
    | _ => exact Application.booted_of_some (Application.ofPersisted?_id happ (by decide))

namespace Bench

open CardTap.Run CardTap.Bench.Memory

/-! ## One power-up -/

/-- What a boot meets besides the store. -/
structure PowerUp where
  /-- Whether a display is connected. -/
  display : Bool
  /-- Whether a card is in the slot. -/
  inserted : Bool
  /-- The button reads to come. -/
  script : List Buttons
  /-- What the shared state holds: nothing that a boot relies on. -/
  ram : Ram

namespace PowerUp

variable {ed : Edition} {p : PowerUp} {b : Bench}

/-- The board at power-up, fresh but for its store. -/
def begin (p : PowerUp) (b : Bench) : Bench :=
  { b.powerCycle with
    slot := { inserted := p.inserted }
    panel := { connected := p.display, script := p.script }
    ram := p.ram }

/-- A power-up and the boot that follows. -/
def boot (ed : Edition) (p : PowerUp) : StoreRun Bench BootResult := do
  (Run.change p.begin : Run Bench Unit)
  (board cellCount).boot ed

/-- Whether the menu key is held at power-up. -/
def entersMenu (p : PowerUp) : Bool := p.script.head?.any (·.holds menuKey)

/-- Why the board restarts, if the menu is entered and left again. -/
def reason? (ed : Edition) (p : PowerUp) : Option RestartReason :=
  if p.entersMenu then
    if p.display then
      (Menu.way (Application.menu ed) p.script.tail).map fun w => .ofChoice (some w.app)
    else some (.ofChoice none)
  else none

/-- The button reads suffice for the boot, and the pauses of the menu can be counted. -/
structure Finishes (ed : Edition) (p : PowerUp) : Prop where
  reads : p.script ≠ []
  menu : p.entersMenu → p.display → ∃ w, Menu.way (Application.menu ed) p.script.tail = some w ∧
    menuPauseMs * w.passed.length < 2 ^ 32

/-- How the boot ends, given the persisted application. -/
def outcome (ed : Edition) (p : PowerUp) (id : UInt8) : BootResult :=
  match p.reason? ed with
  | some reason => .restart reason
  | none => .launch (Application.booted ed id)

/-- The application in use after the boot, given the persisted one. -/
def idAfter (ed : Edition) (p : PowerUp) (id : UInt8) : UInt8 :=
  match p.reason? ed with
  | some reason => reason.id
  | none => (Application.booted ed id).id

/-- The store after the boot. -/
def storeAfter (ed : Edition) (p : PowerUp) (m : Memory) : Memory :=
  match p.reason? ed with
  | some reason => m.settled.restarting reason
  | none => m.persisting (Application.booted ed (m.byteAt Layout.application)).id

theorem Finishes.isSome_reason? (h : p.Finishes ed) (hmenu : p.entersMenu = true) :
    ∃ reason, p.reason? ed = some reason := by
  rw [reason?, if_pos hmenu]
  cases hdisplay : p.display with
  | true =>
    obtain ⟨w, hw, -⟩ := h.menu hmenu hdisplay
    exact ⟨_, by rw [if_pos rfl, hw]; rfl⟩
  | false => exact ⟨_, rfl⟩

theorem reason?_of_keyless (hmenu : p.entersMenu = false) : p.reason? ed = none := by
  rw [reason?, hmenu]
  rfl

/-- A choice of the menu is booted into by the next boot without the menu key. -/
theorem booted_id {reason : RestartReason} (h : p.reason? ed = some reason) :
    Application.booted ed reason.id = reason.application := by
  unfold reason? at h
  split at h
  · split at h
    · obtain ⟨w, hw, rfl⟩ := Option.map_eq_some_iff.1 h
      refine RestartReason.booted_id fun app happ => ?_
      obtain rfl := Option.some.inj happ
      exact Menu.app_mem_of_way hw
    · obtain rfl := Option.some.inj h
      exact RestartReason.booted_id nofun
  · exact nomatch h

/-- **A boot returns**, with the outcome, the store and the application in use foretold. -/
theorem boot_ends (h : p.Finishes ed) (b : Bench) :
    (p.boot ed).run.Ends b fun r b' =>
      r = .ok (p.outcome ed (b.memory.byteAt Layout.application)) ∧
        Booted (p.begin b) b' (p.storeAfter ed b.memory)
          (p.idAfter ed (b.memory.byteAt Layout.application)) := by
  refine Ends.after_ok (Returns.lift (Returns.change p.begin b)) ?_
  obtain ⟨held, rest, hscript⟩ := List.exists_cons_of_ne_nil h.reads
  have hkey : p.entersMenu = held.holds menuKey := by
    rw [entersMenu, hscript]
    rfl
  cases hmenu : held.holds menuKey with
  | false =>
    rw [outcome, idAfter, storeAfter, reason?_of_keyless (hkey.trans hmenu)]
    exact boot_stored_ends ed (b := p.begin b) hscript hmenu
  | true =>
    rw [outcome, idAfter, storeAfter, reason?, if_pos (hkey.trans hmenu)]
    cases hdisplay : p.display with
    | true =>
      obtain ⟨w, hw, hroom⟩ := h.menu (hkey.trans hmenu) hdisplay
      rw [hw, if_pos rfl]
      rw [hscript] at hw
      refine boot_menu_ends ed (b := p.begin b) hscript hmenu fun panel hleft hpaused => ?_
      have hway : Menu.way (Application.menu ed) panel.script = some w := by rw [hleft]; exact hw
      have hpause : panel.pausedMs + menuPauseMs * w.passed.length < 2 ^ 32 := by
        rw [hpaused]
        exact (Nat.zero_add _).symm ▸ hroom
      show ∃ p', (Panel.panel.chooseApplication _ p.display).Returns _ _ p'
      rw [hdisplay]
      exact ⟨_, Panel.chooseApplication_returns hway hpause⟩
    | false =>
      refine boot_menu_ends ed (b := p.begin b) hscript hmenu fun panel _ _ => ?_
      show ∃ p', (Panel.panel.chooseApplication _ p.display).Returns _ _ p'
      rw [hdisplay]
      exact ⟨_, Panel.chooseApplication_returns_dark _ panel⟩

/-! ## The store after a boot -/

variable {m : Memory}

theorem budget_storeAfter (hpower : m.budget = none) : (p.storeAfter ed m).budget = none := by
  rw [storeAfter]
  split
  · exact budget_restarting (m.budget_settled.trans hpower) _
  · exact budget_persisting hpower _

theorem byteAt_storeAfter (hpower : m.budget = none) :
    (p.storeAfter ed m).byteAt Layout.application =
      p.idAfter ed (m.byteAt Layout.application) := by
  rw [storeAfter, idAfter]
  split
  · exact byteAt_application_restarting (m.budget_settled.trans hpower) _
  · exact byteAt_persisting hpower _

/-- Only erasing changes another cell than that of the application. -/
theorem cell?_storeAfter (hpower : m.budget = none) (herased : p.reason? ed ≠ some .erased)
    {i : Nat} (hi : i ≠ Layout.application) : (p.storeAfter ed m).cell? i = m.cell? i := by
  rw [storeAfter]
  split
  · next reason hreason =>
    cases reason with
    | erased => exact absurd hreason herased
    | selected app => exact cell?_persisting_of_ne hpower _ hi
    | nothingChosen => exact cell?_persisting_of_ne hpower _ hi
  · exact cell?_persisting_of_ne hpower _ hi

theorem cell?_storeAfter_erased (hpower : m.budget = none) (herased : p.reason? ed = some .erased)
    {i : Nat} (hi : i < cellCount) : (p.storeAfter ed m).cell? i = some (defaultByte i) := by
  rw [storeAfter, herased]
  exact cell?_defaults_eq (m.budget_settled.trans hpower) (Nat.le_refl _) hi

end PowerUp

/-! ## Boots in a row -/

section Row

variable {ed : Edition}

/-- Boots, each after a power-up. -/
def bootAll (ed : Edition) : List PowerUp → StoreRun Bench (List BootResult)
  | [] => pure []
  | p :: rest => do
    let r ← p.boot ed
    let rs ← bootAll ed rest
    pure (r :: rs)

/-- The application that a boot without the menu key runs behind a row of boots: the choice of the
last one with the menu key, or what the store names if there was none. -/
def lastChoice (ed : Edition) (id : UInt8) (past : List PowerUp) : Application :=
  match (past.filterMap (·.reason? ed)).getLast? with
  | some reason => reason.application
  | none => Application.booted ed id

theorem lastChoice_cons (id : UInt8) (p : PowerUp) (past : List PowerUp) :
    lastChoice ed id (p :: past) = lastChoice ed (p.idAfter ed id) past := by
  unfold lastChoice PowerUp.idAfter
  cases hreason : p.reason? ed with
  | none =>
    rw [List.filterMap_cons_none hreason]
    cases hlast : (past.filterMap (·.reason? ed)).getLast? with
    | none => exact (Application.booted_of_some (Application.ofPersisted?_booted ed id)).symm
    | some later => rfl
  | some reason =>
    rw [List.filterMap_cons_some hreason, List.getLast?_cons]
    cases hlast : (past.filterMap (·.reason? ed)).getLast? with
    | none => exact (PowerUp.booted_id hreason).symm
    | some later => rfl

/-- What a row of boots leaves: the power is on, the store names the last choice, and it names it
literally if the last boot ran an application. -/
structure Follows (ed : Edition) (past : List PowerUp) (m m' : Memory) : Prop where
  power : m'.budget = none
  choice : Application.booted ed (m'.byteAt Layout.application) =
    lastChoice ed (m.byteAt Layout.application) past
  named : (∃ p ∈ past.getLast?, p.entersMenu = false) →
    ∃ app, Application.ofPersisted? ed (m'.byteAt Layout.application) = some app

theorem bootAll_ends {past : List PowerUp} (hpast : ∀ p ∈ past, p.Finishes ed) {b : Bench}
    (hpower : b.memory.budget = none) :
    (bootAll ed past).run.Ends b fun r b' =>
      (∃ results, r = .ok results) ∧ Follows ed past b.memory b'.memory := by
  induction past generalizing b with
  | nil => exact Ends.ok ⟨⟨[], rfl⟩, hpower, rfl, nofun⟩
  | cons p rest ih =>
    obtain ⟨_, b₁, hboot, rfl, hbooted⟩ := PowerUp.boot_ends (hpast p List.mem_cons_self) b
    have hpower₁ : b₁.memory.budget = none := by
      rw [hbooted.memory]
      exact PowerUp.budget_storeAfter hpower
    have hid : b₁.memory.byteAt Layout.application =
        p.idAfter ed (b.memory.byteAt Layout.application) := by
      rw [hbooted.memory]
      exact PowerUp.byteAt_storeAfter hpower
    obtain ⟨_, b₂, hrest, ⟨results, rfl⟩, hfollows⟩ :=
      ih (fun q hq => hpast q (List.mem_cons_of_mem p hq)) hpower₁
    have hall : (bootAll ed (p :: rest)).run.Returns b
        (.ok (p.outcome ed (b.memory.byteAt Layout.application) :: results)) b₂ :=
      Returns.bind_ok hboot (Returns.bind_ok hrest (Returns.ok _ _))
    refine hall.ends ⟨⟨_, rfl⟩, hfollows.power, ?_, fun hlast => ?_⟩
    · rw [hfollows.choice, lastChoice_cons, hid]
    · cases rest with
      | nil =>
        obtain ⟨q, hq, hkeyless⟩ := hlast
        obtain rfl : p = q := Option.some.inj hq
        obtain ⟨-, rfl⟩ := hrest.unique (Returns.ok [] b₁)
        rw [hid, PowerUp.idAfter, PowerUp.reason?_of_keyless hkeyless]
        exact ⟨_, Application.ofPersisted?_booted ed _⟩
      | cons q rest => exact hfollows.named (by simpa using hlast)

/-- **A selection survives the restart.** Behind any row of boots, the next boot leaves in use what
is persisted.  With the menu key it restarts for what is chosen; without it, it runs the last choice
or, if there was none, what the store named at first, and never the erasing of the store; a second
boot in a row without it writes nothing.  Only an erasing boot changes other cells than that of the
application, and it leaves the default values. -/
theorem selection_survives {b : Bench} (hpower : b.memory.budget = none) {past : List PowerUp}
    (hpast : ∀ p ∈ past, p.Finishes ed) {next : PowerUp} (hnext : next.Finishes ed) :
    ∃ results b₁ r b₂,
      (bootAll ed past).run.Returns b (.ok results) b₁ ∧
      (next.boot ed).run.Returns b₁ (.ok r) b₂ ∧
      b₂.memory.cell? Layout.application = some b₂.ram.selected ∧
      (next.entersMenu = true → ∃ reason, next.reason? ed = some reason ∧ r = .restart reason) ∧
      (next.entersMenu = false →
        r = .launch (lastChoice ed (b.memory.byteAt Layout.application) past)) ∧
      r ≠ .launch .eraseStore ∧
      (next.entersMenu = false → (∃ p ∈ past.getLast?, p.entersMenu = false) →
        b₂.memory.writes = b₁.memory.writes) ∧
      (r ≠ .restart .erased → ∀ i, i ≠ Layout.application →
        b₂.memory.cell? i = b₁.memory.cell? i) ∧
      (r = .restart .erased → ∀ i, i < cellCount →
        b₂.memory.cell? i = some (defaultByte i)) := by
  obtain ⟨_, b₁, hrun, ⟨results, rfl⟩, hfollows⟩ := bootAll_ends hpast hpower
  obtain ⟨_, b₂, hboot, rfl, hbooted⟩ := PowerUp.boot_ends hnext b₁
  have herased : next.outcome ed (b₁.memory.byteAt Layout.application) = .restart .erased ↔
      next.reason? ed = some .erased := by
    unfold PowerUp.outcome
    cases next.reason? ed <;> simp
  refine ⟨results, b₁, _, b₂, hrun, hboot, ?_, fun hmenu => ?_, fun hmenu => ?_, ?_,
    fun hmenu hlast => ?_, fun hkept i hi => ?_, fun hreset i hi => ?_⟩
  · rw [cell?_eq_byteAt _ (by decide), hbooted.memory, hbooted.selected,
      PowerUp.byteAt_storeAfter hfollows.power]
  · obtain ⟨reason, hreason⟩ := hnext.isSome_reason? hmenu
    exact ⟨reason, hreason, by rw [PowerUp.outcome, hreason]⟩
  · rw [PowerUp.outcome, PowerUp.reason?_of_keyless hmenu, ← hfollows.choice]
  · unfold PowerUp.outcome
    split
    · exact nofun
    · intro hlaunch
      exact (Application.booted_mem ed _).2 (BootResult.launch.inj hlaunch)
  · obtain ⟨app, happ⟩ := hfollows.named hlast
    rw [hbooted.memory, PowerUp.storeAfter, PowerUp.reason?_of_keyless hmenu,
      Application.booted_of_some happ,
      persisting_of_eq (Application.of_ofPersisted? happ).2.2.symm, writes_settled]
  · rw [hbooted.memory]
    exact PowerUp.cell?_storeAfter hfollows.power (fun h => hkept (herased.2 h)) hi
  · rw [hbooted.memory]
    exact PowerUp.cell?_storeAfter_erased hfollows.power (herased.1 hreset) hi

/-- A power-up with the menu key, then past the prompts and two entries to the third. -/
def choosing : PowerUp where
  display := true
  inserted := false
  script := [.b, .c, .c, .c, .c, .none, .c, .d]
  ram := {}

/-- A power-up without the menu key. -/
def running : PowerUp where
  display := true
  inserted := false
  script := [.none]
  ram := {}

/-- The third entry is chosen on an erased store, and the next boot runs it. -/
theorem selection_survives_once :
    ∃ results b₁ r b₂,
      (bootAll ⟨false, false⟩ [choosing]).run.Returns {} (.ok results) b₁ ∧
      (running.boot ⟨false, false⟩).run.Returns b₁ (.ok r) b₂ ∧
      r = .launch .filterAmount := by
  have hchoosing : choosing.Finishes ⟨false, false⟩ :=
    ⟨by decide, fun _ _ => ⟨⟨.filterAmount, prompts ++ ["Virtual Serial", "Forward and Log"], []⟩,
      by decide, by decide⟩⟩
  have hrunning : running.Finishes ⟨false, false⟩ :=
    ⟨by decide, fun hmenu => absurd hmenu (by decide)⟩
  have hpast : ∀ p ∈ [choosing], p.Finishes ⟨false, false⟩ := by
    intro p hp
    obtain rfl := List.mem_singleton.1 hp
    exact hchoosing
  obtain ⟨results, b₁, r, b₂, hpast, hnext, -, -, hlaunch, -⟩ :=
    selection_survives (b := {}) rfl hpast hrunning
  refine ⟨results, b₁, r, b₂, hpast, hnext, ?_⟩
  rw [hlaunch (by decide)]
  rfl

end Row

end Bench

end CardTap
