import CardTap.Bench.Bench
import CardTap.Boot
import CardTap.Proofs.Bench.Settings
import CardTap.Proofs.Keeps

/-!
# What a boot does to the store

A boot reads the persisted values, and it writes in two places only: a selection goes to the cell of
the application, and erasing goes over the whole store.  Everything else of a boot happens on other
parts of the board.  So whatever these two effects keep, a boot keeps (`boot_keeps`), also one that
stops in the menu because nobody presses a button.
-/

namespace CardTap.Bench

open CardTap.Run CardTap.Bench.Memory

variable {P : Memory → Prop}

/-- What waiting for a write, a selection and a factory reset keep. -/
structure Lasting (P : Memory → Prop) : Prop where
  settled : ∀ {m}, P m → P m.settled
  selected : ∀ {m} id, P m → P (m.updated Layout.application id)
  reset : ∀ {m}, P m → P (m.defaults cellCount)

/-! ## Parts of the board without the store -/

section Elsewhere

theorem ram_keeps {α : Type} (x : Run Ram α) :
    ((board cellCount).ram x).Keeps fun b => P b.memory := by
  show (Run.within ramPart.get ramPart.put x).Keeps _
  have hput (r : Ram) (b : Bench) (hb : P b.memory) : P (ramPart.put r b).memory := hb
  exact Keeps.within hput x

theorem shared_keeps {α : Type} (f : Ram → α × Ram) :
    ((board cellCount).shared f).Keeps fun b => P b.memory :=
  ram_keeps (Run.step f)

theorem panel_keeps {α : Type} (f : CardTap.Panel Panel → Run Panel α) :
    ((board cellCount).panel.run f).Keeps fun b => P b.memory :=
  Keeps.mounted (fun _ _ hm => hm) f

theorem slot_keeps {α : Type} (f : CardTap.Slot Slot → Run Slot α) :
    ((board cellCount).slot.run f).Keeps fun b => P b.memory :=
  Keeps.mounted (fun _ _ hm => hm) f

theorem system_keeps {α : Type} (f : CardTap.System System → Run System α) :
    ((board cellCount).system.run f).Keeps fun b => P b.memory :=
  Keeps.mounted (fun _ _ hm => hm) f

theorem watchdog_keeps {α : Type} (f : CardTap.Watchdog Watchdog → Run Watchdog α) :
    ((board cellCount).watchdog.run f).Keeps fun b => P b.memory :=
  Keeps.mounted (fun _ _ hm => hm) f

theorem watchPresence_keeps : ((board cellCount).watchPresence).Keeps fun b => P b.memory := by
  refine Keeps.bind ?_ fun _ => Keeps.bind (slot_keeps _) fun _ => Keeps.pure _
  refine Keeps.bind (slot_keeps _) fun inserted => Keeps.bind (panel_keeps _) fun _ => ?_
  cases inserted with
  | true =>
    exact Keeps.bind (shared_keeps _) fun _ => Keeps.bind (Keeps.note _) fun _ => Keeps.pure _
  | false =>
    exact Keeps.bind (slot_keeps _) fun _ => Keeps.bind (shared_keeps _) fun _ =>
      Keeps.bind (Keeps.note _) fun _ => Keeps.pure _

end Elsewhere

/-! ## The states of a boot -/

section States

variable (h : Lasting P)

include h

omit h in
theorem attempt_keeps {ε α : Type} {f : Eeprom Memory → ExceptT ε (Run Memory) α}
    (hf : ∀ m, P m → ∃ r m', (f (eeprom cellCount)).run.Returns m r m' ∧ P m') :
    ((board cellCount).eeprom.attempt f).run.Keeps fun b => P b.memory :=
  Keeps.attempted_of_returns (p := memoryPart) fun b hb => hf b.memory hb

theorem readByte_keeps {addr : Nat} (haddr : addr < cellCount) :
    ((board cellCount).eeprom.attempt fun e => Store.readByte e addr).run.Keeps
      fun b => P b.memory :=
  attempt_keeps fun m hm =>
    ⟨_, _, readByte_returns haddr (m.cell?_eq_byteAt haddr), h.settled hm⟩

theorem loadSettings_keeps : ((board cellCount).loadSettings).run.Keeps fun b => P b.memory := by
  refine Keeps.bind_ok (readByte_keeps h (by decide)) fun _ => ?_
  refine Keeps.bind_ok (Keeps.lift (shared_keeps _)) fun _ => ?_
  refine Keeps.bind_ok (readByte_keeps h (by decide)) fun _ => ?_
  refine Keeps.bind_ok (Keeps.lift (shared_keeps _)) fun _ => ?_
  refine Keeps.bind_ok (readByte_keeps h (by decide)) fun _ => ?_
  exact Keeps.lift (shared_keeps _)

theorem init_keeps (ed : Edition) :
    ((board cellCount).init ed).run.Keeps fun b => P b.memory := by
  refine Keeps.bind_ok (Keeps.lift (system_keeps _)) fun _ => ?_
  refine Keeps.bind_ok (Keeps.lift (watchdog_keeps _)) fun _ => ?_
  refine Keeps.bind_ok (Keeps.lift (panel_keeps _)) fun _ => ?_
  refine Keeps.bind_ok (loadSettings_keeps h) fun _ => ?_
  refine Keeps.bind_ok (Keeps.lift ?_) fun _ => ?_
  · refine Keeps.bind (panel_keeps _) fun display => ?_
    cases display with
    | true => exact Keeps.bind (panel_keeps _) fun _ => Keeps.pure _
    | false => exact Keeps.pure _
  · refine Keeps.bind_ok (Keeps.lift (system_keeps _)) fun _ => ?_
    split
    · exact Keeps.bind_ok (Keeps.lift watchPresence_keeps) fun _ => Keeps.ok _
    · exact Keeps.ok _

theorem commitSelection_keeps (id : UInt8) :
    ((board cellCount).commitSelection id).run.Keeps fun b => P b.memory := by
  have hstore : ((board cellCount).eeprom.attempt fun e => do
      Settings.setApplication e id
      Store.sync e).run.Keeps fun b => P b.memory :=
    attempt_keeps fun m hm => ⟨_, _, Returns.bind_ok (setApplication_returns (by decide)
      (Nat.le_refl _) id) (Returns.lift sync_returns), h.settled (h.selected id hm)⟩
  exact Keeps.bind_ok hstore fun _ => Keeps.lift (shared_keeps _)

theorem menuSelect_keeps (ed : Edition) (display : Bool) :
    ((board cellCount).menuSelect ed display).run.Keeps fun b => P b.memory := by
  refine Keeps.bind_ok (Keeps.lift (panel_keeps _)) fun chosen => ?_
  have hcommit (id : UInt8) (reason : RestartReason) :
      (do (board cellCount).commitSelection id; pure reason :
        StoreRun Bench RestartReason).run.Keeps fun b => P b.memory :=
    Keeps.bind_ok (commitSelection_keeps h id) fun _ => Keeps.ok _
  have herase : ((board cellCount).eraseSettings).run.Keeps fun b => P b.memory := by
    refine Keeps.bind_ok (Keeps.lift (panel_keeps _)) fun _ => ?_
    refine Keeps.bind_ok (attempt_keeps fun m hm => ?_) fun _ => ?_
    · exact ⟨_, _, factoryReset_returns (by decide) (Nat.le_refl _), h.reset hm⟩
    · exact Keeps.bind_ok (Keeps.lift (panel_keeps _)) fun _ => Keeps.lift (shared_keeps _)
  cases chosen with
  | none => exact hcommit 0 _
  | some app =>
    cases app with
    | eraseStore => exact Keeps.bind_ok herase fun _ => Keeps.ok _
    | _ => exact hcommit _ _

theorem storedSelect_keeps (ed : Edition) :
    ((board cellCount).storedSelect ed).run.Keeps fun b => P b.memory := by
  have htake (app : Application) : (do
      ((board cellCount).setSelected app.id : Run Bench Unit)
      pure app : StoreRun Bench Application).run.Keeps fun b => P b.memory :=
    Keeps.bind_ok (Keeps.lift (shared_keeps _)) fun _ => Keeps.ok _
  refine Keeps.bind_ok (readByte_keeps h (by decide)) fun id => ?_
  cases Application.ofPersisted? ed id with
  | some app => exact Keeps.bind_ok (Keeps.ok _) htake
  | none =>
    refine Keeps.bind_ok (Keeps.lift (Keeps.note _)) fun _ => ?_
    exact Keeps.bind_ok (commitSelection_keeps h _) fun _ => Keeps.bind_ok (Keeps.ok _) htake

theorem step_keeps (ed : Edition) (s : BootState) :
    ((board cellCount).step ed s).run.Keeps fun b => P b.memory := by
  have hnext (next : BootState) : (do
      (Run.note (.of .debug "boot" (s.describe ++ " -> " ++ next.describe)) : Run Bench Unit)
      pure next : StoreRun Bench BootState).run.Keeps fun b => P b.memory :=
    Keeps.bind_ok (Keeps.lift (Keeps.note _)) fun _ => Keeps.ok _
  cases s with
  | powerOn =>
    refine Keeps.bind_ok (init_keeps h ed) fun _ => ?_
    refine Keeps.bind_ok (Keeps.lift (panel_keeps _)) fun _ => ?_
    exact Keeps.bind_ok (Keeps.ok _) hnext
  | menuSelect display => exact Keeps.bind_ok (Keeps.map_ok (menuSelect_keeps h ed display)) hnext
  | storedSelect => exact Keeps.bind_ok (Keeps.map_ok (storedSelect_keeps h ed)) hnext
  | restarting reason => exact Keeps.bind_ok (Keeps.ok _) hnext
  | launching app => exact Keeps.bind_ok (Keeps.ok _) hnext

/-- **A boot keeps what a selection and a factory reset keep**, however it ends. -/
theorem boot_keeps (ed : Edition) :
    ((board cellCount).boot ed).run.Keeps fun b => P b.memory := by
  have hfrom (n : Nat) (s : BootState) :
      ((board cellCount).bootFrom ed n s).run.Keeps fun b => P b.memory := by
    induction n generalizing s with
    | zero => exact Keeps.lift (Keeps.halt _)
    | succ n ih =>
      refine Keeps.bind_ok (step_keeps h ed s) fun next => ?_
      split
      · exact Keeps.ok _
      · exact ih next
  exact hfrom 2 .powerOn

end States

end CardTap.Bench
