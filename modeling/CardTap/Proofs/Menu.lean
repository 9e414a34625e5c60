import Mathlib.Algebra.Ring.Nat
import CardTap.Bench.Panel
import CardTap.Boot
import CardTap.Proofs.Run

/-!
# The menu

The menu is a ring of places: the prompts, then its entries.  A button read leaves the user where
they are, takes them to the next place or selects the entry there.  `walk` follows a row of button
reads around the ring up to a selection.
-/

namespace CardTap

namespace Menu

/-! ## Around the menu -/

/-- A place of the menu. -/
inductive Place where
  | prompt (text : String)
  | entry (app : Application)
  deriving DecidableEq, Repr

/-- What a button read does. -/
inductive Move where
  | stay
  | advance
  | choose (app : Application)
  deriving DecidableEq, Repr

namespace Place

/-- What is shown there. -/
def text : Place → String
  | .prompt text => text
  | .entry app => app.name

/-- What a button read does there.  Selecting comes before scrolling, if both keys are held. -/
def move : Place → Buttons → Move
  | .prompt _, held => if held.holds nextKey then .advance else .stay
  | .entry app, held =>
    if held.holds chooseKey then .choose app
    else if held.holds nextKey then .advance
    else .stay

/-- Only an entry is selected, and only where it is shown. -/
theorem eq_entry_of_move {place : Place} {held : Buttons} {app : Application}
    (h : place.move held = .choose app) : place = .entry app := by
  cases place with
  | prompt text =>
    rw [move] at h
    split at h <;> exact nomatch h
  | entry app' =>
    rw [move] at h
    split at h
    · rw [Move.choose.inj h]
    · split at h <;> exact nomatch h

end Place

/-- The places of a menu in order; the last one is followed by the first. -/
def ring (menu : List Application) : List Place := prompts.map .prompt ++ menu.map .entry

/-- The way to a selection. -/
structure Walk where
  /-- The entry selected. -/
  app : Application
  /-- The texts of the places passed before. -/
  passed : List String
  /-- The button reads that are left. -/
  left : List Buttons
  deriving DecidableEq, Repr

/-- A walk behind some more places. -/
def Walk.behind (w : Walk) (texts : List String) : Walk := { w with passed := texts ++ w.passed }

/-- The way that button reads take from the first of the given places, which are the rest of the
ring; there is none if no read selects an entry. -/
def walk (ring : List Place) : List Place → List Buttons → Option Walk
  | place :: later, held :: rest =>
    match place.move held with
    | .stay => walk ring (place :: later) rest
    | .advance =>
      (walk ring (if later.isEmpty then ring else later) rest).map (·.behind [place.text])
    | .choose app => some ⟨app, [], rest⟩
  | _, _ => none

/-- The way that button reads take through a menu. -/
def way (menu : List Application) (script : List Buttons) : Option Walk :=
  walk (ring menu) (ring menu) script

section Walks

variable {around later : List Place} {place : Place} {script : List Buttons} {w : Walk}

theorem app_mem_of_walk {menu : List Application}
    (haround : ∀ app, .entry app ∈ around → app ∈ menu)
    (h : walk around later script = some w) (hlater : ∀ app, .entry app ∈ later → app ∈ menu) :
    w.app ∈ menu := by
  induction script generalizing later w with
  | nil => cases later <;> exact nomatch h
  | cons held rest ih =>
    cases later with
    | nil => exact nomatch h
    | cons place later =>
      rw [walk] at h
      cases hmove : place.move held with
      | stay =>
        rw [hmove] at h
        exact ih h hlater
      | advance =>
        rw [hmove] at h
        obtain ⟨w', hw', rfl⟩ := Option.map_eq_some_iff.1 h
        have hmem : w'.app ∈ menu := by
          refine ih hw' fun app happ => ?_
          split at happ
          · exact haround app happ
          · exact hlater app (List.mem_cons_of_mem _ happ)
        exact hmem
      | choose app =>
        rw [hmove] at h
        obtain rfl := Option.some.inj h
        exact hlater app (Place.eq_entry_of_move hmove ▸ List.mem_cons_self)

/-- What is selected is an entry of the menu. -/
theorem app_mem_of_way {menu : List Application} (h : way menu script = some w) : w.app ∈ menu := by
  have hring (app : Application) (happ : .entry app ∈ ring menu) : app ∈ menu := by
    simpa [ring] using happ
  exact app_mem_of_walk hring h hring

/-- Past the prompts and the first entry; reads without a key do nothing. -/
example : way (Application.menu ⟨false, false⟩) [.c, .none, .c, .c, .b, .c, .d, .a] =
    some ⟨.forwardAndLog, prompts ++ ["Virtual Serial"], [.a]⟩ := by decide

end Walks

end Menu

namespace Bench.Panel

open CardTap.Run CardTap.Menu

/-! ## The simulated panel -/

variable {p : Panel}

section Steps

theorem written_returns (hon : p.powered) (text : String) :
    (panel.printLine text).Returns p () { p with lines := text :: p.lines } := by
  refine Returns.bind (Returns.read Panel.powered p) ?_
  rw [if_pos hon]
  exact Returns.change (fun p : Panel => { p with lines := text :: p.lines }) p

theorem nextButtons_returns {held : Buttons} {rest : List Buttons}
    (hscript : p.script = held :: rest) :
    panel.buttons.Returns p held { p with script := rest } := by
  refine Returns.bind (Returns.read Panel.script p) ?_
  rw [hscript]
  exact Returns.bind (Returns.change (fun p : Panel => { p with script := rest }) p)
    (Returns.pure held _)

theorem delayed_returns {ms : Nat} (hroom : p.pausedMs + ms < 2 ^ 32) :
    (panel.pauseMs ms).Returns p () { p with pausedMs := p.pausedMs + ms } := by
  refine Returns.bind (Returns.read Panel.pausedMs p) ?_
  refine Returns.bind (Returns.checked (Word.add_ok (w := .bits32) hroom) p) ?_
  exact Returns.change (fun q : Panel => { q with pausedMs := p.pausedMs + ms }) p

/-- The panel once some places were shown and scrolled past, and so many reads are left. -/
def past (p : Panel) (texts : List String) (left : List Buttons) : Panel :=
  { p with
    lines := texts.reverse ++ p.lines
    script := left
    pausedMs := p.pausedMs + menuPauseMs * texts.length }

/-- The panel once an entry was selected. -/
def chosen (p : Panel) (w : Walk) : Panel :=
  { p.past w.passed w.left with lines := w.app.name :: (w.passed.reverse ++ p.lines) }

/-- Without a display nothing is selected. -/
theorem chooseApplication_returns_dark (menu : List Application) (p : Panel) :
    (panel.chooseApplication menu false).Returns p none p :=
  Returns.pure none p

end Steps

end Bench.Panel

end CardTap
