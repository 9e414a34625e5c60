import CardTap.Proofs.Menu

/-!
# The menu as an automaton

The menu is written as loops in loops: over the rounds, over the prompts and the entries of a round,
and over the button reads of a place.  What a user sees of it is flat: a position, at which each
read either does nothing, or leads to the next position, or selects the entry there.  `follow` is
this automaton, and `visit_follows` ties the loops to it, one button read at a time, whether or not
the reads end in a selection.
-/

namespace CardTap

namespace Menu

/-! ## Positions -/

/-- The positions of a menu: the three prompts, then the entries. -/
abbrev Position (menu : List Application) := Fin (menu.length + 3)

section Positions

variable {menu : List Application}

theorem length_ring (menu : List Application) : (ring menu).length = menu.length + 3 := by
  simp only [ring, List.length_append, List.length_map]
  exact Nat.add_comm 3 menu.length

/-- The first prompt. -/
def first (menu : List Application) : Position menu := 0

/-- The place at a position. -/
def placeAt (i : Position menu) : Place := (ring menu).get (i.cast (length_ring menu).symm)

/-- The position behind another one; behind the last is the first. -/
def next (i : Position menu) : Position menu :=
  ⟨(i + 1) % (menu.length + 3), Nat.mod_lt _ (Nat.succ_pos _)⟩

theorem next_val (i : Position menu) (h : i.val + 1 < menu.length + 3) : (next i).val = i + 1 :=
  Nat.mod_eq_of_lt h

theorem next_last (i : Position menu) (h : ¬i.val + 1 < menu.length + 3) : (next i).val = 0 := by
  have hend : i.val + 1 = menu.length + 3 := by have := i.isLt; omega
  simp [next, hend]

theorem placeAt_prompt (i : Position menu) (h : i.val < 3) :
    placeAt i = .prompt (prompts.get ⟨i, h⟩) := by
  simp only [placeAt, ring, List.get_eq_getElem]
  rw [List.getElem_append_left (by rw [List.length_map]; exact h), List.getElem_map]
  rfl

theorem placeAt_entry (i : Position menu) (h : 3 ≤ i.val) :
    placeAt i = .entry (menu.get ⟨i - 3, by have := i.isLt; omega⟩) := by
  simp only [placeAt, ring, List.get_eq_getElem]
  rw [List.getElem_append_right (by rw [List.length_map]; exact h), List.getElem_map]
  rfl

theorem drop_ring (i : Position menu) :
    (ring menu).drop i = placeAt i :: (ring menu).drop (i + 1) :=
  List.drop_eq_getElem_cons _

end Positions

/-! ## The automaton -/

/-- What button reads do. -/
structure Course (menu : List Application) where
  /-- The positions left behind. -/
  passed : List (Position menu)
  /-- The position shown last. -/
  last : Position menu
  /-- The entry selected, unless the reads run out before. -/
  choice : Option Application
  /-- The reads that are left. -/
  left : List Buttons

section Automaton

variable {menu : List Application} {i : Position menu} {script : List Buttons} {app : Application}

/-- The course that begins one position earlier. -/
def Course.behind (c : Course menu) (i : Position menu) : Course menu :=
  { c with passed := i :: c.passed }

/-- What button reads do from a position on. -/
def follow (i : Position menu) : List Buttons → Course menu
  | [] => ⟨[], i, none, []⟩
  | held :: rest =>
    match (placeAt i).move held with
    | .stay => follow i rest
    | .advance => (follow (next i) rest).behind i
    | .choose app => ⟨[], i, some app, rest⟩

/-- The position that a read leads to. -/
def moved (i : Position menu) (held : Buttons) : Position menu :=
  if (placeAt i).move held = .advance then next i else i

/-- The read with the number `n` selects an entry. -/
def Selects (i : Position menu) (script : List Buttons) (n : Nat) (app : Application) : Prop :=
  ∃ held, script[n]? = some held ∧
    (placeAt ((script.take n).foldl moved i)).move held = .choose app

theorem selects_zero {held : Buttons} {rest : List Buttons} :
    Selects i (held :: rest) 0 app ↔ (placeAt i).move held = .choose app := by
  simp [Selects]

theorem selects_succ {held : Buttons} {rest : List Buttons} {n : Nat} :
    Selects i (held :: rest) (n + 1) app ↔ Selects (moved i held) rest n app := by
  simp [Selects]

/-- A read that selects nothing is the first of the reads that follow from where it leads. -/
theorem follow_cons {held : Buttons} {rest : List Buttons}
    (h : ∀ app, (placeAt i).move held ≠ .choose app) :
    (follow i (held :: rest)).choice = (follow (moved i held) rest).choice ∧
      (follow i (held :: rest)).left = (follow (moved i held) rest).left := by
  rw [follow, moved]
  cases hmove : (placeAt i).move held with
  | stay => simp
  | advance => simp [Course.behind]
  | choose app => exact absurd hmove (h app)

/-- Without a selecting read the reads run out. -/
theorem follow_none (h : (follow i script).choice = none) (n : Nat) (app : Application) :
    ¬Selects i script n app := by
  induction script generalizing i n with
  | nil => simp [Selects]
  | cons held rest ih =>
    have hmove : ∀ app, (placeAt i).move held ≠ .choose app := by
      intro app hmove
      simp [follow, hmove] at h
    cases n with
    | zero => simpa [selects_zero] using hmove app
    | succ n =>
      rw [selects_succ]
      apply ih
      rw [← (follow_cons hmove).1, h]

/-- The first selecting read is the last one taken. -/
theorem follow_some (h : (follow i script).choice = some app) :
    ∃ n, Selects i script n app ∧ (∀ k < n, ∀ other, ¬Selects i script k other) ∧
      (follow i script).left = script.drop (n + 1) := by
  induction script generalizing i with
  | nil => simp [follow] at h
  | cons held rest ih =>
    by_cases hchoose : ∃ other, (placeAt i).move held = .choose other
    · obtain ⟨other, hmove⟩ := hchoose
      simp only [follow, hmove, Option.some.injEq] at h ⊢
      subst h
      exact ⟨0, selects_zero.2 hmove, by simp, rfl⟩
    · have hmove : ∀ other, (placeAt i).move held ≠ .choose other := not_exists.1 hchoose
      have ⟨hchoice, hleft⟩ := @follow_cons menu i held rest hmove
      rw [hchoice] at h
      obtain ⟨n, hselects, hfirst, hrest⟩ := ih h
      refine ⟨n + 1, selects_succ.2 hselects, ?_, ?_⟩
      · intro k hk other
        cases k with
        | zero => simpa [selects_zero] using hmove other
        | succ k =>
          rw [selects_succ]
          exact hfirst k (Nat.lt_of_succ_lt_succ hk) other
      · rw [hleft, hrest, List.drop_succ_cons]

/-- What is selected is the entry shown last. -/
theorem placeAt_last (h : (follow i script).choice = some app) :
    placeAt (follow i script).last = .entry app := by
  induction script generalizing i with
  | nil => simp [follow] at h
  | cons held rest ih =>
    rw [follow] at h ⊢
    cases hmove : (placeAt i).move held with
    | stay =>
      rw [hmove] at h
      exact ih h
    | advance =>
      rw [hmove] at h
      exact ih h
    | choose other =>
      rw [hmove] at h
      obtain rfl := Option.some.inj h
      exact Place.eq_entry_of_move hmove

theorem choice_eq_none_iff :
    (follow i script).choice = none ↔ ∀ n app, ¬Selects i script n app := by
  constructor
  · intro h n app
    exact follow_none h n app
  · intro h
    cases hchoice : (follow i script).choice with
    | none => rfl
    | some app =>
      obtain ⟨n, hselects, -⟩ := follow_some hchoice
      exact absurd hselects (h n app)

/-- A walk around the ring is a course that ends in a selection. -/
theorem walk_eq (i : Position menu) (script : List Buttons) :
    walk (ring menu) ((ring menu).drop i) script =
      (follow i script).choice.map fun app =>
        ⟨app, (follow i script).passed.map fun j => (placeAt j).text, (follow i script).left⟩ := by
  induction script generalizing i with
  | nil => cases h : (ring menu).drop i <;> simp [walk, follow]
  | cons held rest ih =>
    rw [drop_ring, walk, follow]
    cases hmove : (placeAt i).move held with
    | stay =>
      simp only
      rw [← drop_ring, ih]
    | choose app => rfl
    | advance =>
      have hlater : (if ((ring menu).drop (i + 1)).isEmpty then ring menu
          else (ring menu).drop (i + 1)) = (ring menu).drop (next i) := by
        by_cases hlast : i.val + 1 < menu.length + 3
        · have hmore : ¬((ring menu).drop (i + 1)).isEmpty := by
            simp only [List.isEmpty_iff, List.drop_eq_nil_iff, length_ring]
            omega
          rw [if_neg hmore, next_val i hlast]
        · have hnone : ((ring menu).drop (i + 1)).isEmpty := by
            simp only [List.isEmpty_iff, List.drop_eq_nil_iff, length_ring]
            omega
          rw [if_pos hnone, next_last i hlast, List.drop_zero]
      simp only
      rw [hlater, ih]
      simp [Course.behind, Walk.behind, Function.comp_def]

end Automaton

end Menu

namespace Panel

open Menu

/-! ## The loops at a position -/

section Loops

variable {σ : Type} (p : Panel σ) {menu : List Application}

/-- The rest of a visit to a place, with `n` polls of the buttons left and `onward` behind it. -/
def visit (place : Place) (n : Nat) (onward : Run σ Application) : Run σ Application :=
  match place with
  | .prompt _ => do
    p.pollButtons (fun held => if held.holds nextKey then some () else none) n
    p.pauseMs menuPauseMs
    onward
  | .entry app => do
    if ← p.pollButtons entryChoice n then pure app
    else
      p.pauseMs menuPauseMs
      onward

/-- The rest of a round from a position on, and `n` more rounds. -/
def resume (menu : List Application) (n i : Nat) : Run σ Application := do
  (prompts.drop i).forM p.showPrompt
  match ← p.offer (menu.drop (i - 3)) with
  | some app => pure app
  | none => p.rounds menu n

/-- A round is visits in a row. -/
theorem resume_eq (n : Nat) (i : Position menu) :
    p.resume menu n i = (do
      p.printLine (placeAt i).text
      let patience ← Run.read p.patience
      p.visit (placeAt i) patience (p.resume menu n (i + 1))) := by
  by_cases h : i.val < 3
  · have hdrop : prompts.drop i = prompts.get ⟨i, h⟩ :: prompts.drop (i + 1) :=
      List.drop_eq_getElem_cons h
    have hmenu : i.val - 3 = i.val + 1 - 3 := by omega
    rw [placeAt_prompt i h, resume, hdrop, hmenu]
    simp [resume, visit, showPrompt, awaitButtons, Place.text, -List.getElem_cons_drop]
  · have hle : 3 ≤ i.val := Nat.le_of_not_lt h
    have hdone (j : Nat) (hj : 3 ≤ j) : prompts.drop j = [] := List.drop_eq_nil_of_le hj
    have hlt : i.val - 3 < menu.length := by have := i.isLt; omega
    have hdrop : menu.drop (i - 3) = menu[i.val - 3] :: menu.drop (i + 1 - 3) := by
      rw [List.drop_eq_getElem_cons hlt]
      congr 2
      omega
    rw [placeAt_entry i hle, resume, hdone i hle, hdrop]
    simp only [resume, visit, hdone _ (Nat.le_succ_of_le hle), offer, awaitButtons, Place.text,
      List.forM_eq_forM, List.forM_nil, Nat.reduceSubDiff, bind_assoc, pure_bind]
    refine bind_congr fun _ => bind_congr fun _ => bind_congr fun chosen => ?_
    cases chosen <;> simp

theorem resume_zero (n : Nat) : p.resume menu n 0 = p.rounds menu (n + 1) := rfl

/-- Behind the last entry comes another round. -/
theorem resume_next {n : Nat} (hn : n ≠ 0) (i : Position menu) :
    ∃ n', n ≤ n' + 1 ∧ p.resume menu n (i + 1) = p.resume menu n' (next i) := by
  by_cases hlast : i.val + 1 < menu.length + 3
  · exact ⟨n, Nat.le_succ n, by rw [next_val i hlast]⟩
  · obtain ⟨n', rfl⟩ := Nat.exists_eq_succ_of_ne_zero hn
    have hend : i.val + 1 = menu.length + 3 := by have := i.isLt; omega
    have hprompts : prompts.drop (menu.length + 3) = [] :=
      List.drop_eq_nil_of_le (Nat.le_add_left 3 _)
    refine ⟨n', Nat.le_refl _, ?_⟩
    rw [next_last i hlast, hend, resume_zero]
    simp [resume, hprompts, offer]

end Loops

end Panel

namespace Bench.Panel

open CardTap.Run CardTap.Menu

variable {p p' : Panel}

/-! ## Button reads -/

section Reads

variable {onward : Run Panel Application} {r : Except Halt Application} {n : Nat}

theorem nextButtons_halts (hscript : p.script = []) :
    panel.buttons.Halts p (.fault .noMoreButtons) p := by
  intro journal
  refine ⟨journal, ?_⟩
  show nextButtons _ = _
  simp [nextButtons, Run.read, hscript, bind, EStateM.bind, Run.fault, Run.halt]

theorem pollButtons_read {α β : Type} {choice : Buttons → Option α} {held : Buttons}
    {rest : List Buttons} {f : α → Run Panel β} {r : Except Halt β}
    (hscript : p.script = held :: rest)
    (h : (match choice held with
      | some a => f a
      | none => panel.pollButtons choice n >>= f).Outcome { p with script := rest } r p') :
    (panel.pollButtons choice (n + 1) >>= f).Outcome p r p' := by
  rw [CardTap.Panel.pollButtons, bind_assoc]
  apply Outcome.after (nextButtons_returns hscript)
  cases hchoice : choice held with
  | some a => simpa [hchoice] using h
  | none => simpa [hchoice] using h

/-- A button read at a place does what the place makes of it. -/
theorem visit_read (place : Place) {held : Buttons} {rest : List Buttons}
    (hscript : p.script = held :: rest)
    (h : (match place.move held with
      | .stay => panel.visit place n onward
      | .advance => panel.pauseMs menuPauseMs >>= fun _ => onward
      | .choose app => pure app).Outcome { p with script := rest } r p') :
    (panel.visit place (n + 1) onward).Outcome p r p' := by
  cases place with
  | prompt text =>
    apply pollButtons_read hscript
    by_cases hnext : held.holds nextKey
    · simpa [Place.move, hnext] using h
    · simpa [Place.move, hnext, CardTap.Panel.visit] using h
  | entry app =>
    apply pollButtons_read hscript
    by_cases hchoose : held.holds chooseKey
    · simpa [Place.move, CardTap.Panel.entryChoice, hchoose] using h
    · by_cases hnext : held.holds nextKey
      · simpa [Place.move, CardTap.Panel.entryChoice, hchoose, hnext] using h
      · simpa [Place.move, CardTap.Panel.entryChoice, hchoose, hnext, CardTap.Panel.visit] using h

theorem visit_halts (place : Place) (hscript : p.script = []) :
    (panel.visit place (n + 1) onward).Halts p (.fault .noMoreButtons) p := by
  cases place with
  | prompt text => exact Halts.bind (Halts.bind (nextButtons_halts hscript))
  | entry app => exact Halts.bind (Halts.bind (nextButtons_halts hscript))

end Reads

/-! ## The menu on the panel -/

section Tours

variable {menu : List Application} {i : Position menu}

/-- The panel behind a course: each position shown once, a pause behind each one passed. -/
def toured (p : Panel) (c : Course menu) : Panel :=
  { p with
    lines := ((c.passed ++ [c.last]).map fun j => (placeAt j).text).reverse ++ p.lines
    script := c.left
    pausedMs := p.pausedMs + menuPauseMs * c.passed.length }

/-- How the menu ends: with the entry selected, or for want of a button read. -/
def verdict (c : Course menu) : Except Halt Application :=
  match c.choice with
  | some app => .ok app
  | none => .error (.fault .noMoreButtons)

/-- A position is shown before its buttons are read. -/
theorem resume_shows {n : Nat} {r : Except Halt Application} (hon : p.powered)
    (h : (panel.visit (placeAt i) (p.script.length + 1) (panel.resume menu n (i + 1))).Outcome
      { p with lines := (placeAt i).text :: p.lines } r p') :
    (panel.resume menu n i).Outcome p r p' := by
  rw [CardTap.Panel.resume_eq]
  apply Outcome.after (written_returns hon _)
  exact Outcome.after (Returns.read panel.patience _) h

/-- One button read at a time, the loops do what the automaton does.  Each round left stands for at
least one read left, and so does each poll. -/
theorem visit_follows {script : List Buttons} {n polls : Nat} (hon : p.powered)
    (hscript : p.script = script) (hn : script.length ≤ n) (hpolls : script.length < polls)
    (hroom : p.pausedMs + menuPauseMs * (follow i script).passed.length < 2 ^ 32) :
    (panel.visit (placeAt i) polls (panel.resume menu n (i + 1))).Outcome
      { p with lines := (placeAt i).text :: p.lines } (verdict (follow i script))
      (p.toured (follow i script)) := by
  induction script generalizing p i n polls with
  | nil =>
    obtain ⟨k, rfl⟩ := Nat.exists_eq_succ_of_ne_zero (Nat.ne_of_gt hpolls)
    have hhalts : (panel.visit (placeAt i) (k + 1) (panel.resume menu n (i + 1))).Halts
        { p with lines := (placeAt i).text :: p.lines } (.fault .noMoreButtons)
        { p with lines := (placeAt i).text :: p.lines } :=
      visit_halts (placeAt i) hscript
    simpa [follow, verdict, toured, Outcome, hscript] using hhalts
  | cons held rest ih =>
    obtain ⟨k, rfl⟩ : ∃ k, polls = k + 1 := Nat.exists_eq_succ_of_ne_zero (by omega)
    rw [List.length_cons] at hn hpolls
    rw [follow] at hroom ⊢
    apply visit_read (p := { p with lines := (placeAt i).text :: p.lines }) (placeAt i) hscript
    cases hmove : (placeAt i).move held with
    | stay =>
      rw [hmove] at hroom
      exact ih (p := { p with script := rest }) hon rfl (by omega) (by omega) hroom
    | choose app => exact Returns.pure app _
    | advance =>
      simp only [hmove, Course.behind, List.length_cons, Nat.mul_succ] at hroom
      obtain ⟨n', hn', hresume⟩ := CardTap.Panel.resume_next panel (n := n) (by omega) i
      let p₁ := { p with
        lines := (placeAt i).text :: p.lines
        script := rest
        pausedMs := p.pausedMs + menuPauseMs }
      have hcourse : p.toured ((follow (next i) rest).behind i) =
          p₁.toured (follow (next i) rest) := by
        simp only [toured, Course.behind, p₁, List.length_cons, Nat.mul_succ]
        simp
        omega
      have hpause : (panel.pauseMs menuPauseMs).Returns
          { p with lines := (placeAt i).text :: p.lines, script := rest } () p₁ :=
        delayed_returns (by simp only; omega)
      simp only [hresume, hcourse]
      apply Outcome.after hpause
      apply resume_shows (p := p₁) hon
      exact ih (p := p₁) hon rfl (by omega) (Nat.lt_succ_self _) (by simp only [p₁]; omega)

theorem chooseApplication_follows {c : Course menu} (hc : follow (first menu) p.script = c)
    (hroom : p.pausedMs + menuPauseMs * c.passed.length < 2 ^ 32) :
    (panel.chooseApplication menu true).Outcome p ((verdict c).map some)
      ({ p with powered := true }.toured c) := by
  subst hc
  apply Outcome.after (Returns.change (fun p : Panel => { p with powered := true }) p)
  apply Outcome.after (Returns.read panel.patience _)
  apply Outcome.map
  apply resume_shows (p := { p with powered := true }) (i := first menu) rfl
  exact visit_follows (p := { p with powered := true }) rfl rfl (Nat.le_refl _)
    (Nat.lt_succ_self _) hroom

/-- The walk to a selection, on the panel. -/
theorem chooseApplication_returns {w : Walk} (h : way menu p.script = some w)
    (hroom : p.pausedMs + menuPauseMs * w.passed.length < 2 ^ 32) :
    (panel.chooseApplication menu true).Returns p (some w.app)
      ({ p with powered := true }.chosen w) := by
  have hwalk := walk_eq (first menu) p.script
  generalize hc : follow (first menu) p.script = c at hwalk
  replace h : walk (ring menu) ((ring menu).drop (first menu)) p.script = some w := h
  rw [hwalk] at h
  obtain ⟨app, hchoice, rfl⟩ := Option.map_eq_some_iff.1 h
  rw [List.length_map] at hroom
  have hrun := chooseApplication_follows hc hroom
  have hlast : placeAt c.last = .entry app := by
    subst hc
    exact placeAt_last hchoice
  simpa [verdict, hchoice, Outcome, Except.map, toured, chosen, past, hlast, Place.text] using hrun

/-- **The menu is a cyclic automaton.**  The reads up to the first that selects an entry lead from
position to position; each position is shown once, behind each one passed there is a pause, and the
reads behind the selecting one are left.  Without such a read the script runs out. -/
theorem menu_cycles (menu : List Application) {c : Course menu}
    (hc : follow (first menu) p.script = c)
    (hroom : p.pausedMs + menuPauseMs * c.passed.length < 2 ^ 32) :
    (∀ app, c.choice = some app →
        (panel.chooseApplication menu true).Returns p (some app)
            ({ p with powered := true }.toured c) ∧
          ∃ n, Selects (first menu) p.script n app ∧
            (∀ k < n, ∀ other, ¬Selects (first menu) p.script k other) ∧
            c.left = p.script.drop (n + 1)) ∧
      (c.choice = none →
        (panel.chooseApplication menu true).Halts p (.fault .noMoreButtons)
          ({ p with powered := true }.toured c)) ∧
      ((∃ p', (panel.chooseApplication menu true).Halts p (.fault .noMoreButtons) p') ↔
        ∀ n app, ¬Selects (first menu) p.script n app) := by
  have hrun := chooseApplication_follows hc hroom
  have hnone := @choice_eq_none_iff menu (first menu) p.script
  have hsome (app : Application) (h : c.choice = some app) :
      (panel.chooseApplication menu true).Returns p (some app)
        ({ p with powered := true }.toured c) := by
    simpa [verdict, h, Outcome, Except.map] using hrun
  have hhalts (h : c.choice = none) :
      (panel.chooseApplication menu true).Halts p (.fault .noMoreButtons)
        ({ p with powered := true }.toured c) := by
    simpa [verdict, h, Outcome, Except.map] using hrun
  refine ⟨?_, hhalts, ?_⟩
  · intro app h
    refine ⟨hsome app h, ?_⟩
    subst hc
    exact follow_some h
  · rw [← hnone, hc]
    constructor
    · rintro ⟨p', hp'⟩
      cases h : c.choice with
      | none => rfl
      | some app => exact absurd hp' (hsome app h).not_halts
    · intro h
      exact ⟨_, hhalts h⟩

/-- Around the whole menu once and on to its first entry, where both keys are held. -/
theorem menu_cycles_around :
    let script := List.replicate 11 Buttons.c ++ [.none, Buttons.c.union .d, .a]
    let p : Panel := { connected := true, script }
    (follow (first (Application.menu ⟨false, false⟩)) script).choice = some .virtualSerial ∧
      (panel.chooseApplication (Application.menu ⟨false, false⟩) true).Returns p
        (some .virtualSerial)
        { p with
          powered := true
          lines := (prompts ++ (Application.menu ⟨false, false⟩).map Application.name ++ prompts ++
            ["Virtual Serial"]).reverse
          script := [.a]
          pausedMs := 5500 } := by
  intro script p
  have hchoice : (follow (first (Application.menu ⟨false, false⟩)) script).choice =
      some .virtualSerial := by decide
  refine ⟨hchoice, ?_⟩
  have hroom : p.pausedMs + menuPauseMs *
      (follow (first (Application.menu ⟨false, false⟩)) script).passed.length < 2 ^ 32 := by decide
  exact ((menu_cycles (Application.menu ⟨false, false⟩) rfl hroom).1 _ hchoice).1

end Tours

end Bench.Panel

end CardTap
