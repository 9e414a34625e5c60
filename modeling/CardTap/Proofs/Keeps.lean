import CardTap.Proofs.Run

/-!
# What a run keeps

A run may end early: a button script runs out, a display is off.  The machine it leaves is there all
the same, and with it whatever was stored.  So the properties that have to survive every run speak
of the machine left behind, however the run ended (`Keeps`).  Where a run does return, its effect is
the one that `Returns` tells.
-/

namespace CardTap.Run

variable {σ τ α β ε : Type}

/-- The machine of a result, a value or a halt. -/
def leftBy : EStateM.Result Halt (Noted σ) α → σ
  | .ok _ s => s.machine
  | .error _ s => s.machine

/-- The machine that the run leaves behind. -/
def machineAfter (x : Run σ α) (m : σ) : σ := leftBy (x ⟨m, []⟩)

/-- The run leaves every machine with the property on one with the property. -/
def Keeps (P : σ → Prop) (x : Run σ α) : Prop := ∀ m journal, P m → P (leftBy (x ⟨m, journal⟩))

theorem Returns.machineAfter_eq {x : Run σ α} {m m' : σ} {a : α} (h : x.Returns m a m') :
    x.machineAfter m = m' := by
  obtain ⟨journal, hrun⟩ := h []
  rw [machineAfter, hrun]
  rfl

namespace Keeps

variable {P : σ → Prop}

theorem machineAfter {x : Run σ α} (h : Keeps P x) {m : σ} (hm : P m) : P (x.machineAfter m) :=
  h m [] hm

/-- A run with a known effect keeps what the effect keeps. -/
theorem of_returns {x : Run σ α} (h : ∀ m, P m → ∃ a m', x.Returns m a m' ∧ P m') : Keeps P x := by
  intro m journal hm
  obtain ⟨a, m', hrun, hm'⟩ := h m hm
  obtain ⟨journal', heq⟩ := hrun journal
  rw [heq]
  exact hm'

section Plain

variable {x : Run σ α} {f : α → Run σ β}

theorem pure (a : α) : Keeps P (Pure.pure a : Run σ α) := fun _ _ hm => hm

theorem halt (h : Halt) : Keeps P (Run.halt h : Run σ α) := fun _ _ hm => hm

theorem note (r : LogRecord) : Keeps P (Run.note r) := fun _ _ hm => hm

theorem read (f : σ → α) : Keeps P (Run.read f) := fun _ _ hm => hm

theorem change {g : σ → σ} (h : ∀ m, P m → P (g m)) : Keeps P (Run.change g) :=
  fun m _ hm => h m hm

theorem checked (c : Checked α) : Keeps P (liftM c : Run σ α) := by
  cases c with
  | ok a => exact pure a
  | error f => exact halt (.fault f)

theorem bind (hx : Keeps P x) (hf : ∀ a, Keeps P (f a)) : Keeps P (x >>= f) := by
  intro m journal hm
  have hfirst := hx m journal hm
  show P (leftBy (EStateM.bind x f ⟨m, journal⟩))
  rw [EStateM.bind]
  cases hrun : x ⟨m, journal⟩ with
  | ok a s =>
    rw [hrun] at hfirst
    exact hf a s.machine s.journal hfirst
  | error h s =>
    rw [hrun] at hfirst
    exact hfirst

theorem map {g : α → β} (hx : Keeps P x) : Keeps P (g <$> x) := by
  intro m journal hm
  have hfirst := hx m journal hm
  show P (leftBy (EStateM.map g x ⟨m, journal⟩))
  rw [EStateM.map]
  cases hrun : x ⟨m, journal⟩ with
  | ok a s =>
    rw [hrun] at hfirst
    exact hfirst
  | error h s =>
    rw [hrun] at hfirst
    exact hfirst

/-- A run on a part of the machine keeps what does not look at that part. -/
theorem within {get : σ → τ} {put : τ → σ → σ} (hput : ∀ t m, P m → P (put t m)) (x : Run τ α) :
    Keeps P (Run.within get put x) := by
  intro m journal hm
  rw [Run.within]
  cases x ⟨get m, journal⟩ with
  | ok a t => exact hput _ _ hm
  | error h t => exact hput _ _ hm

end Plain

/-! ## Runs that may fail -/

section Failing

variable {x : ExceptT ε (Run σ) α} {f : α → ExceptT ε (Run σ) β}

theorem ok (a : α) : Keeps P (Pure.pure a : ExceptT ε (Run σ) α).run := pure (Except.ok a)

theorem throw (e : ε) : Keeps P (MonadExcept.throw e : ExceptT ε (Run σ) α).run :=
  pure (Except.error e)

theorem bind_ok (hx : Keeps P x.run) (hf : ∀ a, Keeps P (f a).run) : Keeps P (x >>= f).run := by
  refine bind hx fun r => ?_
  cases r with
  | ok a => exact hf a
  | error e => exact pure _

theorem map_ok {g : α → β} (hx : Keeps P x.run) : Keeps P (g <$> x).run := by
  refine bind hx fun r => ?_
  cases r with
  | ok a => exact pure _
  | error e => exact pure _

theorem lift {x : Run σ α} (hx : Keeps P x) :
    Keeps P (liftM x : ExceptT ε (Run σ) α).run :=
  map hx

end Failing

/-! ## Interfaces on a part of the machine -/

section Mounted

variable {I : Type → Type} {p : Part τ σ} {ops : I τ}

theorem mounted (hput : ∀ t m, P m → P (p.put t m)) (f : I τ → Run τ α) :
    Keeps P ((Mounted.part p ops).run f) :=
  within hput _

theorem attempted_of_returns {f : I τ → ExceptT ε (Run τ) α}
    (h : ∀ m, P m → ∃ r t, (f ops).run.Returns (p.get m) r t ∧ P (p.put t m)) :
    Keeps P ((Mounted.part p ops).attempt f).run :=
  of_returns fun m hm =>
    let ⟨r, _, hrun, ht⟩ := h m hm
    ⟨r, _, Returns.attempted hrun, ht⟩

end Mounted

end Keeps

end CardTap.Run
