import CardTap.Run

/-!
# What a run returns

A run of a machine is deterministic, so what it does is told by one relation: started on the machine
`m`, the run ends with the value `a` on the machine `m'`.  The journal is left open on both sides:
no value and no machine depends on what was noted before.

A run that may fail (`ExceptT`) is spoken of through its plain run, whose value says how it ended.
Each rule below takes one layer off a program, so that a proof follows the text of the program.
-/

namespace CardTap.Run

variable {σ τ α β ε : Type}

/-- Started on `m`, the run ends with `a` on `m'`. -/
def Returns (x : Run σ α) (m : σ) (a : α) (m' : σ) : Prop :=
  ∀ journal, ∃ journal', x ⟨m, journal⟩ = .ok a ⟨m', journal'⟩

/-- Started on `m`, the run halts with `h` on `m'`. -/
def Halts (x : Run σ α) (m : σ) (h : Halt) (m' : σ) : Prop :=
  ∀ journal, ∃ journal', x ⟨m, journal⟩ = .error h ⟨m', journal'⟩

/-- Started on `m`, the run ends on `m'` in either way. -/
def Outcome (x : Run σ α) (m : σ) : Except Halt α → σ → Prop
  | .ok a, m' => x.Returns m a m'
  | .error h, m' => x.Halts m h m'

namespace Returns

section Plain

variable {x : Run σ α} {f : α → Run σ β} {m m' m'' : σ} {a : α} {b : β}

theorem unique {a' : α} (h : x.Returns m a m') (h' : x.Returns m a' m'') : a = a' ∧ m' = m'' := by
  obtain ⟨j, hj⟩ := h []
  obtain ⟨j', hj'⟩ := h' []
  rw [hj] at hj'
  simp only [EStateM.Result.ok.injEq, Noted.mk.injEq] at hj'
  exact ⟨hj'.1, hj'.2.1⟩

theorem pure (a : α) (m : σ) : (Pure.pure a : Run σ α).Returns m a m :=
  fun journal => ⟨journal, rfl⟩

theorem bind (hx : x.Returns m a m') (hf : (f a).Returns m' b m'') : (x >>= f).Returns m b m'' := by
  intro journal
  obtain ⟨j, hj⟩ := hx journal
  obtain ⟨j', hj'⟩ := hf j
  refine ⟨j', ?_⟩
  show EStateM.bind x f ⟨m, journal⟩ = _
  rw [EStateM.bind, hj]
  exact hj'

theorem map {g : α → β} (hx : x.Returns m a m') : (g <$> x).Returns m (g a) m' := by
  intro journal
  obtain ⟨j, hj⟩ := hx journal
  refine ⟨j, ?_⟩
  show EStateM.map g x ⟨m, journal⟩ = _
  rw [EStateM.map, hj]

theorem read (f : σ → α) (m : σ) : (Run.read f).Returns m (f m) m :=
  fun journal => ⟨journal, rfl⟩

theorem change (f : σ → σ) (m : σ) : (Run.change f).Returns m () (f m) :=
  fun journal => ⟨journal, rfl⟩

theorem step (f : σ → α × σ) (m : σ) : (Run.step f).Returns m (f m).1 (f m).2 :=
  fun journal => ⟨journal, rfl⟩

theorem note (r : LogRecord) (m : σ) : (Run.note r).Returns m () m :=
  fun journal => ⟨r :: journal, rfl⟩

theorem checked {c : Checked α} (h : c = .ok a) (m : σ) :
    (liftM c : Run σ α).Returns m a m := by
  subst h
  exact fun journal => ⟨journal, rfl⟩

/-- A run on a part of the machine leaves the rest of the machine alone. -/
theorem within {get : σ → τ} {put : τ → σ → σ} {x : Run τ α} {t : τ}
    (h : x.Returns (get m) a t) : (Run.within get put x).Returns m a (put t m) := by
  intro journal
  obtain ⟨j, hj⟩ := h journal
  refine ⟨j, ?_⟩
  simp only [Run.within, hj]

theorem ensure {last : Run σ Unit} (hx : x.Returns m a m') (hlast : last.Returns m' () m'') :
    (Run.ensure x last).Returns m a m'' := by
  intro journal
  obtain ⟨j, hj⟩ := hx journal
  obtain ⟨j', hj'⟩ := hlast j
  refine ⟨j', ?_⟩
  simp only [Run.ensure, hj, hj']

end Plain

/-! ## Runs that may fail -/

section Failing

variable {x : ExceptT ε (Run σ) α} {f : α → ExceptT ε (Run σ) β} {m m' m'' : σ} {a : α} {e : ε}
  {r : Except ε β}

theorem ok (a : α) (m : σ) :
    (Pure.pure a : ExceptT ε (Run σ) α).run.Returns m (.ok a) m :=
  Returns.pure (Except.ok a) m

theorem throw (e : ε) (m : σ) :
    (MonadExcept.throw e : ExceptT ε (Run σ) α).run.Returns m (.error e) m :=
  Returns.pure (Except.error e) m

theorem bind_ok (hx : x.run.Returns m (.ok a) m') (hf : (f a).run.Returns m' r m'') :
    (x >>= f).run.Returns m r m'' :=
  bind hx hf

theorem lift {x : Run σ α} (hx : x.Returns m a m') :
    (liftM x : ExceptT ε (Run σ) α).run.Returns m (.ok a) m' :=
  map hx

/-- What succeeds does not care how its errors are worded. -/
theorem adapt_ok {δ : Type} {g : ε → δ} (hx : x.run.Returns m (.ok a) m') :
    (x.adapt g).run.Returns m (.ok a) m' :=
  map hx

end Failing

/-! ## Interfaces on a part of the machine -/

section Mounted

variable {I : Type → Type} {p : Part τ σ} {ops : I τ} {m : σ} {a : α} {t : τ}

theorem mounted {f : I τ → Run τ α} (h : (f ops).Returns (p.get m) a t) :
    ((Mounted.part p ops).run f).Returns m a (p.put t m) :=
  within h

theorem attempted {f : I τ → ExceptT ε (Run τ) α} {r : Except ε α}
    (h : (f ops).run.Returns (p.get m) r t) :
    ((Mounted.part p ops).attempt f).run.Returns m r (p.put t m) :=
  within h

end Mounted

end Returns

/-! ## Runs that may halt -/

section Halting

variable {x : Run σ α} {f : α → Run σ β} {m m' m'' : σ} {a : α} {h : Halt}

theorem Returns.not_halts (hx : x.Returns m a m') : ¬x.Halts m h m'' := by
  intro hhalts
  obtain ⟨_, hok⟩ := hx []
  obtain ⟨_, herror⟩ := hhalts []
  rw [hok] at herror
  cases herror

theorem Halts.bind (hx : x.Halts m h m') : (x >>= f).Halts m h m' := by
  intro journal
  obtain ⟨j, hj⟩ := hx journal
  refine ⟨j, ?_⟩
  show EStateM.bind x f ⟨m, journal⟩ = _
  rw [EStateM.bind, hj]

/-- A run whose effect is known, then the rest. -/
theorem Outcome.after {r : Except Halt β} (hx : x.Returns m a m') (hf : (f a).Outcome m' r m'') :
    (x >>= f).Outcome m r m'' := by
  cases r with
  | ok b => exact Returns.bind hx hf
  | error h =>
    intro journal
    obtain ⟨j, hj⟩ := hx journal
    obtain ⟨j', hj'⟩ := hf j
    refine ⟨j', ?_⟩
    show EStateM.bind x f ⟨m, journal⟩ = _
    rw [EStateM.bind, hj]
    exact hj'

theorem Outcome.map {r : Except Halt α} {g : α → β} (hx : x.Outcome m r m') :
    (g <$> x).Outcome m (r.map g) m' := by
  cases r with
  | ok a => exact Returns.map hx
  | error h =>
    intro journal
    obtain ⟨j, hj⟩ := hx journal
    refine ⟨j, ?_⟩
    show EStateM.map g x ⟨m, journal⟩ = _
    rw [EStateM.map, hj]

end Halting

end CardTap.Run
