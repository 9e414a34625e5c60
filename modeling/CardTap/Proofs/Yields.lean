import CardTap.Proofs.Ends

/-!
# What a run yields, if it returns

Some properties are about what a run never returns, on a machine of which nothing is known: the run
may well halt there.  `Yields` is the partial companion of `Ends`: nothing is said of a run that
halts.
-/

namespace CardTap.Run

variable {σ τ α β ε : Type}

/-- Started on `m`, the run returns nothing but values and machines that satisfy the condition. -/
def Yields (x : Run σ α) (m : σ) (Q : α → σ → Prop) : Prop :=
  ∀ journal a s, x ⟨m, journal⟩ = .ok a s → Q a s.machine

/-- A run that is known to return yields that. -/
theorem Ends.yields {x : Run σ α} {m : σ} {Q : α → σ → Prop} (h : x.Ends m Q) : x.Yields m Q := by
  intro journal a s hrun
  obtain ⟨b, m', hreturns, hQ⟩ := h
  obtain ⟨journal', hrun'⟩ := hreturns journal
  cases hrun.symm.trans hrun'
  exact hQ

namespace Yields

section Plain

variable {x : Run σ α} {f : α → Run σ β} {m : σ} {Q R : α → σ → Prop} {S : β → σ → Prop}

theorem mono (h : x.Yields m R) (hRQ : ∀ a m', R a m' → Q a m') : x.Yields m Q :=
  fun journal a s hrun => hRQ a _ (h journal a s hrun)

theorem pure {a : α} (h : Q a m) : (Pure.pure a : Run σ α).Yields m Q := by
  intro journal b s hrun
  cases hrun
  exact h

theorem bind (hx : x.Yields m R) (hf : ∀ a m', R a m' → (f a).Yields m' S) :
    (x >>= f).Yields m S := by
  intro journal b s hrun
  change EStateM.bind x f ⟨m, journal⟩ = .ok b s at hrun
  rw [EStateM.bind] at hrun
  cases hfirst : x ⟨m, journal⟩ with
  | ok a s' =>
    rw [hfirst] at hrun
    exact hf a _ (hx journal a s' hfirst) s'.journal b s hrun
  | error h s' =>
    rw [hfirst] at hrun
    cases hrun

theorem halt (h : Halt) : (Run.halt h : Run σ α).Yields m Q := by
  intro journal a s hrun
  cases hrun

/-- Whatever a run on a part of the machine does, the rest of the machine is left alone. -/
theorem within {get : σ → τ} {put : τ → σ → σ} (x : Run τ α) (h : ∀ a t, Q a (put t m)) :
    (Run.within get put x).Yields m Q := by
  intro journal a s hrun
  rw [Run.within] at hrun
  split at hrun
  · cases hrun
    exact h a _
  · cases hrun

end Plain

/-! ## Runs that may fail -/

section Failing

variable {x : ExceptT ε (Run σ) α} {f : α → ExceptT ε (Run σ) β} {m : σ}
  {R : Except ε α → σ → Prop} {S : Except ε β → σ → Prop}

theorem ok {a : α} (h : R (.ok a) m) : (Pure.pure a : ExceptT ε (Run σ) α).run.Yields m R :=
  pure h

theorem throw {e : ε} (h : R (.error e) m) :
    (MonadExcept.throw e : ExceptT ε (Run σ) α).run.Yields m R :=
  pure h

theorem lift {x : Run σ α} (hx : x.Yields m fun a => R (.ok a)) :
    (liftM x : ExceptT ε (Run σ) α).run.Yields m R :=
  bind hx fun _ _ hR => pure hR

/-- Either the first run succeeds and the rest follows, or its error is that of the whole. -/
theorem bind_ok (hx : x.run.Yields m R) (hok : ∀ a m', R (.ok a) m' → (f a).run.Yields m' S)
    (herror : ∀ e m', R (.error e) m' → S (.error e) m') : (x >>= f).run.Yields m S := by
  refine bind hx fun r m' hr => ?_
  cases r with
  | ok a => exact hok a m' hr
  | error e => exact pure (herror e m' hr)

/-- A run whose effect is known, then the rest. -/
theorem after_ok {a : α} {m' : σ} (hx : x.run.Returns m (.ok a) m') (hf : (f a).run.Yields m' S) :
    (x >>= f).run.Yields m S := by
  refine bind (R := fun r m'' => r = .ok a ∧ m'' = m') (hx.ends ⟨rfl, rfl⟩).yields ?_
  rintro _ _ ⟨rfl, rfl⟩
  exact hf

end Failing

end Yields

end CardTap.Run
