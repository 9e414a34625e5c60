import CardTap.Proofs.Run

/-!
# What a run comes to

`Returns` names the value and the machine that a run ends with.  Where the exact machine is of no
interest, or depends on how a step in the middle failed, `Ends` says that the run returns at all and
that what it returns satisfies a condition.  It is total: a run that halts ends in nothing.
-/

namespace CardTap.Run

variable {σ τ α β ε δ : Type}

/-- Started on `m`, the run returns, with a value and a machine that satisfy the condition. -/
def Ends (x : Run σ α) (m : σ) (Q : α → σ → Prop) : Prop := ∃ a m', x.Returns m a m' ∧ Q a m'

theorem Returns.ends {x : Run σ α} {m m' : σ} {a : α} {Q : α → σ → Prop} (h : x.Returns m a m')
    (hQ : Q a m') : x.Ends m Q :=
  ⟨a, m', h, hQ⟩

/-- The error that a run ends in, if it does. -/
def failure? (x : ExceptT ε (Run σ) α) (m : σ) : Option ε :=
  match x.run ⟨m, []⟩ with
  | .ok (.error e) _ => some e
  | .ok (.ok _) _ => none
  | .error _ _ => none

theorem Returns.of_failure? {x : ExceptT ε (Run σ) α} {m m' : σ} {r : Except ε α} {e : ε}
    (h : x.run.Returns m r m') (hfailure : failure? x m = some e) : r = .error e := by
  obtain ⟨journal, hrun⟩ := h []
  rw [failure?, hrun] at hfailure
  cases r with
  | ok a => cases hfailure
  | error e' => exact congrArg _ (Option.some.inj hfailure)

namespace Ends

section Plain

variable {x : Run σ α} {f : α → Run σ β} {m : σ} {Q R : α → σ → Prop} {S : β → σ → Prop}

theorem mono (h : x.Ends m R) (hRQ : ∀ a m', R a m' → Q a m') : x.Ends m Q := by
  obtain ⟨a, m', hrun, hR⟩ := h
  exact ⟨a, m', hrun, hRQ a m' hR⟩

theorem bind (hx : x.Ends m R) (hf : ∀ a m', R a m' → (f a).Ends m' S) : (x >>= f).Ends m S := by
  obtain ⟨a, m', hrun, hR⟩ := hx
  obtain ⟨b, m'', hrest, hS⟩ := hf a m' hR
  exact ⟨b, m'', Returns.bind hrun hrest, hS⟩

theorem pure {a : α} (h : Q a m) : (Pure.pure a : Run σ α).Ends m Q := (Returns.pure a m).ends h

/-- A run whose effect is known, then the rest. -/
theorem after {a : α} {m' : σ} (hx : x.Returns m a m') (hf : (f a).Ends m' S) :
    (x >>= f).Ends m S := by
  obtain ⟨b, m'', hrest, hS⟩ := hf
  exact ⟨b, m'', Returns.bind hx hrest, hS⟩

/-- A run on a part of the machine. -/
theorem within {get : σ → τ} {put : τ → σ → σ} {x : Run τ α}
    (h : x.Ends (get m) fun a t => Q a (put t m)) : (Run.within get put x).Ends m Q := by
  obtain ⟨a, t, hrun, hQ⟩ := h
  exact ⟨a, put t m, Returns.within hrun, hQ⟩

/-- A run and what is done behind it in any case. -/
theorem ensure {last : Run σ Unit}
    (h : x.Ends m fun a m' => last.Ends m' fun _ m'' => Q a m'') :
    (Run.ensure x last).Ends m Q := by
  obtain ⟨a, m', hrun, _, m'', hlast, hQ⟩ := h
  exact ⟨a, m'', Returns.ensure hrun hlast, hQ⟩

end Plain

/-! ## Runs that may fail -/

section Failing

variable {x : ExceptT ε (Run σ) α} {f : α → ExceptT ε (Run σ) β} {m : σ}
  {R : Except ε α → σ → Prop} {S : Except ε β → σ → Prop}

theorem ok {a : α} (h : R (.ok a) m) : (Pure.pure a : ExceptT ε (Run σ) α).run.Ends m R :=
  (Returns.ok a m).ends h

theorem throw {e : ε} (h : R (.error e) m) :
    (MonadExcept.throw e : ExceptT ε (Run σ) α).run.Ends m R :=
  (Returns.throw e m).ends h

/-- Either the first run succeeds and the rest follows, or its error is that of the whole. -/
theorem bind_ok (hx : x.run.Ends m R)
    (hok : ∀ a m', R (.ok a) m' → (f a).run.Ends m' S)
    (herror : ∀ e m', R (.error e) m' → S (.error e) m') : (x >>= f).run.Ends m S := by
  obtain ⟨r, m', hrun, hR⟩ := hx
  cases r with
  | ok a =>
    obtain ⟨b, m'', hrest, hS⟩ := hok a m' hR
    exact ⟨b, m'', Returns.bind_ok hrun hrest, hS⟩
  | error e => exact ⟨.error e, m', Returns.bind hrun (Returns.pure _ m'), herror e m' hR⟩

theorem after_ok {a : α} {m' : σ} (hx : x.run.Returns m (.ok a) m') (hf : (f a).run.Ends m' S) :
    (x >>= f).run.Ends m S := by
  obtain ⟨b, m'', hrest, hS⟩ := hf
  exact ⟨b, m'', Returns.bind_ok hx hrest, hS⟩

theorem after_error {e : ε} {m' : σ} (hx : x.run.Returns m (.error e) m') (h : S (.error e) m') :
    (x >>= f).run.Ends m S :=
  ⟨.error e, m', Returns.bind hx (Returns.pure _ m'), h⟩

theorem lift {x : Run σ α} (hx : x.Ends m fun a => R (.ok a)) :
    (liftM x : ExceptT ε (Run σ) α).run.Ends m R := by
  obtain ⟨a, m', hrun, hR⟩ := hx
  exact ⟨.ok a, m', Returns.lift hrun, hR⟩

/-- The error in other words. -/
theorem adapt {g : ε → δ} {T : Except δ α → σ → Prop}
    (hx : x.run.Ends m fun r => T (r.mapError g)) : (x.adapt g).run.Ends m T := by
  obtain ⟨r, m', hrun, hT⟩ := hx
  exact ⟨r.mapError g, m', Returns.map hrun, hT⟩

end Failing

end Ends

end CardTap.Run
