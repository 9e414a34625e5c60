import CardTap.Line.Link

/-!
# The calls of a run

What a program does to its line is told by the calls it makes, whatever the line answers to them.
`Traces` speaks of a run on a line that records its calls: what the run returns and the calls made
until then satisfy a condition.  Nothing is said of a run that halts, on a fault in the arithmetic
or in a wait without an end.
-/

namespace CardTap

/-! ## Checked words -/

namespace Word

variable {w : Width} {a b r : Nat}

theorem eq_add_of_ok (h : add w a b = .ok r) : r = a + b := by
  unfold add at h
  split at h
  · exact (Except.ok.inj h).symm
  · exact nomatch h

theorem eq_mul_of_ok (h : mul w a b = .ok r) : r = a * b := by
  unfold mul at h
  split at h
  · exact (Except.ok.inj h).symm
  · exact nomatch h

end Word

namespace Line

variable {σ α β ε : Type}

/-- Started on any machine behind some earlier calls, newest first, whatever the run returns and the
calls made until then satisfy the condition. -/
def Traces (x : Run (Recorded σ) α) (calls : List Call) (Q : α → List Call → Prop) : Prop :=
  ∀ m journal a s, x ⟨⟨m, calls⟩, journal⟩ = .ok a s → Q a s.machine.calls

/-- What a run returns and the calls it has made, unless it halts. -/
def trace (x : Run (Recorded σ) α) (m : σ) : Option (α × List Call) :=
  match x ⟨⟨m, []⟩, []⟩ with
  | .ok a s => some (a, s.machine.calls)
  | .error _ _ => none

namespace Traces

section Plain

variable {x : Run (Recorded σ) α} {f : α → Run (Recorded σ) β} {calls : List Call}
  {Q R : α → List Call → Prop} {S : β → List Call → Prop}

theorem of_trace {m : σ} {a : α} (h : Traces x [] Q) (hrun : trace x m = some (a, calls)) :
    Q a calls := by
  unfold trace at hrun
  split at hrun
  · next b s hs =>
    obtain ⟨rfl, rfl⟩ := Prod.mk.inj (Option.some.inj hrun)
    exact h m [] b s hs
  · cases hrun

theorem mono (h : Traces x calls R) (hRQ : ∀ a calls', R a calls' → Q a calls') :
    Traces x calls Q :=
  fun m journal a s hrun => hRQ a _ (h m journal a s hrun)

theorem pure {a : α} (h : Q a calls) : Traces (Pure.pure a : Run (Recorded σ) α) calls Q := by
  intro m journal b s hrun
  cases hrun
  exact h

theorem halt (h : Halt) : Traces (Run.halt h : Run (Recorded σ) α) calls Q := by
  intro m journal a s hrun
  cases hrun

theorem note (r : LogRecord) {Q : Unit → List Call → Prop} (h : Q () calls) :
    Traces (Run.note r : Run (Recorded σ) Unit) calls Q := by
  intro m journal a s hrun
  cases hrun
  exact h

theorem read (g : Recorded σ → α) (h : ∀ a, Q a calls) : Traces (Run.read g) calls Q := by
  intro m journal a s hrun
  cases hrun
  exact h _

theorem checked {c : Checked α} (h : ∀ a, c = .ok a → Q a calls) :
    Traces (liftM c : Run (Recorded σ) α) calls Q := by
  intro m journal a s hrun
  cases c with
  | ok b =>
    cases hrun
    exact h a rfl
  | error f => cases hrun

theorem bind (hx : Traces x calls R) (hf : ∀ a calls', R a calls' → Traces (f a) calls' S) :
    Traces (x >>= f) calls S := by
  intro m journal b s hrun
  change EStateM.bind x f ⟨⟨m, calls⟩, journal⟩ = .ok b s at hrun
  rw [EStateM.bind] at hrun
  cases hfirst : x ⟨⟨m, calls⟩, journal⟩ with
  | ok a s' =>
    rw [hfirst] at hrun
    exact hf a _ (hx m journal a s' hfirst) s'.machine.machine s'.journal b s hrun
  | error h s' =>
    rw [hfirst] at hrun
    cases hrun

theorem change {g : Recorded σ → Recorded σ} {Q : Unit → List Call → Prop}
    (h : ∀ m, Q () (g ⟨m, calls⟩).calls) : Traces (Run.change g) calls Q := by
  intro m journal a s hrun
  cases hrun
  exact h m

theorem within {body : Run σ α} (h : ∀ a, Q a calls) :
    Traces (Run.within Recorded.part.get Recorded.part.put body) calls Q := by
  intro m journal a s hrun
  rw [Run.within] at hrun
  split at hrun
  · cases hrun
    exact h a
  · cases hrun

/-- A call is recorded, whatever the line does with it. -/
theorem call {c : Call} {body : Run σ α} (h : ∀ a, Q a (c :: calls)) :
    Traces (Recorded.call c body) calls Q := by
  refine bind (R := fun _ calls' => calls' = c :: calls) (change fun _ => rfl) ?_
  rintro - _ rfl
  exact within h

end Plain

/-! ## Runs that may fail -/

section Failing

variable {x : ExceptT ε (Run (Recorded σ)) α} {f : α → ExceptT ε (Run (Recorded σ)) β}
  {calls : List Call} {R : Except ε α → List Call → Prop} {S : Except ε β → List Call → Prop}

theorem ok {a : α} (h : R (.ok a) calls) :
    Traces (Pure.pure a : ExceptT ε (Run (Recorded σ)) α).run calls R :=
  pure h

theorem throw {e : ε} (h : R (.error e) calls) :
    Traces (MonadExcept.throw e : ExceptT ε (Run (Recorded σ)) α).run calls R :=
  pure h

/-- Either the first run succeeds and the rest follows, or its error is that of the whole. -/
theorem bind_ok (hx : Traces x.run calls R)
    (hok : ∀ a calls', R (.ok a) calls' → Traces (f a).run calls' S)
    (herror : ∀ e calls', R (.error e) calls' → S (.error e) calls') :
    Traces (x >>= f).run calls S := by
  refine bind hx fun r calls' hr => ?_
  cases r with
  | ok a => exact hok a calls' hr
  | error e => exact pure (herror e calls' hr)

theorem lift {x : Run (Recorded σ) α} (hx : Traces x calls fun a => R (.ok a)) :
    Traces (liftM x : ExceptT ε (Run (Recorded σ)) α).run calls R :=
  bind hx fun _ _ hr => pure hr

/-- A run that cannot fail, then the rest. -/
theorem bind_lift {x : Run (Recorded σ) α} {Q : α → List Call → Prop} (hx : Traces x calls Q)
    (hok : ∀ a calls', Q a calls' → Traces (f a).run calls' S) :
    Traces ((liftM x : ExceptT ε (Run (Recorded σ)) α) >>= f).run calls S := by
  refine bind_ok (R := fun r calls' => ∃ a, r = .ok a ∧ Q a calls') ?_ ?_ ?_
  · exact lift (hx.mono fun a calls' ha => ⟨a, rfl, ha⟩)
  · rintro a calls' ⟨b, hb, hQ⟩
    obtain rfl := Except.ok.inj hb
    exact hok a calls' hQ
  · rintro e calls' ⟨b, hb, -⟩
    cases hb

/-- Checked arithmetic, then the rest. -/
theorem bind_checked {c : Checked α} (hok : ∀ a, c = .ok a → Traces (f a).run calls S) :
    Traces ((liftM (liftM c : Run (Recorded σ) α) : ExceptT ε (Run (Recorded σ)) α) >>= f).run calls
      S := by
  refine bind_lift (Q := fun a calls' => c = .ok a ∧ calls' = calls) ?_ ?_
  · exact checked fun a h => ⟨h, rfl⟩
  · rintro a _ ⟨h, rfl⟩
    exact hok a h

/-- A log record is no call. -/
theorem bind_note {r : LogRecord} {f : Unit → ExceptT ε (Run (Recorded σ)) β}
    (hok : Traces (f ()).run calls S) :
    Traces ((liftM (Run.note r : Run (Recorded σ) Unit) : ExceptT ε (Run (Recorded σ)) Unit) >>=
      f).run calls S := by
  refine bind_lift (Q := fun _ calls' => calls' = calls) (note r rfl) ?_
  rintro - _ rfl
  exact hok

/-- A call, then the rest. -/
theorem bind_call {c : Call} {body : Run σ α} (hok : ∀ a, Traces (f a).run (c :: calls) S) :
    Traces ((liftM (Recorded.call c body) : ExceptT ε (Run (Recorded σ)) α) >>= f).run calls S := by
  refine bind_lift (Q := fun _ calls' => calls' = c :: calls) (call fun _ => rfl) ?_
  rintro a calls' rfl
  exact hok a

end Failing

/-! ## Waiting -/

section Waiting

variable {l : Line σ} {e : Etu} {n extra : Nat} {calls : List Call}

/-- A wait makes one call, for the ticks that it names, and succeeds or finds the clock stopped. -/
theorem waitAt {Q : Except LinkError Unit → List Call → Prop}
    (hok : Q (.ok ()) (.waitFor (e.ticks * n + extra) :: calls))
    (herror : Q (.error .clockStopped) (.waitFor (e.ticks * n + extra) :: calls)) :
    Traces ((Link.mk l.recorded e).waitAt n extra).run calls Q := by
  refine bind_checked fun etus hetus => ?_
  obtain rfl := Word.eq_mul_of_ok hetus
  refine bind_checked fun ticks hticks => ?_
  obtain rfl := Word.eq_add_of_ok hticks
  refine bind_call fun reached => ?_
  cases reached with
  | true => exact ok hok
  | false => exact throw herror

/-- A wait, then the rest. -/
theorem bind_waitAt {f : Unit → LinkRun (Recorded σ) β} {S : Except LinkError β → List Call → Prop}
    (hok : Traces (f ()).run (.waitFor (e.ticks * n + extra) :: calls) S)
    (herror : S (.error .clockStopped) (.waitFor (e.ticks * n + extra) :: calls)) :
    Traces ((Link.mk l.recorded e).waitAt n extra >>= f).run calls S := by
  refine bind (R := fun r calls' => (r = .ok () ∨ r = .error .clockStopped) ∧
    calls' = .waitFor (e.ticks * n + extra) :: calls) (waitAt ⟨.inl rfl, rfl⟩ ⟨.inr rfl, rfl⟩) ?_
  rintro r _ ⟨rfl | rfl, rfl⟩
  · exact hok
  · exact pure herror

end Waiting

end Traces

end Line

end CardTap
