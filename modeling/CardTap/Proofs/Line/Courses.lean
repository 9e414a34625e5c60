import CardTap.Proofs.Line.Driven
import CardTap.Proofs.Run

/-!
# The course of a program on a line with given answers

On a line whose answers are fixed in advance, a program makes certain calls and returns a certain
result unless one of its waits fails; then it returns right behind that wait.  `Plays` tells the
undisturbed course of a program and covers every disturbed one as well: a program that is put
together from others needs no separate proof for each of its waits.
-/

namespace CardTap

/-- The line behind one more call. -/
def Scripted.called (m : Scripted) : Line.Call → Scripted
  | .clockRunning => { m with clocks := m.clocks + 1 }
  | .waitFor _ => { m with waits := m.waits + 1 }
  | .sample => { m with samples := m.samples + 1 }
  | .resetHeld => { m with resets := m.resets + 1 }
  | .startTimer | .drive _ | .release => m

/-- The answers to the waits to come. -/
def Scripted.awaited (m : Scripted) (k : Nat) : Bool := m.answers.reached (m.waits + k)

namespace Line

open Call Run

variable {α β : Type}

/-- The line behind some more calls, oldest first. -/
def Recorded.after (s : Recorded Scripted) (calls : List Call) : Recorded Scripted :=
  ⟨calls.foldl Scripted.called s.machine, calls.reverse ++ s.calls⟩

/-- A course of calls that ends in `r`, as it comes when the waits are answered so: whole, or up to
the first wait that fails. -/
inductive Cut (reached : Nat → Bool) (course : List Call) (r : Except LinkError α) :
    List Call → Except LinkError α → Prop
  | whole (hreached : ∀ k < waits course, reached k = true) : Cut reached course r course r
  | stalled {before rest : List Call} (ticks : Nat)
      (hcourse : course = before ++ .waitFor ticks :: rest)
      (hreached : ∀ k < waits before, reached k = true)
      (hstalled : reached (waits before) = false) :
      Cut reached course r (before ++ [.waitFor ticks]) (.error .clockStopped)

/-- The program takes this course and ends in `r` unless a wait fails. -/
def Plays (x : LinkRun (Recorded Scripted) α) (s : Recorded Scripted) (course : List Call)
    (r : Except LinkError α) : Prop :=
  ∀ calls out, Cut s.machine.awaited course r calls out → x.run.Returns s out (s.after calls)

variable {s : Recorded Scripted} {reached : Nat → Bool} {course course' : List Call}

/-! ## Counting -/

section Counting

theorem waits_append (calls later : List Call) :
    waits (calls ++ later) = waits calls + waits later :=
  List.countP_append

theorem Recorded.after_append (s : Recorded Scripted) (calls later : List Call) :
    s.after (calls ++ later) = (s.after calls).after later := by
  simp only [after, List.foldl_append, List.reverse_append, List.append_assoc]

theorem called_answers (m : Scripted) (c : Call) : (m.called c).answers = m.answers := by
  cases c <;> rfl

theorem Recorded.after_cons (s : Recorded Scripted) (c : Call) (calls : List Call) :
    s.after (c :: calls) = (s.after [c]).after calls :=
  s.after_append [c] calls

@[simp]
theorem Recorded.after_answers (s : Recorded Scripted) (calls : List Call) :
    (s.after calls).machine.answers = s.machine.answers := by
  induction calls generalizing s with
  | nil => rfl
  | cons c calls ih => rw [after_cons, ih]; exact called_answers s.machine c

theorem Recorded.after_counts {counter : Scripted → Nat} {kind : Call → Bool}
    (hstep : ∀ m c, counter (m.called c) = counter m + if kind c then 1 else 0)
    (s : Recorded Scripted) (calls : List Call) :
    counter (s.after calls).machine = counter s.machine + calls.countP kind := by
  induction calls generalizing s with
  | nil => rfl
  | cons c calls ih =>
    have hfirst : counter (s.after [c]).machine = counter s.machine + if kind c then 1 else 0 :=
      hstep s.machine c
    rw [after_cons, ih, hfirst, List.countP_cons]
    omega

theorem Recorded.after_waits (s : Recorded Scripted) (calls : List Call) :
    (s.after calls).machine.waits = s.machine.waits + waits calls :=
  after_counts (by rintro m (_ | _) <;> rfl) s calls

theorem Recorded.after_awaited (s : Recorded Scripted) (calls : List Call) :
    (s.after calls).machine.awaited = fun k => s.machine.awaited (waits calls + k) := by
  funext k
  rw [Scripted.awaited, Scripted.awaited, after_answers, after_waits, Nat.add_assoc]

theorem Recorded.after_samples (s : Recorded Scripted) (calls : List Call) :
    (s.after calls).machine.samples = s.machine.samples + calls.count .sample :=
  after_counts (by rintro m (_ | _) <;> rfl) s calls

theorem Recorded.after_clocks (s : Recorded Scripted) (calls : List Call) :
    (s.after calls).machine.clocks = s.machine.clocks + calls.count .clockRunning :=
  after_counts (by rintro m (_ | _) <;> rfl) s calls

theorem Recorded.after_resets (s : Recorded Scripted) (calls : List Call) :
    (s.after calls).machine.resets = s.machine.resets + calls.count .resetHeld :=
  after_counts (by rintro m (_ | _) <;> rfl) s calls

end Counting

/-! ## Cuts -/

section Cuts

variable {r out : Except LinkError α} {calls : List Call}

theorem waits_waitFor (before rest : List Call) (ticks : Nat) :
    waits (before ++ .waitFor ticks :: rest) = waits before + (waits rest + 1) := by
  rw [waits_append]
  exact congrArg _ (List.countP_cons_of_pos rfl)

theorem Cut.eq_of_reached (h : Cut reached course r calls out)
    (hall : ∀ k < waits course, reached k = true) : calls = course ∧ out = r := by
  cases h with
  | whole => exact ⟨rfl, rfl⟩
  | stalled ticks hcourse _ hstalled =>
    rw [hcourse, waits_waitFor] at hall
    exact absurd (hall _ (by omega)) (Bool.eq_false_iff.1 hstalled)

theorem Cut.eq_of_waits (h : Cut reached course r calls out) (hnone : waits course = 0) :
    calls = course ∧ out = r :=
  h.eq_of_reached fun k hk => absurd hk (hnone ▸ Nat.not_lt_zero k)

theorem Cut.begins (h : Cut reached course r calls out) : calls <+: course := by
  cases h with
  | whole => exact List.prefix_refl _
  | @stalled before rest ticks hcourse =>
    exact ⟨rest, by rw [hcourse, List.append_assoc, List.singleton_append]⟩

theorem exists_waitFor {k : Nat} (hk : k < waits calls) :
    ∃ before ticks rest, calls = before ++ .waitFor ticks :: rest ∧ waits before = k := by
  induction calls generalizing k with
  | nil => exact absurd hk (Nat.not_lt_zero k)
  | cons c calls ih =>
    by_cases hwait : c.isWait
    case neg =>
      rw [waits, List.countP_cons_of_neg hwait] at hk
      obtain ⟨before, ticks, rest, rfl, hbefore⟩ := ih hk
      exact ⟨c :: before, ticks, rest, rfl, (List.countP_cons_of_neg hwait).trans hbefore⟩
    obtain ⟨ticks, rfl⟩ : ∃ ticks, c = .waitFor ticks := by
      cases c with
      | waitFor ticks => exact ⟨ticks, rfl⟩
      | _ => exact absurd hwait Bool.false_ne_true
    cases k with
    | zero => exact ⟨[], ticks, calls, rfl, rfl⟩
    | succ k =>
      rw [waits, List.countP_cons_of_pos rfl] at hk
      obtain ⟨before, ticks', rest, rfl, rfl⟩ := ih (Nat.lt_of_succ_lt_succ hk)
      exact ⟨.waitFor ticks :: before, ticks', rest, rfl, List.countP_cons_of_pos rfl⟩

theorem all_or_first (p : Nat → Prop) (n : Nat) :
    (∀ k < n, p k) ∨ ∃ k < n, ¬p k ∧ ∀ j < k, p j := by
  induction n with
  | zero => exact .inl fun k hk => absurd hk (Nat.not_lt_zero k)
  | succ n ih =>
    rcases ih with hall | ⟨k, hk, hfails, hfirst⟩
    · by_cases hn : p n
      · refine .inl fun k hk => ?_
        rcases Nat.lt_or_eq_of_le (Nat.le_of_lt_succ hk) with hlt | rfl
        · exact hall k hlt
        · exact hn
      · exact .inr ⟨n, Nat.lt_succ_self n, hn, hall⟩
    · exact .inr ⟨k, Nat.lt_succ_of_lt hk, hfails, hfirst⟩

theorem exists_cut (reached : Nat → Bool) (course : List Call) (r : Except LinkError α) :
    ∃ calls out, Cut reached course r calls out := by
  rcases all_or_first (fun k => reached k = true) (waits course) with
    hall | ⟨k, hk, hfails, hfirst⟩
  · exact ⟨course, r, .whole hall⟩
  · obtain ⟨before, ticks, rest, hcourse, rfl⟩ := exists_waitFor hk
    exact ⟨_, _, .stalled ticks hcourse hfirst (Bool.not_eq_true _ ▸ hfails)⟩

/-- Two courses in a row are cut in the first or in the second. -/
theorem Cut.of_append (h : Cut reached (course ++ course') r calls out) :
    (∃ later, calls = course ++ later ∧ (∀ k < waits course, reached k = true) ∧
        Cut (fun k => reached (waits course + k)) course' r later out) ∨
      out = .error .clockStopped ∧
        ∀ {γ : Type} (r' : Except LinkError γ),
          Cut reached course r' calls (.error .clockStopped) := by
  have hwaits := waits_append course course'
  cases h with
  | whole hreached =>
    exact .inl ⟨course', rfl, fun k hk => hreached k (by omega),
      .whole fun k hk => hreached _ (by omega)⟩
  | @stalled before rest ticks hcourse hreached hstalled =>
    -- the wait that fails is one of the second course unless the first one goes on behind it
    have hsecond (u : List Call) (hbefore : before = course ++ u)
        (hrest : course' = u ++ .waitFor ticks :: rest) :
        ∃ later, before ++ [.waitFor ticks] = course ++ later ∧
          (∀ k < waits course, reached k = true) ∧
          Cut (fun k => reached (waits course + k)) course' r later
            (.error .clockStopped : Except LinkError α) := by
      subst hbefore
      rw [waits_append] at hreached hstalled
      exact ⟨u ++ [.waitFor ticks], List.append_assoc _ _ _, fun k hk => hreached k (by omega),
        .stalled ticks hrest (fun k hk => hreached _ (by omega)) hstalled⟩
    obtain ⟨u, hbefore, hrest⟩ | ⟨u, hfirst, hrest⟩ := List.append_eq_append_iff.1 hcourse
    · exact .inl (hsecond u hbefore hrest)
    · cases u with
      | nil => exact .inl (hsecond [] (by simpa using hfirst.symm) hrest.symm)
      | cons c u =>
        obtain ⟨rfl, -⟩ := List.cons.inj hrest
        exact .inr ⟨rfl, fun r' => .stalled ticks hfirst hreached hstalled⟩

end Cuts

/-! ## The courses of programs -/

section Programs

variable {x : LinkRun (Recorded Scripted) α} {f : α → LinkRun (Recorded Scripted) β} {a : α}
  {r : Except LinkError β}

theorem Plays.of_returns {out : Except LinkError α} (h : x.run.Returns s out s) :
    Plays x s [] out := by
  intro calls out' hcut
  obtain ⟨rfl, rfl⟩ := hcut.eq_of_waits rfl
  exact h

theorem Plays.ok (a : α) : Plays (pure a) s [] (.ok a) := of_returns (Returns.ok a s)

theorem Plays.throw (e : LinkError) :
    Plays (MonadExcept.throw e : LinkRun (Recorded Scripted) α) s [] (.error e) :=
  of_returns (Returns.throw e s)

theorem Plays.lift {y : Run (Recorded Scripted) α} (h : y.Returns s a s) :
    Plays (liftM y) s [] (.ok a) :=
  of_returns (Returns.lift h)

/-- The first program takes its course, then the rest takes its own. -/
theorem Plays.bind (hx : Plays x s course (.ok a)) (hf : Plays (f a) (s.after course) course' r) :
    Plays (x >>= f) s (course ++ course') r := by
  intro calls out hcut
  obtain ⟨later, rfl, hreached, hcut'⟩ | ⟨rfl, hcut'⟩ := hcut.of_append
  · rw [← s.after_awaited] at hcut'
    rw [s.after_append]
    exact Returns.bind_ok (hx course _ (.whole hreached)) (hf later out hcut')
  · exact Returns.bind (hx calls _ (hcut' _)) (Returns.pure _ _)

theorem Plays.bind_error {e : LinkError} (hx : Plays x s course (.error e)) :
    Plays (x >>= f) s course (.error e) := by
  intro calls out hcut
  -- cut or not, it ends in an error
  have hfails : ∃ e', out = .error e' ∧
      Cut s.machine.awaited course (.error e : Except LinkError α) calls (.error e') := by
    cases hcut with
    | whole hreached => exact ⟨e, rfl, .whole hreached⟩
    | stalled ticks hcourse hreached hstalled =>
      exact ⟨_, rfl, .stalled ticks hcourse hreached hstalled⟩
  obtain ⟨e', rfl, hcut'⟩ := hfails
  exact Returns.bind (hx calls _ hcut') (Returns.pure _ _)

theorem Plays.returns {out : Except LinkError α} (h : Plays x s course out)
    (hnone : waits course = 0) : x.run.Returns s out (s.after course) :=
  h course out (.whole fun k hk => absurd hk (hnone ▸ Nat.not_lt_zero k))

/-! ### Single calls -/

theorem call_returns {c : Call} {body : Run Scripted α}
    (h : body.Returns s.machine a (s.machine.called c)) :
    (Recorded.call c body).Returns s a (s.after [c]) :=
  Returns.bind (Returns.change _ s) (Returns.within h)

theorem Plays.call {c : Call} {body : Run Scripted α} (hc : waits [c] = 0)
    (h : body.Returns s.machine a (s.machine.called c)) :
    Plays (liftM (Recorded.call c body)) s [c] (.ok a) := by
  intro calls out hcut
  obtain ⟨rfl, rfl⟩ := hcut.eq_of_waits hc
  exact Returns.lift (call_returns h)

theorem Plays.clockRunning : Plays (liftM Scripted.line.recorded.clockRunning) s [.clockRunning]
    (.ok (s.machine.answers.clockRunning s.machine.clocks)) :=
  call rfl (Returns.step
    (fun m : Scripted => (m.answers.clockRunning m.clocks, m.called .clockRunning)) s.machine)

theorem Plays.resetHeld : Plays (liftM Scripted.line.recorded.resetHeld) s [.resetHeld]
    (.ok (s.machine.answers.resetHeld s.machine.resets)) :=
  call rfl (Returns.step
    (fun m : Scripted => (m.answers.resetHeld m.resets, m.called .resetHeld)) s.machine)

theorem Plays.sample : Plays (liftM Scripted.line.recorded.sample) s [.sample]
    (.ok (s.machine.answers.sample s.machine.samples)) :=
  call rfl (Returns.step
    (fun m : Scripted => (m.answers.sample m.samples, m.called .sample)) s.machine)

theorem Plays.startTimer :
    Plays (liftM Scripted.line.recorded.startTimer) s [.startTimer] (.ok ()) :=
  call rfl (Returns.pure _ _)

theorem Plays.drive (level : Level) :
    Plays (liftM (Scripted.line.recorded.drive level)) s [.drive level] (.ok ()) :=
  call rfl (Returns.pure _ _)

theorem Plays.release : Plays (liftM Scripted.line.recorded.release) s [.release] (.ok ()) :=
  call rfl (Returns.pure _ _)

theorem Plays.waitAt {e : Etu} (n extra : Nat) (hroom : e.ticks * n + extra < Width.bits32.size) :
    Plays ((Link.mk Scripted.line.recorded e).waitAt n extra) s [.waitFor (e.ticks * n + extra)]
      (.ok ()) := by
  have hetus : e.etus n = .ok (e.ticks * n) := Word.mul_ok (Nat.lt_of_le_of_lt (by omega) hroom)
  have hwait : (Scripted.line.recorded.waitFor (e.ticks * n + extra)).Returns s
      (s.machine.answers.reached s.machine.waits) (s.after [.waitFor (e.ticks * n + extra)]) :=
    call_returns (Returns.step (fun m : Scripted =>
      (m.answers.reached m.waits, m.called (.waitFor (e.ticks * n + extra)))) s.machine)
  intro calls out hcut
  refine Returns.bind_ok (Returns.lift (Returns.checked hetus s)) ?_
  refine Returns.bind_ok (Returns.lift (Returns.checked (Word.add_ok hroom) s)) ?_
  cases hcut with
  | whole hreached =>
    have htrue : s.machine.answers.reached s.machine.waits = true := hreached 0 Nat.one_pos
    rw [htrue] at hwait
    exact Returns.bind_ok (Returns.lift hwait) (Returns.ok _ _)
  | @stalled before rest ticks hcourse _ hstalled =>
    cases before with
    | nil =>
      obtain rfl := Call.waitFor.inj (List.cons.inj hcourse).1
      have hfalse : s.machine.answers.reached s.machine.waits = false := hstalled
      rw [hfalse] at hwait
      exact Returns.bind_ok (Returns.lift hwait) (Returns.throw _ _)
    | cons c before => simp at hcourse

end Programs

end Line

end CardTap
