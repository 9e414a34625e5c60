import CardTap.Proofs.Line.Courses
import CardTap.Proofs.Line.Shared
import CardTap.Proofs.Yields

/-!
# Exactly what a reception does

A reception polls the clock, the reset and the line until one of them ends the wait, and then takes
its samples in the middle of the bit periods.  Whatever a line answers to each of these calls, what
it returns and the calls it makes are told by one course for each way in which a reception can go;
a wait that fails cuts the course short (`reception_exact`).
-/

namespace CardTap

namespace Answers

/-- The first `n` polls find the clock running, the reset released and the line high. -/
def Idle (a : Answers) (n : Nat) : Prop :=
  ∀ k < n, a.clockRunning k = true ∧ a.resetHeld k = false ∧ a.sample k = .high

/-- The poll behind `n` idle ones finds a start bit. -/
structure StartsAt (a : Answers) (n : Nat) : Prop where
  idle : a.Idle n
  clock : a.clockRunning n = true
  reset : a.resetHeld n = false
  low : a.sample n = .low

/-- The answers to `n` samples in a row, the first of them after `earlier` others. -/
def levels (a : Answers) (earlier n : Nat) : Vector Level n :=
  Vector.ofFn fun i => a.sample (earlier + i.val)

end Answers

namespace Line

open Call Run

/-! ## The courses of a reception -/

section Courses

/-- The calls of one poll. -/
def poll : List Call := [.clockRunning, .resetHeld, .sample]

/-- The calls of `n` polls. -/
def polls (n : Nat) : List Call := (List.replicate n poll).flatten

/-- The calls that look for the middle of the start bit. -/
def startBitCalls (e : Etu) : List Call := [.startTimer, .waitFor e.half, .sample]

/-- The calls for the `n` bits behind the start bit. -/
def bitCalls (e : Etu) (n : Nat) : List Call :=
  (List.range n).flatMap fun i => [.waitFor (e.ticks * (i + 1) + e.half), .sample]

/-- The calls of an error signal. -/
def signalCalls (e : Etu) : List Call :=
  [.waitFor (e.ticks * 10 + e.ticks * 46 / 100), .drive .low,
    .waitFor (e.ticks * 10 + (e.ticks * 46 / 100 + e.ticks * 1075 / 1000)), .release]

/-- The calls behind the bits of a character. -/
def endCalls (e : Etu) (intact signal : Bool) : List Call :=
  (if !intact && signal then signalCalls e else []) ++ [.waitFor (e.ticks * 10)]

/-- How a reception goes if no wait fails: the calls it makes and what it returns. -/
inductive Course (a : Answers) (e : Etu) (c : Convention) (maxWait : Nat) (signal : Bool) :
    List Call → Except LinkError Reception → Prop
  | clockStopped (n : Nat) (hidle : a.Idle n) (hpolls : maxWait = 0 ∨ n < maxWait)
      (hclock : a.clockRunning n = false) :
      Course a e c maxWait signal (polls n ++ [.clockRunning]) (.error .clockStopped)
  | resetHeld (n : Nat) (hidle : a.Idle n) (hpolls : maxWait = 0 ∨ n < maxWait)
      (hclock : a.clockRunning n = true) (hreset : a.resetHeld n = true) :
      Course a e c maxWait signal (polls n ++ [.clockRunning, .resetHeld]) (.error .resetHeld)
  | timeout (hlimit : maxWait ≠ 0) (hidle : a.Idle maxWait) :
      Course a e c maxWait signal (polls maxWait) (.error .timeout)
  | falseStart (n : Nat) (hstart : a.StartsAt n) (hpolls : maxWait = 0 ∨ n < maxWait)
      (hhigh : a.sample (n + 1) = .high) :
      Course a e c maxWait signal (polls (n + 1) ++ startBitCalls e) (.error .falseStart)
  | character (n : Nat) (hstart : a.StartsAt n) (hpolls : maxWait = 0 ∨ n < maxWait)
      (hlow : a.sample (n + 1) = .low) (byte : UInt8) (intact : Bool)
      (hdecode : decode (a.levels (n + 2) 9) c = (byte, intact)) :
      Course a e c maxWait signal
        (polls (n + 1) ++ (startBitCalls e ++ (bitCalls e 9 ++ endCalls e intact signal)))
        (.ok ⟨byte, intact⟩)

variable {a : Answers} {e : Etu} {c : Convention} {maxWait : Nat} {signal : Bool}

theorem exists_course_of_poll {n : Nat} (hidle : a.Idle n) (hpolls : maxWait = 0 ∨ n < maxWait)
    (hstop : ¬(a.clockRunning n = true ∧ a.resetHeld n = false ∧ a.sample n = .high)) :
    ∃ course r, Course a e c maxWait signal course r := by
  cases hclock : a.clockRunning n with
  | false => exact ⟨_, _, .clockStopped n hidle hpolls hclock⟩
  | true =>
    cases hreset : a.resetHeld n with
    | true => exact ⟨_, _, .resetHeld n hidle hpolls hclock hreset⟩
    | false =>
      cases hlow : a.sample n with
      | high => exact absurd ⟨hclock, hreset, hlow⟩ hstop
      | low =>
        have hstart : a.StartsAt n := ⟨hidle, hclock, hreset, hlow⟩
        cases hmiddle : a.sample (n + 1) with
        | high => exact ⟨_, _, .falseStart n hstart hpolls hmiddle⟩
        | low => exact ⟨_, _, .character n hstart hpolls hmiddle _ _ rfl⟩

theorem exists_course (h : maxWait ≠ 0 ∨ ∃ n, ¬a.Idle n) :
    ∃ course r, Course a e c maxWait signal course r := by
  have hfirst := all_or_first fun k =>
    a.clockRunning k = true ∧ a.resetHeld k = false ∧ a.sample k = .high
  by_cases hlimit : maxWait = 0
  · obtain ⟨n, hn⟩ := h.resolve_left (not_not_intro hlimit)
    obtain ⟨k, -, hstop, hidle⟩ := (hfirst n).resolve_left hn
    exact exists_course_of_poll hidle (.inl hlimit) hstop
  · obtain hidle | ⟨k, hk, hstop, hidle⟩ := hfirst maxWait
    · exact ⟨_, _, .timeout hlimit hidle⟩
    · exact exists_course_of_poll hidle (.inr hk) hstop

end Courses

/-! ## Polling -/

section Polling

variable {a : Answers} {e : Etu} {patience : Nat}

theorem polls_succ (n : Nat) : polls (n + 1) = polls n ++ poll := by
  rw [polls, List.replicate_succ', List.flatten_append, List.flatten_singleton]
  rfl

theorem countP_polls (p : Call → Bool) (n : Nat) : (polls n).countP p = n * poll.countP p := by
  induction n with
  | zero => exact (Nat.zero_mul _).symm
  | succ n ih => rw [polls_succ, List.countP_append, ih, Nat.succ_mul]

/-- The line behind `n` polls. -/
def polled (a : Answers) (patience n : Nat) : Recorded Scripted :=
  Recorded.after ⟨{ answers := a, patience }, []⟩ (polls n)

theorem polled_answers (n : Nat) : (polled a patience n).machine.answers = a :=
  Recorded.after_answers _ _

theorem polled_clocks (n : Nat) : (polled a patience n).machine.clocks = n := by
  rw [polled, Recorded.after_clocks, List.count, countP_polls, Nat.zero_add]
  exact Nat.mul_one n

theorem polled_resets (n : Nat) : (polled a patience n).machine.resets = n := by
  rw [polled, Recorded.after_resets, List.count, countP_polls, Nat.zero_add]
  exact Nat.mul_one n

theorem polled_samples (n : Nat) : (polled a patience n).machine.samples = n := by
  rw [polled, Recorded.after_samples, List.count, countP_polls, Nat.zero_add]
  exact Nat.mul_one n

theorem polled_succ (n : Nat) : polled a patience (n + 1) = (polled a patience n).after poll := by
  rw [polled, polls_succ, Recorded.after_append]
  rfl

theorem clock_asked (a : Answers) (patience n : Nat) :
    Plays (liftM Scripted.line.recorded.clockRunning) (polled a patience n) [.clockRunning]
      (.ok (a.clockRunning n)) := by
  have h := Plays.clockRunning (s := polled a patience n)
  rwa [polled_answers, polled_clocks] at h

theorem reset_asked (a : Answers) (patience n : Nat) :
    Plays (liftM Scripted.line.recorded.resetHeld) ((polled a patience n).after [.clockRunning])
      [.resetHeld] (.ok (a.resetHeld n)) := by
  have h := Plays.resetHeld (s := (polled a patience n).after [.clockRunning])
  rw [Recorded.after_answers, Recorded.after_resets, polled_answers, polled_resets] at h
  exact h

theorem line_asked (a : Answers) (patience n : Nat) :
    Plays (liftM Scripted.line.recorded.sample)
      ((polled a patience n).after [.clockRunning, .resetHeld]) [.sample]
      (.ok (a.sample n)) := by
  have h := Plays.sample (s := (polled a patience n).after [.clockRunning, .resetHeld])
  rw [Recorded.after_answers, Recorded.after_samples, polled_answers, polled_samples] at h
  exact h

variable {outlasted : LinkRun (Recorded Scripted) Unit} {course : List Call}
  {r : Except LinkError Unit} {n k : Nat}

/-! ### One poll -/

theorem pollStart_clockStopped (hclock : a.clockRunning n = false) :
    Plays ((Link.mk Scripted.line.recorded e).pollStart outlasted (k + 1)) (polled a patience n)
      [.clockRunning] (.error .clockStopped) := by
  have hasked := clock_asked a patience n
  rw [hclock] at hasked
  exact hasked.bind (Plays.throw _)

theorem pollStart_resetHeld (hclock : a.clockRunning n = true) (hreset : a.resetHeld n = true) :
    Plays ((Link.mk Scripted.line.recorded e).pollStart outlasted (k + 1)) (polled a patience n)
      [.clockRunning, .resetHeld] (.error .resetHeld) := by
  have hclock' := clock_asked a patience n
  have hreset' := reset_asked a patience n
  rw [hclock] at hclock'
  rw [hreset] at hreset'
  exact hclock'.bind (hreset'.bind (Plays.throw _))

theorem pollStart_samples (hclock : a.clockRunning n = true) (hreset : a.resetHeld n = false)
    (h : Plays (if (a.sample n).isLow then pure () else
      (Link.mk Scripted.line.recorded e).pollStart outlasted k) (polled a patience (n + 1))
        course r) :
    Plays ((Link.mk Scripted.line.recorded e).pollStart outlasted (k + 1)) (polled a patience n)
      (poll ++ course) r := by
  have hclock' := clock_asked a patience n
  have hreset' := reset_asked a patience n
  rw [hclock] at hclock'
  rw [hreset] at hreset'
  rw [polled_succ] at h
  exact hclock'.bind (hreset'.bind ((line_asked a patience n).bind h))

theorem pollStart_starts (h : a.StartsAt n) :
    Plays ((Link.mk Scripted.line.recorded e).pollStart outlasted (k + 1)) (polled a patience n)
      poll (.ok ()) := by
  have hdone : Plays (pure () : LinkRun (Recorded Scripted) Unit) (polled a patience (n + 1)) []
      (.ok ()) := Plays.ok ()
  refine pollStart_samples h.clock h.reset ?_
  rw [h.low]
  exact hdone

theorem pollStart_idle (h : a.Idle (n + 1))
    (hrest : Plays ((Link.mk Scripted.line.recorded e).pollStart outlasted k)
      (polled a patience (n + 1)) course r) :
    Plays ((Link.mk Scripted.line.recorded e).pollStart outlasted (k + 1)) (polled a patience n)
      (poll ++ course) r := by
  obtain ⟨hclock, hreset, hhigh⟩ := h n (Nat.lt_succ_self n)
  refine pollStart_samples hclock hreset ?_
  rw [hhigh]
  exact hrest

/-! ### Polls in a row -/

theorem pollStart_after (h : a.Idle n)
    (hrest : Plays ((Link.mk Scripted.line.recorded e).pollStart outlasted k)
      (polled a patience n) course r) :
    Plays ((Link.mk Scripted.line.recorded e).pollStart outlasted (n + k)) (polled a patience 0)
      (polls n ++ course) r := by
  induction n generalizing k course with
  | zero => rwa [Nat.zero_add]
  | succ n ih =>
    have hbefore : a.Idle n := fun i hi => h i (Nat.lt_succ_of_lt hi)
    have hall := ih hbefore (pollStart_idle h hrest)
    rwa [← List.append_assoc, ← polls_succ, ← Nat.add_assoc, Nat.add_right_comm] at hall

theorem awaitStartBit_after {maxWait : Nat} (h : a.Idle n) (hpolls : maxWait = 0 ∨ n < maxWait)
    (hpatience : n < patience)
    (hrest : ∀ outlasted k, Plays ((Link.mk Scripted.line.recorded e).pollStart outlasted (k + 1))
      (polled a patience n) course r) :
    Plays ((Link.mk Scripted.line.recorded e).awaitStartBit maxWait) (polled a patience 0)
      (polls n ++ course) r := by
  unfold Link.awaitStartBit
  split
  · have hread : Plays (liftM (Run.read Scripted.line.recorded.patience)) (polled a patience 0) []
        (.ok patience) := Plays.lift (Returns.read _ _)
    obtain ⟨k, rfl⟩ := Nat.exists_eq_add_of_lt hpatience
    exact hread.bind (pollStart_after h (hrest _ k))
  · obtain ⟨k, rfl⟩ := Nat.exists_eq_add_of_lt (hpolls.resolve_left ‹_›)
    exact pollStart_after h (hrest _ k)

theorem awaitStartBit_timeout {maxWait : Nat} (hlimit : maxWait ≠ 0) (h : a.Idle maxWait) :
    Plays ((Link.mk Scripted.line.recorded e).awaitStartBit maxWait) (polled a patience 0)
      (polls maxWait) (.error .timeout) := by
  unfold Link.awaitStartBit
  rw [if_neg hlimit, ← List.append_nil (polls maxWait)]
  exact pollStart_after (k := 0) h (Plays.throw .timeout)

end Polling

/-! ## Samples and the error signal -/

section Samples

variable {s : Recorded Scripted} {e : Etu}

theorem bitCalls_succ (e : Etu) (n : Nat) :
    bitCalls e (n + 1) = bitCalls e n ++ [.waitFor (e.ticks * (n + 1) + e.half), .sample] := by
  rw [bitCalls, List.range_succ, List.flatMap_append, List.flatMap_singleton]
  rfl

theorem countP_bitCalls {p : Call → Bool} {k : Nat}
    (hp : ∀ ticks, [Call.waitFor ticks, .sample].countP p = k) (e : Etu) (n : Nat) :
    (bitCalls e n).countP p = n * k := by
  induction n with
  | zero => exact (Nat.zero_mul k).symm
  | succ n ih => rw [bitCalls_succ, List.countP_append, ih, hp, Nat.succ_mul]

theorem count_bitCalls (e : Etu) (n : Nat) : (bitCalls e n).count .sample = n :=
  (countP_bitCalls (fun _ => rfl) e n).trans (Nat.mul_one n)

variable (hroom : 1075 * e.ticks < Width.bits32.size)

include hroom

theorem sampleBits_plays {n : Nat} (hn : n ≤ 9) :
    Plays ((Link.mk Scripted.line.recorded e).sampleBits n) s (bitCalls e n)
      (.ok (s.machine.answers.levels s.machine.samples n)) := by
  induction n with
  | zero =>
    have hnone : #v[] = s.machine.answers.levels s.machine.samples 0 := Vector.eq_empty.symm
    exact hnone ▸ Plays.ok _
  | succ n ih =>
    have hbits := ih (Nat.le_of_succ_le hn)
    have hticks : e.ticks * (n + 1) ≤ e.ticks * 9 := Nat.mul_le_mul_left _ hn
    have hhalf : e.half ≤ e.ticks := Nat.div_le_self _ _
    have hwait := Plays.waitAt (s := s.after (bitCalls e n)) (n + 1) e.half
      (show e.ticks * (n + 1) + e.half < Width.bits32.size by omega)
    have hsample := Plays.sample
      (s := (s.after (bitCalls e n)).after [.waitFor (e.ticks * (n + 1) + e.half)])
    rw [Recorded.after_answers, Recorded.after_samples, Recorded.after_answers,
      Recorded.after_samples, count_bitCalls] at hsample
    rw [bitCalls_succ, Answers.levels, Vector.ofFn_succ]
    exact hbits.bind (hwait.bind (hsample.bind (Plays.ok _)))

theorem signalError_plays (b : UInt8) :
    Plays ((Link.mk Scripted.line.recorded e).signalError b) s (signalCalls e) (.ok ()) := by
  have hstart := Etu.signalDelay_ok (show e.ticks * 46 < Width.bits32.size by omega)
  have hwidth := Etu.signalWidth_ok (show e.ticks * 1075 < Width.bits32.size by omega)
  have hstop : Word.add .bits32 (e.ticks * 46 / 100) (e.ticks * 1075 / 1000) =
      .ok (e.ticks * 46 / 100 + e.ticks * 1075 / 1000) := Word.add_ok (by omega)
  refine (Plays.lift (Returns.checked hstart _)).bind ?_
  refine (Plays.waitAt _ _ (by omega)).bind ((Plays.drive .low).bind ?_)
  refine (Plays.lift (Returns.checked hwidth _)).bind ?_
  refine (Plays.lift (Returns.checked hstop _)).bind ?_
  exact (Plays.waitAt _ _ (by omega)).bind (Plays.release.bind (Plays.lift (Returns.note _ _)))

theorem receiveEnd_plays (b : UInt8) (intact signal : Bool) :
    Plays (do
      if !intact && signal then (Link.mk Scripted.line.recorded e).signalError b
      (Link.mk Scripted.line.recorded e).waitAt 10 0
      pure (⟨b, intact⟩ : Reception)) s (endCalls e intact signal) (.ok ⟨b, intact⟩) := by
  have hend (s : Recorded Scripted) : Plays (do
      (Link.mk Scripted.line.recorded e).waitAt 10 0
      pure (⟨b, intact⟩ : Reception)) s [.waitFor (e.ticks * 10)] (.ok ⟨b, intact⟩) :=
    (Plays.waitAt _ _ (by omega)).bind (Plays.ok _)
  unfold endCalls
  split
  · exact (signalError_plays hroom b).bind (hend _)
  · exact hend s

theorem startBit_plays {a : Answers} {patience n maxWait : Nat} {course : List Call}
    {f : Level → LinkRun (Recorded Scripted) Reception} {r : Except LinkError Reception}
    (hstart : a.StartsAt n) (hpolls : maxWait = 0 ∨ n < maxWait) (hpatience : n < patience)
    (h : Plays (f (a.sample (n + 1))) ((polled a patience (n + 1)).after (startBitCalls e))
      course r) :
    Plays (do
      (Link.mk Scripted.line.recorded e).awaitStartBit maxWait
      Scripted.line.recorded.startTimer
      (Link.mk Scripted.line.recorded e).waitAt 0 e.half
      let level ← Scripted.line.recorded.sample
      f level) (polled a patience 0) (polls (n + 1) ++ (startBitCalls e ++ course)) r := by
  have hawait : Plays ((Link.mk Scripted.line.recorded e).awaitStartBit maxWait)
      (polled a patience 0) (polls (n + 1)) (.ok ()) := by
    rw [polls_succ]
    exact awaitStartBit_after hstart.idle hpolls hpatience fun _ _ => pollStart_starts hstart
  have hwait (s : Recorded Scripted) :
      Plays ((Link.mk Scripted.line.recorded e).waitAt 0 e.half) s [.waitFor e.half] (.ok ()) := by
    have hhalf : e.half ≤ e.ticks := Nat.div_le_self _ _
    have hwait := Plays.waitAt (s := s) 0 e.half
      (show e.ticks * 0 + e.half < Width.bits32.size by omega)
    rwa [Nat.mul_zero, Nat.zero_add] at hwait
  have hsample := Plays.sample
    (s := (polled a patience (n + 1)).after [.startTimer, .waitFor e.half])
  rw [Recorded.after_answers, Recorded.after_samples, polled_answers, polled_samples] at hsample
  exact hawait.bind (Plays.startTimer.bind ((hwait _).bind (hsample.bind h)))

theorem Course.plays {a : Answers} {c : Convention} {maxWait : Nat} {signal : Bool}
    {course : List Call} {r : Except LinkError Reception}
    (h : Course a e c maxWait signal course r) : ∃ enough, ∀ patience, enough ≤ patience →
      Plays ((Link.mk Scripted.line.recorded e).receive c maxWait signal) (polled a patience 0)
        course r := by
  cases h with
  | clockStopped n hidle hpolls hclock =>
    refine ⟨n + 1, fun patience hpatience => Plays.bind_error ?_⟩
    exact awaitStartBit_after hidle hpolls hpatience fun _ _ => pollStart_clockStopped hclock
  | resetHeld n hidle hpolls hclock hreset =>
    refine ⟨n + 1, fun patience hpatience => Plays.bind_error ?_⟩
    exact awaitStartBit_after hidle hpolls hpatience fun _ _ => pollStart_resetHeld hclock hreset
  | timeout hlimit hidle =>
    exact ⟨0, fun patience _ => Plays.bind_error (awaitStartBit_timeout hlimit hidle)⟩
  | falseStart n hstart hpolls hhigh =>
    refine ⟨n + 1, fun patience hpatience => ?_⟩
    rw [← List.append_nil (startBitCalls e)]
    refine startBit_plays hroom hstart hpolls hpatience ?_
    rw [hhigh]
    exact Plays.throw _
  | character n hstart hpolls hlow byte intact hdecode =>
    refine ⟨n + 1, fun patience hpatience => ?_⟩
    refine startBit_plays hroom hstart hpolls hpatience ?_
    have hbits := sampleBits_plays hroom (Nat.le_refl 9)
      (s := (polled a patience (n + 1)).after (startBitCalls e))
    rw [Recorded.after_answers, Recorded.after_samples, polled_answers, polled_samples] at hbits
    rw [hlow]
    refine hbits.bind ?_
    have hend := receiveEnd_plays hroom byte intact signal (s :=
      ((polled a patience (n + 1)).after (startBitCalls e)).after (bitCalls e 9))
    have hbyte : (decode (a.levels (n + 1 + (startBitCalls e).count .sample) 9) c) =
        (byte, intact) := hdecode
    rw [hbyte]
    exact hend

end Samples

/-! ## What a reception gives -/

section Gives

variable {α : Type} {a : Answers} {x : LinkRun (Recorded Scripted) α} {r r' : Except LinkError α}
  {calls calls' : List Call}

/-- On a line with these answers, and with patience enough, the program returns `r` and has made
these calls, oldest first. -/
def Gives (a : Answers) (x : LinkRun (Recorded Scripted) α) (r : Except LinkError α)
    (calls : List Call) : Prop :=
  ∃ enough, ∀ patience, enough ≤ patience → ∃ s,
    x.run.Returns ⟨{ answers := a, patience }, []⟩ r s ∧ s.calls.reverse = calls

theorem Gives.unique (h : Gives a x r calls) (h' : Gives a x r' calls') :
    r = r' ∧ calls = calls' := by
  obtain ⟨enough, hruns⟩ := h
  obtain ⟨enough', hruns'⟩ := h'
  obtain ⟨s, hrun, rfl⟩ := hruns (max enough enough') (Nat.le_max_left _ _)
  obtain ⟨s', hrun', rfl⟩ := hruns' (max enough enough') (Nat.le_max_right _ _)
  obtain ⟨rfl, rfl⟩ := hrun.unique hrun'
  exact ⟨rfl, rfl⟩

variable {e : Etu} {c : Convention} {maxWait : Nat} {signal : Bool}

theorem receive_endless (hidle : ∀ n, a.Idle n) (patience : Nat) :
    ((Link.mk Scripted.line.recorded e).receive c 0 signal).run.Yields (polled a patience 0)
      fun _ _ => False := by
  have hpolls (k n : Nat) : ((Link.mk Scripted.line.recorded e).pollStart (Run.halt .endless)
      k).run.Yields (polled a patience n) fun _ _ => False := by
    induction k generalizing n with
    | zero => exact Yields.lift (Yields.halt _)
    | succ k ih =>
      obtain ⟨hclock, hreset, hhigh⟩ := hidle (n + 1) n (Nat.lt_succ_self n)
      refine Yields.after_ok ((clock_asked a patience n).returns rfl) ?_
      rw [hclock]
      refine Yields.after_ok ((reset_asked a patience n).returns rfl) ?_
      rw [hreset]
      refine Yields.after_ok ((line_asked a patience n).returns rfl) ?_
      rw [hhigh]
      have hrest := ih (n + 1)
      rw [polled_succ] at hrest
      exact hrest
  refine Yields.bind_ok (R := fun _ _ => False) ?_ (fun _ _ => False.elim) fun _ _ => False.elim
  exact Yields.after_ok (Returns.lift (Returns.read _ _)) (hpolls patience 0)

variable (hroom : 1075 * e.ticks < Width.bits32.size)

include hroom

theorem Course.gives {course : List Call} {res out : Except LinkError Reception}
    (h : Course a e c maxWait signal course res) (hcut : Cut a.reached course res calls out) :
    Gives a ((Link.mk Scripted.line.recorded e).receive c maxWait signal) out calls := by
  obtain ⟨enough, hplays⟩ := h.plays hroom
  refine ⟨enough, fun patience hpatience => ?_⟩
  have hawaited : (polled a patience 0).machine.awaited = a.reached := by
    funext k
    exact congrArg a.reached (Nat.zero_add k)
  refine ⟨_, hplays patience hpatience calls out (hawaited ▸ hcut), ?_⟩
  exact (congrArg _ (List.append_nil _)).trans calls.reverse_reverse

/-- A reception gives what one of its courses comes to, and nothing else. -/
theorem receive_gives_iff {out : Except LinkError Reception} :
    Gives a ((Link.mk Scripted.line.recorded e).receive c maxWait signal) out calls ↔
      ∃ course res, Course a e c maxWait signal course res ∧
        Cut a.reached course res calls out := by
  constructor
  · -- a run that returns has a course, and no other result than this course comes to
    intro h
    by_cases hends : maxWait ≠ 0 ∨ ∃ n, ¬a.Idle n
    · obtain ⟨course, res, hcourse⟩ : ∃ course res, Course a e c maxWait signal course res :=
        exists_course hends
      obtain ⟨calls', out', hcut⟩ := exists_cut a.reached course res
      obtain ⟨rfl, rfl⟩ := h.unique (hcourse.gives hroom hcut)
      exact ⟨course, res, hcourse, hcut⟩
    · obtain ⟨hlimit, hstays⟩ := not_or.1 hends
      obtain rfl := Classical.not_not.1 hlimit
      have hidle (n : Nat) : a.Idle n := Classical.not_not.1 fun hn => hstays ⟨n, hn⟩
      obtain ⟨enough, hruns⟩ := h
      obtain ⟨s, hrun, -⟩ := hruns enough (Nat.le_refl _)
      obtain ⟨journal, hok⟩ := hrun []
      exact (receive_endless hidle enough [] _ _ hok).elim
  · rintro ⟨course, res, hcourse, hcut⟩
    exact hcourse.gives hroom hcut

end Gives

/-! ## What becomes of the line, and when it is sampled -/

section Effects

/-- Whether the call drives or releases the line. -/
def Call.drives : Call → Bool
  | .drive _ | .release => true
  | _ => false

/-- The samples among the calls, each with the ticks of the wait before it, if there was one since
the timer was started. -/
def samplings : Option Nat → List Call → List (Option Nat)
  | _, [] => []
  | _, .startTimer :: rest => samplings none rest
  | _, .waitFor ticks :: rest => samplings (some ticks) rest
  | latest, .sample :: rest => latest :: samplings latest rest
  | latest, _ :: rest => samplings latest rest

theorem samplings_append {tail : List Call} (htail : ∀ latest, samplings latest tail = [])
    (latest : Option Nat) (calls : List Call) :
    samplings latest (calls ++ tail) = samplings latest calls := by
  induction calls generalizing latest with
  | nil => exact htail latest
  | cons c calls ih =>
    cases c with
    | sample => exact congrArg (latest :: ·) (ih latest)
    | _ => exact ih _

variable {a : Answers} {e : Etu} {c : Convention} {maxWait : Nat} {signal : Bool}
  {course : List Call} {r : Except LinkError Reception}

/-- The calls of a character up to its last bit. -/
def charCalls (e : Etu) (n : Nat) : List Call :=
  polls (n + 1) ++ (startBitCalls e ++ bitCalls e 9)

theorem charCalls_append (n : Nat) (tail : List Call) :
    charCalls e n ++ tail = polls (n + 1) ++ (startBitCalls e ++ (bitCalls e 9 ++ tail)) := by
  rw [charCalls, List.append_assoc, List.append_assoc]

theorem count_charCalls (e : Etu) (n : Nat) : (charCalls e n).count .sample = n + 11 := by
  rw [charCalls, List.count_append, List.count_append, count_bitCalls, List.count, countP_polls]
  show (n + 1) * 1 + (1 + 9) = n + 11
  omega

theorem charCalls_quiet (e : Etu) (n : Nat) : (charCalls e n).countP Call.drives = 0 := by
  rw [charCalls, List.countP_append, List.countP_append, countP_polls,
    countP_bitCalls (fun _ => rfl)]
  rfl

theorem Course.waits_le (h : Course a e c maxWait signal course r) : waits course ≤ 13 := by
  have hpolls (n : Nat) : waits (polls n) = 0 := countP_polls _ n
  have hbits : waits (bitCalls e 9) = 9 :=
    countP_bitCalls (p := isWait) (k := 1) (fun _ => rfl) e 9
  cases h with
  | clockStopped n | resetHeld n | falseStart n =>
    rw [waits_append, hpolls, Nat.zero_add]
    exact Nat.le_of_ble_eq_true rfl
  | timeout => exact hpolls maxWait ▸ Nat.zero_le 13
  | character n hstart hlimit hlow byte intact hdecode =>
    rw [waits_append, waits_append, waits_append, hpolls, hbits, Nat.zero_add]
    cases intact <;> cases signal <;> exact Nat.le_of_ble_eq_true rfl

/-- Only behind the bits of a character with a wrong parity bit the line is driven. -/
theorem Course.drives_only (h : Course a e c maxWait signal course r) {before rest : List Call}
    {call : Call} (hcourse : course = before ++ call :: rest) (hdrives : call.drives = true) :
    signal = true ∧ ∃ n, a.StartsAt n ∧ a.sample (n + 1) = .low ∧
      before.count .sample = n + 11 ∧ (decode (a.levels (n + 2) 9) c).2 = false := by
  have hsome : course.countP Call.drives ≠ 0 := by
    rw [hcourse]
    exact Nat.ne_of_gt (List.countP_pos_iff.2 ⟨call, by simp, hdrives⟩)
  cases h with
  | clockStopped n | resetHeld n | falseStart n =>
    rw [List.countP_append, countP_polls] at hsome
    exact absurd rfl hsome
  | timeout =>
    rw [countP_polls] at hsome
    exact absurd rfl hsome
  | character n hstart hlimit hlow byte intact hdecode =>
    rw [← charCalls_append] at hcourse hsome
    obtain ⟨rfl, rfl⟩ : intact = false ∧ signal = true := by
      rw [List.countP_append, charCalls_quiet] at hsome
      cases intact <;> cases signal <;> first | exact ⟨rfl, rfl⟩ | exact absurd rfl hsome
    refine ⟨rfl, n, hstart, hlow, ?_, congrArg Prod.snd hdecode⟩
    have hquiet : call ∉ charCalls e n := fun hmem =>
      List.countP_eq_zero.1 (charCalls_quiet e n) call hmem hdrives
    -- the call stands behind the bits, since none of the calls up to there drives the line
    obtain ⟨u, rfl, htail⟩ | ⟨u, hbits, htail⟩ := List.append_eq_append_iff.1 hcourse
    · have hnone : (u ++ call :: rest).count .sample = 0 := htail ▸ rfl
      rw [List.count_append] at hnone ⊢
      rw [count_charCalls]
      omega
    · cases u with
      | nil => rw [← count_charCalls e n, hbits, List.append_nil]
      | cons c' u =>
        obtain ⟨rfl, -⟩ := List.cons.inj htail
        exact absurd (hbits ▸ by simp) hquiet

/-- The two kinds of reception differ in the error signal only, which takes no sample. -/
theorem Course.resignal (h : Course a e c maxWait signal course r) (signal' : Bool) :
    ∃ course', Course a e c maxWait signal' course' r ∧
      samplings none course' = samplings none course := by
  have hend (intact signal : Bool) (latest : Option Nat) :
      samplings latest (endCalls e intact signal) = [] := by
    cases intact <;> cases signal <;> rfl
  cases h with
  | clockStopped n hidle hpolls hclock => exact ⟨_, .clockStopped n hidle hpolls hclock, rfl⟩
  | resetHeld n hidle hpolls hclock hreset =>
    exact ⟨_, .resetHeld n hidle hpolls hclock hreset, rfl⟩
  | timeout hlimit hidle => exact ⟨_, .timeout hlimit hidle, rfl⟩
  | falseStart n hstart hpolls hhigh => exact ⟨_, .falseStart n hstart hpolls hhigh, rfl⟩
  | character n hstart hpolls hlow byte intact hdecode =>
    refine ⟨_, .character n hstart hpolls hlow byte intact hdecode, ?_⟩
    rw [← charCalls_append, ← charCalls_append, samplings_append (hend intact signal'),
      samplings_append (hend intact signal)]

end Effects

/-! ## The whole reception -/

/-- **Exactly what a reception does on any line**: it gives what one of its courses comes to; it
comes to an end unless the line stays idle for ever under no limit; only the kind that signals
drives the line, and only behind the bits of a character with a wrong parity bit; and unless a wait
fails, both kinds take the same samples and return the same. -/
theorem reception_exact (a : Answers) (e : Etu) (hroom : 1075 * e.ticks < Width.bits32.size)
    (c : Convention) (maxWait : Nat) :
    (∀ signal out calls,
      Gives a ((Link.mk Scripted.line.recorded e).receive c maxWait signal) out calls ↔
        ∃ course res, Course a e c maxWait signal course res ∧
          Cut a.reached course res calls out) ∧
      ((maxWait ≠ 0 ∨ ∃ n, ¬a.Idle n) → ∀ signal, ∃ out calls,
        Gives a ((Link.mk Scripted.line.recorded e).receive c maxWait signal) out calls) ∧
      (∀ out calls,
        Gives a ((Link.mk Scripted.line.recorded e).receiveSilently c maxWait) out calls →
          ∀ call ∈ calls, call.drives = false) ∧
      (∀ out before call later,
        Gives a ((Link.mk Scripted.line.recorded e).receiveByte c maxWait) out
            (before ++ call :: later) → call.drives = true →
          ∃ n, a.StartsAt n ∧ a.sample (n + 1) = .low ∧ before.count .sample = n + 11 ∧
            (decode (a.levels (n + 2) 9) c).2 = false) ∧
      ((∀ k < 13, a.reached k = true) → ∀ out samples,
        (∃ calls, Gives a ((Link.mk Scripted.line.recorded e).receiveByte c maxWait) out calls ∧
            samplings none calls = samples) ↔
          ∃ calls, Gives a ((Link.mk Scripted.line.recorded e).receiveSilently c maxWait) out
            calls ∧ samplings none calls = samples) := by
  have hgives (signal : Bool) (out : Except LinkError Reception) (calls : List Call) :
      Gives a ((Link.mk Scripted.line.recorded e).receive c maxWait signal) out calls ↔
        ∃ course res, Course a e c maxWait signal course res ∧
          Cut a.reached course res calls out :=
    receive_gives_iff hroom
  refine ⟨hgives, ?_, ?_, ?_, ?_⟩
  · intro hends signal
    obtain ⟨course, res, hcourse⟩ : ∃ course res, Course a e c maxWait signal course res :=
      exists_course hends
    obtain ⟨calls, out, hcut⟩ := exists_cut a.reached course res
    exact ⟨out, calls, hcourse.gives hroom hcut⟩
  · intro out calls h call hcall
    obtain ⟨course, res, hcourse, hcut⟩ := (hgives false out calls).1 h
    obtain ⟨before, rest, hsplit⟩ := List.append_of_mem (hcut.begins.subset hcall)
    cases hdrives : call.drives with
    | false => rfl
    | true => exact absurd (hcourse.drives_only hsplit hdrives).1 Bool.false_ne_true
  · intro out before call later h hdrives
    obtain ⟨course, res, hcourse, hcut⟩ := (hgives true out _).1 h
    obtain ⟨rest, hrest⟩ := hcut.begins
    have hsplit : course = before ++ call :: (later ++ rest) := by
      rw [← hrest, List.append_assoc, List.cons_append]
    exact (hcourse.drives_only hsplit hdrives).2
  · intro hreached out samples
    have hother (signal signal' : Bool) (calls : List Call)
        (h : Gives a ((Link.mk Scripted.line.recorded e).receive c maxWait signal) out calls) :
        ∃ calls',
          Gives a ((Link.mk Scripted.line.recorded e).receive c maxWait signal') out calls' ∧
          samplings none calls' = samplings none calls := by
      obtain ⟨course, res, hcourse, hcut⟩ := (hgives signal out calls).1 h
      obtain ⟨rfl, rfl⟩ := hcut.eq_of_reached fun k hk =>
        hreached k (Nat.lt_of_lt_of_le hk hcourse.waits_le)
      obtain ⟨course', hcourse', hsamples⟩ := hcourse.resignal signal'
      refine ⟨course', hcourse'.gives hroom (.whole fun k hk => ?_), hsamples⟩
      exact hreached k (Nat.lt_of_lt_of_le hk hcourse'.waits_le)
    constructor
    · rintro ⟨calls, h, rfl⟩
      exact hother true false calls h
    · rintro ⟨calls, h, rfl⟩
      exact hother false true calls h

/-- A line that is idle for one poll, and then carries the byte 00 with a wrong parity bit. -/
def spoiledZero : Answers :=
  .ofScripts (#[.high] ++ Array.replicate 10 .low) none none none

/-- Both kinds of reception return the character, and the one that signals drives the line. -/
theorem reception_exact_spoiled :
    1075 * 100 < Width.bits32.size ∧
      (∃ calls, Gives spoiledZero ((Link.mk Scripted.line.recorded ⟨100⟩).receiveByte .direct 2)
        (.ok ⟨0, false⟩) calls ∧ calls[28]? = some (.drive .low)) ∧
      ∃ calls, Gives spoiledZero
        ((Link.mk Scripted.line.recorded ⟨100⟩).receiveSilently .direct 2) (.ok ⟨0, false⟩) calls ∧
          .drive .low ∉ calls := by
  have hroom : 1075 * 100 < Width.bits32.size := by decide
  obtain ⟨hgives, -, hsilent, -, hsame⟩ := reception_exact spoiledZero ⟨100⟩ hroom .direct 2
  have hidle : spoiledZero.Idle 1 := by
    intro k hk
    obtain rfl := Nat.lt_one_iff.1 hk
    exact ⟨rfl, rfl, rfl⟩
  have hcourse : Course spoiledZero ⟨100⟩ .direct 2 true _ _ :=
    .character 1 ⟨hidle, rfl, rfl, rfl⟩ (.inr (Nat.lt_succ_self 1)) rfl 0 false (by decide)
  have hsignals := (hgives true _ _).2 ⟨_, _, hcourse, .whole fun _ _ => rfl⟩
  obtain ⟨calls, hquiet, -⟩ := (hsame (fun _ _ => rfl) _ _).1 ⟨_, hsignals, rfl⟩
  refine ⟨hroom, ⟨_, hsignals, by decide⟩, calls, hquiet, ?_⟩
  intro hdrive
  exact absurd (hsilent _ calls hquiet _ hdrive) (by decide)

end Line

end CardTap
