import CardTap.Atr.Send
import CardTap.Line.Scripted
import CardTap.Proofs.Line.Traces

/-!
# Whether the line is left driven

A program that drives the line releases it again, but it returns at once when a wait fails because
the clock stopped, and a wait may stand between the two.  The number of waits tells which one
failed, and so whether the line is left driven (`left_driven_iff`): a character that is sent is
driven from its second wait to its eleventh, an error signal ends with the twelfth of its reception,
and an answer to reset waits thirteen times for each of its characters.
-/

namespace CardTap.Line

/-! ## Counting calls -/

namespace Call

/-- Whether the call waits for a tick. -/
def isWait : Call → Bool
  | .waitFor _ => true
  | _ => false

/-- How many waits are among the calls, also one that failed. -/
def waits (calls : List Call) : Nat := calls.countP isWait

/-- Whether the last call that drives or releases the line, the first one in the list, drives it. -/
def leftDriven : List Call → Bool
  | [] => false
  | .drive _ :: _ => true
  | .release :: _ => false
  | _ :: earlier => leftDriven earlier

end Call

open Call

/-- So many waits among the calls, and the line left driven or not. -/
structure Tally (calls : List Call) (n : Nat) (driven : Bool) : Prop where
  waits : waits calls = n
  driven : leftDriven calls = driven

namespace Tally

variable {calls : List Call} {n : Nat} {driven : Bool}

theorem nil : Tally [] 0 false := ⟨rfl, rfl⟩

theorem waitFor (h : Tally calls n driven) (ticks : Nat) :
    Tally (.waitFor ticks :: calls) (n + 1) driven :=
  ⟨by rw [Call.waits, List.countP_cons_of_pos rfl, ← Call.waits, h.waits], h.driven⟩

/-- Any other call is no wait. -/
theorem waits_cons (h : Tally calls n driven) {c : Call} (hc : ¬ c.isWait) :
    Call.waits (c :: calls) = n := by
  rw [Call.waits, List.countP_cons_of_neg hc, ← Call.waits, h.waits]

theorem drive (h : Tally calls n driven) (level : Level) : Tally (.drive level :: calls) n true :=
  ⟨h.waits_cons Bool.false_ne_true, rfl⟩

theorem release (h : Tally calls n driven) : Tally (.release :: calls) n false :=
  ⟨h.waits_cons Bool.false_ne_true, rfl⟩

theorem clockRunning (h : Tally calls n driven) : Tally (.clockRunning :: calls) n driven :=
  ⟨h.waits_cons Bool.false_ne_true, h.driven⟩

theorem startTimer (h : Tally calls n driven) : Tally (.startTimer :: calls) n driven :=
  ⟨h.waits_cons Bool.false_ne_true, h.driven⟩

theorem sample (h : Tally calls n driven) : Tally (.sample :: calls) n driven :=
  ⟨h.waits_cons Bool.false_ne_true, h.driven⟩

theorem resetHeld (h : Tally calls n driven) : Tally (.resetHeld :: calls) n driven :=
  ⟨h.waits_cons Bool.false_ne_true, h.driven⟩

end Tally

section Programs

variable {σ : Type} {l : Line σ} {e : Etu} {calls : List Call} {n : Nat}

/-! ## Sending -/

/-- Behind `n` waits, a character was sent with so many more, or the last of `k` more failed. -/
inductive Sent (total n : Nat) : Except LinkError Unit → List Call → Prop
  | whole {calls : List Call} (h : Tally calls (n + total) false) : Sent total n (.ok ()) calls
  | givenUp {calls : List Call} (k : Nat) (hk : k ≤ total)
      (h : Tally calls (n + k) (decide (2 ≤ k ∧ k ≤ 11))) :
      Sent total n (.error .clockStopped) calls

/-- Each level stands behind a wait, so the line is driven unless the first one fails. -/
theorem driveFrom_traces {i : Nat} {driven : Bool} (levels : List Level)
    (h : Tally calls n driven) :
    Traces ((Link.mk l.recorded e).driveFrom i levels).run calls fun r calls' =>
      (r = .ok () ∧ Tally calls' (n + levels.length) (driven || decide (0 < levels.length))) ∨
        (r = .error .clockStopped ∧
          ∃ k < levels.length, Tally calls' (n + k + 1) (driven || decide (0 < k))) := by
  induction levels generalizing i calls n driven with
  | nil =>
    refine Traces.ok (.inl ⟨rfl, ?_⟩)
    rw [List.length_nil, decide_eq_false (Nat.lt_irrefl 0), Bool.or_false]
    exact h
  | cons level rest ih =>
    refine Traces.bind_waitAt (Traces.bind_call fun _ => ?_) ?_
    · refine (ih (i := i + 1) ((h.waitFor _).drive level)).mono ?_
      rintro r calls' (⟨rfl, hcalls⟩ | ⟨rfl, k, hk, hcalls⟩)
      · refine .inl ⟨rfl, ?_⟩
        rw [List.length_cons, decide_eq_true (Nat.succ_pos _), Bool.or_true, ← Nat.add_assoc,
          Nat.add_right_comm n]
        exact hcalls
      · refine .inr ⟨rfl, k + 1, Nat.succ_lt_succ hk, ?_⟩
        rw [decide_eq_true (Nat.succ_pos k), Bool.or_true, ← Nat.add_assoc, Nat.add_right_comm n k]
        exact hcalls
    · refine .inr ⟨rfl, 0, Nat.succ_pos _, ?_⟩
      rw [decide_eq_false (Nat.lt_irrefl 0), Bool.or_false]
      exact h.waitFor _

theorem sendFrame_traces (f : Frame) (h : Tally calls n false) :
    Traces ((Link.mk l.recorded e).sendFrame f).run calls (Sent 11 n) := by
  have hlen : f.toList.length = 10 := Vector.length_toList
  refine Traces.bind_call fun clock => ?_
  cases clock with
  | false => exact Traces.throw (.givenUp 0 (Nat.zero_le _) h.clockRunning)
  | true =>
    refine Traces.bind_call fun _ => ?_
    refine Traces.bind_ok (driveFrom_traces f.toList h.clockRunning.startTimer) ?_ ?_
    · rintro _ calls' (⟨-, hcalls⟩ | ⟨hr, -⟩)
      · rw [hlen] at hcalls
        refine Traces.bind_waitAt ?_ ?_
        · exact Traces.lift (Traces.call fun _ => .whole (hcalls.waitFor _).release)
        · exact .givenUp 11 (Nat.le_refl _) (hcalls.waitFor _)
      · cases hr
    · rintro error calls' (⟨hr, -⟩ | ⟨hr, k, hk, hcalls⟩)
      · cases hr
      · obtain rfl := Except.error.inj hr
        rw [hlen] at hk
        have hsecond : (false || decide (0 < k)) = decide (2 ≤ k + 1 ∧ k + 1 ≤ 11) := by
          rw [Bool.false_or]
          exact decide_eq_decide.2 (by omega)
        rw [hsecond] at hcalls
        exact .givenUp (k + 1) (by omega) hcalls

/-- A character, then the rest. -/
theorem sent_bind {x : LinkRun (Recorded σ) Unit} {f : Unit → LinkRun (Recorded σ) Unit}
    {total : Nat} {S : Except LinkError Unit → List Call → Prop}
    (hx : Traces x.run calls (Sent total n))
    (hwhole : ∀ calls', Tally calls' (n + total) false → Traces (f ()).run calls' S)
    (hgivenUp : ∀ k ≤ total, ∀ calls', Tally calls' (n + k) (decide (2 ≤ k ∧ k ≤ 11)) →
      S (.error .clockStopped) calls') :
    Traces (x >>= f).run calls S := by
  refine Traces.bind_ok hx ?_ ?_
  · intro _ calls' hsent
    cases hsent with
    | whole h => exact hwhole calls' h
  · intro _ calls' hsent
    cases hsent with
    | givenUp k hk h => exact hgivenUp k hk calls' h

/-- Waiting drives nothing. -/
theorem waitAt_traces {driven : Bool} {m extra : Nat} (h : Tally calls n driven) :
    Traces ((Link.mk l.recorded e).waitAt m extra).run calls fun r calls' =>
      (r = .ok () ∨ r = .error .clockStopped) ∧ Tally calls' (n + 1) driven :=
  Traces.waitAt ⟨.inl rfl, h.waitFor _⟩ ⟨.inr rfl, h.waitFor _⟩

theorem wait_traces {driven : Bool} {m : Nat} (h : Tally calls n driven) :
    Traces ((Link.mk l.recorded e).wait m).run calls fun r calls' =>
      (r = .ok () ∨ r = .error .clockStopped) ∧ Tally calls' (n + 1) driven :=
  Traces.bind_call fun _ => waitAt_traces h.startTimer

/-- A character and one more wait. -/
theorem sent_wait {x y : LinkRun (Recorded σ) Unit} {total : Nat} (htotal : 11 ≤ total)
    (hx : Traces x.run calls (Sent total n))
    (hy : ∀ calls', Tally calls' (n + total) false → Traces y.run calls' fun r later =>
      (r = .ok () ∨ r = .error .clockStopped) ∧ Tally later (n + total + 1) false) :
    Traces (x >>= fun _ => y).run calls (Sent (total + 1) n) := by
  refine sent_bind hx ?_ ?_
  · intro calls' hcalls
    refine (hy calls' hcalls).mono ?_
    rintro r later ⟨rfl | rfl, hlater⟩
    · exact .whole hlater
    · refine .givenUp (total + 1) (Nat.le_refl _) ?_
      rw [decide_eq_false (by omega)]
      exact hlater
  · intro k hk calls' hcalls
    exact .givenUp k (Nat.le_succ_of_le hk) hcalls

theorem sendBlind_traces (b : UInt8) (c : Convention) (h : Tally calls n false) :
    Traces ((Link.mk l.recorded e).sendBlind b c).run calls (Sent 12 n) :=
  sent_wait (Nat.le_refl _) (sendFrame_traces _ h) fun _ hcalls => waitAt_traces hcalls

/-! ## Outcomes -/

/-- The line is left driven for certain numbers of waits, and then the clock has stopped. -/
structure DrivenWhen {α : Type} (when : Nat → Prop) (r : Except LinkError α) (calls : List Call) :
    Prop where
  driven_iff : leftDriven calls = true ↔ when (waits calls)
  stopped : leftDriven calls = true → r = .error .clockStopped

section Outcomes

variable {α : Type} {when : Nat → Prop} {r : Except LinkError α} {driven : Bool}

theorem Tally.drivenWhen (h : Tally calls n driven) (hwhen : driven = true ↔ when n)
    (hr : driven = true → r = .error .clockStopped) : DrivenWhen when r calls := by
  obtain ⟨rfl, rfl⟩ := h
  exact ⟨hwhen, hr⟩

theorem Tally.released (h : Tally calls n false) (hwhen : ¬ when n) : DrivenWhen when r calls :=
  h.drivenWhen (iff_of_false Bool.false_ne_true hwhen) fun hdriven => nomatch hdriven

theorem Tally.givenUp {k : Nat} (h : Tally calls (n + k) (decide (2 ≤ k ∧ k ≤ 11)))
    (hwhen : (2 ≤ k ∧ k ≤ 11) ↔ when (n + k)) :
    DrivenWhen when (.error .clockStopped : Except LinkError α) calls :=
  h.drivenWhen (decide_eq_true_iff.trans hwhen) fun _ => rfl

end Outcomes

theorem Sent.drivenWhen {total : Nat} {r : Except LinkError Unit} (htotal : 12 ≤ total)
    (h : Sent total 0 r calls) : DrivenWhen (fun n => 2 ≤ n ∧ n ≤ 11) r calls := by
  cases h with
  | whole hcalls => exact hcalls.released (by omega)
  | givenUp k _ hcalls => exact hcalls.givenUp (by rw [Nat.zero_add])

theorem send_traces (b : UInt8) (c : Convention) :
    Traces ((Link.mk l.recorded e).send b c).run [] (DrivenWhen fun n => 2 ≤ n ∧ n ≤ 11) := by
  refine sent_bind (sendFrame_traces _ Tally.nil) ?_ ?_
  · intro calls' hcalls
    refine Traces.bind_waitAt (Traces.bind_call fun level => ?_) ?_
    · have hsampled := (hcalls.waitFor (e.ticks * 11 + 0)).sample
      cases level with
      | low =>
        refine Traces.bind_waitAt (Traces.bind_note (Traces.throw ?_)) ?_
        · exact (hsampled.waitFor _).released (by decide)
        · exact (hsampled.waitFor _).released (by decide)
      | high =>
        refine (waitAt_traces hsampled).mono fun r later hlater => ?_
        exact hlater.2.released (by decide)
    · exact (hcalls.waitFor _).released (by decide)
  · intro k _ calls' hcalls
    exact hcalls.givenUp (by rw [Nat.zero_add])

/-- A character of an answer to reset and the pause behind it take thirteen waits. -/
theorem spaced_traces {b : UInt8} {c : Convention} {m : Nat} {f : Unit → LinkRun (Recorded σ) Unit}
    (hn : n % 13 = 0) (h : Tally calls n false)
    (hrest : ∀ calls', Tally calls' (n + 13) false → Traces (f ()).run calls'
      (DrivenWhen fun n => 2 ≤ n % 13 ∧ n % 13 ≤ 11)) :
    Traces ((Link.mk l.recorded e).sendBlind b c >>= fun _ =>
      (Link.mk l.recorded e).wait m >>= f).run calls
      (DrivenWhen fun n => 2 ≤ n % 13 ∧ n % 13 ≤ 11) := by
  have hsent : Traces ((Link.mk l.recorded e).sendBlind b c >>= fun _ =>
      (Link.mk l.recorded e).wait m).run calls (Sent 13 n) :=
    sent_wait (by decide) (sendBlind_traces b c h) fun _ hcalls => wait_traces hcalls
  rw [← bind_assoc]
  exact sent_bind hsent hrest fun k _ calls' hcalls => hcalls.givenUp (by omega)

theorem sendSpaced_traces (bytes : List UInt8) (hn : n % 13 = 0) (h : Tally calls n false) :
    Traces ((Link.mk l.recorded e).sendSpaced bytes).run calls
      (DrivenWhen fun n => 2 ≤ n % 13 ∧ n % 13 ≤ 11) := by
  induction bytes generalizing calls n with
  | nil => exact Traces.ok (h.released (by omega))
  | cons b rest ih => exact spaced_traces hn h fun calls' hcalls => ih (by omega) hcalls

/-! ## Receiving -/

theorem pollStart_traces {outlasted : LinkRun (Recorded σ) Unit} {driven : Bool}
    (houtlasted : ∀ calls', Tally calls' n driven →
      Traces outlasted.run calls' fun _ later => Tally later n driven)
    (h : Tally calls n driven) (polls : Nat) :
    Traces ((Link.mk l.recorded e).pollStart outlasted polls).run calls fun _ calls' =>
      Tally calls' n driven := by
  induction polls generalizing calls with
  | zero => exact houtlasted calls h
  | succ polls ih =>
    refine Traces.bind_call fun clock => ?_
    cases clock with
    | false => exact Traces.throw h.clockRunning
    | true =>
      refine Traces.bind_call fun reset => ?_
      cases reset with
      | true => exact Traces.throw h.clockRunning.resetHeld
      | false =>
        refine Traces.bind_call fun level => ?_
        cases level with
        | low => exact Traces.ok h.clockRunning.resetHeld.sample
        | high => exact ih h.clockRunning.resetHeld.sample

/-- Polling for a start bit waits for no tick and drives nothing. -/
theorem awaitStartBit_traces {driven : Bool} (h : Tally calls n driven) (maxWait : Nat) :
    Traces ((Link.mk l.recorded e).awaitStartBit maxWait).run calls fun _ calls' =>
      Tally calls' n driven := by
  unfold Link.awaitStartBit
  split
  · refine Traces.bind_lift (Q := fun _ calls' => Tally calls' n driven) ?_ ?_
    · exact Traces.read _ fun _ => h
    intro patience calls' hcalls
    exact pollStart_traces (fun _ _ => Traces.lift (Traces.halt _)) hcalls patience
  · exact pollStart_traces (fun _ hcalls => Traces.throw hcalls) h maxWait

theorem sampleBits_traces {driven : Bool} (h : Tally calls n driven) (bits : Nat) :
    Traces ((Link.mk l.recorded e).sampleBits bits).run calls fun r calls' =>
      ∃ k ≤ bits, Tally calls' (n + k) driven ∧ (r.isOk → k = bits) := by
  induction bits with
  | zero => exact Traces.ok ⟨0, Nat.le_refl _, h, fun _ => rfl⟩
  | succ bits ih =>
    refine Traces.bind_ok ih ?_ ?_
    · rintro levels calls' ⟨k, -, hcalls, hk⟩
      obtain rfl := hk rfl
      refine Traces.bind_waitAt (Traces.bind_call fun level => ?_) ?_
      · exact Traces.ok ⟨k + 1, Nat.le_refl _, (hcalls.waitFor _).sample, fun _ => rfl⟩
      · exact ⟨k + 1, Nat.le_refl _, hcalls.waitFor _, fun _ => rfl⟩
    · rintro error calls' ⟨k, hk, hcalls, -⟩
      exact ⟨k, Nat.le_succ_of_le hk, hcalls, nofun⟩

/-- The line is driven for one wait, which ends the error signal. -/
theorem signalError_traces (b : UInt8) (h : Tally calls n false) :
    Traces ((Link.mk l.recorded e).signalError b).run calls fun r calls' =>
      (r = .ok () ∧ Tally calls' (n + 2) false) ∨ (r = .error .clockStopped ∧
        (Tally calls' (n + 1) false ∨ Tally calls' (n + 2) true)) := by
  refine Traces.bind_checked fun start _ => Traces.bind_waitAt (Traces.bind_call fun _ => ?_) ?_
  · have hdriven := (h.waitFor (e.ticks * 10 + start)).drive .low
    refine Traces.bind_checked fun width _ => Traces.bind_checked fun stop _ => ?_
    refine Traces.bind_waitAt (Traces.bind_call fun _ => ?_) ?_
    · exact Traces.lift (Traces.note _ (.inl ⟨rfl, (hdriven.waitFor _).release⟩))
    · exact .inr ⟨rfl, .inr (hdriven.waitFor _)⟩
  · exact .inr ⟨rfl, .inl (h.waitFor _)⟩

/-- What is left of a reception behind its samples. -/
theorem receiveEnd_traces (b : UInt8) (signals : Bool) (reception : Reception)
    (h : Tally calls 10 false) :
    Traces (if signals then
        (Link.mk l.recorded e).signalError b >>= fun _ =>
          (Link.mk l.recorded e).waitAt 10 0 >>= fun _ => pure reception
      else (Link.mk l.recorded e).waitAt 10 0 >>= fun _ => pure reception : LinkRun _ _).run calls
      (DrivenWhen fun n => n = 12) := by
  have hwait {n : Nat} {calls : List Call} (hn : n + 1 ≠ 12) (h : Tally calls n false) :
      Traces ((Link.mk l.recorded e).waitAt 10 0 >>= fun _ => pure reception : LinkRun _ _).run
        calls (DrivenWhen fun n => n = 12) :=
    Traces.bind_waitAt (Traces.ok ((h.waitFor _).released hn)) ((h.waitFor _).released hn)
  cases signals with
  | false => exact hwait (by decide) h
  | true =>
    refine Traces.bind_ok (signalError_traces b h) ?_ ?_
    · rintro _ later (⟨-, hlater⟩ | ⟨hr, -⟩)
      · exact hwait (by decide) hlater
      · cases hr
    · rintro error later (⟨hr, -⟩ | ⟨hr, hlater | hlater⟩)
      · cases hr
      · exact hlater.released (by decide)
      · obtain rfl := Except.error.inj hr
        exact hlater.drivenWhen (iff_of_true rfl rfl) fun _ => rfl

theorem receiveByte_traces (c : Convention) (maxWait : Nat) :
    Traces ((Link.mk l.recorded e).receiveByte c maxWait).run [] (DrivenWhen fun n => n = 12) := by
  refine Traces.bind_ok (awaitStartBit_traces Tally.nil maxWait) ?_ ?_
  · intro _ calls' hstart
    refine Traces.bind_call fun _ => Traces.bind_waitAt (Traces.bind_call fun level => ?_) ?_
    · have hsampled := (hstart.startTimer.waitFor (e.ticks * 0 + e.half)).sample
      cases level with
      | high => exact Traces.throw (hsampled.released (by decide))
      | low =>
        refine Traces.bind_ok (sampleBits_traces hsampled 9) ?_ ?_
        · rintro bits later ⟨k, -, hbits, hk⟩
          obtain rfl := hk rfl
          exact receiveEnd_traces _ _ _ hbits
        · rintro error later ⟨k, hk, hbits, -⟩
          exact hbits.released (by omega)
    · exact (hstart.startTimer.waitFor _).released (by decide)
  · intro error calls' hstart
    exact hstart.released (by decide)

end Programs

/-! ## Every program of a link -/

section Whole

/-- **When the line is left driven.**  Whatever the line answers, a program that returns has made
its last drive or release call to release the line, unless it returned because of the failed wait
that is named here by its number: the second to the eleventh of a character that is sent, and the
twelfth of a reception, behind the start of an error signal. -/
theorem left_driven_iff {σ : Type} (l : Line σ) (e : Etu) (b : UInt8) (c : Convention)
    (maxWait : Nat) (tc1 : UInt8) :
    Traces ((Link.mk l.recorded e).send b c).run [] (DrivenWhen fun n => 2 ≤ n ∧ n ≤ 11) ∧
      Traces ((Link.mk l.recorded e).sendBlind b c).run [] (DrivenWhen fun n => 2 ≤ n ∧ n ≤ 11) ∧
      Traces ((Link.mk l.recorded e).receiveByte c maxWait).run [] (DrivenWhen fun n => n = 12) ∧
      Traces ((Link.mk l.recorded e).answerReset tc1).run []
        (DrivenWhen fun n => 2 ≤ n % 13 ∧ n % 13 ≤ 11) := by
  refine ⟨send_traces b c, ?_, receiveByte_traces c maxWait, ?_⟩
  · exact (sendBlind_traces b c Tally.nil).mono fun _ _ hsent => hsent.drivenWhen (Nat.le_refl _)
  · refine spaced_traces rfl Tally.nil fun calls hcalls => ?_
    exact sendSpaced_traces _ rfl hcalls

/-- A line that is always low and on which only so many waits come to their end. -/
def stalling (waits : Nat) : Scripted where
  answers :=
    { sample := fun _ => .low, clockRunning := fun _ => true, reached := (· < waits)
      resetHeld := fun _ => false }

/-- The calls, newest first, of a reception whose error signal is not ended. -/
def cutSignal : List Call :=
  [.waitFor 1153, .drive .low, .waitFor 1046] ++
    (List.range 10).reverse.flatMap (fun i => [.sample, .waitFor (100 * i + 50)]) ++
    [.startTimer, .sample, .resetHeld, .clockRunning]

/-- The byte FF is received with a wrong parity bit, and the clock stops during the error signal. -/
theorem left_driven_by_signal :
    trace ((Link.mk Scripted.line.recorded ⟨100⟩).receiveByte .inverse 1).run (stalling 11) =
        some (.error .clockStopped, cutSignal) ∧
      leftDriven cutSignal = true := by
  have hrun : trace ((Link.mk Scripted.line.recorded ⟨100⟩).receiveByte .inverse 1).run
      (stalling 11) = some (.error .clockStopped, cutSignal) := by cbv
  obtain ⟨-, -, hreceive, -⟩ := left_driven_iff Scripted.line ⟨100⟩ 0 .inverse 1 0
  exact ⟨hrun, (hreceive.of_trace hrun).driven_iff.2 rfl⟩

/-- The start bit of a character is driven, and when the wait for its end fails nothing releases the
line. -/
theorem left_driven_by_send :
    trace ((Link.mk Scripted.line.recorded ⟨100⟩).send 0 .direct).run (stalling 1) =
        some (.error .clockStopped,
          [.waitFor 100, .drive .low, .waitFor 0, .startTimer, .clockRunning]) ∧
      leftDriven [.waitFor 100, .drive .low, .waitFor 0, .startTimer, .clockRunning] = true :=
  ⟨rfl, rfl⟩

end Whole

end CardTap.Line
