import CardTap.Atr.Send
import CardTap.Device.Lines
import CardTap.Proofs.Device.Sections
import CardTap.Proofs.Keeps

/-!
# The time base of a character

Each operation starts the timer once and measures its whole course by it.  The question whether the
terminal gives a clock is harmless on a simulated line, but on the device it overwrites the counter
of that same timer (`clockQuestion_ends`): it may come before the start of the timer, however often,
and never behind.

The calls are in order whatever the line answers (`KeepsTimeBase`), also those of a run that ends in
an error, in a fault of the arithmetic or in a wait without an end: what is shown is what every call
leaves true, in front of the start of the timer (`Unstarted`) and behind it (`Started`).
-/

namespace CardTap.Line

open Run Device

/-! ## Calls in order -/

/-- Calls, newest first, whose times count from one start of the timer that nothing disturbs. -/
structure KeepsTime (calls : List Call) : Prop where
  once : calls.count .startTimer ≤ 1
  started : ∀ later ticks earlier, calls = later ++ .waitFor ticks :: earlier →
    Call.startTimer ∈ earlier
  undisturbed : ∀ later earlier, calls = later ++ .startTimer :: earlier →
    Call.clockRunning ∉ later

namespace KeepsTime

variable {calls : List Call}

theorem nil : KeepsTime [] where
  once := Nat.zero_le _
  started later ticks earlier h := by simp at h
  undisturbed later earlier h := by simp at h

/-- The timer is started, for the first time. -/
theorem start (h : KeepsTime calls) (hfirst : Call.startTimer ∉ calls) :
    KeepsTime (.startTimer :: calls) where
  once := by
    have hcount := List.count_cons_self (a := Call.startTimer) (l := calls)
    rw [List.count_eq_zero_of_not_mem hfirst] at hcount
    exact Nat.le_of_eq hcount
  started later ticks earlier heq := by
    cases later with
    | nil => cases heq
    | cons c later => exact h.started later ticks earlier (List.cons.inj heq).2
  undisturbed later earlier heq := by
    cases later with
    | nil => exact List.not_mem_nil
    | cons c later =>
      refine absurd ?_ hfirst
      rw [(List.cons.inj heq).2]
      exact List.mem_append_right _ List.mem_cons_self

/-- Any other call is in order where a wait finds the timer started and a question for the clock
does not. -/
theorem cons {c : Call} (h : KeepsTime calls) (hother : c ≠ .startTimer)
    (hwait : ∀ ticks, c = .waitFor ticks → Call.startTimer ∈ calls)
    (hclock : c = .clockRunning → Call.startTimer ∉ calls) : KeepsTime (c :: calls) where
  once := by
    rw [List.count_cons_of_ne hother]
    exact h.once
  started later ticks earlier heq := by
    cases later with
    | nil =>
      obtain ⟨hc, rfl⟩ := List.cons.inj heq
      exact hwait ticks hc
    | cons d later => exact h.started later ticks earlier (List.cons.inj heq).2
  undisturbed later earlier heq := by
    cases later with
    | nil => exact absurd (List.cons.inj heq).1 hother
    | cons d later =>
      obtain ⟨rfl, hcalls⟩ := List.cons.inj heq
      rw [List.mem_cons, not_or]
      refine ⟨fun hc => hclock hc.symm ?_, h.undisturbed later earlier hcalls⟩
      rw [hcalls]
      exact List.mem_append_right _ List.mem_cons_self

end KeepsTime

/-- The calls in front of the start of the timer. -/
structure Unstarted (calls : List Call) : Prop where
  keepsTime : KeepsTime calls
  unstarted : Call.startTimer ∉ calls

/-- The calls from the start of the timer on, and those in front of it. -/
structure Started (calls : List Call) : Prop where
  keepsTime : KeepsTime calls
  started : Call.startTimer ∈ calls

namespace Call

/-- Whether the call may stand in front of the start of the timer. -/
def fitsBefore : Call → Bool
  | .startTimer | .waitFor _ => false
  | _ => true

/-- Whether the call may stand behind the start of the timer. -/
def fitsBehind : Call → Bool
  | .startTimer | .clockRunning => false
  | _ => true

end Call

section Cons

variable {calls : List Call} {c : Call}

theorem Unstarted.nil : Unstarted [] := ⟨.nil, List.not_mem_nil⟩

theorem Unstarted.cons (hc : c.fitsBefore) (h : Unstarted calls) : Unstarted (c :: calls) := by
  have hother : c ≠ .startTimer := by
    rintro rfl
    cases hc
  refine ⟨h.keepsTime.cons hother ?_ fun _ => h.unstarted, ?_⟩
  · rintro ticks rfl
    cases hc
  · exact fun hmem => (List.mem_cons.1 hmem).elim (fun heq => hother heq.symm) h.unstarted

theorem Unstarted.start (h : Unstarted calls) : Started (.startTimer :: calls) :=
  ⟨h.keepsTime.start h.unstarted, List.mem_cons_self⟩

theorem Started.cons (hc : c.fitsBehind) (h : Started calls) : Started (c :: calls) := by
  refine ⟨h.keepsTime.cons ?_ (fun _ _ => h.started) ?_, List.mem_cons_of_mem _ h.started⟩
  · rintro rfl
    cases hc
  · rintro rfl
    cases hc

end Cons

/-! ## Runs on a recorded line -/

variable {σ α β : Type}

/-- The calls made behind some earlier ones satisfy the condition. -/
def Made (earlier : List Call) (Q : List Call → Prop) (s : Recorded σ) : Prop :=
  ∃ made, s.calls = made ++ earlier ∧ Q made

/-- However the run ends, the calls that it made are in order. -/
def KeepsTimeBase (x : Run (Recorded σ) α) : Prop :=
  ∀ m journal earlier, Made earlier KeepsTime (leftBy (x ⟨⟨m, earlier⟩, journal⟩))

section Runs

variable {earlier : List Call} {Q R : List Call → Prop}

theorem Made.cons {s : Recorded σ} {c : Call} (hQ : ∀ calls, Q calls → R (c :: calls))
    (h : Made earlier Q s) : Made earlier R { s with calls := c :: s.calls } := by
  obtain ⟨made, hmade, hcalls⟩ := h
  exact ⟨c :: made, congrArg (c :: ·) hmade, hQ made hcalls⟩

/-- What the machine does with a call is no call. -/
theorem keeps_within (body : Run σ α) :
    Keeps (Made earlier Q) (Run.within Recorded.part.get Recorded.part.put body) := by
  refine Keeps.within ?_ body
  exact fun _ _ h => h

theorem keeps_call {c : Call} (hQ : ∀ calls, Q calls → Q (c :: calls)) (body : Run σ α) :
    Keeps (Made earlier Q) (liftM (Recorded.call c body) : LinkRun (Recorded σ) α).run :=
  Keeps.lift (Keeps.bind (Keeps.change fun _ h => h.cons hQ) fun _ => keeps_within body)

theorem keeps_before {c : Call} (hc : c.fitsBefore) (body : Run σ α) :
    Keeps (Made earlier Unstarted) (liftM (Recorded.call c body) : LinkRun (Recorded σ) α).run :=
  keeps_call (Q := Unstarted) (fun _ => Unstarted.cons hc) body

theorem keeps_behind {c : Call} (hc : c.fitsBehind) (body : Run σ α) :
    Keeps (Made earlier Started) (liftM (Recorded.call c body) : LinkRun (Recorded σ) α).run :=
  keeps_call (Q := Started) (fun _ => Started.cons hc) body

/-- Started in front of the timer, the run leaves its calls in order. -/
def Orders (earlier : List Call) (x : Run (Recorded σ) α) : Prop :=
  ∀ m journal, Made earlier Unstarted m → Made earlier KeepsTime (leftBy (x ⟨m, journal⟩))

namespace Orders

theorem keepsTimeBase {x : Run (Recorded σ) α} (h : ∀ earlier, Orders earlier x) :
    KeepsTimeBase x :=
  fun m journal earlier => h earlier ⟨m, earlier⟩ journal ⟨[], rfl, Unstarted.nil⟩

variable {x : LinkRun (Recorded σ) α} {f : α → LinkRun (Recorded σ) β}

theorem of_unstarted {x : Run (Recorded σ) α} (h : Keeps (Made earlier Unstarted) x) :
    Orders earlier x := by
  intro m journal hm
  obtain ⟨made, hmade, hcalls⟩ := h m journal hm
  exact ⟨made, hmade, hcalls.keepsTime⟩

/-- A run that does not start the timer, then the rest. -/
theorem bind_ok (hx : Keeps (Made earlier Unstarted) x.run)
    (hf : ∀ a, Orders earlier (f a).run) : Orders earlier (x >>= f).run := by
  intro m journal hm
  have hfirst := hx m journal hm
  have hended := of_unstarted hx m journal hm
  show Made earlier KeepsTime (leftBy (EStateM.bind x.run _ ⟨m, journal⟩))
  rw [EStateM.bind]
  cases hrun : x.run ⟨m, journal⟩ with
  | ok r s =>
    rw [hrun] at hfirst
    cases r with
    | ok a => exact hf a s.machine s.journal hfirst
    | error e => exact of_unstarted (Keeps.throw e) s.machine s.journal hfirst
  | error h s =>
    rw [hrun] at hended
    exact hended

theorem assoc {γ : Type} {g : β → LinkRun (Recorded σ) γ}
    (h : Orders earlier (x >>= fun a => f a >>= g).run) :
    Orders earlier ((x >>= f) >>= g).run := by
  rwa [bind_assoc]

/-- The timer is started, and nothing behind that disturbs it. -/
theorem start {body : Run σ α} (hf : ∀ a, Keeps (Made earlier Started) (f a).run) :
    Orders earlier
      ((liftM (Recorded.call .startTimer body) : LinkRun (Recorded σ) α) >>= f).run := by
  intro m journal hm
  have hstarted := hm.cons fun _ => Unstarted.start
  have hrest := Keeps.bind_ok (Keeps.lift (keeps_within body)) hf
  obtain ⟨made, hmade, hcalls⟩ := hrest _ journal hstarted
  exact ⟨made, hmade, hcalls.keepsTime⟩

end Orders

end Runs

/-! ## Behind the start of the timer -/

section Behind

variable {l : Line σ} {e : Etu} {earlier : List Call}

theorem waitAt_keeps (n extra : Nat) :
    Keeps (Made earlier Started) ((Link.mk l.recorded e).waitAt n extra).run := by
  refine Keeps.bind_ok (Keeps.lift (Keeps.checked _)) fun etus => ?_
  refine Keeps.bind_ok (Keeps.lift (Keeps.checked _)) fun ticks => ?_
  refine Keeps.bind_ok (keeps_behind rfl _) fun reached => ?_
  cases reached with
  | true => exact Keeps.ok ()
  | false => exact Keeps.throw _

theorem driveFrom_keeps (i : Nat) (levels : List Level) :
    Keeps (Made earlier Started) ((Link.mk l.recorded e).driveFrom i levels).run := by
  induction levels generalizing i with
  | nil => exact Keeps.ok ()
  | cons level rest ih =>
    refine Keeps.bind_ok (waitAt_keeps i 0) fun _ => ?_
    exact Keeps.bind_ok (keeps_behind rfl _) fun _ => ih (i + 1)

theorem sampleBits_keeps (n : Nat) :
    Keeps (Made earlier Started) ((Link.mk l.recorded e).sampleBits n).run := by
  induction n with
  | zero => exact Keeps.ok _
  | succ n ih =>
    refine Keeps.bind_ok ih fun bits => Keeps.bind_ok (waitAt_keeps _ _) fun _ => ?_
    exact Keeps.bind_ok (keeps_behind rfl _) fun bit => Keeps.ok _

theorem signalError_keeps (b : UInt8) :
    Keeps (Made earlier Started) ((Link.mk l.recorded e).signalError b).run := by
  refine Keeps.bind_ok (Keeps.lift (Keeps.checked _)) fun start => ?_
  refine Keeps.bind_ok (waitAt_keeps _ _) fun _ => Keeps.bind_ok (keeps_behind rfl _) fun _ => ?_
  refine Keeps.bind_ok (Keeps.lift (Keeps.checked _)) fun width => ?_
  refine Keeps.bind_ok (Keeps.lift (Keeps.checked _)) fun stop => ?_
  refine Keeps.bind_ok (waitAt_keeps _ _) fun _ => Keeps.bind_ok (keeps_behind rfl _) fun _ => ?_
  exact Keeps.lift (Keeps.note _)

end Behind

/-! ## In front of it -/

section Before

variable {l : Line σ} {e : Etu} {earlier : List Call}

theorem pollStart_keeps {outlasted : LinkRun (Recorded σ) Unit}
    (houtlasted : Keeps (Made earlier Unstarted) outlasted.run) (n : Nat) :
    Keeps (Made earlier Unstarted) ((Link.mk l.recorded e).pollStart outlasted n).run := by
  induction n with
  | zero => exact houtlasted
  | succ n ih =>
    refine Keeps.bind_ok (keeps_before rfl _) fun clock => ?_
    cases clock with
    | false => exact Keeps.throw _
    | true =>
      refine Keeps.bind_ok (keeps_before rfl _) fun reset => ?_
      cases reset with
      | true => exact Keeps.throw _
      | false =>
        refine Keeps.bind_ok (keeps_before rfl _) fun level => ?_
        cases level with
        | low => exact Keeps.ok ()
        | high => exact ih

/-- However often the line is polled, the clock is asked for in front of the timer only. -/
theorem awaitStartBit_keeps (maxWait : Nat) :
    Keeps (Made earlier Unstarted) ((Link.mk l.recorded e).awaitStartBit maxWait).run := by
  unfold Link.awaitStartBit
  split
  · refine Keeps.bind_ok (Keeps.lift (Keeps.read _)) fun patience => ?_
    exact pollStart_keeps (Keeps.lift (Keeps.halt .endless)) patience
  · exact pollStart_keeps (Keeps.throw _) maxWait

end Before

/-! ## Whole operations -/

section Operations

variable {l : Line σ} {e : Etu} {earlier : List Call}

/-- A character is sent, then follow waits, samples and more of what spares the clock. -/
theorem sendFrame_orders (f : Frame) {g : Unit → LinkRun (Recorded σ) α}
    (hg : Keeps (Made earlier Started) (g ()).run) :
    Orders earlier ((Link.mk l.recorded e).sendFrame f >>= g).run := by
  rw [Link.sendFrame, bind_assoc]
  refine Orders.bind_ok (keeps_before rfl _) fun clock => ?_
  cases clock with
  | false => exact Orders.of_unstarted (Keeps.throw LinkError.clockStopped)
  | true =>
    -- The timer is started inside the frame, but what follows the frame is timed by it as well.
    refine Orders.assoc (Orders.start fun _ => ?_)
    refine Keeps.bind_ok ?_ fun _ => hg
    refine Keeps.bind_ok (driveFrom_keeps 0 f.toList) fun _ => ?_
    exact Keeps.bind_ok (waitAt_keeps 10 0) fun _ => keeps_behind rfl _

theorem send_orders (b : UInt8) (c : Convention) :
    Orders earlier ((Link.mk l.recorded e).send b c).run := by
  refine sendFrame_orders _ (Keeps.bind_ok (waitAt_keeps 11 0) fun _ => ?_)
  refine Keeps.bind_ok (keeps_behind rfl _) fun level => ?_
  cases level with
  | low =>
    refine Keeps.bind_ok (waitAt_keeps 13 0) fun _ => ?_
    exact Keeps.bind_ok (Keeps.lift (Keeps.note _)) fun _ => Keeps.throw _
  | high => exact waitAt_keeps 12 0

theorem sendBlind_orders (b : UInt8) (c : Convention) :
    Orders earlier ((Link.mk l.recorded e).sendBlind b c).run :=
  sendFrame_orders _ (waitAt_keeps 12 0)

theorem receive_orders (c : Convention) (maxWait : Nat) (signal : Bool) :
    Orders earlier ((Link.mk l.recorded e).receive c maxWait signal).run := by
  refine Orders.bind_ok (awaitStartBit_keeps maxWait) fun _ => Orders.start fun _ => ?_
  refine Keeps.bind_ok (waitAt_keeps 0 _) fun _ => ?_
  refine Keeps.bind_ok (keeps_behind rfl _) fun level => ?_
  cases level with
  | high => exact Keeps.throw _
  | low =>
    refine Keeps.bind_ok (sampleBits_keeps 9) fun bits => ?_
    have hend : Keeps (Made earlier Started)
        ((Link.mk l.recorded e).waitAt 10 0 >>= fun _ =>
          pure ⟨(decode bits c).1, (decode bits c).2⟩ : LinkRun _ Reception).run :=
      Keeps.bind_ok (waitAt_keeps 10 0) fun _ => Keeps.ok _
    dsimp only
    split
    · exact Keeps.bind_ok (signalError_keeps _) fun _ => hend
    · exact hend

theorem wait_orders (n : Nat) : Orders earlier ((Link.mk l.recorded e).wait n).run :=
  Orders.start fun _ => waitAt_keeps n 0

end Operations

/-! ## The question for the clock on the device -/

section Device

variable {m : RegisterFile} {low : Nat} {w : UInt8 × UInt8}

/-- The two bytes of a counter, the low one first. -/
def counterBytes (m : RegisterFile) (low : Nat) : UInt8 × UInt8 :=
  (m.values low, m.values (low + 1))

/-- A section leaves the counter as its body leaves it. -/
theorem masked_counter {body : Run RegisterFile α} (hlow : low ≠ Reg.sreg)
    (hhigh : low + 1 ≠ Reg.sreg)
    (hbody : ∀ m', counterBytes m' low = counterBytes m low →
      body.Ends m' fun _ later => counterBytes later low = w) :
    (RegisterFile.registers.masked body).Ends m fun _ later => counterBytes later low = w := by
  have hentered : counterBytes (m.changed [.clear Reg.sreg interruptBit]) low =
      counterBytes m low := by
    have hother {addr : Nat} (h : addr ≠ Reg.sreg) :
        (m.changed [.clear Reg.sreg interruptBit]).values addr = m.values addr :=
      Change.done_of_ne h
    exact Prod.ext (hother hlow) (hother hhigh)
  rw [← RegisterFile.entered_eq] at hentered
  refine RegisterFile.statusRegister.masked_ends
    ((hbody _ hentered).mono fun _ later hlater => ?_)
  rw [RegisterFile.left_eq, ← hlater]
  exact Prod.ext (RegisterFile.values_leaving hlow later _)
    (RegisterFile.values_leaving hhigh later _)

theorem writeWord_counter (hlow : low ≠ Reg.sreg) (hhigh : low + 1 ≠ Reg.sreg) (value : Nat) :
    (RegisterFile.registers.writeWord low value).Ends m fun _ later =>
      counterBytes later low = (UInt8.ofNat value, UInt8.ofNat (value / 256)) := by
  refine masked_counter hlow hhigh fun m' _ => ?_
  refine Ends.after (RegisterFile.write_returns _ _) ((RegisterFile.write_returns _ _).ends ?_)
  refine Prod.ext (Function.update_self ..) ?_
  exact (Function.update_of_ne (Nat.succ_ne_self low) ..).trans (Function.update_self ..)

theorem readWord_counter (hlow : low ≠ Reg.sreg) (hhigh : low + 1 ≠ Reg.sreg)
    (hpins : low ≠ Reg.inputD) (hpins' : low + 1 ≠ Reg.inputD) :
    (RegisterFile.registers.readWord low).Ends m fun _ later =>
      counterBytes later low = counterBytes m low := by
  refine masked_counter hlow hhigh fun m' hm' => ?_
  refine Ends.after (RegisterFile.read_returns hpins) ?_
  exact Ends.after (RegisterFile.read_returns hpins') (Ends.pure hm')

/-- Asking whether the terminal gives a clock puts its timer to one, unless the timer is off. -/
theorem clockQuestion_ends (m : RegisterFile) :
    RegisterFile.registers.terminalClockRuns.Ends m fun _ later =>
      counterBytes later Reg.tcnt3 =
        if m.values Reg.tccr3b &&& 0x07 != 0 then (1, 0) else counterBytes m Reg.tcnt3 := by
  refine Ends.after (RegisterFile.anySet_returns 0x07 (show Reg.tccr3b ≠ Reg.inputD by decide)) ?_
  cases m.values Reg.tccr3b &&& 0x07 != 0 with
  | false => exact Ends.pure rfl
  | true =>
    refine Ends.bind (masked_counter (w := (1, 0)) (by decide) (by decide) fun m' _ => ?_)
      fun count later hlater => Ends.pure hlater
    refine (writeWord_counter (by decide) (by decide) 1).bind fun _ written hwritten => ?_
    refine Ends.after (Returns.pure () written) ?_
    refine (readWord_counter (by decide) (by decide) (by decide) (by decide)).mono ?_
    exact fun _ later hlater => hlater.trans hwritten

end Device

/-! ## Every timed operation -/

/-- The steps of an answer to reset: each of its characters, and the silence behind it. -/
def answerSteps (p : Link σ) (tc1 : UInt8) : List (LinkRun σ Unit) :=
  [p.sendBlind Convention.direct.ts .direct, p.wait 250] ++
    [0x60, 0x00, tc1].flatMap fun b => [p.sendBlind b .direct, p.wait 2]

/-- **No timed operation disturbs its own time base.**  Whatever the line answers and however the
operation ends, it starts the timer at most once, waits only behind that, and asks for the clock
only in front of it.  An answer to reset is a row of such operations.  It matters on the line to the
terminal, whose waits read the counter that the question for the clock puts to one. -/
theorem time_base_undisturbed (l : Line σ) (e : Etu) (b : UInt8) (c : Convention)
    (maxWait n : Nat) (tc1 : UInt8) (place : Part WideCount RegisterFile) (m : RegisterFile) :
    let p := Link.mk l.recorded e
    let terminal := RegisterFile.registers.terminalLine place
    (KeepsTimeBase (p.send b c).run ∧ KeepsTimeBase (p.sendBlind b c).run ∧
      KeepsTimeBase (p.receiveByte c maxWait).run ∧
      KeepsTimeBase (p.receiveSilently c maxWait).run ∧ KeepsTimeBase (p.wait n).run) ∧
    (p.answerReset tc1 = (answerSteps p tc1).forM id ∧
      ∀ step ∈ answerSteps p tc1, KeepsTimeBase step.run) ∧
    ((∀ ticks, terminal.waitFor ticks =
        RegisterFile.registers.awaitCount place Reg.tcnt3 ticks) ∧
      terminal.clockRunning.Ends m fun _ later =>
        counterBytes later Reg.tcnt3 =
          if m.values Reg.tccr3b &&& 0x07 != 0 then (1, 0) else counterBytes m Reg.tcnt3) := by
  have hblind (b : UInt8) (c : Convention) :
      KeepsTimeBase ((Link.mk l.recorded e).sendBlind b c).run :=
    Orders.keepsTimeBase fun _ => sendBlind_orders b c
  have hwait (n : Nat) : KeepsTimeBase ((Link.mk l.recorded e).wait n).run :=
    Orders.keepsTimeBase fun _ => wait_orders n
  have hreceive (signal : Bool) :
      KeepsTimeBase ((Link.mk l.recorded e).receive c maxWait signal).run :=
    Orders.keepsTimeBase fun _ => receive_orders c maxWait signal
  refine ⟨⟨?_, hblind b c, hreceive true, hreceive false, hwait n⟩, ⟨rfl, ?_⟩, ⟨fun _ => rfl, ?_⟩⟩
  · exact Orders.keepsTimeBase fun _ => send_orders b c
  · have hspaced (b : UInt8) (silence : Nat) :
        ∀ step ∈ [(Link.mk l.recorded e).sendBlind b .direct, (Link.mk l.recorded e).wait silence],
          KeepsTimeBase step.run :=
      List.forall_mem_cons.2 ⟨hblind b .direct, List.forall_mem_singleton.2 (hwait silence)⟩
    refine List.forall_mem_append.2 ⟨hspaced _ _, fun step hstep => ?_⟩
    obtain ⟨b, -, hstep⟩ := List.mem_flatMap.1 hstep
    exact hspaced b 2 step hstep
  · exact clockQuestion_ends m

end CardTap.Line
