import CardTap.Atr.Parse
import CardTap.Line.Scripted
import CardTap.Proofs.Maintains

/-!
# Exchanges on a line that answers

A reception with a limit on its polls comes to an end on every line whose single operations do,
whatever they answer, and so do the sending of a character and the reading of an answer to reset.
What the operations maintain, an exchange maintains.
-/

namespace CardTap

open Run

/-! ## Lines -/

section Lines

variable {σ α : Type}

/-- Started on any machine, the run returns. -/
def Run.Total (x : Run σ α) : Prop := ∀ m, x.Ends m fun _ _ => True

theorem Run.Total.step (f : σ → α × σ) : (Run.step f).Total :=
  fun m => (Returns.step f m).ends trivial

theorem Run.Total.pure (a : α) : (Pure.pure a : Run σ α).Total := fun _ => Ends.pure trivial

theorem Run.Total.maintains {x : Run σ α} (h : x.Total) : x.Maintains fun _ => True :=
  fun m _ => h m

theorem Run.Maintains.total {x : Run σ α} (h : x.Maintains fun _ => True) : x.Total :=
  fun m => h m trivial

/-- Every operation of the line returns, with whatever answer. -/
structure Line.Responsive (l : Line σ) : Prop where
  clockRunning : l.clockRunning.Total
  startTimer : l.startTimer.Total
  waitFor (ticks : Nat) : (l.waitFor ticks).Total
  drive (level : Level) : (l.drive level).Total
  release : l.release.Total
  sample : l.sample.Total
  resetHeld : l.resetHeld.Total

/-- Every operation of the line returns, with whatever answer, and maintains the property. -/
structure Line.Serves (l : Line σ) (P : σ → Prop) : Prop where
  clockRunning : l.clockRunning.Maintains P
  startTimer : l.startTimer.Maintains P
  waitFor (ticks : Nat) : (l.waitFor ticks).Maintains P
  drive (level : Level) : (l.drive level).Maintains P
  release : l.release.Maintains P
  sample : l.sample.Maintains P
  resetHeld : l.resetHeld.Maintains P

theorem Line.Responsive.serves {l : Line σ} (hl : l.Responsive) : l.Serves fun _ => True where
  clockRunning := hl.clockRunning.maintains
  startTimer := hl.startTimer.maintains
  waitFor ticks := (hl.waitFor ticks).maintains
  drive level := (hl.drive level).maintains
  release := hl.release.maintains
  sample := hl.sample.maintains
  resetHeld := hl.resetHeld.maintains

theorem Line.call_total {c : Line.Call} {body : Run σ α} (h : body.Total) :
    (Line.Recorded.call c body).Total := by
  intro m
  refine Ends.after (Returns.change _ m) (Ends.within ?_)
  exact h _

theorem Line.Responsive.recorded {l : Line σ} (hl : l.Responsive) : l.recorded.Responsive where
  clockRunning := call_total hl.clockRunning
  startTimer := call_total hl.startTimer
  waitFor ticks := call_total (hl.waitFor ticks)
  drive level := call_total (hl.drive level)
  release := call_total hl.release
  sample := call_total hl.sample
  resetHeld := call_total hl.resetHeld

theorem Scripted.responsive : Scripted.line.Responsive where
  clockRunning := Total.step fun m : Scripted =>
    (m.answers.clockRunning m.clocks, { m with clocks := m.clocks + 1 })
  startTimer := Total.pure ()
  waitFor _ := Total.step fun m : Scripted =>
    (m.answers.reached m.waits, { m with waits := m.waits + 1 })
  drive _ := Total.pure ()
  release := Total.pure ()
  sample := Total.step fun m : Scripted =>
    (m.answers.sample m.samples, { m with samples := m.samples + 1 })
  resetHeld := Total.step fun m : Scripted =>
    (m.answers.resetHeld m.resets, { m with resets := m.resets + 1 })

end Lines

/-! ## Reading -/

section Reading

variable {σ α : Type} {P : σ → Prop}

theorem Reader.drive_maintains {next : LinkRun σ UInt8} (hnext : next.run.Maintains P)
    (x : Reader α) : (x.drive next).run.Maintains P := by
  induction x with
  | done a => exact Maintains.ok a
  | ask f ih => exact Maintains.bind_ok hnext fun b => ih b

theorem Atr.read_maintains {next : Convention → LinkRun σ UInt8}
    (hnext : ∀ c, (next c).run.Maintains P) (ts : UInt8) : (Atr.read ts next).run.Maintains P := by
  unfold Atr.read
  cases Convention.ofTs? ts with
  | none => exact Maintains.throw _
  | some c =>
    refine Maintains.bind_ok (Maintains.adapt (Reader.drive_maintains (hnext c) _)) fun parsed => ?_
    exact Maintains.pure parsed

end Reading

section Exchanges

variable {σ : Type} {l : Line σ} {e : Etu} {P : σ → Prop} (hl : l.Serves P)

include hl

/-! ## Waiting -/

theorem waitAt_maintains {n extra : Nat} (hroom : e.ticks * n + extra < Width.bits32.size) :
    ((Link.mk l e).waitAt n extra).run.Maintains P := by
  have hetus : e.etus n = .ok (e.ticks * n) := Word.mul_ok (by omega)
  apply Maintains.bind_checked hetus
  apply Maintains.bind_checked (Word.add_ok hroom)
  apply Maintains.bind_ok (Maintains.lift (hl.waitFor _))
  intro reached
  cases reached with
  | true => exact Maintains.ok _
  | false => exact Maintains.throw _

theorem wait_maintains {n : Nat} (hroom : e.ticks * n < Width.bits32.size) :
    ((Link.mk l e).wait n).run.Maintains P :=
  Maintains.bind_ok (Maintains.lift hl.startTimer) fun _ => waitAt_maintains hl hroom

/-! ## Receiving -/

theorem pollStart_maintains {outlasted : LinkRun σ Unit} (h : outlasted.run.Maintains P)
    (polls : Nat) : ((Link.mk l e).pollStart outlasted polls).run.Maintains P := by
  induction polls with
  | zero => exact h
  | succ polls ih =>
    apply Maintains.bind_ok (Maintains.lift hl.clockRunning)
    intro clock
    cases clock with
    | false => exact Maintains.throw _
    | true =>
      apply Maintains.bind_ok (Maintains.lift hl.resetHeld)
      intro reset
      cases reset with
      | true => exact Maintains.throw _
      | false =>
        apply Maintains.bind_ok (Maintains.lift hl.sample)
        intro level
        cases level with
        | low => exact Maintains.ok _
        | high => exact ih

theorem sampleBits_maintains (hroom : e.ticks * 10 < Width.bits32.size) {n : Nat} (hn : n ≤ 9) :
    ((Link.mk l e).sampleBits n).run.Maintains P := by
  induction n with
  | zero => exact Maintains.ok _
  | succ n ih =>
    have hticks : e.ticks * (n + 1) ≤ e.ticks * 9 := Nat.mul_le_mul_left _ hn
    have hhalf : e.half ≤ e.ticks := Nat.div_le_self _ _
    have hbit : e.ticks * (n + 1) + e.half < Width.bits32.size := by omega
    apply Maintains.bind_ok (ih (Nat.le_of_succ_le hn))
    intro bits
    apply Maintains.bind_ok (waitAt_maintains hl hbit)
    intro _
    exact Maintains.bind_ok (Maintains.lift hl.sample) fun _ => Maintains.ok _

theorem signalError_maintains (hroom : e.ticks * 1075 < Width.bits32.size) (b : UInt8) :
    ((Link.mk l e).signalError b).run.Maintains P := by
  have hdelay : e.signalDelay = .ok (e.ticks * 46 / 100) := by
    have hscaled : e.ticks * 46 < Width.bits32.size := by omega
    simp [Etu.signalDelay, Word.mul_ok hscaled, bind, Except.bind, pure, Except.pure]
  have hwidth : e.signalWidth = .ok (e.ticks * 1075 / 1000) := by
    simp [Etu.signalWidth, Word.mul_ok hroom, bind, Except.bind, pure, Except.pure]
  have hstop : e.ticks * 46 / 100 + e.ticks * 1075 / 1000 < Width.bits32.size := by omega
  apply Maintains.bind_checked hdelay
  apply Maintains.bind_ok (waitAt_maintains hl (by omega))
  intro _
  apply Maintains.bind_ok (Maintains.lift (hl.drive .low))
  intro _
  apply Maintains.bind_checked hwidth
  apply Maintains.bind_checked (Word.add_ok hstop)
  apply Maintains.bind_ok (waitAt_maintains hl (by omega))
  intro _
  apply Maintains.bind_ok (Maintains.lift hl.release)
  intro _
  exact Maintains.lift (Maintains.note _)

/-- A reception that may signal an error needs room for the timing of the signal. -/
theorem receive_maintains (hroom : e.ticks * 10 < Width.bits32.size) (c : Convention)
    {maxWait : Nat} (hlimit : maxWait ≠ 0) {signal : Bool}
    (hsignal : signal = true → e.ticks * 1075 < Width.bits32.size) :
    ((Link.mk l e).receive c maxWait signal).run.Maintains P := by
  have hhalf : e.half ≤ e.ticks := Nat.div_le_self _ _
  have hstart : e.ticks * 0 + e.half < Width.bits32.size := by omega
  have hawait : ((Link.mk l e).awaitStartBit maxWait).run.Maintains P := by
    unfold Link.awaitStartBit
    rw [if_neg hlimit]
    exact pollStart_maintains hl (Maintains.throw _) maxWait
  apply Maintains.bind_ok hawait
  intro _
  apply Maintains.bind_ok (Maintains.lift hl.startTimer)
  intro _
  apply Maintains.bind_ok (waitAt_maintains hl hstart)
  intro _
  apply Maintains.bind_ok (Maintains.lift hl.sample)
  intro level
  cases level with
  | high => exact Maintains.throw _
  | low =>
    apply Maintains.bind_ok (sampleBits_maintains hl hroom (Nat.le_refl 9))
    intro bits
    have hend : ((Link.mk l e).waitAt 10 0).run.Maintains P := waitAt_maintains hl hroom
    rcases decode bits c with ⟨byte, intact⟩
    have hrest : (do
        (Link.mk l e).waitAt 10 0
        pure ⟨byte, intact⟩ : LinkRun σ Reception).run.Maintains P :=
      Maintains.bind_ok hend fun _ => Maintains.ok _
    cases hcase : !intact && signal with
    | false => simpa [hcase] using hrest
    | true =>
      have hwide := hsignal (Bool.and_eq_true_iff.1 hcase).2
      simp only [hcase, ↓reduceIte]
      exact Maintains.bind_ok (signalError_maintains hl hwide byte) fun _ => hrest

theorem receiveSilently_maintains (hroom : e.ticks * 10 < Width.bits32.size) (c : Convention)
    {maxWait : Nat} (hlimit : maxWait ≠ 0) :
    ((Link.mk l e).receiveSilently c maxWait).run.Maintains P :=
  receive_maintains hl hroom c hlimit nofun

/-! ## Sending -/

section Sending

variable (hroom : e.ticks * 13 < Width.bits32.size)

include hroom

theorem waitTo_maintains {n : Nat} (hn : n ≤ 13) : ((Link.mk l e).waitAt n 0).run.Maintains P := by
  have hticks : e.ticks * n ≤ e.ticks * 13 := Nat.mul_le_mul_left _ hn
  exact waitAt_maintains hl (by omega)

theorem driveFrom_maintains {i : Nat} (levels : List Level) (hi : i + levels.length ≤ 13) :
    ((Link.mk l e).driveFrom i levels).run.Maintains P := by
  induction levels generalizing i with
  | nil => exact Maintains.ok _
  | cons level rest ih =>
    rw [List.length_cons] at hi
    apply Maintains.bind_ok (waitTo_maintains hl hroom (by omega))
    intro _
    apply Maintains.bind_ok (Maintains.lift (hl.drive level))
    intro _
    exact ih (by omega)

theorem sendFrame_maintains (f : Frame) : ((Link.mk l e).sendFrame f).run.Maintains P := by
  apply Maintains.bind_ok (Maintains.lift hl.clockRunning)
  intro clock
  cases clock with
  | false => exact Maintains.throw _
  | true =>
    apply Maintains.bind_ok (Maintains.lift hl.startTimer)
    intro _
    apply Maintains.bind_ok (driveFrom_maintains hl hroom f.toList (by simp))
    intro _
    apply Maintains.bind_ok (waitTo_maintains hl hroom (by decide))
    intro _
    exact Maintains.lift hl.release

theorem send_maintains (b : UInt8) (c : Convention) :
    ((Link.mk l e).send b c).run.Maintains P := by
  apply Maintains.bind_ok (sendFrame_maintains hl hroom _)
  intro _
  apply Maintains.bind_ok (waitTo_maintains hl hroom (by decide))
  intro _
  apply Maintains.bind_ok (Maintains.lift hl.sample)
  intro level
  cases level with
  | high => exact waitTo_maintains hl hroom (by decide)
  | low =>
    apply Maintains.bind_ok (waitTo_maintains hl hroom (by decide))
    intro _
    apply Maintains.bind_ok (Maintains.lift (Maintains.note _))
    intro _
    exact Maintains.throw _

end Sending

end Exchanges

end CardTap
