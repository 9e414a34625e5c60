import CardTap.Line.Shared
import CardTap.Proofs.Frame
import CardTap.Proofs.Keeps

/-!
# Sender and receiver agree

Both ends count bit periods from the start of the frame, but each from its own idea of when that
was: the receiver is late by the latency of its poll, less than half a bit period.  All of its
samples fall into the bit period they are meant for, and its error signal covers the tick at which
the sender looks for it, for every ETU of at least three ticks.  The sender drives the same levels
whatever it hears, so what each end does is settled: first the frame, then what the receiver makes
of it, then what the sender makes of that (`Transfer.ends_agree`).
-/

namespace CardTap

open CardTap.Run

/-! ## Ticks -/

section Ticks

variable {e : Etu}

theorem Etu.etus_ok {n : Nat} (h : e.ticks * n < Width.bits32.size) :
    e.etus n = .ok (e.ticks * n) :=
  Word.mul_ok h

theorem Etu.signalDelay_ok (h : e.ticks * 46 < Width.bits32.size) :
    e.signalDelay = .ok (e.ticks * 46 / 100) := by
  rw [Etu.signalDelay, Word.mul_ok h]
  rfl

theorem Etu.signalWidth_ok (h : e.ticks * 1075 < Width.bits32.size) :
    e.signalWidth = .ok (e.ticks * 1075 / 1000) := by
  rw [Etu.signalWidth, Word.mul_ok h]
  rfl

end Ticks

/-! ## One end -/

theorem Level.wired_high (level : Level) : Level.wired .high level = level := by
  cases level <;> rfl

namespace Tap

section Operations

variable (t : Tap)

theorem waitFor_returns (ticks : Nat) : (line.waitFor ticks).Returns t true (t.waited ticks) :=
  Returns.step (fun t : Tap => (true, t.waited ticks)) t

theorem clockRunning_returns : line.clockRunning.Returns t true t := Returns.pure true t

theorem resetHeld_returns : line.resetHeld.Returns t false t := Returns.pure false t

theorem startTimer_returns : line.startTimer.Returns t () t.restarted := Returns.change restarted t

theorem drive_returns (level : Level) : (line.drive level).Returns t () (t.driveTo level) :=
  Returns.change (fun t : Tap => t.driveTo level) t

theorem release_returns : line.release.Returns t () (t.driveTo .high) :=
  Returns.change (fun t : Tap => t.driveTo .high) t

theorem sample_returns : line.sample.Returns t t.sampled.1 t.sampled.2 := Returns.step sampled t

theorem patience_returns : (Run.read line.patience).Returns t (t.polls.length + 1) t :=
  Returns.read line.patience t

end Operations

section Programs

variable {e : Etu} {t : Tap}

theorem waited_eq {ticks : Nat} (h : t.now ≤ t.epoch + ticks) :
    t.waited ticks = { t with now := t.epoch + ticks } := by
  rw [waited, Nat.max_eq_right h]

theorem waitAt_returns {n extra : Nat} (h : e.ticks * n + extra < Width.bits32.size) (t : Tap) :
    ((Link.mk line e).waitAt n extra).run.Returns t (.ok ())
      (t.waited (e.ticks * n + extra)) := by
  have hetus : e.etus n = .ok (e.ticks * n) := Etu.etus_ok (by omega)
  refine Returns.bind_ok (Returns.lift (Returns.checked hetus t)) ?_
  refine Returns.bind_ok (Returns.lift (Returns.checked (Word.add_ok h) t)) ?_
  exact Returns.bind_ok (Returns.lift (waitFor_returns t _)) (Returns.ok () _)

/-- The changes to a row of levels, one after each period from a tick on, in front of the older
ones. -/
def changes (period : Nat) : Nat → List Level → List (Nat × Level) → List (Nat × Level)
  | _, [], older => older
  | tick, level :: rest, older => changes period (tick + period) rest ((tick, level) :: older)

theorem lasting_changes_before {period tick first : Nat} (levels : List Level)
    (older : List (Nat × Level)) (h : tick < first) :
    Level.lasting (changes period first levels older) tick = Level.lasting older tick := by
  induction levels generalizing first older with
  | nil => rfl
  | cons level rest ih =>
    rw [changes, ih _ (Nat.lt_add_right period h), Level.lasting, if_neg (Nat.not_le.2 h)]

/-- Each level lasts for its period. -/
theorem lasting_changes {period tick first k : Nat} {levels : List Level}
    (older : List (Nat × Level)) (hk : k < levels.length) (hfrom : first + period * k ≤ tick)
    (hto : tick < first + period * k + period) :
    Level.lasting (changes period first levels older) tick = levels[k] := by
  induction levels generalizing first k older with
  | nil => exact absurd hk (Nat.not_lt_zero _)
  | cons level rest ih =>
    rw [changes]
    cases k with
    | zero =>
      rw [Nat.mul_zero, Nat.add_zero] at hfrom hto
      rw [lasting_changes_before _ _ hto, Level.lasting, if_pos hfrom]
      rfl
    | succ k =>
      rw [Nat.mul_succ] at hfrom hto
      exact ih _ (Nat.lt_of_succ_lt_succ hk) (by omega) (by omega)

theorem driveFrom_returns {i : Nat} (levels : List Level)
    (hfit : e.ticks * (i + levels.length) < Width.bits32.size)
    (hnow : t.now ≤ t.epoch + e.ticks * i) :
    ∃ now, now ≤ t.epoch + e.ticks * (i + levels.length) ∧
      ((Link.mk line e).driveFrom i levels).run.Returns t (.ok ())
        { t with now, driven := changes e.ticks (t.epoch + e.ticks * i) levels t.driven } := by
  induction levels generalizing i t with
  | nil => exact ⟨t.now, hnow, Returns.ok () t⟩
  | cons level rest ih =>
    have hlen : i + (level :: rest).length = i + 1 + rest.length := by
      rw [List.length_cons]
      omega
    have hi : e.ticks * i ≤ e.ticks * (i + 1 + rest.length) := Nat.mul_le_mul_left _ (by omega)
    have hnext : e.ticks * (i + 1) = e.ticks * i + e.ticks := Nat.mul_succ _ _
    rw [hlen] at hfit ⊢
    let t' : Tap := (t.waited (e.ticks * i + 0)).driveTo level
    have hnow' : t'.now = t.epoch + e.ticks * i := Nat.max_eq_right hnow
    obtain ⟨now, hle, hrest⟩ := ih (t := t') (i := i + 1) hfit (by
      show t'.now ≤ t.epoch + e.ticks * (i + 1)
      omega)
    refine ⟨now, hle, ?_⟩
    have hchanges : changes e.ticks (t'.epoch + e.ticks * (i + 1)) rest t'.driven =
        changes e.ticks (t.epoch + e.ticks * i) (level :: rest) t.driven := by
      show changes e.ticks (t.epoch + e.ticks * (i + 1)) rest ((t'.now, level) :: t.driven) = _
      rw [changes, hnow', hnext, Nat.add_assoc]
    rw [hchanges] at hrest
    refine Returns.bind_ok (waitAt_returns (by omega) t) ?_
    exact Returns.bind_ok (Returns.lift (drive_returns _ level)) hrest

/-- An idle end polls once at the tick of its next poll, and goes on if the line is high then. -/
theorem pollStart_step {outlasted : LinkRun Tap Unit} {n tick : Nat} {polls : List Nat}
    {r : Except LinkError Unit} {t' : Tap} (hpolls : t.polls = tick :: polls)
    (hidle : t.driven = [])
    (hrest : (if (t.peer tick).isLow then pure () else
      (Link.mk line e).pollStart outlasted n).run.Returns { t with now := tick, polls } r t') :
    ((Link.mk line e).pollStart outlasted (n + 1)).run.Returns t r t' := by
  have hfound : t.sampled = (t.peer tick, { t with now := tick, polls }) := by
    rw [sampled, hpolls]
    simp only [level, signal, hidle, Level.lasting]
    rw [Level.wired_high]
  refine Returns.bind_ok (Returns.lift (clockRunning_returns _)) ?_
  simp only [↓reduceIte]
  refine Returns.bind_ok (Returns.lift (resetHeld_returns _)) ?_
  simp only [Bool.false_eq_true, ↓reduceIte]
  refine Returns.bind_ok (Returns.lift (sample_returns _)) ?_
  rw [hfound]
  exact hrest

/-- The polls before the falling edge find the line high, the one behind it finds it low. -/
theorem pollStart_returns (outlasted : LinkRun Tap Unit) {n first : Nat} {earlier : List Nat}
    (hpolls : t.polls = earlier ++ [first]) (hidle : t.driven = [])
    (hhigh : ∀ tick ∈ earlier, t.peer tick = .high) (hlow : t.peer first = .low)
    (hn : earlier.length < n) :
    ((Link.mk line e).pollStart outlasted n).run.Returns t (.ok ())
      { t with now := first, polls := [] } := by
  induction earlier generalizing t n with
  | nil =>
    obtain ⟨n, rfl⟩ : ∃ k, n = k + 1 := ⟨n - 1, (Nat.sub_add_cancel hn).symm⟩
    refine pollStart_step hpolls hidle ?_
    rw [hlow]
    exact Returns.ok () _
  | cons tick earlier ih =>
    obtain ⟨n, rfl⟩ : ∃ k, n = k + 1 := ⟨n - 1, by omega⟩
    refine pollStart_step hpolls hidle ?_
    rw [hhigh tick List.mem_cons_self]
    exact ih (t := { t with now := tick, polls := earlier ++ [first] }) rfl hidle
      (fun p hp => hhigh p (List.mem_cons_of_mem _ hp)) hlow (Nat.lt_of_succ_lt_succ hn)

end Programs

end Tap

/-! ## The sender -/

namespace Transfer

variable (x : Transfer)

/-- The latency is less than half a bit period, the ticks have room in their words, and the receiver
polls until the frame starts. -/
structure Fits : Prop where
  lowest : 3 ≤ x.etu.ticks
  highest : 1075 * x.etu.ticks < Width.bits32.size
  latency : x.latency < x.etu.ticks - x.etu.ticks / 2
  earlier : ∀ tick ∈ x.earlier, tick < x.start
  patient : x.maxWait = 0 ∨ x.earlier.length < x.maxWait

/-- Two ends that each ran its program facing what the other one drove. -/
structure Meets (sender receiver : Tap) : Prop where
  sends : sender = machineAfter x.send (x.sending receiver.signal)
  receives : receiver = machineAfter x.receive (x.receiving sender.signal)

section Sender

/-- The changes of the level that the sender drives. -/
def sent : List (Nat × Level) :=
  (x.start + x.etu.ticks * 10, .high) :: Tap.changes x.etu.ticks x.start x.frame.toList []

/-- The sender behind its frame. -/
def sender (peer : Nat → Level) (now : Nat) : Tap :=
  { now, epoch := x.start, driven := x.sent, peer }

theorem lasting_sent_before {tick : Nat} (h : tick < x.start) :
    Level.lasting x.sent tick = .high := by
  rw [sent, Level.lasting, if_neg (by omega), Tap.lasting_changes_before _ _ h, Level.lasting]

theorem lasting_sent {tick k : Nat} (hk : k < 10) (hfrom : x.start + x.etu.ticks * k ≤ tick)
    (hto : tick < x.start + x.etu.ticks * k + x.etu.ticks) :
    Level.lasting x.sent tick = x.frame[k] := by
  have hend : x.etu.ticks * (k + 1) ≤ x.etu.ticks * 10 := Nat.mul_le_mul_left _ hk
  rw [Nat.mul_succ] at hend
  rw [sent, Level.lasting, if_neg (by omega), Tap.lasting_changes [] (by simpa using hk) hfrom hto]
  simp

theorem lasting_sent_behind {tick : Nat} (h : x.start + x.etu.ticks * 10 ≤ tick) :
    Level.lasting x.sent tick = .high := by
  rw [sent, Level.lasting, if_pos h]

variable {x}

theorem Fits.lt_size (h : x.Fits) {n : Nat} (hn : n ≤ 1075) :
    x.etu.ticks * n < Width.bits32.size := by
  have := Nat.mul_le_mul_left x.etu.ticks hn
  have := h.highest
  omega

theorem Fits.waitAt_returns (h : x.Fits) {n : Nat} (hn : n ≤ 13) (t : Tap) :
    (x.link.waitAt n 0).run.Returns t (.ok ()) (t.waited (x.etu.ticks * n)) :=
  Tap.waitAt_returns (h.lt_size (Nat.le_trans hn (by decide))) t

theorem sendFrame_returns (h : x.Fits) (peer : Nat → Level) :
    (x.link.sendFrame x.frame).run.Returns (x.sending peer) (.ok ())
      (x.sender peer (x.start + x.etu.ticks * 10)) := by
  have hlen : x.frame.toList.length = 10 := Vector.length_toList
  obtain ⟨now, hnow, hdrive⟩ := Tap.driveFrom_returns (t := (x.sending peer).restarted)
    (e := x.etu) (i := 0) x.frame.toList (by rw [hlen]; exact h.lt_size (by decide)) (by
      show x.start ≤ x.start + x.etu.ticks * 0
      omega)
  have hend : max now (x.start + x.etu.ticks * 10) = x.start + x.etu.ticks * 10 := by
    rw [hlen] at hnow
    exact Nat.max_eq_right hnow
  refine Returns.bind_ok (Returns.lift (Tap.clockRunning_returns _)) ?_
  simp only [↓reduceIte]
  refine Returns.bind_ok (Returns.lift (Tap.startTimer_returns _)) (Returns.bind_ok hdrive ?_)
  refine Returns.bind_ok (h.waitAt_returns (by decide) _) ?_
  have hdone : ((Tap.mk now x.start (Tap.changes x.etu.ticks x.start x.frame.toList []) peer [] []
      ).waited (x.etu.ticks * 10)).driveTo .high =
      x.sender peer (x.start + x.etu.ticks * 10) := by
    simp only [Tap.waited, Tap.driveTo, hend, sender, sent]
  rw [← hdone]
  exact Returns.lift (Tap.release_returns _)

/-- The sender's sample at eleven bit periods finds what the other end drives. -/
theorem sampled_sender (peer : Nat → Level) {tick : Nat} (h : x.start + x.etu.ticks * 10 ≤ tick) :
    (x.sender peer tick).sampled = (peer tick, x.sender peer tick) := by
  have hheard : (x.sender peer tick).level = peer tick := by
    rw [Tap.level, Tap.signal, sender, lasting_sent_behind x h, Level.wired_high]
  show ((x.sender peer tick).level, _) = _
  rw [hheard]
  rfl

theorem waited_sender (peer : Nat → Level) {now k : Nat} (h : now ≤ x.start + k) :
    (x.sender peer now).waited k = x.sender peer (x.start + k) :=
  Tap.waited_eq h

/-- Whatever it hears, the sender drives its frame; it is rejected if the line is low at eleven bit
periods, and returns at thirteen then and at twelve otherwise. -/
theorem send_returns (h : x.Fits) (peer : Nat → Level) :
    x.send.Returns (x.sending peer)
      (if (peer (x.start + x.etu.ticks * 11)).isLow then .error .rejected else .ok ())
      (x.sender peer (x.start +
        x.etu.ticks * if (peer (x.start + x.etu.ticks * 11)).isLow then 13 else 12)) := by
  have hsample : x.start + x.etu.ticks * 10 ≤ x.start + x.etu.ticks * 11 := by omega
  refine Returns.bind_ok (sendFrame_returns h peer) ?_
  refine Returns.bind_ok (h.waitAt_returns (by decide) _) ?_
  rw [waited_sender peer hsample]
  refine Returns.bind_ok (Returns.lift (Tap.sample_returns _)) ?_
  rw [sampled_sender peer hsample]
  cases peer (x.start + x.etu.ticks * 11) with
  | low =>
    simp only [Level.isLow, ↓reduceIte]
    refine Returns.bind_ok (h.waitAt_returns (by decide) _) ?_
    rw [waited_sender peer (by omega)]
    refine Returns.bind_ok (Returns.lift (Returns.note _ _)) ?_
    exact Returns.throw _ _
  | high =>
    simp only [Level.isLow, Bool.false_eq_true, ↓reduceIte]
    have hguard : x.start + x.etu.ticks * 11 ≤ x.start + x.etu.ticks * 12 := by omega
    rw [← waited_sender peer hguard]
    exact h.waitAt_returns (by decide) _

end Sender

/-! ## The receiver -/

section Receiver

variable (x : Transfer)

/-- The receiver behind its polls, before it drives the line. -/
def listening (now : Nat) (noise : List Bool) : Tap :=
  { now, epoch := x.start + x.latency, peer := Level.lasting x.sent, noise }

/-- When the error signal starts. -/
def errorFrom : Nat := x.start + x.latency + (x.etu.ticks * 10 + x.etu.ticks * 46 / 100)

/-- When the error signal ends. -/
def errorTo : Nat := x.errorFrom + x.etu.ticks * 1075 / 1000

/-- The receiver in the end: it drove the line only if the parity bit did not agree. -/
def receiver (intact : Bool) : Tap :=
  if intact then x.listening (x.start + x.latency + x.etu.ticks * 10) []
  else
    { x.listening x.errorTo [] with driven := [(x.errorTo, .high), (x.errorFrom, .low)] }

theorem waited_listening {now k : Nat} (noise : List Bool) (h : now ≤ x.start + x.latency + k) :
    (x.listening now noise).waited k = x.listening (x.start + x.latency + k) noise :=
  Tap.waited_eq h

/-- A sample finds the level of the bit period that it falls into, or the other one. -/
theorem sampled_listening {now k : Nat} (noise : List Bool) (hk : k < 10)
    (hfrom : x.start + x.etu.ticks * k ≤ now)
    (hto : now < x.start + x.etu.ticks * k + x.etu.ticks) :
    (x.listening now noise).sampled =
      (if noise.headD false then x.frame[k].flip else x.frame[k],
        x.listening now noise.tail) := by
  have hheard : (x.listening now noise).level = x.frame[k] := by
    rw [Tap.level, Tap.signal, listening, Level.lasting, Level.wired_high]
    exact lasting_sent x hk hfrom hto
  show (if noise.headD false then (x.listening now noise).level.flip
    else (x.listening now noise).level, _) = _
  rw [hheard]
  rfl

variable {x}

theorem awaitStartBit_returns (h : x.Fits) :
    (x.link.awaitStartBit x.maxWait).run.Returns (x.receiving (Level.lasting x.sent)) (.ok ())
      { x.receiving (Level.lasting x.sent) with now := x.start + x.latency, polls := [] } := by
  have hlate := h.latency
  have hlow : Level.lasting x.sent (x.start + x.latency) = .low :=
    lasting_sent x (k := 0) (by decide) (by omega) (by omega)
  have hpoll (outlasted : LinkRun Tap Unit) {n : Nat} (hn : x.earlier.length < n) :=
    Tap.pollStart_returns (e := x.etu) (t := x.receiving (Level.lasting x.sent)) outlasted rfl rfl
      (fun tick htick => lasting_sent_before x (h.earlier tick htick)) hlow hn
  unfold Link.awaitStartBit
  by_cases hwait : x.maxWait = 0
  · rw [if_pos hwait]
    refine Returns.bind_ok (Returns.lift (Tap.patience_returns _)) (hpoll _ ?_)
    rw [receiving, List.length_append, List.length_singleton]
    omega
  · rw [if_neg hwait]
    exact hpoll _ (h.patient.resolve_left hwait)

theorem Fits.waitAt_half_returns (h : x.Fits) {n : Nat} (hn : n ≤ 9) (t : Tap) :
    (x.link.waitAt n x.etu.half).run.Returns t (.ok ())
      (t.waited (x.etu.ticks * n + x.etu.half)) := by
  have hfit := h.lt_size (show n + 1 ≤ 1075 by omega)
  rw [Nat.mul_succ] at hfit
  have hhalf : x.etu.half ≤ x.etu.ticks := Nat.div_le_self _ _
  exact Tap.waitAt_returns (by omega) t

/-- The middle of a bit period, late by the latency, lies in the bit period. -/
theorem Fits.middle (h : x.Fits) (k : Nat) :
    x.start + x.etu.ticks * k ≤ x.start + x.latency + (x.etu.ticks * k + x.etu.half) ∧
      x.start + x.latency + (x.etu.ticks * k + x.etu.half) <
        x.start + x.etu.ticks * k + x.etu.ticks := by
  have hlate := h.latency
  unfold Etu.half
  omega

theorem getElem_noisy (x : Transfer) {k : Nat} (hk : k < 9) :
    x.noisy[k] = if (x.noise.toList.drop k).headD false then x.frame.bits[k].flip
      else x.frame.bits[k] := by
  have hnoise : (x.noise.toList.drop k).headD false = x.noise[k] := by
    rw [List.headD_eq_head?_getD, List.head?_drop, List.getElem?_eq_getElem (by simpa using hk)]
    simp
  rw [hnoise, noisy, Vector.getElem_ofFn, Frame.getElem_bits]

/-- Every sample falls into its own bit period. -/
theorem sampleBits_returns (h : x.Fits) {n : Nat} (hn : n ≤ 9) :
    (x.link.sampleBits n).run.Returns
      (x.listening (x.start + x.latency + x.etu.half) x.noise.toList)
      (.ok (Vector.ofFn fun i : Fin n => x.noisy[i.val]))
      (x.listening (x.start + x.latency + (x.etu.ticks * n + x.etu.half))
        (x.noise.toList.drop n)) := by
  induction n with
  | zero =>
    rw [Nat.mul_zero, Nat.zero_add, List.drop_zero]
    exact Returns.ok _ _
  | succ n ih =>
    have hlater : x.etu.ticks * n + x.etu.half ≤ x.etu.ticks * (n + 1) + x.etu.half := by
      rw [Nat.mul_succ]
      omega
    obtain ⟨hfrom, hto⟩ := h.middle (n + 1)
    have hpush : (Vector.ofFn fun i : Fin n => x.noisy[i.val]).push x.noisy[n] =
        Vector.ofFn fun i : Fin (n + 1) => x.noisy[i.val] := by
      ext i hi
      rw [Vector.getElem_push, Vector.getElem_ofFn]
      split
      · rw [Vector.getElem_ofFn]
      · simp only [show i = n by omega]
    refine Returns.bind_ok (ih (by omega)) (Returns.bind_ok (h.waitAt_half_returns hn _) ?_)
    rw [waited_listening x _ (by omega)]
    refine Returns.bind_ok (Returns.lift (Tap.sample_returns _)) ?_
    rw [sampled_listening x _ (by omega) hfrom hto, List.tail_drop, ← Frame.getElem_bits _ hn,
      ← getElem_noisy x hn, hpush]
    exact Returns.ok _ _

/-- The error signal of a receiver. -/
theorem signalError_returns (h : x.Fits) (byte : UInt8) {now : Nat} (hnow : now ≤ x.errorFrom) :
    (x.link.signalError byte).run.Returns (x.listening now []) (.ok ()) (x.receiver false) := by
  have hdelay : x.etu.signalDelay = .ok (x.etu.ticks * 46 / 100) :=
    Etu.signalDelay_ok (h.lt_size (by decide))
  have hwidth : x.etu.signalWidth = .ok (x.etu.ticks * 1075 / 1000) :=
    Etu.signalWidth_ok (h.lt_size (by decide))
  have hfit : x.etu.ticks * 10 + (x.etu.ticks * 46 / 100 + x.etu.ticks * 1075 / 1000) <
      Width.bits32.size := by
    have := h.lt_size (show 12 ≤ 1075 by decide)
    omega
  have hend : x.errorTo = x.start + x.latency + (x.etu.ticks * 10 +
      (x.etu.ticks * 46 / 100 + x.etu.ticks * 1075 / 1000)) := by
    unfold errorTo errorFrom
    omega
  refine Returns.bind_ok (Returns.lift (Returns.checked hdelay _)) ?_
  refine Returns.bind_ok (Tap.waitAt_returns (by omega) _) ?_
  rw [waited_listening x _ hnow]
  refine Returns.bind_ok (Returns.lift (Tap.drive_returns _ _)) ?_
  refine Returns.bind_ok (Returns.lift (Returns.checked hwidth _)) ?_
  refine Returns.bind_ok (Returns.lift (Returns.checked (Word.add_ok (by omega)) _)) ?_
  refine Returns.bind_ok (Tap.waitAt_returns hfit _) ?_
  refine Returns.bind_ok (Returns.lift (Tap.release_returns _)) ?_
  have hdone : (((x.listening x.errorFrom []).driveTo .low).waited (x.etu.ticks * 10 +
      (x.etu.ticks * 46 / 100 + x.etu.ticks * 1075 / 1000))).driveTo .high =
      x.receiver false := by
    have hmax : max x.errorFrom x.errorTo = x.errorTo :=
      Nat.max_eq_right (Nat.le_add_right _ _)
    simp only [Tap.driveTo, Tap.waited, listening, receiver, ← hend, hmax, Bool.false_eq_true,
      ↓reduceIte]
  rw [← hdone]
  exact Returns.lift (Returns.note _ _)

/-- The receiver returns what the noisy levels decode to, and drives the line only to signal an
error. -/
theorem receive_returns (h : x.Fits) :
    x.receive.Returns (x.receiving (Level.lasting x.sent))
      (.ok ⟨(decode x.noisy x.convention).1, (decode x.noisy x.convention).2⟩)
      (x.receiver (decode x.noisy x.convention).2) := by
  have hhalf : x.etu.ticks * 0 + x.etu.half = x.etu.half := by rw [Nat.mul_zero, Nat.zero_add]
  have hmiddle : x.etu.half ≤ x.etu.ticks := Nat.div_le_self _ _
  obtain ⟨hfrom, hto⟩ := h.middle 0
  rw [hhalf] at hfrom hto
  have hstarted : Tap.restarted { x.receiving (Level.lasting x.sent) with
      now := x.start + x.latency, polls := [] } =
      x.listening (x.start + x.latency) (false :: x.noise.toList) := rfl
  have hlow : (x.listening (x.start + x.latency + x.etu.half) (false :: x.noise.toList)).sampled =
      (.low, x.listening (x.start + x.latency + x.etu.half) x.noise.toList) := by
    rw [sampled_listening x _ (by decide) hfrom hto]
    rfl
  have hbits : (Vector.ofFn fun i : Fin 9 => x.noisy[i.val]) = x.noisy := Vector.ofFn_getElem
  have hnoise : x.noise.toList.drop 9 = [] := List.drop_eq_nil_of_le (by simp)
  have hread := sampleBits_returns h (Nat.le_refl 9)
  rw [hbits, hnoise] at hread
  refine Returns.bind_ok (awaitStartBit_returns h) ?_
  refine Returns.bind_ok (Returns.lift (Tap.startTimer_returns _)) ?_
  refine Returns.bind_ok (h.waitAt_half_returns (by decide) _) ?_
  rw [hstarted, hhalf, waited_listening x _ (Nat.le_add_right _ _)]
  refine Returns.bind_ok (Returns.lift (Tap.sample_returns _)) ?_
  rw [hlow]
  simp only [Level.isHigh, Bool.false_eq_true, ↓reduceIte]
  refine Returns.bind_ok hread ?_
  cases decode x.noisy x.convention with
  | mk byte intact =>
    cases intact with
    | false =>
      have herror : x.start + x.latency + (x.etu.ticks * 9 + x.etu.half) ≤ x.errorFrom := by
        unfold errorFrom
        omega
      have hlate : (x.receiver false).waited (x.etu.ticks * 10) = x.receiver false := by
        have hpast : x.start + x.latency + x.etu.ticks * 10 ≤ x.errorTo := by
          unfold errorTo errorFrom
          omega
        simp only [Tap.waited, receiver, listening, Bool.false_eq_true, ↓reduceIte,
          Nat.max_eq_left hpast]
      simp only [Bool.not_false, Bool.and_true, ↓reduceIte]
      refine Returns.bind_ok (signalError_returns h byte herror) ?_
      refine Returns.bind_ok (h.waitAt_returns (by decide) _) ?_
      rw [hlate]
      exact Returns.ok _ _
    | true =>
      simp only [Bool.not_true, Bool.and_true, Bool.false_eq_true, ↓reduceIte]
      refine Returns.bind_ok (h.waitAt_returns (by decide) _) ?_
      rw [waited_listening x _ (by omega)]
      exact Returns.ok _ _

end Receiver

/-! ## Both ends -/

section Both

variable {x : Transfer}

/-- What the receiver drives, at every tick. -/
theorem signal_receiver (x : Transfer) (intact : Bool) (tick : Nat) :
    (x.receiver intact).signal tick =
      if intact = false ∧ x.errorFrom ≤ tick ∧ tick < x.errorTo then .low else .high := by
  cases intact with
  | true => simp [receiver, Tap.signal, listening, Level.lasting]
  | false =>
    simp only [receiver, Tap.signal, Bool.false_eq_true, ↓reduceIte, Level.lasting, true_and]
    by_cases hto : x.errorTo ≤ tick
    · rw [if_pos hto, if_neg (by omega)]
    · by_cases hfrom : x.errorFrom ≤ tick
      · rw [if_neg hto, if_pos hfrom, if_pos ⟨hfrom, Nat.lt_of_not_le hto⟩]
      · rw [if_neg hto, if_neg hfrom, if_neg (by omega)]

/-- The error signal covers the tick at which the sender looks for it, and is over when a rejected
sender returns. -/
theorem Fits.errorSignal (h : x.Fits) :
    x.errorFrom ≤ x.start + x.etu.ticks * 11 ∧ x.start + x.etu.ticks * 11 < x.errorTo ∧
      x.errorTo ≤ x.start + x.etu.ticks * 13 := by
  have hlow := h.lowest
  have hlate := h.latency
  have hdelay : 1 ≤ x.etu.ticks * 46 / 100 ∧ x.etu.ticks * 46 / 100 ≤ x.etu.ticks / 2 := by omega
  have hwidth : x.etu.ticks ≤ x.etu.ticks * 1075 / 1000 ∧
      x.etu.ticks * 1075 / 1000 ≤ x.etu.ticks * 2 := by omega
  unfold errorTo errorFrom
  omega

/-- The sender's sample tells it whether the parity bit agreed. -/
theorem signal_sample (h : x.Fits) (intact : Bool) :
    ((x.receiver intact).signal (x.start + x.etu.ticks * 11)).isLow = !intact := by
  obtain ⟨hfrom, hto, -⟩ := h.errorSignal
  rw [signal_receiver]
  cases intact with
  | true => rfl
  | false =>
    rw [if_pos ⟨rfl, hfrom, hto⟩]
    rfl

/-- **Sender and receiver agree on every character.**  There is exactly one way in which the two
ends can meet on the line.  The receiver returns what the levels decode to that reached it, noise
included, the sender is rejected exactly if their parity bit does not agree, and whatever the
receiver drives is over when a rejected sender returns. -/
theorem ends_agree (h : x.Fits) :
    ∃ sent byte intact sender receiver,
      x.Meets sender receiver ∧ (∀ s r, x.Meets s r → s = sender ∧ r = receiver) ∧
      x.send.Returns (x.sending receiver.signal) sent sender ∧
      x.receive.Returns (x.receiving sender.signal) (.ok ⟨byte, intact⟩) receiver ∧
      (byte, intact) = decode x.noisy x.convention ∧
      (sent = .error .rejected ↔ intact = false) ∧ (sent = .ok () ↔ intact = true) ∧
      (∀ tick, x.start + x.etu.ticks * 13 ≤ tick → receiver.signal tick = .high) ∧
      (sent = .error .rejected → sender.now = x.start + x.etu.ticks * 13) := by
  obtain ⟨byte, intact, hdecode⟩ : ∃ byte intact, (byte, intact) = decode x.noisy x.convention :=
    ⟨_, _, rfl⟩
  have hreceive := receive_returns h
  rw [← hdecode] at hreceive
  have hsend := send_returns h (x.receiver intact).signal
  rw [signal_sample h] at hsend
  refine ⟨_, byte, intact, _, x.receiver intact, ⟨hsend.machineAfter_eq.symm,
    hreceive.machineAfter_eq.symm⟩, fun s r hmeets => ?_, hsend, hreceive, hdecode, ?_, ?_,
    fun tick htick => ?_, ?_⟩
  · -- the sender drives the same whatever it hears, so it settles the receiver, and that the sender
    have hs := hmeets.sends.trans (send_returns h r.signal).machineAfter_eq
    have hr : r = x.receiver intact := by
      rw [hmeets.receives, hs]
      exact hreceive.machineAfter_eq
    exact ⟨by rw [hmeets.sends, hr]; exact hsend.machineAfter_eq, hr⟩
  · cases intact <;> simp
  · cases intact <;> simp
  · have hpast := h.errorSignal.2.2
    rw [signal_receiver, if_neg (by omega)]
  · cases intact with
    | false => exact fun _ => rfl
    | true => exact nofun

/-- A character at the smallest ETU, seen as late as can be, whose first data bit is inverted. -/
def tight : Transfer where
  etu := ⟨3⟩
  byte := 0x3B
  convention := .direct
  start := 5
  earlier := [2, 4]
  latency := 1
  maxWait := 3
  noise := #v[true, false, false, false, false, false, false, false, false]

theorem ends_agree_tight :
    ∃ sender receiver, tight.Meets sender receiver ∧
      tight.send.Returns (tight.sending receiver.signal) (.error .rejected) sender ∧
      tight.receive.Returns (tight.receiving sender.signal) (.ok ⟨0x3A, false⟩) receiver ∧
      sender.now = 44 ∧ receiver.signal 44 = .high := by
  have hfits : tight.Fits := ⟨by decide, by decide, by decide, by decide, .inr (by decide)⟩
  have hdecode : decode tight.noisy tight.convention = (0x3A, false) := by decide
  obtain ⟨sent, byte, intact, sender, receiver, hmeets, -, hsend, hreceive, hread, hrejected, -,
    hover, hnow⟩ := ends_agree hfits
  obtain ⟨rfl, rfl⟩ : byte = 0x3A ∧ intact = false := Prod.mk.inj (hread.trans hdecode)
  have hsent : sent = .error .rejected := hrejected.2 rfl
  subst hsent
  exact ⟨sender, receiver, hmeets, hsend, hreceive, hnow rfl, hover 44 (by decide)⟩

end Both

end Transfer

end CardTap
