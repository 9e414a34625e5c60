import CardTap.Proofs.Bench.Wire.Rest

/-!
# Receiving on the simulated line

The peer starts its next character at the second poll of a port.  Every later sample of the port
falls into the bit period it is meant for, so the port gets the character as it was queued
(`Rests.receive_ends`); with nothing queued it uses up its polls (`Rests.receive_outlasts`).
-/

namespace CardTap.Bench.Wire

open CardTap.Run

variable {w : Wire} {e : Nat} {t : Traffic} {f : Frame} {rest : List Frame} {port : Etu}

/-! ## The line while the peer sends -/

section Hearing

/-- The line `d` ticks after its peer began a character, which it did at the second poll. -/
def hearing (w : Wire) (f : Frame) (rest : List Frame) (d : Nat) (polling : Bool) : Wire :=
  { w with
    now := w.now + 2 + d
    epoch := w.now + 2
    polling
    queued := rest
    active := some (w.now + 2, f)
    lastPeerStart := some (w.now + 2) }

/-- Only the peer drives the line: its level is that of the character being sent. -/
theorem Rests.level_hearing (h : Rests e t w) {d k : Nat} {polling : Bool} (hk : k < 10)
    (hfrom : e * k ≤ d) (hto : d < e * k + e) : (w.hearing f rest d polling).level = .ok f[k] := by
  have hreject : (w.hearing f rest d polling).rejectLow = false := by
    refine rejectLow_eq fun x hx => Nat.le_trans (h.rejected x hx) ?_
    exact Nat.le_trans (Nat.le_add_right w.now 2) (Nat.le_add_right _ _)
  have hdevice : (w.hearing f rest d polling).device = .high := h.device
  have hindex : d / e = k := by
    refine Nat.div_eq_of_lt_le ?_ ?_
    · rwa [Nat.mul_comm]
    · rwa [Nat.succ_mul, Nat.mul_comm]
  have hpeer : (w.hearing f rest d polling).peerLow = .ok f[k].isLow := by
    show (Word.div (w.now + 2 + d - (w.now + 2)) w.etu >>= fun index =>
      pure (f[index]?.any (·.isLow))) = _
    rw [Nat.add_sub_cancel_left, h.etu_eq, Word.div_ok (Nat.pos_iff_ne_zero.1 h.etu_pos), hindex]
    show Except.ok (f[k]?.any (·.isLow)) = _
    rw [Vector.getElem?_eq_getElem hk]
    rfl
  rw [level, hpeer, hreject, hdevice]
  cases f[k] <;> rfl

theorem Rests.sampled_eq (h : Rests e t w) : w.sampled = w.polled 1 :=
  Wire.sampled_eq h.polling (h.etu_eq ▸ h.active)

theorem sampled_polled_nil (hqueue : w.queued = []) (n : Nat) :
    (w.polled n).sampled = w.polled (n + 1) := by
  simp [sampled, polled, tick, startNext, hqueue, Nat.add_assoc]

theorem sampled_polled_cons (hqueue : w.queued = f :: rest) :
    (w.polled 1).sampled = { w.hearing f rest 0 true with epoch := w.epoch } := by
  simp [sampled, polled, hearing, tick, startNext, hqueue, Nat.add_assoc]

theorem Rests.sampled_hearing (h : Rests e t w) {d : Nat} (hd : d + 1 < e * 10) :
    (w.hearing f rest d false).sampled = w.hearing f rest (d + 1) true := by
  have hgoing : ¬ w.now + 2 + w.etu * 10 ≤ w.now + 2 + d + 1 := by
    rw [h.etu_eq]
    omega
  have htick : (w.hearing f rest d false).tick =
      { w.hearing f rest d false with now := w.now + 2 + (d + 1) } :=
    if_neg hgoing
  show ({ (w.hearing f rest d false).tick with polling := true } : Wire) = _
  rw [htick]
  rfl

end Hearing

/-! ## Programs -/

section Programs

/-- One poll for a start bit. -/
theorem pollStart_step {outlasted : LinkRun Wire Unit} {n : Nat} {l : Level}
    {Q : Except LinkError Unit → Wire → Prop} (hclock : w.clock = true) (hreset : w.reset = false)
    (hlevel : w.sampled.level = .ok l)
    (hrest : (if l.isLow then pure () else
      (Link.mk line port).pollStart outlasted n).run.Ends w.sampled Q) :
    ((Link.mk line port).pollStart outlasted (n + 1)).run.Ends w Q := by
  refine Ends.after_ok (Returns.lift (clockRunning_returns w)) ?_
  simp only [hclock, ↓reduceIte]
  refine Ends.after_ok (Returns.lift (resetHeld_returns w)) ?_
  simp only [hreset, Bool.false_eq_true, ↓reduceIte]
  exact Ends.after_ok (Returns.lift (sample_returns hlevel)) hrest

/-- The second poll finds the start bit of the next character. -/
theorem Rests.pollStart_ends (h : Rests e t w) (hqueue : t.queued = f :: rest)
    (hstart : f.Starts) (outlasted : LinkRun Wire Unit) {n : Nat} (hn : 2 ≤ n) :
    ((Link.mk line port).pollStart outlasted n).run.Ends w fun r w' =>
      r = .ok () ∧ w' = { w.hearing f rest 0 true with epoch := w.epoch } := by
  obtain ⟨n, rfl⟩ : ∃ k, n = k + 2 := ⟨n - 2, by omega⟩
  have hfirst : w.sampled.level = .ok .high := by
    rw [h.sampled_eq]
    exact level_polled h.device h.rejected 1
  have hsecond : (w.polled 1).sampled.level = .ok .low := by
    have hlow : (w.hearing f rest 0 true).level = .ok f[0] :=
      h.level_hearing (by decide) (Nat.zero_le _) (Nat.lt_add_left _ h.etu_pos)
    rw [sampled_polled_cons (h.queued_eq.trans hqueue), ← hstart]
    exact hlow
  refine pollStart_step h.clock h.reset hfirst ?_
  rw [h.sampled_eq]
  refine pollStart_step h.clock h.reset hsecond ?_
  rw [sampled_polled_cons (h.queued_eq.trans hqueue)]
  exact Ends.ok ⟨rfl, rfl⟩

/-- The peer has nothing to send: the polls are used up. -/
theorem Rests.pollStart_outlasts (h : Rests e t w) (hqueue : t.queued = []) (n : Nat) :
    ((Link.mk line port).pollStart (throw .timeout) n).run.Ends w fun r w' =>
      r = .error .timeout ∧ w'.traffic = t := by
  have hnil := h.queued_eq.trans hqueue
  have hlater (m k : Nat) :
      ((Link.mk line port).pollStart (throw .timeout) k).run.Ends (w.polled m) fun r w' =>
        r = .error .timeout ∧ w'.traffic = t := by
    induction k generalizing m with
    | zero => exact Ends.throw ⟨rfl, h.traffic_eq⟩
    | succ k ih =>
      have hhigh : (w.polled m).sampled.level = .ok .high := by
        rw [sampled_polled_nil hnil]
        exact level_polled h.device h.rejected (m + 1)
      refine pollStart_step h.clock h.reset hhigh ?_
      rw [sampled_polled_nil hnil]
      exact ih (m + 1)
  cases n with
  | zero => exact Ends.throw ⟨rfl, h.traffic_eq⟩
  | succ n =>
    have hfirst : w.sampled.level = .ok .high := by
      rw [h.sampled_eq]
      exact level_polled h.device h.rejected 1
    refine pollStart_step h.clock h.reset hfirst ?_
    rw [h.sampled_eq]
    exact hlater 1 n

theorem Rests.awaitStartBit_ends (h : Rests e t w) (port : Etu) (hqueue : t.queued = f :: rest)
    (hstart : f.Starts) {maxWait : Nat} (hwait : maxWait = 0 ∨ 2 ≤ maxWait) :
    ((Link.mk line port).awaitStartBit maxWait).run.Ends w fun r w' =>
      r = .ok () ∧ w' = { w.hearing f rest 0 true with epoch := w.epoch } := by
  unfold Link.awaitStartBit
  by_cases hzero : maxWait = 0
  · rw [if_pos hzero]
    refine Ends.after_ok (Returns.lift (Returns.read line.patience w)) ?_
    refine h.pollStart_ends hqueue hstart _ ?_
    exact Nat.le_trans (by decide) (Nat.le_add_left 3 _)
  · rw [if_neg hzero]
    exact h.pollStart_ends hqueue hstart _ (hwait.resolve_left hzero)

/-- Every sample finds the level of its own bit period. -/
theorem Rests.sampleBits_ends (h : Rests e t w) (hport : port.Reads e) {n : Nat} (hn : n ≤ 9)
    {polling : Bool} :
    ((Link.mk line port).sampleBits n).run.Ends (w.hearing f rest (port.half + 1) polling)
      fun r w' => r = .ok (Vector.ofFn fun i : Fin n => f[i.val + 1]) ∧
        ∃ polling, w' = w.hearing f rest (port.ticks * n + port.half + 1) polling := by
  induction n with
  | zero => exact Ends.ok ⟨rfl, polling, by rw [Nat.mul_zero, Nat.zero_add]⟩
  | succ n ih =>
    obtain ⟨hfrom, hto⟩ := hport.sample (show n + 1 < 10 by omega)
    have hlast : port.ticks * (n + 1) + port.half + 1 < e * 10 := by
      have hend := Nat.mul_le_mul_left e (show n + 1 + 1 ≤ 10 by omega)
      rw [Nat.mul_succ e (n + 1)] at hend
      omega
    have hroom := hport.room_for (show n + 1 ≤ 12 by omega) (Nat.div_le_self port.ticks 2)
    refine Ends.bind_ok (ih (by omega)) ?_ ?_
    · rintro bits w' ⟨hbits, polling', rfl⟩
      obtain rfl := Except.ok.inj hbits
      refine Ends.after_ok (waitAt_returns h.clock hroom rfl ?_) ?_
      · show w.now + 2 + (port.ticks * n + port.half + 1) ≤
          w.now + 2 + (port.ticks * (n + 1) + port.half)
        rw [Nat.mul_succ]
        have hpos := Nat.lt_of_lt_of_le h.etu_pos hport.slower
        omega
      · refine Ends.after_ok (Returns.lift (sample_returns (l := f[n + 1]) ?_)) ?_
        · show ((w.hearing f rest (port.ticks * (n + 1) + port.half) false).sampled).level = _
          rw [h.sampled_hearing hlast]
          exact h.level_hearing (by omega) hfrom hto
        · show Ends _ ((w.hearing f rest (port.ticks * (n + 1) + port.half) false).sampled) _
          rw [h.sampled_hearing hlast]
          have hpush : (Vector.ofFn fun i : Fin n => f[i.val + 1]).push f[n + 1] =
              Vector.ofFn fun i : Fin (n + 1) => f[i.val + 1] := by
            rw [Vector.ofFn_succ]
            rfl
          exact Ends.ok ⟨congrArg Except.ok hpush, true, rfl⟩
    · rintro e' w' ⟨hbits, -⟩
      cases hbits

end Programs

/-! ## The error signal -/

section Signal

/-- The line behind an error signal, which the port drove from `a` to `b` ticks after the start of
the character. -/
def complained (w : Wire) (f : Frame) (rest : List Frame) (a b : Nat) : Wire :=
  { w.hearing f rest b false with
    transitions := (w.now + 2 + b, .high) :: (w.now + 2 + a, .low) :: w.transitions
    errorsSignalled := w.errorsSignalled + 1 }

/-- The peer takes a falling edge shortly behind its character for an error signal. -/
theorem Rests.signals (h : Rests e t w) {a : Nat} (ha : a < e * 116 / 10) :
    (w.hearing f rest a false).driveTo .low =
      { w.hearing f rest a false with
        transitions := (w.now + 2 + a, .low) :: w.transitions
        device := .low
        errorsSignalled := w.errorsSignalled + 1 } := by
  have hreceiving : (w.hearing f rest a false).receiving = true := by
    have hetu := h.etu_eq
    simp only [receiving, hearing, hetu, Bool.and_eq_true, decide_eq_true_eq]
    omega
  have hedge : (w.hearing f rest a false).fallingEdge =
      { w.hearing f rest a false with errorsSignalled := w.errorsSignalled + 1 } :=
    if_pos hreceiving
  have hdevice : (w.hearing f rest a false).device = .high := h.device
  exact driveTo_low hdevice hedge hdevice

theorem Rests.signalError_returns (h : Rests e t w) (hport : port.Reads e) (b : UInt8) {d : Nat}
    {polling : Bool} (hd : d ≤ port.ticks * 10 + port.ticks * 46 / 100) :
    ((Link.mk line port).signalError b).run.Returns (w.hearing f rest d polling) (.ok ())
      (w.complained f rest (port.ticks * 10 + port.ticks * 46 / 100)
        (port.ticks * 10 + (port.ticks * 46 / 100 + port.ticks * 1075 / 1000))) := by
  obtain ⟨hinside, hfit⟩ := hport.signal
  have hroom := hport.room
  have hdelay : port.signalDelay = .ok (port.ticks * 46 / 100) := Etu.signalDelay_ok (by omega)
  have hwidth : port.signalWidth = .ok (port.ticks * 1075 / 1000) := Etu.signalWidth_ok (by omega)
  refine Returns.bind_ok (Returns.lift (Returns.checked hdelay _)) ?_
  refine Returns.bind_ok (waitAt_returns h.clock (by omega) rfl (Nat.add_le_add_left hd _)) ?_
  refine Returns.bind_ok (Returns.lift (drive_returns _ _ rfl)) ?_
  show Returns _ ((w.hearing f rest (port.ticks * 10 + port.ticks * 46 / 100) false).driveTo .low)
    _ _
  rw [h.signals hinside]
  refine Returns.bind_ok (Returns.lift (Returns.checked hwidth _)) ?_
  refine Returns.bind_ok (Returns.lift (Returns.checked (Word.add_ok (by omega)) _)) ?_
  refine Returns.bind_ok (waitAt_returns h.clock hfit rfl ?_) ?_
  · show w.now + 2 + (port.ticks * 10 + port.ticks * 46 / 100) ≤ w.now + 2 +
      (port.ticks * 10 + (port.ticks * 46 / 100 + port.ticks * 1075 / 1000))
    omega
  · refine Returns.bind_ok (Returns.lift (release_returns _ rfl)) ?_
    have hdone : ({ w.hearing f rest (port.ticks * 10 + (port.ticks * 46 / 100 +
        port.ticks * 1075 / 1000)) false with
        transitions := (w.now + 2 + (port.ticks * 10 + port.ticks * 46 / 100), .low) ::
          w.transitions
        device := .low
        errorsSignalled := w.errorsSignalled + 1 } : Wire).driveTo .high =
        w.complained f rest (port.ticks * 10 + port.ticks * 46 / 100)
          (port.ticks * 10 + (port.ticks * 46 / 100 + port.ticks * 1075 / 1000)) := by
      simp only [driveTo, complained, hearing, Level.isLow, Bool.false_and, Bool.false_eq_true,
        ↓reduceIte, reduceCtorEq, h.device]
    rw [← hdone]
    exact Returns.lift (Returns.note _ _)

/-- The line is at rest again once a character is over. -/
theorem Rests.after_hearing (h : Rests e t w) {d : Nat} (hd : e * 10 ≤ d) :
    Rests e ⟨rest, t.sent, t.errors⟩ (w.hearing f rest d false) := by
  rw [← h.errors_eq]
  refine h.later (Nat.le_trans (Nat.le_add_right w.now 2) (Nat.le_add_right _ d)) ?_ ?_
    (fun _ _ => rfl) ?_
  · intro start g hactive
    obtain ⟨rfl, rfl⟩ := Prod.mk.inj (Option.some.inj hactive)
    exact Nat.add_le_add_left hd _
  · intro start hheard
    obtain rfl := Option.some.inj hheard
    exact Nat.add_le_add_left hd _
  · intro τ hτ
    exact h.released τ (by omega)

/-- The line is at rest again once an error signal is over. -/
theorem Rests.after_complained (h : Rests e t w) {a b : Nat} (hb : e * 10 ≤ b) :
    Rests e ⟨rest, t.sent, t.errors + 1⟩ (w.complained f rest a b) := by
  rw [← h.errors_eq]
  refine h.later (Nat.le_trans (Nat.le_add_right w.now 2) (Nat.le_add_right _ b)) ?_ ?_ ?_ ?_
  · intro start g hactive
    obtain ⟨rfl, rfl⟩ := Prod.mk.inj (Option.some.inj hactive)
    exact Nat.add_le_add_left hb _
  · intro start hheard
    obtain rfl := Option.some.inj hheard
    exact Nat.add_le_add_left hb _
  · intro τ hτ
    rw [Level.lasting, if_neg (by omega), Level.lasting, if_neg (by omega)]
  · intro τ hτ
    rw [Level.lasting, if_pos (show w.now + 2 + b ≤ τ from hτ)]

end Signal

/-! ## Whole characters -/

section Whole

/-- **The port receives the next character of the peer**, whether or not its parity bit was spoiled,
and signals an error exactly if it was and signalling is asked for. -/
theorem Rests.receive_ends (h : Rests e t w) (hport : port.Reads e)
    (hqueue : t.queued = f :: rest) (hstart : f.Starts) (c : Convention) {maxWait : Nat}
    (hwait : maxWait = 0 ∨ 2 ≤ maxWait) (signal : Bool) :
    ((Link.mk line port).receive c maxWait signal).run.Ends w fun r w' =>
      r = .ok ⟨(decode f.bits c).1, (decode f.bits c).2⟩ ∧
        Rests e ⟨rest, t.sent,
          t.errors + if !(decode f.bits c).2 && signal then 1 else 0⟩ w' := by
  have hpeer := Nat.mul_le_mul_right 10 hport.slower
  have hhalf : port.half ≤ port.ticks := Nat.div_le_self _ _
  have hpos : 0 < port.ticks := Nat.lt_of_lt_of_le h.etu_pos hport.slower
  obtain ⟨-, hmiddle⟩ := hport.sample (show 0 < 10 by decide)
  rw [Nat.mul_zero, Nat.zero_add, Nat.mul_zero, Nat.zero_add] at hmiddle
  obtain ⟨_, _, hawait, rfl, rfl⟩ := h.awaitStartBit_ends port hqueue hstart hwait
  refine Ends.after_ok hawait (Ends.after_ok (Returns.lift (startTimer_returns _)) ?_)
  have hwaited := waitAt_returns (w := w.hearing f rest 0 false) h.clock
    (hport.room_for (n := 0) (Nat.zero_le _) hhalf) rfl (Nat.le_add_right _ _)
  rw [Nat.mul_zero, Nat.zero_add] at hwaited
  refine Ends.after_ok hwaited ?_
  have hsample : (w.hearing f rest port.half false).sampled =
      w.hearing f rest (port.half + 1) true := h.sampled_hearing (by omega)
  have hlow : (w.hearing f rest (port.half + 1) true).level = .ok f[0] :=
    h.level_hearing (by decide) (Nat.zero_le _) (by omega)
  rw [hstart, ← hsample] at hlow
  refine Ends.after_ok (Returns.lift (sample_returns hlow)) ?_
  simp only [Level.isHigh, Bool.false_eq_true, ↓reduceIte]
  obtain ⟨_, _, hread, rfl, polling, rfl⟩ : ((Link.mk line port).sampleBits 9).run.Ends
      (w.hearing f rest (port.half + 1) true) _ := h.sampleBits_ends hport (Nat.le_refl 9)
  show Ends _ ((w.hearing f rest port.half false).sampled) _
  rw [hsample]
  refine Ends.after_ok hread ?_
  have hroom := hport.room_for (show 10 ≤ 12 by decide) (Nat.zero_le port.ticks)
  have hten : port.ticks * 9 + port.half + 1 ≤ port.ticks * 10 + 0 := by
    unfold Etu.half
    omega
  show Ends (ExceptT.run (if !(decode f.bits c).2 && signal then _ else _)) _ _
  by_cases hbad : (!(decode f.bits c).2 && signal) = true
  · rw [if_pos hbad, if_pos hbad]
    refine Ends.after_ok (h.signalError_returns hport _ (by omega)) ?_
    refine Ends.after_ok (waitAt_returns_late h.clock hroom (Nat.add_le_add_left (by omega) _)) ?_
    exact Ends.ok ⟨rfl, h.after_complained (by omega)⟩
  · rw [if_neg hbad, if_neg hbad]
    refine Ends.after_ok (waitAt_returns h.clock hroom rfl (Nat.add_le_add_left hten _)) ?_
    exact Ends.ok ⟨rfl, h.after_hearing hpeer⟩

/-- A wrong parity bit is passed over in silence. -/
theorem Rests.receiveSilently_ends (h : Rests e t w) (hport : port.Reads e)
    (hqueue : t.queued = f :: rest) (hstart : f.Starts) (c : Convention) {maxWait : Nat}
    (hwait : maxWait = 0 ∨ 2 ≤ maxWait) :
    ((Link.mk line port).receiveSilently c maxWait).run.Ends w fun r w' =>
      r = .ok ⟨(decode f.bits c).1, (decode f.bits c).2⟩ ∧
        Rests e ⟨rest, t.sent, t.errors⟩ w' := by
  have hread := h.receive_ends hport hqueue hstart c hwait false
  simp only [Bool.and_false, Bool.false_eq_true, ↓reduceIte, Nat.add_zero] at hread
  exact hread

/-- The peer has nothing left to send. -/
theorem Rests.receive_outlasts (h : Rests e t w) (hqueue : t.queued = []) (c : Convention)
    {maxWait : Nat} (hwait : maxWait ≠ 0) (signal : Bool) :
    ((Link.mk line port).receive c maxWait signal).run.Ends w fun r w' =>
      r = .error .timeout ∧ w'.traffic = t := by
  have hawait : ((Link.mk line port).awaitStartBit maxWait).run.Ends w fun r w' =>
      r = .error .timeout ∧ w'.traffic = t := by
    unfold Link.awaitStartBit
    rw [if_neg hwait]
    exact h.pollStart_outlasts hqueue maxWait
  obtain ⟨_, w', hrun, rfl, htraffic⟩ := hawait
  exact Ends.after_error hrun ⟨rfl, htraffic⟩

end Whole

end CardTap.Bench.Wire
