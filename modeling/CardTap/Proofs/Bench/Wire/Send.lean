import CardTap.Proofs.Bench.Wire.Rest

/-!
# Sending on the simulated line

The first falling edge behind a rest starts a character, and none of the later ones within it does
(`Sends`).  What the peer reads in the middle of its own bit periods is the character that the port
sent (`Rests.send_ends`).
-/

namespace CardTap.Bench.Wire

open CardTap.Run

variable {w v : Wire} {e : Nat} {t : Traffic} {f : Frame} {port : Etu} {D : List (Nat × Level)}

/-! ## The line while the firmware sends -/

section Inside

/-- The line `w` while the firmware sends a character on it that it began at once, having driven
the levels `D` so far. -/
structure Sends (w : Wire) (D : List (Nat × Level)) (v : Wire) : Prop where
  eq : v = { w with
    now := v.now
    epoch := w.now
    device := v.device
    transitions := v.transitions
    sendTimes := w.now :: w.sendTimes }
  since : w.now ≤ v.now
  driven : ∀ τ, Level.lasting v.transitions τ = Level.lasting D τ
  lasts : ∀ τ, v.now ≤ τ → Level.lasting v.transitions τ = v.device

theorem Sends.clock_eq (h : Sends w D v) : v.clock = w.clock := by rw [h.eq]

theorem Sends.etu_eq (h : Sends w D v) : v.etu = w.etu := by rw [h.eq]

theorem Sends.lastPeerStart_eq (h : Sends w D v) : v.lastPeerStart = w.lastPeerStart := by rw [h.eq]

theorem Sends.sendTimes_eq (h : Sends w D v) : v.sendTimes = w.now :: w.sendTimes := by rw [h.eq]

/-- The timer counts from the start of the character. -/
theorem Sends.tick_eq (h : Sends w D v) (n : Nat) : v.epoch + (n + 0) = w.now + n := by
  rw [h.eq]
  rfl

theorem Sends.wait (h : Sends w D v) (hpolling : w.polling = false) {now : Nat}
    (hnow : v.now ≤ now) : Sends w D { v with now, polling := false } where
  eq := by
    rw [h.eq, hpolling]
  since := Nat.le_trans h.since hnow
  driven := h.driven
  lasts τ hτ := h.lasts τ (Nat.le_trans hnow hτ)

/-- Within a character of its own the firmware starts no other one. -/
theorem Sends.fallingEdge_eq (h : Sends w D v) (hopen : Open w)
    (hinside : v.now < w.now + w.etu * 10) : v.fallingEdge = v := by
  have hreceiving : v.receiving = false := by
    unfold receiving
    rw [h.lastPeerStart_eq, h.etu_eq]
    cases hlast : w.lastPeerStart with
    | none => rfl
    | some start =>
      have hover := Nat.le_trans (hopen start hlast) h.since
      simp only [Bool.and_eq_false_iff, decide_eq_false_iff_not]
      exact .inr (Nat.not_lt.2 hover)
  have hidle : v.idle = false := by
    unfold idle
    rw [h.sendTimes_eq, h.etu_eq]
    exact decide_eq_false (Nat.not_le.2 hinside)
  unfold fallingEdge
  rw [hreceiving, hidle]
  rfl

/-- Each level driven is told from then on. -/
theorem Sends.driveTo (h : Sends w D v) (hopen : Open w) {level : Level}
    (hinside : level = .low → v.now < w.now + w.etu * 10) :
    Sends w ((v.now, level) :: D) (v.driveTo level) ∧ (v.driveTo level).now = v.now ∧
      (v.driveTo level).device = level := by
  rw [driveTo_eq fun hlow => h.fallingEdge_eq hopen (hinside hlow)]
  by_cases hsame : level = v.device
  · rw [if_pos hsame]
    refine ⟨⟨h.eq, h.since, fun τ => ?_, h.lasts⟩, rfl, hsame.symm⟩
    rw [Level.lasting]
    split
    · next hτ => rw [h.lasts τ hτ, hsame]
    · exact h.driven τ
  · rw [if_neg hsame]
    refine ⟨⟨?_, h.since, fun τ => ?_, fun τ hτ => if_pos hτ⟩, rfl, rfl⟩
    · exact congrArg (fun u : Wire =>
        { u with transitions := (v.now, level) :: v.transitions, device := level }) h.eq
    · simp only [Level.lasting, h.driven]

/-- The line while its peer is going to reject the character that starts now, and `r` more. -/
def rejecting (w : Wire) (r : Nat) : Wire :=
  { w with
    rejections := r
    rejectWindows := (w.now + w.etu * 21 / 2, w.now + w.etu * 12) :: w.rejectWindows }

/-- The line at the start of a character of the firmware, by whether the peer rejects it. -/
def judged (w : Wire) : Wire :=
  if w.rejections = 0 then w else w.rejecting (w.rejections - 1)

theorem judged_eq (w : Wire) : ∃ rejections rejectWindows,
    w.judged = { w with rejections, rejectWindows } := by
  unfold judged
  split
  · exact ⟨w.rejections, w.rejectWindows, rfl⟩
  · exact ⟨_, _, rfl⟩

theorem judged_self (h : w.rejections = 0) : w.judged = w := if_pos h

/-- The first falling edge behind a rest starts a character, whether or not the peer rejects it. -/
theorem Rests.starts (h : Rests e t { w with rejections := 0 }) (hopen : Open w) :
    Sends w.judged ((w.now, .low) :: w.transitions)
        (({ w with epoch := w.now, polling := false } : Wire).driveTo .low) ∧
      (({ w with epoch := w.now, polling := false } : Wire).driveTo .low).now = w.now := by
  have hetu : w.etu = e := h.etu_eq
  have hreceiving : ({ w with epoch := w.now, polling := false } : Wire).receiving = false := by
    unfold receiving
    cases hlast : w.lastPeerStart with
    | none => rfl
    | some start =>
      simp only [Bool.and_eq_false_iff, decide_eq_false_iff_not]
      exact .inr (Nat.not_lt.2 (hopen start hlast))
  have hidle : ({ w with epoch := w.now, polling := false } : Wire).idle = true := by
    unfold idle
    cases hown : w.sendTimes with
    | nil => rfl
    | cons start older =>
      have hover := h.spoken start (hown ▸ List.mem_cons_self)
      exact decide_eq_true (hetu ▸ hover)
  have hedge : ({ w with epoch := w.now, polling := false } : Wire).fallingEdge =
      { w.judged with epoch := w.now, polling := false, sendTimes := w.now :: w.sendTimes } := by
    unfold fallingEdge judged
    rw [hreceiving, hidle]
    by_cases hnone : w.rejections = 0
    · simp [hnone]
    · simp [hnone, rejecting]
  have hdevice : ({ w with epoch := w.now, polling := false } : Wire).device = .high := h.device
  obtain ⟨rejections, rejectWindows, hjudged⟩ := judged_eq w
  rw [hjudged] at hedge ⊢
  rw [driveTo_low hdevice hedge hdevice]
  refine ⟨⟨?_, Nat.le_refl _, fun _ => rfl, fun τ hτ => if_pos hτ⟩, rfl⟩
  rw [show w.polling = false from h.polling]

end Inside

/-! ## Whole characters -/

section Whole

/-- The levels of a character, each for its bit period. -/
theorem Sends.driveFrom_ends (h : Sends w D v) (port : Etu) (hopen : Open w) (i : Nat)
    (levels : List Level) (hclock : w.clock = true) (hpolling : w.polling = false)
    (hroom : port.ticks * (i + levels.length) < Width.bits32.size)
    (hinside : port.ticks * (i + levels.length) < w.etu * 10 + port.ticks)
    (hnow : v.now ≤ w.now + port.ticks * i) :
    ((Link.mk line port).driveFrom i levels).run.Ends v fun r v' =>
      r = .ok () ∧ Sends w (Tap.changes port.ticks (w.now + port.ticks * i) levels D) v' ∧
        v'.now ≤ w.now + port.ticks * (i + levels.length) := by
  induction levels generalizing i v D with
  | nil => exact Ends.ok ⟨rfl, h, hnow⟩
  | cons level rest ih =>
    have hlen : i + (level :: rest).length = i + 1 + rest.length := by
      rw [List.length_cons]
      omega
    have hnext : port.ticks * (i + 1) = port.ticks * i + port.ticks := Nat.mul_succ _ _
    have hsteps : port.ticks * (i + 1) ≤ port.ticks * (i + 1 + rest.length) :=
      Nat.mul_le_mul_left _ (Nat.le_add_right _ _)
    rw [hlen] at hroom hinside ⊢
    have hclock' : v.clock = true := h.clock_eq.trans hclock
    have hpassed := h.wait hpolling hnow
    have hearly : w.now + port.ticks * i < w.now + w.etu * 10 := by omega
    obtain ⟨hdriven, hnow', -⟩ := hpassed.driveTo hopen (fun _ : level = .low => hearly)
    have hchanges : Tap.changes port.ticks (w.now + port.ticks * (i + 1)) rest
        ((w.now + port.ticks * i, level) :: D) =
        Tap.changes port.ticks (w.now + port.ticks * i) (level :: rest) D := by
      rw [Tap.changes, hnext, Nat.add_assoc]
    rw [← hchanges]
    refine Ends.after_ok (waitAt_returns hclock' (by omega) (h.tick_eq _) hnow) ?_
    refine Ends.after_ok (Returns.lift (drive_returns _ _ rfl)) ?_
    refine ih hdriven (i + 1) hroom hinside ?_
    rw [hnow', hnext, ← Nat.add_assoc]
    exact Nat.le_add_right _ _

/-- The changes of a character that the firmware drives from a tick on, in front of older ones. -/
def sentChanges (port : Etu) (start : Nat) (f : Frame) (older : List (Nat × Level)) :
    List (Nat × Level) :=
  (start + port.ticks * 10, .high) :: Tap.changes port.ticks start f.toList older

theorem lasting_sentChanges_before {start τ : Nat} (older : List (Nat × Level)) (hτ : τ < start) :
    Level.lasting (sentChanges port start f older) τ = Level.lasting older τ := by
  rw [sentChanges, Level.lasting, if_neg (by omega), Tap.lasting_changes_before _ _ hτ]

/-- The middle of each bit period of the peer finds the bit. -/
theorem lasting_sentChanges (hport : port.Writes e) (start : Nat) (older : List (Nat × Level))
    {k : Nat} (hk : k < 10) :
    Level.lasting (sentChanges port start f older) (start + e * k + e / 2) = f[k] := by
  obtain ⟨hfrom, hto⟩ := hport.middle hk
  have hend : port.ticks * k + port.ticks ≤ port.ticks * 10 := by
    rw [← Nat.mul_succ]
    exact Nat.mul_le_mul_left _ hk
  rw [sentChanges, Level.lasting, if_neg (by omega), Tap.lasting_changes older
    (show k < f.toList.length by simpa using hk) (by omega) (by omega)]
  simp

theorem toList_of_start (hstart : f.Starts) : ∃ rest, f.toList = .low :: rest ∧
    rest.length = 9 := by
  have hten : f.toList.length = 9 + 1 := Vector.length_toList
  obtain ⟨first, rest, hf⟩ := List.exists_cons_of_length_eq_add_one hten
  have hfirst : f.toList[0] = .low := hstart
  rw [hf, List.length_cons] at hten
  simp only [hf, List.getElem_cons_zero] at hfirst
  exact ⟨rest, hfirst ▸ hf, Nat.succ.inj hten⟩

/-- The start bit begins the character, the other levels follow inside it. -/
theorem Rests.driveFrom_ends (h : Rests e t { w with rejections := 0 }) (hopen : Open w)
    (hport : port.Writes e) (hstart : f.Starts) :
    ((Link.mk line port).driveFrom 0 f.toList).run.Ends w.restarted fun r v =>
      r = .ok () ∧ Sends w.judged (Tap.changes port.ticks w.now f.toList w.transitions) v ∧
        v.now ≤ w.now + port.ticks * 10 := by
  have hroom := hport.room
  have hlast := hport.last
  have hpos := h.etu_pos
  have hetu : w.etu = e := h.etu_eq
  obtain ⟨rest, hf, hlen⟩ := toList_of_start hstart
  rw [hf]
  refine Ends.after_ok (waitAt_returns (w := w.restarted) h.clock (by omega)
    (show w.now + (port.ticks * 0 + 0) = w.now from rfl) (Nat.le_refl _)) ?_
  refine Ends.after_ok (Returns.lift (drive_returns _ _ rfl)) ?_
  obtain ⟨hs, hnow⟩ := h.starts hopen
  obtain ⟨rejections, rejectWindows, hjudged⟩ := judged_eq w
  rw [hjudged] at hs ⊢
  have hrest := hs.driveFrom_ends port hopen 1 rest h.clock h.polling (by rw [hlen]; omega)
    (show port.ticks * (1 + rest.length) < w.etu * 10 + port.ticks by rw [hlen, hetu]; omega)
    (Nat.le_trans (Nat.le_of_eq hnow) (Nat.le_add_right _ _))
  rw [hlen] at hrest
  refine hrest.mono ?_
  rintro r v ⟨rfl, hs, hnow⟩
  rw [Nat.mul_one] at hs
  exact ⟨rfl, hs, hnow⟩

/-- A port drives a whole character, whether or not the peer is going to reject it. -/
theorem Rests.sendFrame_judged (h : Rests e t { w with rejections := 0 }) (hopen : Open w)
    (hport : port.Writes e) (hstart : f.Starts) :
    ((Link.mk line port).sendFrame f).run.Ends w fun r v =>
      r = .ok () ∧ Sends w.judged (sentChanges port w.now f w.transitions) v ∧ v.device = .high ∧
        v.now = w.now + port.ticks * 10 := by
  have hroom := hport.room
  have hrunning : w.clock = true := h.clock
  obtain ⟨_, v, hdrive, rfl, hs, hnow⟩ := h.driveFrom_ends hopen hport hstart
  obtain ⟨rejections, rejectWindows, hjudged⟩ := judged_eq w
  rw [hjudged] at hs
  have hclock : v.clock = true := hs.clock_eq.trans hrunning
  have hpassed := hs.wait h.polling hnow
  obtain ⟨hdone, hnow', hdevice⟩ := hpassed.driveTo hopen (nofun : Level.high = .low → _)
  refine Ends.after_ok (Returns.lift (clockRunning_returns w)) ?_
  simp only [hrunning, ↓reduceIte]
  refine Ends.after_ok (Returns.lift (startTimer_returns w)) (Ends.after_ok hdrive ?_)
  refine Ends.after_ok (waitAt_returns hclock (by omega) (hs.tick_eq _) hnow) ?_
  refine Ends.lift (Returns.ends (release_returns _ rfl) ?_)
  refine ⟨rfl, ?_, hdevice, hnow'⟩
  rw [hjudged]
  exact hdone

/-- A port drives a whole character to a peer that does not reject it. -/
theorem Rests.sendFrame_ends (h : Rests e t w) (hopen : Open w) (hport : port.Writes e)
    (hstart : f.Starts) :
    ((Link.mk line port).sendFrame f).run.Ends w fun r v =>
      r = .ok () ∧ Sends w (sentChanges port w.now f w.transitions) v ∧ v.device = .high ∧
        v.now = w.now + port.ticks * 10 := by
  have hnone : ({ w with rejections := 0 } : Wire) = w := by rw [← h.rejections]
  have hframe := Rests.sendFrame_judged (w := w) (hnone ▸ h) hopen hport hstart
  rw [judged_self h.rejections] at hframe
  exact hframe

/-- The line is at rest again once a character of the firmware is over. -/
theorem Sends.rests (hs : Sends w (sentChanges port w.now f w.transitions) v) (h : Rests e t w)
    (hport : port.Writes e) (hdevice : v.device = .high) {now : Nat} {active : Option (Nat × Frame)}
    (hnow : v.now ≤ now) (hover : w.now + e * 10 ≤ now)
    (hactive : ∀ start g, active = some (start, g) → start + e * 10 ≤ now) :
    Rests e ⟨t.queued, t.sent ++ [f.bits], t.errors⟩
      { v with now, polling := false, active } := by
  have hlater : w.now ≤ now := Nat.le_trans hs.since hnow
  obtain ⟨u, hu⟩ : ∃ u : Wire, u = { w with
      now, epoch := w.now, polling := false, device := .high, transitions := v.transitions
      sendTimes := w.now :: w.sendTimes, active } := ⟨_, rfl⟩
  have heq : ({ v with now, polling := false, active } : Wire) = u := by
    rw [hu, ← hdevice]
    exact congrArg (fun x : Wire => { x with now, polling := false, active }) hs.eq
  have hetu : u.etu = e := by
    rw [hu]
    exact h.etu_eq
  have hdriven : ∀ τ, Level.lasting u.transitions τ =
      Level.lasting (sentChanges port w.now f w.transitions) τ := by
    rw [hu]
    exact hs.driven
  have hbits : u.bitsAfter w.now = f.bits := by
    ext i hi
    simp only [bitsAfter, Vector.getElem_ofFn, drivenAt_eq_lasting, hdriven, hetu]
    rw [lasting_sentChanges hport w.now w.transitions (by omega), Frame.getElem_bits]
  have hsent : w.sendTimes.reverse.map u.bitsAfter = t.sent := by
    refine h.sent_later (hetu.trans h.etu_eq.symm) ?_
    intro τ hτ
    rw [hdriven, lasting_sentChanges_before _ hτ]
  have htraffic : u.traffic = ⟨w.queued, (w.now :: w.sendTimes).reverse.map u.bitsAfter,
      w.errorsSignalled⟩ := by
    rw [hu]
    rfl
  rw [List.reverse_cons, List.map_append, hsent, List.map_singleton, hbits, h.queued_eq,
    h.errors_eq] at htraffic
  rw [heq]
  subst hu
  exact {
    etu_pos := h.etu_pos
    etu_eq := h.etu_eq
    traffic_eq := htraffic
    clock := h.clock
    reset := h.reset
    polling := rfl
    device := rfl
    rejections := h.rejections
    rejected := fun x hx => Nat.le_trans (h.rejected x hx) hlater
    active := hactive
    heard := fun start hstart => Nat.le_trans (h.heard start hstart) hlater
    spoken := by
      intro start hstart
      rcases List.mem_cons.1 hstart with rfl | hstart
      · exact hover
      · exact Nat.le_trans (h.spoken start hstart) hlater
    released := fun τ hτ => (hs.lasts τ (Nat.le_trans hnow hτ)).trans hdevice }

theorem Sends.opens (hs : Sends w D v) (hopen : Open w) {now : Nat}
    {active : Option (Nat × Frame)} (hnow : v.now ≤ now) :
    Open { v with now, polling := false, active } := by
  intro start hstart
  have hover := hopen start (hs.lastPeerStart_eq ▸ hstart)
  show start + v.etu * 116 / 10 ≤ now
  rw [hs.etu_eq]
  exact Nat.le_trans hover (Nat.le_trans hs.since hnow)

/-- Nobody rejects the character: the sample behind it finds the line high. -/
theorem Sends.sampled_eq (hs : Sends w D v) (h : Rests e t w) (hdevice : v.device = .high)
    {now : Nat} (hnow : v.now ≤ now) :
    ({ v with now, polling := false } : Wire).sampled =
        { v with now := now + 1, polling := true, active := none } ∧
      ({ v with now, polling := false } : Wire).sampled.level = .ok .high := by
  have hlater : w.now ≤ now := Nat.le_trans hs.since hnow
  have hsample : ({ v with now, polling := false } : Wire).sampled =
      ({ v with now, polling := false } : Wire).polled 1 := by
    refine Wire.sampled_eq rfl ?_
    rw [hs.eq]
    intro start g hactive
    exact Nat.le_trans (h.etu_eq ▸ h.active start g hactive) hlater
  refine ⟨hsample, ?_⟩
  rw [hsample]
  have hdevice' : ({ v with now, polling := false } : Wire).device = .high := hdevice
  refine level_polled hdevice' ?_ 1
  rw [hs.eq]
  exact fun x hx => Nat.le_trans (h.rejected x hx) hlater

/-- **The port sends a character** to a peer that does not reject it. -/
theorem Rests.send_ends (h : Rests e t w) (hopen : Open w) (hport : port.Writes e) (b : UInt8)
    (c : Convention) :
    ((Link.mk line port).send b c).run.Ends w fun r w' =>
      r = .ok () ∧ Rests e ⟨t.queued, t.sent ++ [(Frame.encode b c).bits], t.errors⟩ w' ∧
        Open w' ∧ w'.now = w.now + port.ticks * 12 ∧ w'.sendTimes = w.now :: w.sendTimes := by
  obtain ⟨_, v, hframe, rfl, hs, hdevice, hnow⟩ :=
    h.sendFrame_ends hopen hport (Frame.encode_starts b c)
  have hroom := hport.room
  have hpos := h.etu_pos
  have henough := hport.enough
  have hclock : v.clock = true := hs.clock_eq.trans h.clock
  obtain ⟨hsample, hhigh⟩ := hs.sampled_eq h hdevice
    (show v.now ≤ w.now + port.ticks * 11 by omega)
  refine Ends.after_ok hframe ?_
  refine Ends.after_ok (waitAt_returns hclock (by omega) (hs.tick_eq _) (by omega)) ?_
  refine Ends.after_ok (Returns.lift (sample_returns hhigh)) ?_
  simp only [Level.isLow, Bool.false_eq_true, ↓reduceIte]
  rw [hsample]
  refine Returns.ends (waitAt_returns hclock (by omega) (hs.tick_eq _) ?_)
    ⟨rfl, ?_, ?_, rfl, hs.sendTimes_eq⟩
  · show w.now + port.ticks * 11 + 1 ≤ _
    omega
  · exact hs.rests h hport hdevice (by omega) (by omega) (by simp)
  · exact hs.opens hopen (by omega)

/-- The port sends a character and does not listen to the peer. -/
theorem Rests.sendBlind_ends (h : Rests e t w) (hopen : Open w) (hport : port.Writes e) (b : UInt8)
    (c : Convention) :
    ((Link.mk line port).sendBlind b c).run.Ends w fun r w' =>
      r = .ok () ∧ Rests e ⟨t.queued, t.sent ++ [(Frame.encode b c).bits], t.errors⟩ w' ∧
        Open w' ∧ w'.now = w.now + port.ticks * 12 ∧ w'.sendTimes = w.now :: w.sendTimes := by
  obtain ⟨_, v, hframe, rfl, hs, hdevice, hnow⟩ :=
    h.sendFrame_ends hopen hport (Frame.encode_starts b c)
  have hroom := hport.room
  have hpos := h.etu_pos
  have henough := hport.enough
  have hclock : v.clock = true := hs.clock_eq.trans h.clock
  have hactive : v.active = w.active := by rw [hs.eq]
  refine Ends.after_ok hframe ?_
  refine Returns.ends (waitAt_returns hclock (by omega) (hs.tick_eq _) (by omega))
    ⟨rfl, ?_, ?_, rfl, hs.sendTimes_eq⟩
  · refine hs.rests h hport hdevice (by omega) (by omega) ?_
    intro start g hstart
    have hover := h.active start g (hactive ▸ hstart)
    omega
  · exact hs.opens hopen (by omega)

end Whole

end CardTap.Bench.Wire
