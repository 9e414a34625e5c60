import CardTap.Bench.Wire
import CardTap.Proofs.Ends
import CardTap.Proofs.Frame
import CardTap.Proofs.Line.Shared

/-!
# The simulated line at rest

Between two characters the simulated line is at rest (`Wire.Rests`).  From there a port receives the
next character that the peer has queued, or sends one of its own, and the line is at rest again:
what has changed is the traffic, by exactly that character.  Port and peer need not count the same
number of ticks in an ETU: `Etu.Reads` and `Etu.Writes` bound how far they may be apart.
-/

namespace CardTap

open CardTap.Run

/-! ## Clocks that go together -/

section Clocks

/-- A port with this ETU can read the characters of a peer whose ETU has `e` ticks: each of its
samples falls into the bit period it is meant for, also one that is a tick late. -/
structure Etu.Reads (port : Etu) (e : Nat) : Prop where
  slower : e ≤ port.ticks
  last : 9 * port.ticks + port.ticks / 2 + 1 < 10 * e
  room : 1075 * port.ticks < Width.bits32.size

/-- A peer whose ETU has `e` ticks can read the characters of a port with this ETU: the middle of
each of its bit periods falls into the one that the port sends. -/
structure Etu.Writes (port : Etu) (e : Nat) : Prop where
  last : 9 * port.ticks ≤ 9 * e + e / 2
  enough : 9 * e + e / 2 < 10 * port.ticks
  room : 13 * port.ticks < Width.bits32.size

variable {port : Etu} {e k : Nat}

/-- The sample of a bit period falls into that bit period. -/
theorem Etu.Reads.sample (h : port.Reads e) (hk : k < 10) :
    e * k ≤ port.ticks * k + port.half + 1 ∧ port.ticks * k + port.half + 1 < e * k + e := by
  have hslow := Nat.mul_le_mul_right k h.slower
  have hrest := Nat.mul_le_mul_right (9 - k) h.slower
  have hport : port.ticks * 9 = port.ticks * k + port.ticks * (9 - k) := by
    rw [← Nat.mul_add, Nat.add_sub_cancel' (Nat.le_of_lt_succ hk)]
  have hpeer : e * 9 = e * k + e * (9 - k) := by
    rw [← Nat.mul_add, Nat.add_sub_cancel' (Nat.le_of_lt_succ hk)]
  have hlast := h.last
  unfold Etu.half
  omega

/-- Every tick count of a character has room. -/
theorem Etu.Reads.room_for (h : port.Reads e) {n extra : Nat} (hn : n ≤ 12)
    (hextra : extra ≤ port.ticks) : port.ticks * n + extra < Width.bits32.size := by
  have hroom := h.room
  have hmul := Nat.mul_le_mul_left port.ticks hn
  omega

/-- The error signal begins while the peer waits for it, and its ticks have room. -/
theorem Etu.Reads.signal (h : port.Reads e) :
    port.ticks * 10 + port.ticks * 46 / 100 < e * 116 / 10 ∧
      port.ticks * 10 + (port.ticks * 46 / 100 + port.ticks * 1075 / 1000) <
        Width.bits32.size := by
  have hslow := h.slower
  have hlast := h.last
  have hroom := h.room
  omega

/-- The middle of a bit period falls into the one that is sent. -/
theorem Etu.Writes.middle (h : port.Writes e) (hk : k < 10) :
    port.ticks * k ≤ e * k + e / 2 ∧ e * k + e / 2 < port.ticks * k + port.ticks := by
  have hport : port.ticks * 9 = port.ticks * k + port.ticks * (9 - k) := by
    rw [← Nat.mul_add, Nat.add_sub_cancel' (Nat.le_of_lt_succ hk)]
  have hpeer : e * 9 = e * k + e * (9 - k) := by
    rw [← Nat.mul_add, Nat.add_sub_cancel' (Nat.le_of_lt_succ hk)]
  have hlast := h.last
  have henough := h.enough
  rcases Nat.le_total port.ticks e with hle | hle
  · have hfirst := Nat.mul_le_mul_right k hle
    have hrest := Nat.mul_le_mul_right (9 - k) hle
    omega
  · have hfirst := Nat.mul_le_mul_right k hle
    have hrest := Nat.mul_le_mul_right (9 - k) hle
    omega

/-- Equal clocks go together in both directions. -/
theorem Etu.reads_self (hlow : 3 ≤ port.ticks) (hroom : 1075 * port.ticks < Width.bits32.size) :
    port.Reads port.ticks :=
  ⟨Nat.le_refl _, by omega, hroom⟩

theorem Etu.writes_self (hlow : 3 ≤ port.ticks) (hroom : 1075 * port.ticks < Width.bits32.size) :
    port.Writes port.ticks :=
  ⟨by omega, by omega, by omega⟩

end Clocks

namespace Bench.Wire

variable {w : Wire}

/-! ## Operations -/

section Operations

variable (w)

theorem clockRunning_returns : line.clockRunning.Returns w w.clock w := Returns.read Wire.clock w

theorem resetHeld_returns : line.resetHeld.Returns w w.reset w := Returns.read Wire.reset w

theorem startTimer_returns : line.startTimer.Returns w () w.restarted := Returns.change restarted w

theorem waitFor_returns (ticks : Nat) :
    (line.waitFor ticks).Returns w (w.waited ticks).1 (w.waited ticks).2 :=
  Returns.step (fun w : Wire => w.waited ticks) w

theorem drive_returns (level : Level) (h : w.polling = false) :
    (line.drive level).Returns w () (w.driveTo level) := by
  have hdrive :=
    Returns.change (fun v : Wire => ({ v with polling := false } : Wire).driveTo level) w
  rw [show ({ w with polling := false } : Wire) = w by rw [← h]] at hdrive
  exact hdrive

theorem release_returns (h : w.polling = false) :
    line.release.Returns w () (w.driveTo .high) := drive_returns w .high h

variable {w}

theorem sample_returns {l : Level} (h : w.sampled.level = .ok l) :
    line.sample.Returns w l w.sampled :=
  Returns.bind (Returns.change sampled w)
    (Returns.bind (Returns.read level _) (Returns.checked h _))

/-- Driving a level that makes no falling edge the peer takes notice of. -/
theorem driveTo_eq {level : Level} (h : level = .low → w.fallingEdge = w) :
    w.driveTo level = if level = w.device then w
      else { w with transitions := (w.now, level) :: w.transitions, device := level } := by
  have hedge : (if level.isLow && w.device.isHigh then w.fallingEdge else w) = w := by
    cases level with
    | low => rw [h rfl, ite_self]
    | high => rfl
  simp only [driveTo, hedge]

/-- A falling edge. -/
theorem driveTo_low {v : Wire} (hdevice : w.device = .high) (hedge : w.fallingEdge = v)
    (hkept : v.device = .high) : w.driveTo .low =
      { v with transitions := (v.now, .low) :: v.transitions, device := .low } := by
  have hif : (if Level.low.isLow && w.device.isHigh then w.fallingEdge else w) = v := by
    rw [hdevice, hedge]
    rfl
  simp only [driveTo, hif, hkept, reduceCtorEq, ↓reduceIte]

variable {port : Etu}

/-- A wait on a running clock ends at the tick asked for. -/
theorem waitAt_returns {n extra tick : Nat} (hclock : w.clock = true)
    (hroom : port.ticks * n + extra < Width.bits32.size)
    (htick : w.epoch + (port.ticks * n + extra) = tick) (hnow : w.now ≤ tick) :
    ((Link.mk line port).waitAt n extra).run.Returns w (.ok ())
      { w with now := tick, polling := false } := by
  have hetus : port.etus n = .ok (port.ticks * n) := Etu.etus_ok (by omega)
  have hwait := waitFor_returns w (port.ticks * n + extra)
  rw [waited, if_pos hclock, htick, Nat.max_eq_right hnow] at hwait
  refine Returns.bind_ok (Returns.lift (Returns.checked hetus w)) ?_
  refine Returns.bind_ok (Returns.lift (Returns.checked (Word.add_ok hroom) w)) ?_
  exact Returns.bind_ok (Returns.lift hwait) (Returns.ok () _)

/-- A wait for a tick that is over ends at once. -/
theorem waitAt_returns_late {n extra : Nat} (hclock : w.clock = true)
    (hroom : port.ticks * n + extra < Width.bits32.size)
    (hnow : w.epoch + (port.ticks * n + extra) ≤ w.now) :
    ((Link.mk line port).waitAt n extra).run.Returns w (.ok ()) { w with polling := false } := by
  have hetus : port.etus n = .ok (port.ticks * n) := Etu.etus_ok (by omega)
  have hwait := waitFor_returns w (port.ticks * n + extra)
  rw [waited, if_pos hclock, Nat.max_eq_left hnow] at hwait
  refine Returns.bind_ok (Returns.lift (Returns.checked hetus w)) ?_
  refine Returns.bind_ok (Returns.lift (Returns.checked (Word.add_ok hroom) w)) ?_
  exact Returns.bind_ok (Returns.lift hwait) (Returns.ok () _)

end Operations

/-! ## Samples of an undriven line -/

section Samples

/-- The line after some polls during which the peer had nothing to send. -/
def polled (w : Wire) (n : Nat) : Wire :=
  { w with now := w.now + n, polling := true, active := none }

theorem rejectLow_eq (h : ∀ x ∈ w.rejectWindows, x.2 ≤ w.now) : w.rejectLow = false := by
  rw [rejectLow, List.any_eq_false]
  intro x hx
  have hover := h x hx
  simp only [Bool.and_eq_true, decide_eq_true_eq, not_and, Nat.not_lt]
  intro _
  exact hover

/-- Nobody drives the line. -/
theorem level_polled (hdevice : w.device = .high) (hrejected : ∀ x ∈ w.rejectWindows, x.2 ≤ w.now)
    (n : Nat) : (w.polled n).level = .ok .high := by
  have hreject : (w.polled n).rejectLow = false :=
    rejectLow_eq fun x hx => Nat.le_add_right_of_le (hrejected x hx)
  have hdriven : (w.polled n).device = .high := hdevice
  have hpeer : (w.polled n).peerLow = .ok false := rfl
  rw [level, hpeer, hreject, hdriven]
  rfl

/-- The first sample behind a character of the peer ends it. -/
theorem sampled_eq (hpolling : w.polling = false)
    (hover : ∀ start f, w.active = some (start, f) → start + w.etu * 10 ≤ w.now) :
    w.sampled = w.polled 1 := by
  unfold sampled tick polled
  cases hactive : w.active with
  | none => simp [hpolling]
  | some x =>
    obtain ⟨start, g⟩ := x
    have hdone : start + w.etu * 10 ≤ w.now + 1 := Nat.le_succ_of_le (hover start g hactive)
    simp [hpolling, hdone]

end Samples

/-! ## The line at rest -/

section Rest

/-- What has gone over the line, and what its peer has yet to send. -/
structure Traffic where
  queued : List Frame
  /-- The bits of each character sent by the firmware, oldest first. -/
  sent : List (Vector Level 9)
  /-- How often the firmware signalled a parity error. -/
  errors : Nat

/-- The traffic of the line so far. -/
def traffic (w : Wire) : Traffic :=
  ⟨w.queued, w.sendTimes.reverse.map w.bitsAfter, w.errorsSignalled⟩

/-- The line is at rest: its clock runs, nobody resets it, rejects a character or drives the line,
and every character begun is over. -/
structure Rests (e : Nat) (t : Traffic) (w : Wire) : Prop where
  etu_pos : 0 < e
  etu_eq : w.etu = e
  traffic_eq : w.traffic = t
  clock : w.clock = true
  reset : w.reset = false
  polling : w.polling = false
  device : w.device = .high
  rejections : w.rejections = 0
  rejected : ∀ x ∈ w.rejectWindows, x.2 ≤ w.now
  active : ∀ start f, w.active = some (start, f) → start + e * 10 ≤ w.now
  heard : ∀ start, w.lastPeerStart = some start → start + e * 10 ≤ w.now
  spoken : ∀ start ∈ w.sendTimes, start + e * 10 ≤ w.now
  released : ∀ τ, w.now ≤ τ → Level.lasting w.transitions τ = .high

/-- The time in which the last character of the peer may be rejected is over as well. -/
def Open (w : Wire) : Prop :=
  ∀ start, w.lastPeerStart = some start → start + w.etu * 116 / 10 ≤ w.now

theorem drivenAt_eq_lasting (w : Wire) (τ : Nat) :
    w.drivenAt τ = Level.lasting w.transitions τ := by
  unfold drivenAt
  induction w.transitions with
  | nil => rfl
  | cons x older ih =>
    rw [Level.lasting, List.find?_cons]
    by_cases hx : x.1 ≤ τ
    · simp [hx]
    · simpa [hx] using ih

/-- What is driven later does not change the bits of a character that is over. -/
theorem bitsAfter_congr {w w' : Wire} {start : Nat} (hpos : 0 < w.etu) (hetu : w'.etu = w.etu)
    (h : ∀ τ, τ < start + w.etu * 10 →
      Level.lasting w'.transitions τ = Level.lasting w.transitions τ) :
    w'.bitsAfter start = w.bitsAfter start := by
  ext i hi
  have hover : w.etu * (i + 1) + w.etu / 2 < w.etu * 10 := by
    have hlast := Nat.mul_le_mul_left w.etu (show i + 1 ≤ 9 by omega)
    omega
  simp only [bitsAfter, Vector.getElem_ofFn, drivenAt_eq_lasting, hetu]
  exact h _ (by omega)

variable {w : Wire} {e : Nat} {t : Traffic}

/-- A fresh line with its queue. -/
theorem rests_fresh (hpos : 0 < e) (queued : List Frame) :
    Rests e ⟨queued, [], 0⟩ { etu := e, queued } where
  etu_pos := hpos
  etu_eq := rfl
  traffic_eq := rfl
  clock := rfl
  reset := rfl
  polling := rfl
  device := rfl
  rejections := rfl
  rejected _ hx := absurd hx List.not_mem_nil
  active _ _ h := nomatch h
  heard _ h := nomatch h
  spoken _ h := absurd h List.not_mem_nil
  released _ _ := rfl

/-- The characters sent are what the peer makes of their bits. -/
theorem sentCharacters_eq (w : Wire) (c : Convention) :
    w.sentCharacters c = w.traffic.sent.map (decode · c) := by
  rw [traffic, List.map_map]
  rfl

theorem Rests.queued_eq (h : Rests e t w) : w.queued = t.queued :=
  congrArg Traffic.queued h.traffic_eq

theorem Rests.errors_eq (h : Rests e t w) : w.errorsSignalled = t.errors :=
  congrArg Traffic.errors h.traffic_eq

theorem Rests.sent_eq (h : Rests e t w) : w.sendTimes.reverse.map w.bitsAfter = t.sent :=
  congrArg Traffic.sent h.traffic_eq

/-- The characters sent before look the same later on. -/
theorem Rests.sent_later (h : Rests e t w) {w' : Wire} (hetu : w'.etu = w.etu)
    (hbefore : ∀ τ, τ < w.now →
      Level.lasting w'.transitions τ = Level.lasting w.transitions τ) :
    w.sendTimes.reverse.map w'.bitsAfter = t.sent := by
  rw [← h.sent_eq]
  refine List.map_congr_left fun start hstart => bitsAfter_congr (h.etu_eq ▸ h.etu_pos) hetu ?_
  intro τ hτ
  have hover := h.spoken start (List.mem_reverse.1 hstart)
  rw [h.etu_eq] at hτ
  exact hbefore τ (by omega)

/-- Time passes, and the peer may have sent something. -/
theorem Rests.later (h : Rests e t w) {now epoch errors : Nat} {queued : List Frame}
    {transitions : List (Nat × Level)} {active : Option (Nat × Frame)}
    {lastPeerStart : Option Nat} (hnow : w.now ≤ now)
    (hactive : ∀ start f, active = some (start, f) → start + e * 10 ≤ now)
    (hheard : ∀ start, lastPeerStart = some start → start + e * 10 ≤ now)
    (hbefore : ∀ τ, τ < w.now → Level.lasting transitions τ = Level.lasting w.transitions τ)
    (hreleased : ∀ τ, now ≤ τ → Level.lasting transitions τ = .high) :
    Rests e ⟨queued, t.sent, errors⟩
      { w with
        now, epoch, polling := false, transitions, errorsSignalled := errors, queued, active,
        lastPeerStart } where
  etu_pos := h.etu_pos
  etu_eq := h.etu_eq
  traffic_eq := congrArg (Traffic.mk queued · errors) (h.sent_later rfl hbefore)
  clock := h.clock
  reset := h.reset
  polling := rfl
  device := h.device
  rejections := h.rejections
  rejected x hx := Nat.le_trans (h.rejected x hx) hnow
  active := hactive
  heard := hheard
  spoken start hstart := Nat.le_trans (h.spoken start hstart) hnow
  released := hreleased

/-- Nothing but time passes. -/
theorem Rests.passed (h : Rests e t w) {now epoch : Nat} (hnow : w.now ≤ now) :
    Rests e t { w with now, epoch, polling := false } := by
  have ht : t = ⟨w.queued, t.sent, w.errorsSignalled⟩ := by
    rw [h.queued_eq, h.errors_eq]
  rw [ht]
  refine h.later hnow ?_ ?_ (fun _ _ => rfl) ?_
  · intro start f hactive
    exact Nat.le_trans (h.active start f hactive) hnow
  · intro start hheard
    exact Nat.le_trans (h.heard start hheard) hnow
  · intro τ hτ
    exact h.released τ (Nat.le_trans hnow hτ)

/-- A pause. -/
theorem wait_ends (h : Rests e t w) {port : Etu} {n : Nat}
    (hroom : port.ticks * n < Width.bits32.size) :
    ((Link.mk line port).wait n).run.Ends w fun r w' =>
      r = .ok () ∧ Rests e t w' ∧ w'.now = w.now + port.ticks * n ∧
        w'.lastPeerStart = w.lastPeerStart := by
  refine Ends.after_ok (Returns.lift (startTimer_returns w)) ?_
  refine Returns.ends (waitAt_returns (w := w.restarted) h.clock hroom rfl ?_) ?_
  · show w.now ≤ w.now + (port.ticks * n + 0)
    omega
  · exact ⟨rfl, h.passed (Nat.le_add_right _ _), rfl, rfl⟩

end Rest

end Bench.Wire

end CardTap
