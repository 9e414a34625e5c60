import CardTap.Proofs.Bench.Wire.Serves
import CardTap.Proofs.Diagnostic.Basic
import CardTap.Proofs.Diagnostic.Exchanges
import CardTap.Proofs.Presence

/-!
# A card is never powered in an empty slot

The edges of the detect switch, a reset of the card and a diagnostic probe of it all switch the
power of the slot, and the last two can fail at any character.  Whatever happens on the line, each
of them comes to its end and keeps the slot, the indicator and the shared presence in step
(`card_powered_only_inserted`).
-/

namespace CardTap.Bench

open CardTap.Run

variable {size : Nat} {b : Bench}

/-- The shared presence and the indicator say whether there is a card, only a card that is there has
power, and RST is high only for a card that has power. -/
structure Guarded (b : Bench) : Prop where
  presence : b.ram.presence = .present ↔ b.slot.inserted = true
  indicator : b.panel.leds.lit .presence = b.slot.inserted
  power : b.slot.powered = true → b.slot.inserted = true
  rst : b.slot.rstHigh = true → b.slot.powered = true

/-- A guarded slot next to a line that answers. -/
structure Held (b : Bench) : Prop where
  guarded : b.Guarded
  line : 0 < b.card.etu

/-- A held slot whose card has power. -/
structure InUse (b : Bench) : Prop where
  held : b.Held
  powered : b.slot.powered = true

/-! ## Single operations -/

section Operations

theorem synced_inserted (b : Bench) : b.synced.slot.inserted = b.slot.inserted := by
  unfold synced
  split <;> rfl

/-- An edge brings everything in step with the switch, however it was before. -/
theorem synced_guarded (hrst : b.slot.rstHigh = true → b.slot.powered = true) :
    b.synced.Guarded where
  presence := by
    rw [synced_inserted]
    exact Presence.ofSwitch_eq_present
  indicator := by
    rw [synced_inserted]
    simp [synced, Leds.lit_set]
  power := by
    cases hinserted : b.slot.inserted <;> simp [synced, hinserted, Slot.deactivated]
  rst := by
    cases hinserted : b.slot.inserted with
    | true => simpa [synced, hinserted] using hrst
    | false => simp [synced, hinserted, Slot.deactivated]

theorem activate_ends (size : Nat) (h : b.Held) (warm : Bool) :
    ((board size).slot.run (·.activate warm)).Ends b fun active b' =>
      b'.Held ∧ (active = true → b'.slot.powered = true) := by
  have hslot : ((board size).slot.run (·.activate warm)).Returns b (b.slot.activated warm).1
      { b with slot := (b.slot.activated warm).2 } :=
    Returns.mounted (p := slotPart) (Returns.step (fun s : Slot => s.activated warm) b.slot)
  apply hslot.ends
  unfold Slot.activated
  by_cases hinserted : b.slot.inserted = true
  · rw [if_pos hinserted]
    exact ⟨⟨{ h.guarded with power := fun _ => hinserted, rst := nofun }, h.line⟩, fun _ => rfl⟩
  · rw [if_neg hinserted]
    exact ⟨h, nofun⟩

theorem raiseRst_maintains : ((board size).slot.run (·.driveReset true)).Maintains InUse := by
  intro b h
  have hslot : ((board size).slot.run (·.driveReset true)).Returns b ()
      { b with slot.rstHigh := true } :=
    Returns.mounted (p := slotPart)
      (Returns.change (fun s : Slot => { s with rstHigh := true }) b.slot)
  apply hslot.ends
  exact ⟨⟨{ h.held.guarded with rst := fun _ => h.powered }, h.held.line⟩, h.powered⟩

theorem Held.deactivated (h : b.Held) : Held { b with slot := b.slot.deactivated } :=
  ⟨{ h.guarded with power := nofun, rst := nofun }, h.line⟩

theorem deactivate_maintains : ((board size).slot.run (·.deactivate)).Maintains Held :=
  fun _ h => deactivate_returns.ends h.deactivated

theorem showLine_maintains (text : String) :
    ((board size).panel.run (·.showLine text)).Maintains Held := by
  intro b h
  apply (showLine_returns size text).ends
  refine ⟨{ h.guarded with indicator := ?_ }, h.line⟩
  rw [Panel.shown_leds]
  exact h.guarded.indicator

theorem recordExchange_maintains (line : List UInt8) (response : Except ApduError Response) :
    ((board size).recordExchange line response).Maintains Held := by
  unfold Board.recordExchange
  rcases Command.ofBytes line with e | command
  · exact Maintains.note _
  · rcases response with e | response
    · exact Maintains.note _
    · intro b h
      obtain ⟨captured, hcaptured, -⟩ := captured?_eq b.ram ⟨command, response⟩
      refine Ends.after (capture_returns _) (Ends.pure ?_)
      rw [hcaptured]
      exact ⟨{ h.guarded with }, h.line⟩

end Operations

/-! ## Exchanges on the line -/

section Exchanges

variable {ε α : Type} {f : Line Wire → ExceptT ε (Run Wire) α}

/-- What happens on the line to the card is nothing to the slot. -/
theorem line_maintains (h : (f Wire.line).run.Maintains fun w => 0 < w.etu) :
    ((board size).card.attempt f).run.Maintains Held :=
  Maintains.attempted (p := cardPart) h (fun _ hb => hb.line) fun _ _ hb hw =>
    ⟨{ hb.guarded with }, hw⟩

theorem line_maintains_inUse (h : (f Wire.line).run.Maintains fun w => 0 < w.etu) :
    ((board size).card.attempt f).run.Maintains InUse :=
  Maintains.attempted (p := cardPart) h (fun _ hb => hb.held.line) fun _ _ hb hw =>
    ⟨⟨{ hb.held.guarded with }, hw⟩, hb.powered⟩

theorem onCard_maintains {f : {σ : Type} → Link σ → ExceptT ε (Run σ) α}
    (h : (f ⟨Wire.line, .card⟩).run.Maintains fun w => 0 < w.etu) :
    ((board size).onCard f).run.Maintains Held :=
  line_maintains h

end Exchanges

/-! ## The reset -/

section Reset

theorem card_room : Etu.card.ticks * 1075 < Width.bits32.size := by decide

theorem once_maintains (warm : Bool) :
    (CardReset.once (board size).slot (board size).card .card warm).run.Maintains Held := by
  have hbits : Etu.card.ticks * 10 < Width.bits32.size := by decide
  have hserves := Wire.serves
  intro b h
  obtain ⟨active, b₁, hactivate, h₁, hpowered⟩ := activate_ends size h warm
  refine Ends.after_ok (Returns.lift hactivate) ?_
  cases active with
  | false => exact Ends.throw h₁
  | true =>
    -- only a card that has power goes on, and nothing on the line takes it
    refine Ends.mono (Maintains.bind_ok (P := InUse) ?_ ?_ b₁ ⟨h₁, hpowered rfl⟩)
      fun _ _ h' => h'.held
    · exact Maintains.adapt (line_maintains_inUse (wait_maintains hserves (by decide)))
    intro _
    refine Maintains.bind_ok (Maintains.lift raiseRst_maintains) ?_
    intro _
    refine Maintains.bind_ok (Maintains.adapt (line_maintains_inUse
      (receiveSilently_maintains hserves hbits .direct (by decide)))) ?_
    intro ts
    refine Maintains.adapt (line_maintains_inUse (Atr.read_maintains ?_ ts.byte))
    intro c
    refine Maintains.bind_ok (receiveSilently_maintains hserves hbits c (by decide)) ?_
    intro _
    exact Maintains.ok _

theorem run_maintains :
    (CardReset.run (board size).slot (board size).card .card).run.Maintains Held := by
  have hsettle (r : Except ResetError Atr) : (do
      unless r.isOk do (board size).slot.run (·.deactivate)
      pure r : Run Bench (Except ResetError Atr)).Maintains Held := by
    cases r with
    | ok atr => exact Maintains.pure _
    | error e => exact Maintains.bind deactivate_maintains fun _ => Maintains.pure _
  apply Maintains.bind (once_maintains false)
  rintro (failure | atr)
  · cases failure with
    | activation => exact Maintains.bind (Maintains.pure _) hsettle
    | noAnswer | atr =>
      apply Maintains.bind (Maintains.note _)
      intro _
      exact Maintains.bind (once_maintains true) hsettle
  · exact Maintains.bind (Maintains.pure _) hsettle

end Reset

/-! ## The probe -/

section Probe

section Steps

variable (c : Convention)

theorem pauseCard_maintains {n : Nat} (hn : n ≤ 13) :
    ((board size).onCard fun p => p.pause n).run.Maintains Held :=
  onCard_maintains (pause_maintains Wire.serves card_room hn)

theorem sendCard_maintains (bytes : List UInt8) :
    ((board size).onCard fun p => p.sendSeries c 2 bytes).run.Maintains Held :=
  onCard_maintains (sendSeries_maintains Wire.serves card_room c (by decide) bytes)

theorem expectCard_maintains (expected : UInt8) :
    ((board size).onCard fun p => p.receiveExpected c cardPolls expected).run.Maintains Held :=
  onCard_maintains (receiveExpected_maintains Wire.serves card_room c (by decide) expected)

theorem receiveCard_maintains :
    ((board size).onCard fun p => p.receiveChar c cardPolls).run.Maintains Held :=
  onCard_maintains (receiveChar_maintains Wire.serves card_room c (by decide))

theorem receiveCards_maintains (n : Nat) :
    ((board size).onCard fun p => p.receiveChars c cardPolls n).run.Maintains Held :=
  onCard_maintains (receiveChars_maintains Wire.serves card_room c (by decide) n)

end Steps

theorem selectPayment_maintains (c : Convention) :
    ((board size).selectPayment c).run.Maintains Held := by
  refine Maintains.bind_ok (pauseCard_maintains (by decide)) fun _ => ?_
  refine Maintains.bind_ok (sendCard_maintains c selectHeader) fun _ => ?_
  refine Maintains.bind_ok (pauseCard_maintains (by decide)) fun _ => ?_
  refine Maintains.bind_ok (expectCard_maintains c selectIns) fun _ => ?_
  refine Maintains.bind_ok (pauseCard_maintains (by decide)) fun _ => ?_
  refine Maintains.bind_ok (sendCard_maintains c paymentName) fun _ => ?_
  refine Maintains.bind_ok (pauseCard_maintains (by decide)) fun _ => ?_
  refine Maintains.bind_ok (expectCard_maintains c responseAvailable) fun _ => ?_
  refine Maintains.bind_ok (pauseCard_maintains (by decide)) fun _ => ?_
  refine Maintains.bind_ok (receiveCard_maintains c) fun available => ?_
  refine Maintains.bind_ok (Maintains.lift (recordExchange_maintains _ _)) fun _ => ?_
  exact Maintains.ok available

theorem fetchResponse_maintains (c : Convention) (available : UInt8) :
    ((board size).fetchResponse c available).run.Maintains Held := by
  refine Maintains.bind_ok (pauseCard_maintains (by decide)) fun _ => ?_
  refine Maintains.bind_ok (sendCard_maintains c (getResponseHeader available)) fun _ => ?_
  refine Maintains.bind_ok (pauseCard_maintains (by decide)) fun _ => ?_
  refine Maintains.bind_ok (expectCard_maintains c getResponseIns) fun _ => ?_
  refine Maintains.bind_ok (receiveCards_maintains c available.toNat) fun data => ?_
  refine Maintains.bind_ok (receiveCards_maintains c 2) fun status => ?_
  refine Maintains.bind_ok (Maintains.lift (recordExchange_maintains _ _)) fun _ => ?_
  exact Maintains.lift (Maintains.note _)

theorem cardSequence_maintains : (board size).cardSequence.run.Maintains Held := by
  apply Maintains.bind_ok (Maintains.adapt run_maintains)
  intro atr
  apply Maintains.bind_ok (Maintains.lift (Maintains.note _))
  intro _
  apply Maintains.bind_ok (selectPayment_maintains atr.convention)
  intro available
  by_cases hlong : Response.dataMax < available.toNat
  · rw [if_pos hlong]
    exact Maintains.throw _
  · rw [if_neg hlong]
    exact fetchResponse_maintains atr.convention available

theorem actAsTerminal_ends (h : b.Held) :
    (board size).actAsTerminal.Ends b fun _ b' => b'.Held ∧ b'.slot.powered = false := by
  have hoff (r : Except DiagnosticError Unit) (b : Bench) (h : b.Held) : (do
      (board size).slot.run (·.deactivate)
      pure r : Run Bench (Except DiagnosticError Unit)).Ends b fun _ b' =>
        b'.Held ∧ b'.slot.powered = false :=
    Ends.after deactivate_returns (Ends.pure ⟨h.deactivated, rfl⟩)
  apply (cardSequence_maintains b h).bind
  rintro (e | _) b₁ h₁
  · have hreport : ((board size).reportFailure "card" e).Maintains Held :=
      Maintains.bind (Maintains.note _) fun _ => showLine_maintains _
    exact (hreport b₁ h₁).bind fun _ b₂ h₂ => hoff _ b₂ h₂
  · exact hoff _ b₁ h₁

end Probe

/-! ## Any order of events -/

section Events

/-- What the line to the card holds from now on. -/
structure Surroundings where
  clock : Bool
  reset : Bool
  /-- Characters that the card has ready. -/
  queued : List Frame
  /-- Characters that the card rejects. -/
  rejections : Nat

/-- The line with its surroundings changed; a character that is on it stays there. -/
def Surroundings.around (s : Surroundings) (w : Wire) : Wire :=
  { w with clock := s.clock, reset := s.reset, queued := s.queued, rejections := s.rejections }

/-- What can befall a card slot. -/
inductive SlotEvent where
  /-- The switch bounces and settles, and the edge is handled. -/
  | edge (bounces : List Bool) (inserted : Bool)
  /-- The card is reset. -/
  | reset (line : Surroundings)
  /-- The card is probed. -/
  | probe (line : Surroundings)

/-- The bench with its switch at another level. -/
def switched (b : Bench) (inserted : Bool) : Bench := { b with slot.inserted := inserted }

/-- The bench with the surroundings of its card line changed. -/
def among (b : Bench) (line : Surroundings) : Bench := { b with card := line.around b.card }

namespace SlotEvent

/-- An event on the simulated board. -/
def run (size : Nat) : SlotEvent → Run Bench Unit
  | edge bounces inserted => do
    bounces.forM fun level => Run.change (·.switched level)
    Run.change (·.switched inserted)
    let _ ← (board size).presenceChanged
  | reset line => do
    Run.change (·.among line)
    let _ ← (CardReset.run (board size).slot (board size).card .card).run
  | probe line => do
    Run.change (·.among line)
    let _ ← (board size).actAsTerminal

/-- Whether the card has no power afterwards, whatever happens on the line. -/
def cutsPower : SlotEvent → Bool
  | edge _ inserted => !inserted
  | reset _ => false
  | probe _ => true

end SlotEvent

theorem bounces_return (bounces : List Bool) (b : Bench) :
    (bounces.forM fun level => Run.change (·.switched level) : Run Bench Unit).Ends b fun _ b' =>
      ∃ level, b' = b.switched level := by
  induction bounces generalizing b with
  | nil => exact Ends.pure ⟨b.slot.inserted, rfl⟩
  | cons level rest ih =>
    refine Ends.after (Returns.change (·.switched level) b) ((ih _).mono ?_)
    rintro _ _ ⟨level', rfl⟩
    exact ⟨level', rfl⟩

theorem event_ends (h : b.Held) (event : SlotEvent) :
    (event.run size).Ends b fun _ b' =>
      b'.Held ∧ (event.cutsPower = true → b'.slot.powered = false) := by
  cases event with
  | edge bounces inserted =>
    apply (bounces_return bounces b).bind
    rintro _ _ ⟨level, rfl⟩
    have hsynced : (b.switched inserted).synced.Guarded := synced_guarded h.guarded.rst
    refine Ends.after (Returns.change (fun b : Bench => b.switched inserted) _) ?_
    refine Ends.after presenceChanged_returns (Ends.pure ⟨⟨hsynced, h.line⟩, ?_⟩)
    cases inserted with
    | true => exact nofun
    | false => exact fun _ => rfl
  | reset line =>
    refine Ends.after (Returns.change (·.among line) b) ?_
    have hamong : (b.among line).Held := ⟨{ h.guarded with }, h.line⟩
    apply (run_maintains _ hamong).bind
    intro _ b' h'
    exact Ends.pure ⟨h', nofun⟩
  | probe line =>
    refine Ends.after (Returns.change (·.among line) b) ?_
    have hamong : (b.among line).Held := ⟨{ h.guarded with }, h.line⟩
    apply (actAsTerminal_ends hamong).bind
    rintro _ b' ⟨h', hoff⟩
    exact Ends.pure ⟨h', fun _ => hoff⟩

theorem events_end (h : b.Held) (events : List SlotEvent) :
    (events.forM (·.run size)).Ends b fun _ b' =>
      b'.Held ∧ ∀ last ∈ events.getLast?, last.cutsPower = true → b'.slot.powered = false := by
  induction events generalizing b with
  | nil => exact Ends.pure ⟨h, nofun⟩
  | cons event rest ih =>
    apply (event_ends h event).bind
    rintro _ b' ⟨h', hcut⟩
    cases rest with
    | nil => exact Ends.pure ⟨h', by simpa using hcut⟩
    | cons next rest => simpa using ih h'

/-- **A card is never powered in an empty slot.** On a fresh bench whose detect switch is watched,
every event of any list comes to its end, whatever is on the line; then the slot is guarded, and a
card that was removed or probed last has no power. -/
theorem card_powered_only_inserted (size : Nat) (b : Bench) (inserted : Bool)
    (events : List SlotEvent) :
    (do
      let _ ← (board size).watchPresence
      events.forM (·.run size) : Run Bench Unit).Ends
      { b with slot := { inserted }, card := { etu := Etu.card.ticks } } fun _ b' =>
        b'.Guarded ∧ ∀ last ∈ events.getLast?, last.cutsPower = true → b'.slot.powered = false := by
  let start : Bench := { b with slot := { inserted }, card := { etu := Etu.card.ticks } }
  have hsynced : start.synced.Guarded := synced_guarded nofun
  have hetu : 0 < Etu.card.ticks := by decide
  have hwatched : Held { start.synced with slot := { start.synced.slot with interrupt := true } } :=
    ⟨{ hsynced with }, hetu⟩
  refine Ends.after watchPresence_returns ((events_end hwatched events).mono ?_)
  rintro _ b' ⟨h', hcut⟩
  exact ⟨h'.guarded, hcut⟩

end Events

end CardTap.Bench
