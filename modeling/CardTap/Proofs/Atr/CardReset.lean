import CardTap.Atr.CardReset
import CardTap.Bench.Slot
import CardTap.Proofs.Line.Responsive

/-!
# How a reset leaves the slot

A reset may fail in the slot, in a wait, in TS or in any later character, and in either of its two
activations.  Whatever the line answers, the result tells how the slot is left: in use after a
success, and switched off, once, after a failure (`reset_settles`).
-/

namespace CardTap.CardReset

open CardTap.Run

variable {σ : Type}

/-- A card slot and the line to its card. -/
structure Socket (σ : Type) where
  slot : Bench.Slot
  line : Line.Recorded σ

namespace Socket

/-- The simulated slot of the socket. -/
def slotMounted : Mounted Slot (Socket σ) :=
  .part ⟨Socket.slot, fun x s => { s with slot := x }⟩ Bench.Slot.slot

/-- The line of the socket, with its calls recorded. -/
def lineMounted (l : Line σ) : Mounted Line (Socket σ) :=
  .part ⟨Socket.line, fun x s => { s with line := x }⟩ l.recorded

end Socket

/-- One activation with the reading of the answer. -/
def attempt (l : Line σ) (e : Etu) (warm : Bool) : ExceptT ResetError (Run (Socket σ)) Atr :=
  once Socket.slotMounted (Socket.lineMounted l) e warm

/-- A whole reset. -/
def reset (l : Line σ) (e : Etu) : ExceptT ResetError (Run (Socket σ)) Atr :=
  run Socket.slotMounted (Socket.lineMounted l) e

/-- The slot behind an activation, with RST high or low. -/
def activated (s : Bench.Slot) (warm high : Bool) : Bench.Slot :=
  { s with activations := warm :: s.activations, powered := true, rstHigh := high }

/-! ## Steps -/

section Steps

variable {m : Socket σ} {α ε : Type} {warm : Bool}

theorem activate_returns (h : m.slot.inserted = true) (warm : Bool) :
    (Socket.slotMounted.run (·.activate warm)).Returns m true
      { m with slot := activated m.slot warm false } := by
  have hstep := Returns.step (fun s : Bench.Slot => s.activated warm) m.slot
  rw [Bench.Slot.activated, if_pos h] at hstep
  exact Returns.within hstep

theorem activate_refused (h : m.slot.inserted = false) (warm : Bool) :
    (Socket.slotMounted.run (·.activate warm)).Returns m false m := by
  have hstep := Returns.step (fun s : Bench.Slot => s.activated warm) m.slot
  rw [Bench.Slot.activated, if_neg (by rw [h]; exact Bool.false_ne_true)] at hstep
  exact Returns.within hstep

theorem raiseRst_returns (m : Socket σ) : (Socket.slotMounted.run (·.driveReset true)).Returns m ()
    { m with slot := { m.slot with rstHigh := true } } :=
  Returns.within (Returns.change (fun s : Bench.Slot => { s with rstHigh := true }) m.slot)

theorem deactivate_returns (m : Socket σ) :
    (Socket.slotMounted.run (·.deactivate)).Returns m () { m with slot := m.slot.deactivated } :=
  Returns.within (Returns.change Bench.Slot.deactivated m.slot)

theorem onLine_ends {l : Line σ} {δ : Type} {g : ε → δ}
    {f : Line (Line.Recorded σ) → ExceptT ε (Run (Line.Recorded σ)) α}
    (h : (f l.recorded).run.Total) :
    (((Socket.lineMounted l).attempt f).adapt g).run.Ends m fun _ m' => m'.slot = m.slot :=
  Ends.adapt (Ends.within ((h m.line).mono fun _ _ _ => rfl))

end Steps

/-! ## Attempts -/

section Attempts

variable {l : Line σ} {e : Etu} {m : Socket σ}

theorem attempt_refused (h : m.slot.inserted = false) (warm : Bool) :
    (attempt l e warm).run.Returns m (.error .activation) m :=
  Returns.bind_ok (Returns.lift (activate_refused h warm)) (Returns.throw _ _)

theorem attempt_ends (hl : l.Responsive) (hroom : 112 * e.ticks < Width.bits32.size)
    (h : m.slot.inserted = true) (warm : Bool) :
    (attempt l e warm).run.Ends m fun r m' =>
      ∃ high, m'.slot = activated m.slot warm high ∧ ∀ atr, r = .ok atr → high = true := by
  -- where the attempt fails decides how RST is left: only the first wait comes before it is raised
  have hbits : e.ticks * 10 < Width.bits32.size := by omega
  have hserves := hl.recorded.serves
  refine Ends.after_ok (Returns.lift (activate_returns h warm)) ?_
  refine Ends.bind_ok (onLine_ends (wait_maintains hserves (by omega)).total) ?_ ?_
  · intro _ m₁ hwaited
    have hts := receiveSilently_maintains hserves hbits .direct (show tsPolls ≠ 0 by decide)
    refine Ends.after_ok (Returns.lift (raiseRst_returns m₁)) ?_
    refine Ends.bind_ok (onLine_ends hts.total) ?_ ?_
    · intro ts m₂ hts
      refine (onLine_ends (Atr.read_maintains (fun c => ?_) ts.byte).total).mono ?_
      · refine Maintains.bind_ok (receiveSilently_maintains hserves hbits c (by decide)) fun _ => ?_
        exact Maintains.ok _
      · intro r m₃ hread
        refine ⟨true, hread.trans (hts.trans ?_), fun _ _ => rfl⟩
        rw [hwaited]
        rfl
    · intro _ m₂ hts
      refine ⟨true, hts.trans ?_, fun _ _ => rfl⟩
      rw [hwaited]
      rfl
  · intro _ m₁ hwaited
    exact ⟨false, hwaited, by rintro _ ⟨⟩⟩

end Attempts

/-! ## The whole reset -/

section Reset

variable {l : Line σ} {e : Etu} {m : Socket σ}

/-- The first attempt has failed, but not because the card could not be activated. -/
def Retried (cold : Except ResetError Atr) : Prop :=
  ∃ failure, cold = .error failure ∧ failure ≠ .activation

/-- The socket behind the last attempt: a failure switches the slot off. -/
def closed (r : Except ResetError Atr) (m : Socket σ) : Socket σ :=
  match r with
  | .ok _ => m
  | .error _ => { m with slot := m.slot.deactivated }

theorem closed_returns (r : Except ResetError Atr) (m : Socket σ) :
    (do
      unless r.isOk do Socket.slotMounted.run (·.deactivate)
      pure r).Returns m r (closed r m) := by
  cases r with
  | ok atr => exact Returns.pure _ m
  | error failure => exact Returns.bind (deactivate_returns m) (Returns.pure _ _)

theorem reset_of_cold {m₁ : Socket σ} {cold : Except ResetError Atr}
    (hcold : (attempt l e false).run.Returns m cold m₁) (honce : ¬Retried cold) :
    (reset l e).run.Returns m cold (closed cold m₁) := by
  refine Returns.bind hcold ?_
  cases cold with
  | ok atr => exact Returns.bind (Returns.pure _ _) (closed_returns _ m₁)
  | error failure =>
    obtain rfl : failure = .activation := Classical.not_not.1 fun hne => honce ⟨failure, rfl, hne⟩
    exact Returns.bind (Returns.pure _ _) (closed_returns _ m₁)

theorem reset_of_warm {m₁ m₂ : Socket σ} {cold r : Except ResetError Atr}
    (hcold : (attempt l e false).run.Returns m cold m₁) (hagain : Retried cold)
    (hwarm : (attempt l e true).run.Returns m₁ r m₂) :
    (reset l e).run.Returns m r (closed r m₂) := by
  obtain ⟨failure, rfl, hne⟩ := hagain
  refine Returns.bind hcold ?_
  cases failure with
  | activation => exact absurd rfl hne
  | noAnswer | atr =>
    exact Returns.bind (Returns.note _ m₁) (Returns.bind hwarm (closed_returns r m₂))

theorem closed_slot {s : Bench.Slot} {warm high : Bool} {r : Except ResetError Atr}
    (hslot : m.slot = activated s warm high) (hhigh : ∀ atr, r = .ok atr → high = true) :
    (closed r m).slot.activations = warm :: s.activations ∧
      (∀ atr, r = .ok atr → (closed r m).slot.powered = true ∧
        (closed r m).slot.rstHigh = true ∧ (closed r m).slot.deactivations = s.deactivations) ∧
      ∀ failure, r = .error failure → (closed r m).slot.powered = false ∧
        (closed r m).slot.rstHigh = false ∧
        (closed r m).slot.deactivations = s.deactivations + 1 := by
  cases r with
  | ok atr =>
    obtain rfl := hhigh atr rfl
    simp [closed, hslot, activated]
  | error failure => simp [closed, hslot, activated, Bench.Slot.deactivated]

/-- **A reset leaves the slot as its result says.** -/
theorem reset_settles (hl : l.Responsive) (hroom : 112 * e.ticks < Width.bits32.size)
    (m : Socket σ) :
    (m.slot.inserted = false → (reset l e).run.Returns m (.error .activation)
        { m with slot := m.slot.deactivated }) ∧
      (m.slot.inserted = true → ∃ cold m₁, (attempt l e false).run.Returns m cold m₁ ∧
        m₁.slot.activations = false :: m.slot.activations ∧
        (reset l e).run.Ends m fun r m' =>
          (Retried cold → (∃ m₂, (attempt l e true).run.Returns m₁ r m₂) ∧
              m'.slot.activations = true :: false :: m.slot.activations) ∧
            (¬Retried cold → r = cold ∧
              m'.slot.activations = false :: m.slot.activations) ∧
            (∀ atr, r = .ok atr → m'.slot.powered = true ∧ m'.slot.rstHigh = true ∧
              m'.slot.deactivations = m.slot.deactivations) ∧
            ∀ failure, r = .error failure → m'.slot.powered = false ∧ m'.slot.rstHigh = false ∧
              m'.slot.deactivations = m.slot.deactivations + 1) := by
  constructor
  · intro h
    exact reset_of_cold (attempt_refused h false) (by rintro ⟨_, ⟨⟩, hne⟩; exact hne rfl)
  · intro h
    obtain ⟨cold, m₁, hcold, high, hslot, hhigh⟩ := attempt_ends hl hroom h false
    refine ⟨cold, m₁, hcold, by rw [hslot]; rfl, ?_⟩
    by_cases hagain : Retried cold
    · have hinserted : m₁.slot.inserted = true := by rw [hslot]; exact h
      obtain ⟨r, m₂, hwarm, high', hslot', hhigh'⟩ := attempt_ends hl hroom hinserted true
      obtain ⟨hactivations, hok, herror⟩ := closed_slot hslot' hhigh'
      rw [hslot] at hactivations hok herror
      refine (reset_of_warm hcold hagain hwarm).ends ⟨fun _ => ⟨⟨m₂, hwarm⟩, hactivations⟩, ?_⟩
      exact ⟨fun honce => absurd hagain honce, hok, herror⟩
    · obtain ⟨hactivations, hok, herror⟩ := closed_slot hslot hhigh
      refine (reset_of_cold hcold hagain).ends ⟨fun hretried => absurd hretried hagain, ?_⟩
      exact ⟨fun _ => ⟨rfl, hactivations⟩, hok, herror⟩

/-- A card whose clock does not run answers neither activation. -/
theorem reset_settles_unanswered :
    let m : Socket Scripted :=
      ⟨{ inserted := true }, ⟨{ answers := .ofScripts #[] (some 0) none none }, []⟩⟩
    m.slot.inserted = true ∧ 112 * 372 < Width.bits32.size ∧
      (reset Scripted.line ⟨372⟩).run.Ends m fun r m' =>
        r = .error .noAnswer ∧ m'.slot.activations = [true, false] ∧
          m'.slot.deactivations = 1 ∧ m'.slot.powered = false ∧ m'.slot.rstHigh = false := by
  intro m
  have hroom : 112 * 372 < Width.bits32.size := by decide
  obtain ⟨cold, m₁, hcold, -, r, m', hreset, hretried, -, -, herror⟩ :=
    (reset_settles Scripted.responsive (e := ⟨372⟩) hroom m).2 rfl
  have hfirst : failure? (attempt Scripted.line ⟨372⟩ false) m = some .noAnswer := by
    decide +kernel
  have hwhole : failure? (reset Scripted.line ⟨372⟩) m = some .noAnswer := by decide +kernel
  obtain rfl := hcold.of_failure? hfirst
  obtain rfl := hreset.of_failure? hwhole
  obtain ⟨hpowered, hrst, hdeactivations⟩ := herror .noAnswer rfl
  refine ⟨rfl, hroom, hreset.ends ⟨rfl, ?_, hdeactivations, hpowered, hrst⟩⟩
  exact (hretried ⟨.noAnswer, rfl, by decide⟩).2

end Reset

end CardTap.CardReset
