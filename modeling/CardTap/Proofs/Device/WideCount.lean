import CardTap.Device.RunningTimer
import CardTap.Proofs.Device.Sections
import Mathlib.Data.Nat.Find
import Mathlib.Order.Monotone.Basic

/-!
# The wide count is exact

A read of the timer tells the ticks only up to a multiple of its width.  As long as it is read once
in each of its rounds, a smaller value than the last one tells of one wrap and of no more, so that
the wide count holds all of the ticks at the last read (`poll_ofTicks`), whichever wait made that
read.  A wait therefore ends at the first read at its target, unless the timer stood still for too
many reads of that same wait (`WaitEnds`, `wide_count_exact`).
-/

namespace CardTap.Device

open CardTap.Run

/-! ## Counts of ticks that are known -/

namespace WideCount

/-- The count of so many ticks. -/
def ofTicks (ticks : Nat) : WideCount :=
  ⟨ticks / Width.bits16.size, ticks % Width.bits16.size⟩

theorem elapsed_ofTicks (ticks : Nat) : (ofTicks ticks).elapsed = ticks :=
  Nat.div_add_mod' ticks _

section Reads

variable {before now : Nat}

/-- Less than one round of the timer has passed between two reads. -/
structure Follows (before now : Nat) : Prop where
  le : before ≤ now
  gap : now < before + Width.bits16.size

theorem Follows.same_iff (h : Follows before now) :
    now % Width.bits16.size = before % Width.bits16.size ↔ now = before := by
  obtain ⟨hle, hgap⟩ := h
  simp only [Width.size] at hgap ⊢
  omega

theorem Follows.advance (h : Follows before now) (hroom : now < Width.bits32.size) :
    (ofTicks before).advance (now % Width.bits16.size) = ofTicks now := by
  obtain ⟨hle, hgap⟩ := h
  have hwraps : (if now % Width.bits16.size < before % Width.bits16.size then
      Width.bits16.cut (before / Width.bits16.size + 1) else before / Width.bits16.size) =
      now / Width.bits16.size := by
    by_cases hwrap : now % Width.bits16.size < before % Width.bits16.size
    · rw [if_pos hwrap]
      simp only [Width.cut, Width.size] at hgap hroom hwrap ⊢
      omega
    · rw [if_neg hwrap]
      simp only [Width.size] at hgap hwrap ⊢
      omega
  rw [WideCount.advance]
  exact congrArg (WideCount.mk · _) hwraps

/-- The reads in a row without a change, behind one more read. -/
def idleBehind (before now idle : Nat) : Nat := if now = before then idle + 1 else 0

/-- What a wait for `target` does after a read at the tick `now`. -/
def verdictAt (target now idle : Nat) : Verdict :=
  if stallLimit < idle then .stalled else if target ≤ now then .reached else .waiting idle

/-- A read less than one round behind the last one tells all of the ticks. -/
theorem poll_ofTicks (h : Follows before now) (hroom : now < Width.bits32.size)
    (target idle : Nat) :
    (ofTicks before).poll target idle (now % Width.bits16.size) =
      (ofTicks now, verdictAt target now (idleBehind before now idle)) := by
  have hidle : (if now % Width.bits16.size = (ofTicks before).last then idle + 1 else 0) =
      idleBehind before now idle := by
    rw [ofTicks, idleBehind]
    simp only [h.same_iff]
  rw [poll, hidle, verdictAt]
  dsimp only
  split
  · next hstalled =>
    have hsame : now = before := by
      by_contra hne
      rw [idleBehind, if_neg hne] at hstalled
      exact Nat.not_lt_zero _ hstalled
    rw [hsame]
  · rw [h.advance hroom, elapsed_ofTicks]

end Reads

end WideCount

/-! ## How a wait ends -/

section Waits

variable {ticks : Nat → Nat} {target first last n i : Nat} {reached : Bool}

/-- A wait whose reads come behind the read `first` finds the timer stalled at its read `i`: more
reads of it in a row than the limit, up to this one, have each repeated the value read before them.
The first of them may repeat what an earlier wait has read. -/
def Stalls (ticks : Nat → Nat) (first i : Nat) : Prop :=
  first + stallLimit < i ∧ ∀ j, i ≤ j + stallLimit → j ≤ i →
    ticks j % Width.bits16.size = ticks (j - 1) % Width.bits16.size

/-- A wait whose reads come behind the read `first` ends at the read `last`: there is no earlier
read of it at the target or in a stall, and this one is what the wait answers. -/
structure WaitEnds (ticks : Nat → Nat) (target first : Nat) (reached : Bool) (last : Nat) :
    Prop where
  behind : first < last
  before : ∀ i, first < i → i < last → ticks i < target ∧ ¬ Stalls ticks first i
  ends : if reached then target ≤ ticks last else ticks last < target ∧ Stalls ticks first last

/-- Waits in a row, with the read in front of the first one, what each of them answers and the read
that the last one ends at. -/
inductive WaitsEnd (ticks : Nat → Nat) : Nat → List Nat → List Bool → Nat → Prop
  | nil (first : Nat) : WaitsEnd ticks first [] [] first
  | cons {target first next last : Nat} {targets : List Nat} {reached : Bool}
      {results : List Bool} (h : WaitEnds ticks target first reached next)
      (hrest : WaitsEnd ticks next targets results last) :
      WaitsEnd ticks first (target :: targets) (reached :: results) last

theorem WaitsEnd.le {targets : List Nat} {results : List Bool}
    (h : WaitsEnd ticks first targets results last) : first ≤ last := by
  induction h with
  | nil first => exact Nat.le_refl _
  | cons h _ ih => exact Nat.le_trans (Nat.le_of_lt h.behind) ih

/-! ## Reads without a change -/

/-- The reads in a row up to the read `i` that did not change the ticks, of those behind `first`. -/
def idleAt (ticks : Nat → Nat) (first : Nat) : Nat → Nat
  | 0 => 0
  | i + 1 => if first ≤ i ∧ ticks (i + 1) = ticks i then idleAt ticks first i + 1 else 0

theorem idleAt_succ (h : first ≤ i) :
    idleAt ticks first (i + 1) =
      WideCount.idleBehind (ticks i) (ticks (i + 1)) (idleAt ticks first i) := by
  rw [idleAt, WideCount.idleBehind]
  simp only [h, true_and]

theorem idleAt_of_le (h : i ≤ first) : idleAt ticks first i = 0 := by
  cases i with
  | zero => rfl
  | succ i => exact if_neg fun hidle => Nat.not_lt.2 hidle.1 h

theorem lt_idleAt_succ :
    n < idleAt ticks first (i + 1) ↔
      first ≤ i ∧ ticks (i + 1) = ticks i ∧ n ≤ idleAt ticks first i := by
  rw [idleAt]
  split
  · next h => exact ⟨fun hn => ⟨h.1, h.2, Nat.le_of_lt_succ hn⟩, fun hn => Nat.lt_succ_of_le hn.2.2⟩
  · next h => exact ⟨fun hn => absurd hn (Nat.not_lt_zero n), fun hn => absurd ⟨hn.1, hn.2.1⟩ h⟩

theorem lt_idleAt_iff :
    n < idleAt ticks first i ↔
      first + n < i ∧ ∀ j, i ≤ j + n → j ≤ i → ticks j = ticks (j - 1) := by
  induction i generalizing n with
  | zero =>
    exact ⟨fun hn => absurd hn (Nat.not_lt_zero n), fun hn => absurd hn.1 (Nat.not_lt_zero _)⟩
  | succ i ih =>
    rw [lt_idleAt_succ]
    constructor
    · rintro ⟨hfirst, hsame, hn⟩
      cases n with
      | zero =>
        refine ⟨Nat.lt_succ_of_le hfirst, fun j hj hle => ?_⟩
        obtain rfl := Nat.le_antisymm hle hj
        exact hsame
      | succ n =>
        obtain ⟨hroom, hearlier⟩ := ih.1 hn
        refine ⟨Nat.succ_lt_succ hroom, fun j hj hle => ?_⟩
        obtain hlt | rfl := Nat.lt_or_eq_of_le hle
        · exact hearlier j (Nat.le_of_succ_le_succ hj) (Nat.le_of_lt_succ hlt)
        · exact hsame
    · rintro ⟨hroom, hsame⟩
      refine ⟨by omega, hsame (i + 1) (Nat.le_add_right _ _) (Nat.le_refl _), ?_⟩
      cases n with
      | zero => exact Nat.zero_le _
      | succ n =>
        exact ih.2 ⟨Nat.lt_of_succ_lt_succ hroom, fun j hj hle =>
          hsame j (Nat.succ_le_succ hj) (Nat.le_succ_of_le hle)⟩

section Rounds

variable (hticks : ∀ n, WideCount.Follows (ticks n) (ticks (n + 1)))
include hticks

theorem ticks_le (h : i ≤ n) : ticks i ≤ ticks n :=
  monotone_nat_of_le_succ (fun n => (hticks n).le) h

theorem stalls_iff : Stalls ticks first i ↔ stallLimit < idleAt ticks first i := by
  have hsame (j : Nat) : ticks j % Width.bits16.size = ticks (j - 1) % Width.bits16.size ↔
      ticks j = ticks (j - 1) := by
    cases j with
    | zero => exact iff_of_true rfl rfl
    | succ j => exact (hticks j).same_iff
  rw [lt_idleAt_iff, Stalls]
  simp only [hsame]

/-- Without a stall the reads are no more than the ticks and the idle reads allow. -/
theorem reads_le_of_idle (hfirst : first ≤ n) (hidle : ∀ i < n, idleAt ticks first i ≤ stallLimit) :
    n ≤ first + (stallLimit + 1) * ticks n + idleAt ticks first n := by
  induction n, hfirst using Nat.le_induction with
  | base => exact Nat.le_trans (Nat.le_add_right _ _) (Nat.le_add_right _ _)
  | succ n hfirst ih =>
    have hreads := ih fun i hi => hidle i (Nat.lt_succ_of_lt hi)
    have hlast := hidle n (Nat.lt_succ_self n)
    have hle := (hticks n).le
    rw [idleAt_succ hfirst, WideCount.idleBehind]
    simp only [stallLimit] at hreads hlast ⊢
    split <;> omega

theorem idleAt_le_of_not_stalls (hbefore : ∀ i, first < i → i < n → ¬ Stalls ticks first i)
    (h : i < n) : idleAt ticks first i ≤ stallLimit := by
  rcases Nat.lt_or_ge first i with hfirst | hfirst
  · exact Nat.not_lt.1 fun hidle => hbefore i hfirst h ((stalls_iff hticks).2 hidle)
  · rw [idleAt_of_le hfirst]
    exact Nat.zero_le _

/-- A stall repeats what an earlier read of the same wait has told. -/
theorem lt_of_stalls (h : Stalls ticks first i)
    (hbefore : ∀ j, first < j → j < i → ticks j < target) : ticks i < target := by
  obtain ⟨hroom, hsame⟩ := lt_idleAt_iff.1 ((stalls_iff hticks).1 h)
  rw [hsame i (Nat.le_add_right _ _) (Nat.le_refl i)]
  have hlimit : 0 < stallLimit := by decide
  exact hbefore (i - 1) (by omega) (by omega)

/-- Ticks that stay within their room bring every wait to an end. -/
theorem exists_waitEnds (hroom : ∀ n, ticks n < Width.bits32.size) (target first : Nat) :
    ∃ reached last, WaitEnds ticks target first reached last := by
  classical
  have hsome : ∃ i, first < i ∧ (target ≤ ticks i ∨ Stalls ticks first i) := by
    by_contra hnone
    -- Without an end the reads go on past what the room of the ticks allows.
    have hidle (i : Nat) : idleAt ticks first i ≤ stallLimit :=
      idleAt_le_of_not_stalls hticks
        (fun j hfirst _ hstalls => hnone ⟨j, hfirst, .inr hstalls⟩) (Nat.lt_succ_self i)
    obtain ⟨n, hn⟩ : ∃ n, n = first + (stallLimit + 1) * (Width.bits32.size + 1) := ⟨_, rfl⟩
    have hfirst : first ≤ n := hn ▸ Nat.le_add_right first _
    have hreads := reads_le_of_idle hticks hfirst fun i _ => hidle i
    have hlast := hidle n
    have hnow := hroom n
    simp only [stallLimit] at hn hreads hlast
    omega
  obtain ⟨hfirst, hends⟩ := Nat.find_spec hsome
  have hbefore (i : Nat) (hi : first < i) (hlt : i < Nat.find hsome) :
      ticks i < target ∧ ¬ Stalls ticks first i := by
    have hneither := Nat.find_min hsome hlt
    rw [not_and, not_or] at hneither
    exact ⟨Nat.not_le.1 (hneither hi).1, (hneither hi).2⟩
  by_cases htarget : target ≤ ticks (Nat.find hsome)
  · exact ⟨true, _, hfirst, hbefore, htarget⟩
  · exact ⟨false, _, hfirst, hbefore, Nat.not_le.1 htarget, hends.resolve_left htarget⟩

theorem exists_waitsEnd (hroom : ∀ n, ticks n < Width.bits32.size) (targets : List Nat)
    (first : Nat) : ∃ results last, WaitsEnd ticks first targets results last := by
  induction targets generalizing first with
  | nil => exact ⟨[], first, .nil first⟩
  | cons target rest ih =>
    obtain ⟨reached, next, hends⟩ := exists_waitEnds hticks hroom target first
    obtain ⟨results, last, hrest⟩ := ih next
    exact ⟨reached :: results, last, .cons hends hrest⟩

/-- A wait within the room makes less reads than count as for ever. -/
theorem WaitEnds.reads_le (h : WaitEnds ticks target first reached last)
    (hroom : ticks last < Width.bits32.size) : last ≤ first + Run.eternity := by
  obtain ⟨n, rfl⟩ := Nat.exists_eq_add_of_lt h.behind
  have hidle (i : Nat) (hi : i < first + n + 1) : idleAt ticks first i ≤ stallLimit :=
    idleAt_le_of_not_stalls hticks (fun j hfirst hlt => (h.before j hfirst hlt).2) hi
  have hreads := reads_le_of_idle hticks (Nat.le_add_right first n) fun i hi =>
    hidle i (Nat.lt_succ_of_lt hi)
  have hlast := hidle (first + n) (Nat.lt_succ_self _)
  have hle := (hticks (first + n)).le
  simp only [stallLimit, Width.size, Run.eternity] at hreads hlast hroom ⊢
  omega

theorem WaitEnds.verdict_before (h : WaitEnds ticks target first reached last) (hfirst : first < i)
    (hi : i < last) :
    WideCount.verdictAt target (ticks i) (idleAt ticks first i) =
      .waiting (idleAt ticks first i) := by
  obtain ⟨htarget, hrunning⟩ := h.before i hfirst hi
  rw [stalls_iff hticks] at hrunning
  rw [WideCount.verdictAt, if_neg hrunning, if_neg (Nat.not_le.2 htarget)]

theorem WaitEnds.verdict_last (h : WaitEnds ticks target first reached last) :
    WideCount.verdictAt target (ticks last) (idleAt ticks first last) =
      if reached then .reached else .stalled := by
  rw [WideCount.verdictAt]
  cases reached with
  | true =>
    have hends : target ≤ ticks last := h.ends
    have hrunning : ¬ Stalls ticks first last := fun hstalls =>
      Nat.not_lt.2 hends (lt_of_stalls hticks hstalls fun j hfirst hj => (h.before j hfirst hj).1)
    rw [stalls_iff hticks] at hrunning
    rw [if_neg hrunning, if_pos hends]
    rfl
  | false =>
    have hstalled := (stalls_iff hticks).1 h.ends.2
    rw [if_pos hstalled]
    rfl

end Rounds

end Waits

namespace RunningTimer

variable {timer : LineTimer} {m s : RunningTimer} {n : Nat}

/-! ## The timer between its reads -/

theorem ticksAt_follows (m : RunningTimer) (n : Nat) :
    WideCount.Follows (m.ticksAt n) (m.ticksAt (n + 1)) where
  le := Nat.le_add_right _ _
  gap := Nat.add_lt_add_left (m.gaps _).toNat_lt _

/-- Any ticks that go on by less than one round between reads are those of some timer. -/
theorem exists_ticksAt (m : RunningTimer) {ticks : Nat → Nat} (hzero : ticks 0 = 0)
    (hticks : ∀ n, WideCount.Follows (ticks n) (ticks (n + 1))) :
    ∃ gaps, ({ m with gaps } : RunningTimer).ticksAt = ticks := by
  refine ⟨fun i => UInt16.ofNat (ticks (i - m.reads + 1) - ticks (i - m.reads)), funext fun n => ?_⟩
  induction n with
  | zero => exact hzero.symm
  | succ n ih =>
    obtain ⟨hle, hgap⟩ := hticks n
    have hless : ticks (n + 1) - ticks n < 0x10000 := Nat.sub_lt_left_of_lt_add hle hgap
    rw [ticksAt, ih]
    dsimp only
    rw [Nat.add_sub_cancel_left, UInt16.toNat_ofNat_of_lt' hless]
    exact Nat.add_sub_cancel' hle

/-- The machine so many reads behind the start of the timer on `m`. -/
structure Behind (m : RunningTimer) (n : Nat) (s : RunningTimer) : Prop where
  reads : s.reads = m.reads + n
  gaps : s.gaps = m.gaps
  counter : s.counter.toNat = m.ticksAt n % Width.bits16.size

theorem Behind.ticked (h : Behind m n s) : Behind m (n + 1) s.ticked where
  reads := congrArg (· + 1) h.reads
  gaps := h.gaps
  counter := by
    have hnow : s.ticked.counter.toNat =
        (s.counter.toNat + (m.gaps (m.reads + n)).toNat) % 0x10000 := by
      rw [← h.reads, ← h.gaps]
      exact UInt16.toNat_add ..
    rw [hnow, h.counter]
    exact Nat.mod_add_mod ..

/-! ## Access to the registers -/

theorem fetched_status (timer : LineTimer) (s : RunningTimer) :
    s.fetched timer Reg.sreg = (s.values Reg.sreg, s) := by
  cases timer <;> rfl

theorem written_status (timer : LineTimer) (s : RunningTimer) (value : UInt8) :
    s.written timer Reg.sreg value =
      { s with values := Function.update s.values Reg.sreg value } := by
  cases timer <;> rfl

theorem fetched_low (timer : LineTimer) (s : RunningTimer) :
    s.fetched timer timer.counter = (UInt8.ofNat s.ticked.counter.toNat, s.ticked) := if_pos rfl

theorem fetched_high (timer : LineTimer) (s : RunningTimer) :
    s.fetched timer (timer.counter + 1) = (s.held, s) :=
  (if_neg (Nat.succ_ne_self _)).trans (if_pos rfl)

theorem written_low (timer : LineTimer) (s : RunningTimer) (value : UInt8) :
    s.written timer timer.counter value =
      { s with counter := UInt16.ofNat (s.held.toNat * 256 + value.toNat) } := if_pos rfl

theorem written_high (timer : LineTimer) (s : RunningTimer) (value : UInt8) :
    s.written timer (timer.counter + 1) value = { s with held := value } :=
  (if_neg (Nat.succ_ne_self _)).trans (if_pos rfl)

theorem read_returns (timer : LineTimer) (s : RunningTimer) (addr : Nat) :
    ((registers timer).read addr).Returns s (s.fetched timer addr).1 (s.fetched timer addr).2 :=
  Returns.step (fun m : RunningTimer => m.fetched timer addr) s

theorem write_returns (timer : LineTimer) (s : RunningTimer) (addr : Nat) (value : UInt8) :
    ((registers timer).write addr value).Returns s () (s.written timer addr value) :=
  Returns.change (fun m : RunningTimer => m.written timer addr value) s

/-- The status register of the machine; an access to it changes none but the other registers. -/
def statusRegister (timer : LineTimer) : StatusRegister (registers timer) where
  value s := s.values Reg.sreg
  read s := s
  write new s := { s with values := Function.update s.values Reg.sreg new }
  read_returns s := by
    have hrun := read_returns timer s Reg.sreg
    rwa [fetched_status] at hrun
  write_returns new s := by
    have hrun := write_returns timer s Reg.sreg new
    rwa [written_status] at hrun
  value_write new s := Function.update_self Reg.sreg new s.values

theorem Behind.entered (h : Behind m n s) (timer : LineTimer) :
    Behind m n ((statusRegister timer).entered s) :=
  ⟨h.reads, h.gaps, h.counter⟩

theorem Behind.left (h : Behind m n s) (timer : LineTimer) (saved : UInt8) :
    Behind m n ((statusRegister timer).left saved s) := by
  unfold StatusRegister.left
  split
  · exact ⟨h.reads, h.gaps, h.counter⟩
  · exact h

theorem count_left (timer : LineTimer) (saved : UInt8) (s : RunningTimer) :
    ((statusRegister timer).left saved s).count = s.count := by
  unfold StatusRegister.left
  split <;> rfl

/-- The two halves that one read of a counter answers belong together. -/
theorem halves_of_counter (c : UInt16) :
    (UInt8.ofNat (c.toNat / 256)).toNat * 256 + (UInt8.ofNat c.toNat).toNat = c.toNat := by
  have hc : c.toNat < 0x10000 := c.toNat_lt
  rw [UInt8.toNat_ofNat', UInt8.toNat_ofNat']
  omega

/-- The low half and then the high one, as the read of the low one finds them. -/
theorem readHalves_returns (timer : LineTimer) (s : RunningTimer) :
    (do
      let lo ← (registers timer).read timer.counter
      let hi ← (registers timer).read (timer.counter + 1)
      pure (hi.toNat * 256 + lo.toNat) : Run RunningTimer Nat).Returns s
      s.ticked.counter.toNat s.ticked := by
  have hlow := read_returns timer s timer.counter
  have hhigh := read_returns timer s.ticked (timer.counter + 1)
  rw [fetched_low] at hlow
  rw [fetched_high] at hhigh
  rw [← halves_of_counter]
  exact Returns.bind hlow (Returns.bind hhigh (Returns.pure _ _))

/-- A read of the counter answers the ticks up to it, as far as they have room in the counter. -/
theorem readWord_ends (h : Behind m n s) :
    ((registers timer).readWord timer.counter).Ends s fun raw s' =>
      raw = m.ticksAt (n + 1) % Width.bits16.size ∧ Behind m (n + 1) s' ∧ s'.count = s.count := by
  have hticked := (h.entered timer).ticked
  refine (statusRegister timer).masked_ends ((readHalves_returns timer _).ends ?_)
  exact ⟨hticked.counter, hticked.left timer _, count_left timer _ _⟩

/-- The timer starts from zero, and with it the count. -/
theorem start_ends (timer : LineTimer) (m : RunningTimer) :
    (start timer).Ends m fun _ s => Behind m 0 s ∧ s.count = .ofTicks 0 := by
  have hzeroed : ((registers timer).writeWord timer.counter 0).Ends m fun _ s => Behind m 0 s := by
    have hhigh := write_returns timer ((statusRegister timer).entered m) (timer.counter + 1) 0
    rw [written_high] at hhigh
    have hlow := write_returns timer { (statusRegister timer).entered m with held := 0 }
      timer.counter 0
    rw [written_low] at hlow
    have hzero : UInt16.ofNat ((0 : UInt8).toNat * 256 + (0 : UInt8).toNat) = 0 := by decide
    rw [hzero] at hlow
    have hstarted : Behind m 0 { (statusRegister timer).entered m with held := 0, counter := 0 } :=
      ⟨rfl, rfl, (Nat.zero_mod _).symm⟩
    exact (statusRegister timer).masked_ends
      (Ends.after hhigh (hlow.ends (hstarted.left timer _)))
  refine hzeroed.bind fun _ s hs => ?_
  exact (Returns.change _ s).ends ⟨⟨hs.reads, hs.gaps, hs.counter⟩, rfl⟩

/-! ## A wait -/

section Waiting

variable {target first last fuel : Nat} {reached : Bool}

/-- The loop of a wait follows the reads up to the one that the wait ends at. -/
theorem waitWithin_ends (timer : LineTimer)
    (hends : WaitEnds m.ticksAt target first reached last)
    (hroom : m.ticksAt last < Width.bits32.size) (h : Behind m n s)
    (hcount : s.count = .ofTicks (m.ticksAt n)) (hfirst : first ≤ n) (hn : n < last)
    (hfuel : last ≤ n + fuel) :
    (WideCount.waitWithin place ((registers timer).readWord timer.counter) target
      (idleAt m.ticksAt first n) fuel).Ends s fun r s' =>
        r = reached ∧ Behind m last s' ∧ s'.count = .ofTicks (m.ticksAt last) := by
  induction fuel generalizing n s with
  | zero => exact absurd hn (Nat.not_lt.2 hfuel)
  | succ fuel ih =>
    refine (readWord_ends h).bind fun raw s₁ hread => ?_
    obtain ⟨hraw, hbehind, hcount₁⟩ := hread
    refine Ends.after (Returns.read _ s₁) ?_
    have hnext : m.ticksAt (n + 1) < Width.bits32.size :=
      Nat.lt_of_le_of_lt (ticks_le (ticksAt_follows m) hn) hroom
    have hpoll : (place.get s₁).poll target (idleAt m.ticksAt first n) raw =
        (.ofTicks (m.ticksAt (n + 1)),
          WideCount.verdictAt target (m.ticksAt (n + 1)) (idleAt m.ticksAt first (n + 1))) := by
      rw [idleAt_succ hfirst, ← WideCount.poll_ofTicks (ticksAt_follows m n) hnext, hraw]
      exact congrArg (WideCount.poll · _ _ _) (hcount₁.trans hcount)
    rw [hpoll]
    refine Ends.after (Returns.change _ s₁) ?_
    have hbehind' : Behind m (n + 1) (place.put (.ofTicks (m.ticksAt (n + 1))) s₁) :=
      ⟨hbehind.reads, hbehind.gaps, hbehind.counter⟩
    obtain hlt | rfl := Nat.lt_or_eq_of_le hn
    · rw [hends.verdict_before (ticksAt_follows m) (Nat.lt_succ_of_le hfirst) hlt]
      exact ih hbehind' rfl (Nat.le_succ_of_le hfirst) hlt (by omega)
    · rw [hends.verdict_last (ticksAt_follows m)]
      cases reached with
      | true => exact Ends.pure ⟨rfl, hbehind', rfl⟩
      | false => exact Ends.pure ⟨rfl, hbehind', rfl⟩

theorem await_ends (timer : LineTimer) (hends : WaitEnds m.ticksAt target first reached last)
    (hroom : m.ticksAt last < Width.bits32.size) (h : Behind m first s)
    (hcount : s.count = .ofTicks (m.ticksAt first)) :
    (await timer target).Ends s fun r s' =>
      r = reached ∧ Behind m last s' ∧ s'.count = .ofTicks (m.ticksAt last) := by
  have hreads := hends.reads_le (ticksAt_follows m) hroom
  have hwait := waitWithin_ends timer hends hroom h hcount (Nat.le_refl _) hends.behind hreads
  rwa [idleAt_of_le (Nat.le_refl _)] at hwait

end Waiting

/-! ## Any number of waits -/

/-- The waits for some targets, one behind the other. -/
def awaitAll (timer : LineTimer) (targets : List Nat) : Run RunningTimer (List Bool) :=
  targets.mapM (await timer)

theorem awaitAll_ends (timer : LineTimer) {targets : List Nat} {results : List Bool}
    {first last : Nat} (hends : WaitsEnd m.ticksAt first targets results last)
    (hroom : m.ticksAt last < Width.bits32.size) (h : Behind m first s)
    (hcount : s.count = .ofTicks (m.ticksAt first)) :
    (awaitAll timer targets).Ends s fun rs s' =>
      rs = results ∧ Behind m last s' ∧ s'.count = .ofTicks (m.ticksAt last) := by
  induction hends generalizing s with
  | nil first => exact Ends.pure ⟨rfl, h, hcount⟩
  | cons hwait hrest ih =>
    have hnext := Nat.lt_of_le_of_lt (ticks_le (ticksAt_follows m) hrest.le) hroom
    rw [awaitAll, List.mapM_cons]
    refine (await_ends timer hwait hnext h hcount).bind fun reached s₁ hs₁ => ?_
    obtain ⟨rfl, hbehind, hcount₁⟩ := hs₁
    refine (ih hroom hbehind hcount₁).bind fun rs s₂ hs₂ => ?_
    obtain ⟨rfl, hs₂⟩ := hs₂
    exact Ends.pure ⟨rfl, hs₂⟩

/-- **The wide count is exact.**  Take any ticks that start from zero and go on by less than one
round of the timer from each read to the next.  A timer can count them, and on each one that does,
behind its start, whatever was counted before, a row of waits for any targets returns what the ticks
at its reads tell (`WaitsEnd`); the count holds all of the ticks up to its last read, as long as
these have room in 32 bits.  If they always have room, every row of waits comes to an end. -/
theorem wide_count_exact (timer : LineTimer) (m : RunningTimer) {ticks : Nat → Nat}
    (hzero : ticks 0 = 0) (hticks : ∀ n, WideCount.Follows (ticks n) (ticks (n + 1)))
    (targets : List Nat) :
    (∃ gaps, ({ m with gaps } : RunningTimer).ticksAt = ticks) ∧
    (∀ gaps, ({ m with gaps } : RunningTimer).ticksAt = ticks →
      ∀ results last, WaitsEnd ticks 0 targets results last → ticks last < Width.bits32.size →
        ∃ s, (do
            start timer
            awaitAll timer targets : Run RunningTimer (List Bool)).Returns
              { m with gaps } results s ∧
          s.reads = m.reads + last ∧ s.count.elapsed = ticks last) ∧
    ((∀ n, ticks n < Width.bits32.size) →
      ∃ results last, WaitsEnd ticks 0 targets results last) := by
  refine ⟨exists_ticksAt m hzero hticks, fun gaps hgaps results last hends hroom => ?_,
    fun hroom => exists_waitsEnd hticks hroom targets 0⟩
  subst hgaps
  have hrun := (start_ends timer { m with gaps }).bind fun _ s₀ hs₀ =>
    awaitAll_ends timer hends hroom hs₀.1 hs₀.2
  obtain ⟨_, s, hreturns, rfl, hbehind, hcount⟩ := hrun
  refine ⟨s, hreturns, hbehind.reads, ?_⟩
  rw [hcount, WideCount.elapsed_ofTicks]

/-- A timer that wraps between its first two reads, and then stands still. -/
def wrapping : RunningTimer where
  values _ := 0
  counter := 0xBEEF
  held := 0
  reads := 0
  gaps
    | 0 => 65535
    | 1 => 10
    | _ => 0
  count := ⟨3, 7⟩

theorem ticksAt_wrapping (n : Nat) : wrapping.ticksAt (n + 2) = 65545 := by
  induction n with
  | zero => rfl
  | succ n ih =>
    have hgap : wrapping.gaps (wrapping.reads + (n + 2)) = 0 :=
      congrArg wrapping.gaps (Nat.zero_add (n + 2))
    rw [ticksAt, ih, hgap]
    rfl

/-- The wrap is counted between the two reads of one wait, and a later wait ends as well. -/
theorem wide_count_exact_wrap :
    WaitsEnd wrapping.ticksAt 0 [65540] [true] 2 ∧
      (∀ n, wrapping.ticksAt n < Width.bits32.size) ∧
      (∃ s, (do
          start .terminal
          awaitAll .terminal [65540] : Run RunningTimer (List Bool)).Returns wrapping [true] s ∧
        s.count.elapsed = 65545) ∧
      ∃ results last, WaitsEnd wrapping.ticksAt 0 [65540, 70000] results last := by
  have hroom (n : Nat) : wrapping.ticksAt n < Width.bits32.size := by
    rcases n with _ | _ | n
    · decide
    · decide
    · rw [ticksAt_wrapping]
      decide
  have hbefore (i : Nat) (hi : 0 < i) (hlt : i < 2) :
      wrapping.ticksAt i < 65540 ∧ ¬ Stalls wrapping.ticksAt 0 i := by
    obtain rfl : i = 1 := by omega
    exact ⟨by decide, fun hstalls => absurd hstalls.1 (by decide)⟩
  have htarget : 65540 ≤ wrapping.ticksAt 2 := by decide
  have hends : WaitsEnd wrapping.ticksAt 0 [65540] [true] 2 :=
    .cons ⟨by decide, hbefore, htarget⟩ (.nil 2)
  have hticks := ticksAt_follows wrapping
  obtain ⟨-, hcounts, -⟩ := wide_count_exact .terminal wrapping rfl hticks [65540]
  obtain ⟨s, hrun, -, hcount⟩ := hcounts wrapping.gaps rfl _ _ hends (hroom 2)
  obtain ⟨-, -, hsome⟩ := wide_count_exact .terminal wrapping rfl hticks [65540, 70000]
  exact ⟨hends, hroom, ⟨s, hrun, hcount⟩, hsome hroom⟩

end RunningTimer

end CardTap.Device
