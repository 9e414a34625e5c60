import CardTap.Timing

/-!
# When the durations are exact

Both functions form their products in words of 64 bits, divide, and keep 32 bits of the quotient.
Two factors of 32 bits always have room in 64, so the number of ticks is exact wherever it fits.  A
duration has a third factor, the microseconds in a second: its product may have no room although the
quotient has, and then there is no result at all (`durations_exact_iff`).
-/

namespace CardTap

/-! ## Products in words -/

namespace Word

theorem mul_overflow {w : Width} {a b : Nat} (h : w.size ≤ a * b) :
    mul w a b = .error .mulOverflow := by
  simp [mul, Nat.not_lt.2 h]

/-- Two factors of 32 bits have room in 64. -/
theorem mul_wide (a b : UInt32) : mul .bits64 a.toNat b.toNat = .ok (a.toNat * b.toNat) := by
  have ha : a.toNat ≤ 0xFFFFFFFF := Nat.le_of_lt_succ a.toNat_lt
  have hb : b.toNat ≤ 0xFFFFFFFF := Nat.le_of_lt_succ b.toNat_lt
  have hproduct : a.toNat * b.toNat ≤ 0xFFFFFFFF * 0xFFFFFFFF := Nat.mul_le_mul ha hb
  exact mul_ok (Nat.lt_of_le_of_lt hproduct (by decide))

end Word

theorem Width.cut_eq_iff {w : Width} {n : Nat} : w.cut n = n ↔ n < w.size := by
  constructor
  · intro h
    rw [← h]
    exact Nat.mod_lt n (by cases w <;> decide)
  · exact Nat.mod_eq_of_lt

/-! ## The two functions -/

section Durations

variable {f d clockHz timerHz n : UInt32}

theorem rate_ne_zero (hd : d ≠ 0) (hclock : clockHz ≠ 0) : d.toNat * clockHz.toNat ≠ 0 := by
  have hd' : d.toNat ≠ 0 := fun h => hd (UInt32.toNat_inj.1 h)
  have hclock' : clockHz.toNat ≠ 0 := fun h => hclock (UInt32.toNat_inj.1 h)
  exact Nat.mul_ne_zero hd' hclock'

/-- The ticks of one ETU are the quotient, cut to 32 bits. -/
theorem etuTicks_eq (hd : d ≠ 0) (hclock : clockHz ≠ 0) :
    etuTicks f.toNat d.toNat clockHz.toNat timerHz.toNat =
      .ok (Width.bits32.cut (f.toNat * timerHz.toNat / (d.toNat * clockHz.toNat))) := by
  simp only [etuTicks, Word.mul_wide, Word.div_ok (rate_ne_zero hd hclock), bind, Except.bind, pure,
    Except.pure]

-- The third factor is left open: the kernel would unfold a product by a literal step by step.

/-- A third factor leaves the quotient exact if the product has room in 64 bits. -/
theorem scaledQuotient_eq {scale : Nat} (hd : d ≠ 0) (hclock : clockHz ≠ 0)
    (hroom : n.toNat * f.toNat * scale < Width.bits64.size) :
    (do
      let clocks ← Word.mul .bits64 n.toNat f.toNat
      let scaled ← Word.mul .bits64 clocks scale
      let rate ← Word.mul .bits64 d.toNat clockHz.toNat
      let us ← Word.div scaled rate
      pure (Width.bits32.cut us) : Checked Nat) =
      .ok (Width.bits32.cut (n.toNat * f.toNat * scale / (d.toNat * clockHz.toNat))) := by
  simp only [Word.mul_wide, Word.mul_ok hroom, Word.div_ok (rate_ne_zero hd hclock), bind,
    Except.bind, pure, Except.pure]

theorem scaledQuotient_overflow {scale : Nat} {rest : Nat → Checked Nat}
    (hroom : Width.bits64.size ≤ n.toNat * f.toNat * scale) :
    (do
      let clocks ← Word.mul .bits64 n.toNat f.toNat
      let scaled ← Word.mul .bits64 clocks scale
      rest scaled) = .error .mulOverflow := by
  simp only [Word.mul_wide, Word.mul_overflow hroom, bind, Except.bind]

/-- A duration is the quotient, cut to 32 bits, if its product has room in 64. -/
theorem etusInUs_eq (hd : d ≠ 0) (hclock : clockHz ≠ 0)
    (hroom : n.toNat * f.toNat * 1000000 < Width.bits64.size) :
    etusInUs f.toNat d.toNat clockHz.toNat n.toNat =
      .ok (Width.bits32.cut (n.toNat * f.toNat * 1000000 / (d.toNat * clockHz.toNat))) :=
  scaledQuotient_eq hd hclock hroom

theorem etusInUs_overflow (hroom : Width.bits64.size ≤ n.toNat * f.toNat * 1000000) :
    etusInUs f.toNat d.toNat clockHz.toNat n.toNat = .error .mulOverflow :=
  scaledQuotient_overflow hroom

/-- No conversion factor up to 4294 takes the product of a duration out of its word. -/
theorem product_fits (hf : f.toNat ≤ 4294) :
    n.toNat * f.toNat * 1000000 < Width.bits64.size := by
  have hn : n.toNat ≤ 0xFFFFFFFF := Nat.le_of_lt_succ n.toNat_lt
  have hproduct : n.toNat * f.toNat * 1000000 ≤ 0xFFFFFFFF * 4294 * 1000000 :=
    Nat.mul_le_mul_right _ (Nat.mul_le_mul hn hf)
  exact Nat.lt_of_le_of_lt hproduct (by decide)

end Durations

/-- **When the durations are exact.**  The ticks of one ETU are exact for all words for which they
have room in a word themselves.  A duration is exact if it has room and the product under the
division bar has room in 64 bits; otherwise that product is a fault, also where the duration would
have had room. -/
theorem durations_exact_iff (f d clockHz timerHz n : UInt32) (hd : d ≠ 0) (hclock : clockHz ≠ 0) :
    (etuTicks f.toNat d.toNat clockHz.toNat timerHz.toNat =
        .ok (f.toNat * timerHz.toNat / (d.toNat * clockHz.toNat)) ↔
      f.toNat * timerHz.toNat / (d.toNat * clockHz.toNat) < Width.bits32.size) ∧
    (etusInUs f.toNat d.toNat clockHz.toNat n.toNat =
        .ok (n.toNat * f.toNat * 1000000 / (d.toNat * clockHz.toNat)) ↔
      n.toNat * f.toNat * 1000000 / (d.toNat * clockHz.toNat) < Width.bits32.size ∧
        n.toNat * f.toNat * 1000000 < Width.bits64.size) ∧
    (etusInUs f.toNat d.toNat clockHz.toNat n.toNat = .error .mulOverflow ↔
      Width.bits64.size ≤ n.toNat * f.toNat * 1000000) := by
  refine ⟨?_, ?_⟩
  · rw [etuTicks_eq hd hclock, Except.ok.injEq, Width.cut_eq_iff]
  · rcases Nat.lt_or_ge (n.toNat * f.toNat * 1000000) Width.bits64.size with hroom | hroom
    · rw [etusInUs_eq hd hclock hroom, Except.ok.injEq, Width.cut_eq_iff]
      exact ⟨(and_iff_left hroom).symm, iff_of_false nofun (Nat.not_le.2 hroom)⟩
    · rw [etusInUs_overflow hroom]
      exact ⟨iff_of_false nofun fun h => Nat.not_lt.2 hroom h.2, iff_of_true rfl hroom⟩

/-- At the standard rate an ETU lasts 93 microseconds, even if their number nearly fills a word. -/
theorem durations_exact_standard :
    (1 : UInt32) ≠ 0 ∧ (4000000 : UInt32) ≠ 0 ∧
      etuTicks standardF standardD CardClock.standard.hz coreHz = .ok 1488 ∧
      etusInUs standardF standardD CardClock.standard.hz 46182443 = .ok 4294967199 := by
  have hd : (1 : UInt32) ≠ 0 := by decide
  have hclock : (4000000 : UInt32) ≠ 0 := by decide
  obtain ⟨hticks, hus, -⟩ := durations_exact_iff 372 1 4000000 16000000 46182443 hd hclock
  exact ⟨hd, hclock, hticks.2 (by decide), hus.2 ⟨by decide, product_fits (by decide)⟩⟩

/-- With F and D both 8192 an ETU lasts a quarter of a microsecond at 4 MHz.  The duration of any
number of them has room in a word, but that of the largest one is not computed. -/
theorem duration_overflows :
    4294967295 * 8192 * 1000000 / (8192 * 4000000) = 1073741823 ∧
      1073741823 < Width.bits32.size ∧
      etusInUs 8192 8192 4000000 4294967295 = .error .mulOverflow :=
  ⟨by decide, by decide, rfl⟩

end CardTap
