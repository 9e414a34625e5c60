import CardTap.Proofs.Bench.Wire.Rest
import CardTap.Proofs.Line.Responsive

/-!
# The simulated line answers

A sample asks where in its character the peer is, and divides by its ETU to tell.  No operation of
the line changes the ETU, so a line with a positive one answers for ever.
-/

namespace CardTap.Bench.Wire

open CardTap.Run

variable {w : Wire}

/-! ## The ETU stays -/

theorem etu_fallingEdge (w : Wire) : w.fallingEdge.etu = w.etu := by
  unfold fallingEdge
  split
  · rfl
  · split
    · by_cases hrejects : w.rejections = 0 <;> simp [hrejects]
    · rfl

theorem etu_driveTo (w : Wire) (level : Level) : (w.driveTo level).etu = w.etu := by
  have hset (w : Wire) : (if level = w.device then w
      else { w with transitions := (w.now, level) :: w.transitions, device := level }).etu =
        w.etu := by
    split <;> rfl
  rw [driveTo, hset]
  split
  · exact etu_fallingEdge w
  · rfl

theorem etu_waited (w : Wire) (ticks : Nat) : (w.waited ticks).2.etu = w.etu := by
  simp only [waited]
  split <;> rfl

theorem etu_tick (w : Wire) : w.tick.etu = w.etu := by
  unfold tick
  cases w.active with
  | none => rfl
  | some started =>
    simp only
    split <;> rfl

theorem etu_startNext (w : Wire) : w.startNext.etu = w.etu := by
  unfold startNext
  split <;> rfl

theorem etu_sampled (w : Wire) : w.sampled.etu = w.etu := by
  unfold sampled
  split
  · rw [etu_startNext, etu_tick]
  · exact etu_tick w

/-! ## Every operation answers -/

theorem level_ok (h : 0 < w.etu) : ∃ level, w.level = .ok level := by
  unfold level peerLow
  cases w.active with
  | none => exact ⟨_, rfl⟩
  | some started =>
    have hdiv := Word.div_ok (a := w.now - started.1) (Nat.ne_of_gt h)
    simp [hdiv, bind, Except.bind, pure, Except.pure]

theorem drive_maintains (level : Level) :
    (line.drive level).Maintains fun w => 0 < w.etu := by
  intro w h
  have hdrive :=
    Returns.change (fun v : Wire => ({ v with polling := false } : Wire).driveTo level) w
  apply hdrive.ends
  simpa only [etu_driveTo] using h

theorem serves : line.Serves fun w => 0 < w.etu where
  clockRunning := Maintains.read Wire.clock
  startTimer := Maintains.change fun _ h => h
  waitFor ticks := by
    intro w h
    apply (waitFor_returns w ticks).ends
    simpa only [etu_waited] using h
  drive level := drive_maintains level
  release := drive_maintains .high
  sample := by
    intro w h
    have hsampled : 0 < w.sampled.etu := by simpa only [etu_sampled] using h
    obtain ⟨level, hlevel⟩ := level_ok hsampled
    exact (sample_returns hlevel).ends hsampled
  resetHeld := Maintains.read Wire.reset

end CardTap.Bench.Wire
