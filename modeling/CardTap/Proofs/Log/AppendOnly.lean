import CardTap.Proofs.Log.PowerLoss

/-!
# The log is append-only

Flushes follow one another, and each of them may lose power after any of its writes.  A flush writes
the log from its start on, so what lies below the start is out of its reach; what is left to show is
that the start never moves back.  A torn cursor is the only one that was never meant: its high byte
is the new one, which is not below the old one, so it lies between the old cursor and the page that
holds the new one, or above.
-/

namespace CardTap.Log

open CardTap.Run CardTap.Bench CardTap.Bench.Memory

/-! ## The start never moves back -/

section Start

variable {m : Memory} {old : Nat}

/-- A flush with room for its end marker moves the cursor up, to the end of the region at most. -/
theorem plannedCursor_of_fits (entries : List Entry) (app : UInt8) (hroom : fits (startOf old) 0) :
    startOf old < plannedCursor old entries app ∧
      plannedCursor old entries app ≤ Layout.logEnd := by
  have hfit := plannedBytes_fit entries app hroom
  have hstart := fits_iff.1 hroom
  rw [plannedCursor, if_pos hroom]
  refine ⟨?_, pageBehind_le _⟩
  have hup := le_pageBehind hfit
  have hlen : 5 ≤ (plannedBytes (startOf old) entries app).length := by
    rw [plannedBytes, if_pos hroom, List.length_append, length_bytes, Marker.size]
    omega
  omega

theorem plannedCursor_of_full (entries : List Entry) (app : UInt8)
    (hroom : ¬ fits (startOf old) 0) : plannedCursor old entries app = old :=
  if_neg hroom

theorem startOf_plannedCursor (entries : List Entry) (app : UInt8) (hroom : fits (startOf old) 0) :
    startOf (plannedCursor old entries app) = plannedCursor old entries app := by
  obtain ⟨hup, hend⟩ := plannedCursor_of_fits entries app hroom
  have hlow := startOf_ge old
  exact startOf_of_le (by omega) (by unfold Layout.unsetCursor; unfold Layout.logEnd at hend; omega)

/-- Whatever stood in the store before, a torn cursor does not lead back. -/
theorem startOf_le_startOf_torn {new : Nat} (hup : startOf old < new) (hend : new ≤ Layout.logEnd)
    (hboth : ChangesBoth old new) :
    startOf old ≤ startOf (tornCursor old new) := by
  obtain ⟨hhigh, -⟩ := hboth
  unfold Layout.logEnd at hend
  have hset : tornCursor old new ≠ Layout.unsetCursor := by
    unfold tornCursor Layout.unsetCursor
    omega
  by_cases hunset : old = Layout.unsetCursor
  · -- the low byte is 0xFF, above the start of the region
    subst hunset
    rw [startOf_unset]
    exact startOf_ge _
  · by_cases hbelow : old < Layout.logStart
    · rw [show startOf old = Layout.logStart from if_pos (.inr hbelow)]
      exact startOf_ge _
    · have hinside : startOf old = old := startOf_of_le (Nat.le_of_not_lt hbelow) hunset
      rw [hinside] at hup ⊢
      have htorn : old ≤ tornCursor old new := by
        unfold tornCursor
        omega
      rwa [startOf_of_le (Nat.le_trans (Nat.le_of_not_lt hbelow) htorn) hset]

/-- The start of the next flush is not below that of the last one, wherever the power was lost. -/
theorem startOf_le_startOf_reached (entries : List Entry) (app : UInt8) (logged : Nat)
    (cut : Option Nat) :
    startOf old ≤ startOf (cursorReached old (plannedCursor old entries app) logged cut) := by
  by_cases hroom : fits (startOf old) 0
  · obtain ⟨hup, hend⟩ := plannedCursor_of_fits entries app hroom
    have hnew := startOf_plannedCursor entries app hroom
    cases cut with
    | none => rw [cursorReached_none, hnew]; exact Nat.le_of_lt hup
    | some n =>
      rw [cursorReached_some]
      split
      · exact Nat.le_refl _
      · split
        · next h => exact startOf_le_startOf_torn hup hend h.2
        · rw [hnew]; exact Nat.le_of_lt hup
  · rw [plannedCursor_of_full entries app hroom]
    cases cut with
    | none => exact Nat.le_refl _
    | some n =>
      have hboth : ¬ ChangesBoth old old := fun h => h.1 rfl
      simp only [cursorReached_some, hboth, and_false, ↓reduceIte, ite_self]
      exact Nat.le_refl _

theorem plannedCursor_le_startOf (entries : List Entry) (app : UInt8) :
    plannedCursor old entries app ≤ startOf (plannedCursor old entries app) := by
  by_cases hroom : fits (startOf old) 0
  · exact Nat.le_of_eq (startOf_plannedCursor entries app hroom).symm
  · rw [plannedCursor_of_full entries app hroom]
    unfold startOf
    split
    · next h =>
      rcases h with rfl | h
      · exact absurd (by decide) hroom
      · exact Nat.le_of_lt h
    · exact Nat.le_refl _

theorem mem_flushWrites {entries : List Entry} {app : UInt8} {w : Nat × UInt8}
    (h : w ∈ flushWrites m entries app) :
    startOf m.persistedCursor ≤ w.1 ∧ w.1 < Layout.logEnd ∨
      w.1 = Layout.cursorHigh ∨ w.1 = Layout.cursorLow := by
  rcases List.mem_append.1 h with hlog | hcursor
  · obtain ⟨hge, hlt⟩ := mem_placed hlog
    by_cases hroom : fits (startOf m.persistedCursor) 0
    · exact .inl ⟨hge, Nat.lt_of_lt_of_le hlt (plannedBytes_fit entries app hroom)⟩
    · rw [plannedBytes_eq_nil entries app hroom] at hlog
      exact absurd hlog List.not_mem_nil
  · exact .inr (mem_cursorWrites hcursor)

end Start

/-! ## One flush of a history -/

section Step

variable {α : Type}

/-- What is kept of one flush of a history: the store before and after it and what it reported. -/
structure Episode (α : Type) where
  attempt : Attempt α
  before : Memory
  outcome : Except StoreError FlushSummary
  after : Memory

/-- Where the flush of an episode starts to write. -/
def Episode.start (e : Episode α) : Nat := startOf e.before.persistedCursor

/-- Flushes one after the other, each under its own power supply. -/
def history (entry : α → Entry) : List (Attempt α) → Run Memory (List (Episode α))
  | [] => pure []
  | a :: rest => do
    let before ← Run.read id
    let outcome ← a.run entry
    let after ← Run.read id
    let later ← history entry rest
    pure (⟨a, before, outcome, after⟩ :: later)

/-- What one flush does to the log, cut off or not. -/
structure Episode.Appends (e : Episode α) : Prop where
  /-- It reports where it started and writes nothing but the log from there on and the cursor. -/
  confined : ∃ r, e.outcome = .ok r ∧ r.start = e.start ∧
    ∀ i, ¬ (r.start ≤ i ∧ i < Layout.logEnd) → i ≠ Layout.cursorHigh → i ≠ Layout.cursorLow →
      e.after.cell? i = e.before.cell? i
  /-- It does not move the start back. -/
  forward : e.start ≤ startOf e.after.persistedCursor
  /-- Uncut, it leaves a cursor that the next flush starts at or above. -/
  behind : e.attempt.cut = none → e.after.persistedCursor ≤ startOf e.after.persistedCursor

theorem Episode.Appends.cell?_below {e : Episode α} (h : e.Appends) {i : Nat}
    (hlog : Layout.logStart ≤ i) (hi : i < e.start) : e.after.cell? i = e.before.cell? i := by
  obtain ⟨r, -, hstart, hkept⟩ := h.confined
  unfold Layout.logStart at hlog
  exact hkept i (by omega) (by unfold Layout.cursorHigh; omega) (by unfold Layout.cursorLow; omega)

/-- Every flush appends. -/
theorem Attempt.appends (entry : α → Entry) (a : Attempt α) (m : Memory) :
    ∃ outcome m', (a.run entry).Returns m outcome m' ∧ (Episode.mk a m outcome m').Appends := by
  obtain ⟨m', hrun, -, -, hleaves⟩ := a.run_returns entry m
  refine ⟨_, m', hrun, ⟨⟨_, rfl, rfl, fun i hlog hhigh hlow => ?_⟩, ?_, fun huncut => ?_⟩⟩
  · refine (hleaves i).trans ((cell?_programmedAll_of_ne _ fun w hw => ?_).trans
      (a.cell?_supplied m i))
    rcases mem_flushWrites hw with hin | hc | hc
    · rintro rfl
      exact hlog hin
    · rw [hc]
      exact hhigh.symm
    · rw [hc]
      exact hlow.symm
  · simp only [Episode.start, hleaves.persistedCursor]
    exact startOf_le_startOf_reached _ _ _ _
  · simp only at huncut
    simp only [hleaves.persistedCursor, huncut, cursorReached_none]
    exact plannedCursor_le_startOf _ _

end Step

/-! ## Whole histories -/

section Histories

variable {α : Type}

/-- Episodes that follow one another from a store on, each of which appends. -/
def Follow : Memory → List (Episode α) → Prop
  | _, [] => True
  | m, e :: later => e.before = m ∧ e.Appends ∧ Follow e.after later

theorem history_follows (entry : α → Entry) (attempts : List (Attempt α)) (m : Memory) :
    ∃ episodes m', (history entry attempts).Returns m episodes m' ∧
      episodes.map Episode.attempt = attempts ∧ Follow m episodes := by
  induction attempts generalizing m with
  | nil => exact ⟨[], m, Returns.pure _ _, rfl, trivial⟩
  | cons a rest ih =>
    obtain ⟨outcome, m₁, hrun, happends⟩ := a.appends entry m
    obtain ⟨later, m', hlater, hmap, hfollow⟩ := ih m₁
    refine ⟨⟨a, m, outcome, m₁⟩ :: later, m', ?_, ?_, rfl, happends, hfollow⟩
    · exact Returns.bind (Returns.read id m) (Returns.bind hrun (Returns.bind (Returns.read id m₁)
        (Returns.bind hlater (Returns.pure _ _))))
    · rw [List.map_cons, hmap]

theorem Follow.appends {m : Memory} {episodes : List (Episode α)} (h : Follow m episodes) :
    ∀ e ∈ episodes, e.Appends := by
  induction episodes generalizing m with
  | nil => exact fun e he => absurd he List.not_mem_nil
  | cons first later ih =>
    obtain ⟨-, happends, hlater⟩ := h
    intro e he
    rcases List.mem_cons.1 he with rfl | he
    · exact happends
    · exact ih hlater e he

/-- Whatever lies below a start stays as it is for good. -/
theorem Follow.above {m : Memory} {episodes : List (Episode α)} (h : Follow m episodes)
    {floor : Nat} (hfloor : floor ≤ startOf m.persistedCursor) :
    ∀ e ∈ episodes, floor ≤ e.start ∧
      ∀ i, Layout.logStart ≤ i → i < floor → e.after.cell? i = m.cell? i := by
  induction episodes generalizing m with
  | nil => exact fun e he => absurd he List.not_mem_nil
  | cons first later ih =>
    obtain ⟨rfl, happends, hlater⟩ := h
    have hkept (i : Nat) (hlog : Layout.logStart ≤ i) (hi : i < floor) :
        first.after.cell? i = first.before.cell? i :=
      happends.cell?_below hlog (Nat.lt_of_lt_of_le hi hfloor)
    intro e he
    rcases List.mem_cons.1 he with rfl | he
    · exact ⟨hfloor, hkept⟩
    · obtain ⟨hstart, hcells⟩ := ih hlater (Nat.le_trans hfloor happends.forward) e he
      exact ⟨hstart, fun i hlog hi => (hcells i hlog hi).trans (hkept i hlog hi)⟩

theorem Follow.pairwise_start {m : Memory} {episodes : List (Episode α)} (h : Follow m episodes) :
    episodes.Pairwise fun e later => e.start ≤ later.start := by
  induction episodes generalizing m with
  | nil => exact .nil
  | cons first later ih =>
    obtain ⟨-, happends, hlater⟩ := h
    exact .cons (fun e he => (hlater.above happends.forward e he).1) (ih hlater)

theorem Follow.pairwise_kept {m : Memory} {episodes : List (Episode α)} (h : Follow m episodes) :
    episodes.Pairwise fun e later => e.attempt.cut = none →
      ∀ i, e.start ≤ i → i < e.after.persistedCursor → later.after.cell? i = e.after.cell? i := by
  induction episodes generalizing m with
  | nil => exact .nil
  | cons first later ih =>
    obtain ⟨-, happends, hlater⟩ := h
    refine .cons (fun e he huncut i hstart hi => ?_) (ih hlater)
    exact (hlater.above (happends.behind huncut) e he).2 i
      (Nat.le_trans (startOf_ge _) hstart) hi

/-- **The log is append-only.** Whatever the store held at first and wherever each flush loses
power, a flush only writes the log from its start on and the cursor, no start lies below an earlier
one, and what an uncut flush wrote, up to the cursor it left, is never changed again. -/
theorem flushes_append_only (entry : α → Entry) (attempts : List (Attempt α)) (m : Memory) :
    ∃ episodes m', (history entry attempts).Returns m episodes m' ∧
      episodes.map Episode.attempt = attempts ∧
      (∀ e ∈ episodes, ∃ r, e.outcome = .ok r ∧ r.start = e.start ∧
        ∀ i, ¬ (r.start ≤ i ∧ i < Layout.logEnd) → i ≠ Layout.cursorHigh → i ≠ Layout.cursorLow →
          e.after.cell? i = e.before.cell? i) ∧
      (episodes.Pairwise fun e later => e.start ≤ later.start) ∧
      (episodes.Pairwise fun e later => e.attempt.cut = none →
        ∀ i, e.start ≤ i → i < e.after.persistedCursor →
          later.after.cell? i = e.after.cell? i) := by
  obtain ⟨episodes, m', hrun, hmap, hfollow⟩ := history_follows entry attempts m
  exact ⟨episodes, m', hrun, hmap, fun e he => (hfollow.appends e he).confined,
    hfollow.pairwise_start, hfollow.pairwise_kept⟩

end Histories

end CardTap.Log
