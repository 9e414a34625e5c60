import CardTap.Proofs.Bench.Wire.Conversation

/-!
# Retries on the simulated line

A peer that rejects a character holds the line low while the port looks for it, and lets go of it
before the port sends again: one more rejection costs one more copy of the character, and so on up
to the last try.  In the other direction a spoiled character costs one error signal.  Both
directions give up after the same number of tries and leave no copy behind (`retries_bounded`).
-/

namespace CardTap.Bench.Wire

open CardTap.Run

variable {w : Wire} {t : Traffic} {port : Etu} {c : Convention}

/-! ## Rejected characters -/

section Rejected

/-- The line is at rest but for its peer, which rejects the next `r` characters. -/
structure Rejects (e : Nat) (t : Traffic) (r : Nat) (w : Wire) : Prop where
  rests : Rests e t { w with rejections := 0 }
  rejections : w.rejections = r

variable {e r : Nat}

theorem Rejects.rests_of_zero (h : Rejects e t 0 w) : Rests e t w := by
  have hrests := h.rests
  rwa [show ({ w with rejections := 0 } : Wire) = w by rw [← h.rejections]] at hrests

/-- A fresh line whose peer is going to reject some characters. -/
theorem rejects_fresh (hpos : 0 < e) (r : Nat) :
    Rejects e ⟨[], [], 0⟩ r { etu := e, rejections := r } :=
  ⟨rests_fresh hpos [], rfl⟩

/-- A rejection that is over does not matter any more. -/
theorem Rests.past_rejection (h : Rests e t w) (start : Nat) {stop : Nat} (hover : stop ≤ w.now) :
    Rests e t { w with rejectWindows := (start, stop) :: w.rejectWindows } :=
  { h with rejected := List.forall_mem_cons.2 ⟨hover, h.rejected⟩ }

/-- The peer holds the line low for a rejection. -/
theorem level_rejected (w : Wire) {n : Nat} (h : (w.polled n).rejectLow = true) :
    (w.polled n).level = .ok .low := by
  have hpeer : (w.polled n).peerLow = .ok false := rfl
  rw [level, hpeer, h]
  cases (w.polled n).device <;> rfl

theorem Rejects.judged_eq (h : Rejects e t (r + 1) w) : w.judged = w.rejecting r := by
  rw [judged, if_neg (by rw [h.rejections]; exact Nat.succ_ne_zero r), h.rejections,
    Nat.add_sub_cancel]

variable {D : List (Nat × Level)} {v : Wire} {f : Frame}

/-- The port looks for a rejection while the peer holds the line low for it. -/
theorem Sends.sampled_rejected (hs : Sends (w.rejecting r) D v)
    (h : Rests e t { w with rejections := 0 }) (hlow : 3 ≤ e) :
    ({ v with now := w.now + e * 11, polling := false } : Wire).sampled =
        ({ v with now := w.now + e * 11, polling := false } : Wire).polled 1 ∧
      ({ v with now := w.now + e * 11, polling := false } : Wire).sampled.level = .ok .low := by
  have hetu : w.etu = e := h.etu_eq
  have hsample : ({ v with now := w.now + e * 11, polling := false } : Wire).sampled =
      ({ v with now := w.now + e * 11, polling := false } : Wire).polled 1 := by
    refine Wire.sampled_eq rfl ?_
    rw [hs.eq]
    intro start g hactive
    have hover := h.active start g hactive
    rw [← hetu] at hover
    exact Nat.le_trans hover (Nat.le_add_right _ _)
  refine ⟨hsample, ?_⟩
  have hwindows : v.rejectWindows = (w.rejecting r).rejectWindows := by rw [hs.eq]
  rw [hsample]
  refine level_rejected _ ?_
  simp only [rejectLow, polled, hwindows, rejecting, List.any_cons, hetu, Bool.or_eq_true,
    Bool.and_eq_true, decide_eq_true_eq]
  exact .inl ⟨by omega, by omega⟩

/-- Once the rejection is over the line is at rest again, and the peer has seen the character. -/
theorem Sends.rejects (hs : Sends (w.rejecting r) (sentChanges port w.now f w.transitions) v)
    (h : Rests e t { w with rejections := 0 }) (hport : port.Writes e) (hdevice : v.device = .high)
    {now : Nat} (hnow : v.now ≤ now) (hover : w.now + e * 12 ≤ now) :
    Rejects e ⟨t.queued, t.sent ++ [f.bits], t.errors⟩ r
      { v with now, polling := false, active := none } := by
  have hetu : w.etu = e := h.etu_eq
  have hleft : v.rejections = r := by rw [hs.eq]; rfl
  have hwindows : v.rejectWindows = (w.rejecting r).rejectWindows := by rw [hs.eq]
  -- but for the rejection the character was sent as on a line whose peer rejects nothing
  have hplain : Sends { w with rejections := 0 } (sentChanges port w.now f w.transitions)
      { v with rejections := 0, rejectWindows := w.rejectWindows } :=
    ⟨congrArg (fun u : Wire => { u with rejections := 0, rejectWindows := w.rejectWindows }) hs.eq,
      hs.since, hs.driven, hs.lasts⟩
  have hrests : Rests e ⟨t.queued, t.sent ++ [f.bits], t.errors⟩
      { v with
        now, polling := false, rejections := 0, active := none
        rejectWindows := w.rejectWindows } :=
    hplain.rests h hport hdevice hnow (show w.now + e * 10 ≤ now by omega) (by simp)
  have hpast := hrests.past_rejection (w.now + w.etu * 21 / 2) (hetu ▸ hover)
  rw [show _ :: _ = v.rejectWindows from hwindows.symm] at hpast
  exact ⟨hpast, hleft⟩

/-- **A rejected character** is seen to be rejected, and the line is at rest again for the next
copy. -/
theorem Rejects.send_ends (h : Rejects port.ticks t (r + 1) w) (hopen : Open w)
    (hlow : 3 ≤ port.ticks) (hport : port.Writes port.ticks) (b : UInt8) (c : Convention) :
    ((Link.mk line port).send b c).run.Ends w fun res w' =>
      res = .error .rejected ∧ Rejects port.ticks (t.tells c [b]) r w' ∧ Open w' := by
  have hroom := hport.room
  obtain ⟨_, v, hframe, rfl, hs, hdevice, hnow⟩ :=
    h.rests.sendFrame_judged hopen hport (Frame.encode_starts b c)
  rw [h.judged_eq] at hs
  have hclock : v.clock = true := hs.clock_eq.trans h.rests.clock
  have htick (n : Nat) : v.epoch + (n + 0) = w.now + n := hs.tick_eq n
  obtain ⟨hsample, hlevel⟩ := hs.sampled_rejected h.rests hlow
  refine Ends.after_ok hframe ?_
  refine Ends.after_ok (waitAt_returns hclock (by omega) (htick _) ?_) ?_
  · exact hnow ▸ Nat.add_le_add_left (by omega) w.now
  refine Ends.after_ok (Returns.lift (sample_returns hlevel)) ?_
  simp only [Level.isLow, ↓reduceIte]
  rw [hsample]
  refine Ends.after_ok (waitAt_returns hclock (by omega) (htick _) ?_) ?_
  · show w.now + port.ticks * 11 + 1 ≤ w.now + port.ticks * 13
    omega
  have hlater : v.now ≤ w.now + port.ticks * 13 := by omega
  refine Ends.after_ok (Returns.lift (Returns.note _ _)) (Ends.throw ⟨rfl, ?_, ?_⟩)
  · exact hs.rejects h.rests hport hdevice hlater (by omega)
  · exact hs.opens hopen hlater

end Rejected

/-! ## Characters sent again -/

section Sending

variable {r : Nat} (hlow : 3 ≤ port.ticks) (hport : port.Writes port.ticks)

include hlow hport

/-- A character goes out once more for each rejection, until the tries are used up. -/
theorem sendWithin_ends {n : Nat} (h : Rejects port.ticks t r w) (hopen : Open w) (b : UInt8) :
    ((Link.mk line port).sendWithin c b n).run.Ends w fun res w' =>
      (r < n ∧ res = .ok () ∧ Rests port.ticks (t.tells c (List.replicate (r + 1) b)) w' ∧
          Open w') ∨
        (n ≤ r ∧ res = .error (.link .rejected) ∧
          Rejects port.ticks (t.tells c (List.replicate n b)) (r - n) w') := by
  induction n generalizing r w t with
  | zero => exact Ends.throw (.inr ⟨Nat.zero_le r, rfl, (t.tells_nil c).symm ▸ h⟩)
  | succ n ih =>
    cases r with
    | zero =>
      obtain ⟨_, w', hsend, rfl, hrests, hopen', -⟩ := h.rests_of_zero.send_ends hopen hport b c
      refine Ends.after_ok (Returns.lift hsend) ?_
      exact Ends.ok (.inl ⟨Nat.succ_pos n, rfl, hrests, hopen'⟩)
    | succ r =>
      obtain ⟨_, w', hsend, rfl, hrejects, hopen'⟩ := h.send_ends hopen hlow hport b c
      refine Ends.after_ok (Returns.lift hsend) ((ih hrejects hopen').mono ?_)
      rintro res w'' (⟨hr, rfl, hdone⟩ | ⟨hr, rfl, hdone⟩)
      · rw [t.tells_tells] at hdone
        exact .inl ⟨Nat.succ_lt_succ hr, rfl, hdone⟩
      · rw [t.tells_tells] at hdone
        refine .inr ⟨Nat.succ_le_succ hr, rfl, ?_⟩
        rw [Nat.add_sub_add_right]
        exact hdone

/-- Only the first character of a series meets the rejections. -/
theorem sendSeries_rejected {gap : Nat} (hgap : port.ticks * gap < Width.bits32.size)
    (h : Rejects port.ticks t r w) (hopen : Open w) (b : UInt8) (rest : List UInt8) :
    ((Link.mk line port).sendSeries c gap (b :: rest)).run.Ends w fun res w' =>
      (r < tries ∧ res = .ok () ∧
          w'.traffic.sent = (t.tells c (List.replicate (r + 1) b ++ rest)).sent) ∨
        (tries ≤ r ∧ res = .error (.link .rejected) ∧
          w'.traffic.sent = (t.tells c (List.replicate tries b)).sent) := by
  obtain ⟨_, w₁, hsend, ⟨hr, rfl, h₁, hopen₁⟩ | ⟨hr, rfl, h₁⟩⟩ :=
    sendWithin_ends hlow hport (n := tries) h hopen b (c := c)
  · obtain ⟨_, w₂, hrest, rfl, h₂, -⟩ := sendAfterGaps_ends hport hgap rest h₁ hopen₁ (c := c)
    rw [t.tells_tells] at h₂
    exact Ends.after_ok hsend (Returns.ends hrest (.inl ⟨hr, rfl, h₂.sent_eq⟩))
  · exact Ends.after_error hsend (.inr ⟨hr, rfl, h₁.rests.sent_eq⟩)

end Sending

/-! ## Characters read again -/

section Receiving

variable {e maxWait : Nat}

/-- With nothing but spoiled characters the tries are used up, one character with each. -/
theorem receiveWithin_fails (hport : port.Reads e) (hwait : maxWait = 0 ∨ 2 ≤ maxWait) {n : Nat}
    {bad rest : List Frame} (h : Rests e t w) (hbad : ∀ f ∈ bad, Spoiled c f)
    (hn : n ≤ bad.length) (hqueue : t.queued = bad ++ rest) :
    ((Link.mk line port).receiveWithin c maxWait n).run.Ends w fun res w' =>
      res = .error .parity ∧ Rests e ⟨bad.drop n ++ rest, t.sent, t.errors + n⟩ w' := by
  induction n generalizing bad w t with
  | zero => exact Ends.throw ⟨rfl, Traffic.queued_self hqueue.symm ▸ h⟩
  | succ n ih =>
    cases bad with
    | nil => exact absurd hn (Nat.not_succ_le_zero n)
    | cons f bad =>
      obtain ⟨hf, hbad⟩ := List.forall_mem_cons.1 hbad
      obtain ⟨_, w', hrun, ⟨b, rfl⟩, hrests⟩ := receive_spoiled hport hwait h hf hqueue
      have hagain := ih hrests hbad (Nat.le_of_succ_le_succ hn) rfl
      rw [Nat.add_assoc, Nat.add_comm 1] at hagain
      exact Ends.after_ok (Returns.adapt_ok hrun) hagain

end Receiving

/-! ## Both directions -/

section Both

/-- **Retries are bounded and leave no copy behind.**  A series of characters survives up to three
rejections, each of which costs one more copy of the first character; a fourth ends it, and nothing
else is sent.  A character survives up to three spoiled ones in front of it, each of which costs one
error signal; a fourth ends the reception, and no fifth character is taken. -/
theorem retries_bounded (port : Etu) (hlow : 3 ≤ port.ticks)
    (hroom : 1075 * port.ticks < Width.bits32.size) (c : Convention) (b : UInt8) :
    (∀ (rest : List UInt8) (gap r : Nat), port.ticks * gap < Width.bits32.size →
      ((Link.mk line port).sendSeries c gap (b :: rest)).run.Ends
        { etu := port.ticks, rejections := r } fun res w' =>
          (r ≤ 3 ∧ res = .ok () ∧
              w'.sentCharacters c = (List.replicate (r + 1) b ++ rest).map (·, true)) ∨
            (4 ≤ r ∧ res = .error (.link .rejected) ∧
              w'.sentCharacters c = List.replicate 4 (b, true))) ∧
      ∀ (bad : List Frame) (maxWait : Nat), (∀ f ∈ bad, Spoiled c f) →
        (maxWait = 0 ∨ 2 ≤ maxWait) →
        ((Link.mk line port).receiveChar c maxWait).run.Ends
          { etu := port.ticks, queued := bad ++ [Frame.encode b c] } fun res w' =>
            (bad.length ≤ 3 ∧ res = .ok b ∧ w'.errorsSignalled = bad.length ∧ w'.queued = []) ∨
              (4 ≤ bad.length ∧ res = .error .parity ∧ w'.errorsSignalled = 4 ∧
                w'.queued = bad.drop 4 ++ [Frame.encode b c]) := by
  have hpos : 0 < port.ticks := Nat.lt_of_lt_of_le (by decide) hlow
  refine ⟨?_, ?_⟩
  · intro rest gap r hgap
    have hopen : Open { etu := port.ticks, rejections := r } := by
      intro start hstart
      cases hstart
    refine (sendSeries_rejected hlow (Etu.writes_self hlow hroom) hgap (rejects_fresh hpos r)
      hopen b rest).mono ?_
    rintro res w' (⟨hr, rfl, hsent⟩ | ⟨hr, rfl, hsent⟩)
    · exact .inl ⟨Nat.le_of_lt_succ hr, rfl, sentCharacters_of_sent hsent⟩
    · refine .inr ⟨hr, rfl, (sentCharacters_of_sent hsent).trans ?_⟩
      rw [List.map_replicate]
      rfl
  · intro bad maxWait hbad hwait
    have hport := Etu.reads_self hlow hroom
    have hfresh := rests_fresh hpos (bad ++ [Frame.encode b c])
    rcases Nat.lt_or_ge bad.length tries with hfew | hmany
    · refine (receiveWithin_ends hport hwait hfresh hbad hfew rfl).mono ?_
      rintro res w' ⟨rfl, h⟩
      exact .inl ⟨Nat.le_of_lt_succ hfew, rfl, h.errors_eq.trans (Nat.zero_add _), h.queued_eq⟩
    · refine (receiveWithin_fails hport hwait hfresh hbad hmany rfl).mono ?_
      rintro res w' ⟨rfl, h⟩
      exact .inr ⟨hmany, rfl, h.errors_eq, h.queued_eq⟩

/-- The third rejection of a series is survived, the fourth spoiled character of a row is not. -/
theorem retries_bounded_at_the_limit :
    ((Link.mk line ⟨372⟩).sendSeries .inverse 2 [0xA4, 0x0E]).run.Ends
        { etu := 372, rejections := 3 } (fun res w' => res = .ok () ∧
          w'.bytesSent .inverse = [0xA4, 0xA4, 0xA4, 0xA4, 0x0E]) ∧
      ((Link.mk line ⟨372⟩).receiveChar .inverse 0).run.Ends
        (([0x5A, 0x00, 0xFF, 0x5A].foldl (enqueueSpoiled · · .inverse)
          ({ etu := 372 } : Wire)).enqueue [0xA4] .inverse) fun res w' =>
            res = .error .parity ∧ w'.errorsSignalled = 4 ∧
              w'.queued = [Frame.encode 0xA4 .inverse] := by
  obtain ⟨hsend, hreceive⟩ := retries_bounded ⟨372⟩ (by decide) (by decide) .inverse 0xA4
  refine ⟨(hsend [0x0E] 2 3 (by decide)).mono ?_, ?_⟩
  · rintro res w' (⟨-, hres, hsent⟩ | ⟨hr, -⟩)
    · exact ⟨hres, congrArg (List.map Prod.fst) hsent⟩
    · exact absurd hr (by decide)
  · let bad : List Frame :=
      [0x5A, 0x00, 0xFF, 0x5A].map fun b => (Frame.encode b .inverse).spoilParity
    have hbad : ∀ f ∈ bad, Spoiled .inverse f := by
      intro f hf
      obtain ⟨b, -, rfl⟩ := List.mem_map.1 hf
      exact spoiled_spoilParity b .inverse
    refine (hreceive bad 0 hbad (.inl rfl)).mono ?_
    rintro res w' (⟨hfew, -⟩ | ⟨-, hres, herrors, hqueue⟩)
    · exact absurd hfew (by decide)
    · exact ⟨hres, herrors, hqueue⟩

end Both

end CardTap.Bench.Wire
