import Mathlib.Algebra.Ring.Nat
import CardTap.Diagnostic.Basic
import CardTap.Atr.Send
import CardTap.Proofs.Bench.Wire.Receive
import CardTap.Proofs.Bench.Wire.Send

/-!
# Conversations on the simulated line

A peer that spoils up to three copies of a character is still understood, and each copy is answered
by one error signal; the characters sent follow each other in order.  Every exchange here is told by
what it does to the traffic, and leaves the line at rest for the next one.
-/

namespace CardTap.Bench.Wire

open CardTap.Run

variable {w : Wire} {e : Nat} {t : Traffic} {port : Etu} {c : Convention}

/-! ## Pauses -/

section Pauses

variable (h : Rests e t w) (hport : port.Reads e)

include h hport

/-- A pause of two bit periods outlasts the time in which the peer could be rejected. -/
theorem wait_opens {n : Nat} (hn : n ≤ 1075) :
    ((Link.mk line port).wait n).run.Ends w fun r w' =>
      r = .ok () ∧ Rests e t w' ∧ (2 ≤ n ∨ Open w → Open w') := by
  have hroom := hport.room
  have hslow := hport.slower
  have hlong := Nat.mul_le_mul_left port.ticks hn
  refine (wait_ends h (by omega)).mono ?_
  rintro r w' ⟨rfl, hrests, hnow, hpeer⟩
  refine ⟨rfl, hrests, ?_⟩
  rintro hopen start hstart
  rw [hpeer] at hstart
  rw [hrests.etu_eq, hnow]
  rcases hopen with htwo | hopen
  · have hover := h.heard start hstart
    have hlater := Nat.mul_le_mul_left port.ticks htwo
    omega
  · have hover := hopen start hstart
    rw [h.etu_eq] at hover
    omega

theorem pause_ends {n : Nat} (hn : n ≤ 1075) :
    ((Link.mk line port).pause n).run.Ends w fun r w' =>
      r = .ok () ∧ Rests e t w' ∧ (2 ≤ n ∨ Open w → Open w') := by
  refine Ends.adapt ((wait_opens h hport hn).mono ?_)
  rintro r w' ⟨rfl, hrests, hopen⟩
  exact ⟨rfl, hrests, hopen⟩

omit hport in
/-- A pause of any length does not bring back a time that is over. -/
theorem pause_stays_open (hopen : Open w) {n : Nat}
    (hroom : port.ticks * n < Width.bits32.size) :
    ((Link.mk line port).pause n).run.Ends w fun r w' => r = .ok () ∧ Rests e t w' ∧ Open w' := by
  refine Ends.adapt ((wait_ends h hroom).mono ?_)
  rintro r w' ⟨rfl, hrests, hnow, hpeer⟩
  refine ⟨rfl, hrests, ?_⟩
  intro start hstart
  have hover := hopen start (hpeer ▸ hstart)
  rw [h.etu_eq] at hover
  rw [hrests.etu_eq, hnow]
  exact Nat.le_trans hover (Nat.le_add_right _ _)

end Pauses

/-! ## Receiving -/

section Receiving

/-- The frames of characters that each come in some copies with the wrong parity bit first. -/
def repeated (c : Convention) (chars : List (Nat × UInt8)) : List Frame :=
  chars.flatMap fun x =>
    List.replicate x.1 (Frame.encode x.2 c).spoilParity ++ [Frame.encode x.2 c]

theorem repeated_append (c : Convention) (xs ys : List (Nat × UInt8)) :
    repeated c (xs ++ ys) = repeated c xs ++ repeated c ys :=
  List.flatMap_append

theorem repeated_cons (c : Convention) (x : Nat × UInt8) (xs : List (Nat × UInt8)) :
    repeated c (x :: xs) = repeated c [x] ++ repeated c xs :=
  repeated_append c [x] xs

theorem Traffic.queued_self {rest : List Frame} (h : rest = t.queued) :
    t = ⟨rest, t.sent, t.errors⟩ := by
  rw [h]

/-- Characters without copies. -/
theorem repeated_map_zero (c : Convention) (bytes : List UInt8) :
    repeated c (bytes.map (0, ·)) = bytes.map (Frame.encode · c) := by
  rw [repeated, List.flatMap_map]
  exact List.map_eq_flatMap.symm

theorem copies_map_zero {bytes : List UInt8} {x : Nat × UInt8} (h : x ∈ bytes.map (0, ·)) :
    x.1 ≤ 3 := by
  obtain ⟨b, -, rfl⟩ := List.mem_map.1 h
  exact Nat.zero_le 3

/-- A frame that is a character in the convention but for its parity bit. -/
def Spoiled (c : Convention) (f : Frame) : Prop := f.Starts ∧ (decode f.bits c).2 = false

theorem spoiled_spoilParity (b : UInt8) (c : Convention) :
    Spoiled c (Frame.encode b c).spoilParity :=
  ⟨(Frame.encode_starts b c).spoilParity, congrArg Prod.snd (decode_bits_spoilParity b c)⟩

variable (hport : port.Reads e) {maxWait : Nat} (hwait : maxWait = 0 ∨ 2 ≤ maxWait)

include hport hwait

theorem receive_good (h : Rests e t w) {b : UInt8} {rest : List Frame}
    (hqueue : t.queued = Frame.encode b c :: rest) :
    ((Link.mk line port).receiveByte c maxWait).run.Ends w fun r w' =>
      r = .ok ⟨b, true⟩ ∧ Rests e ⟨rest, t.sent, t.errors⟩ w' := by
  have hread := h.receive_ends hport hqueue (Frame.encode_starts b c) c hwait true
  simp only [decode_bits_encode] at hread
  exact hread

/-- The error signal for a spoiled character. -/
theorem receive_spoiled (h : Rests e t w) {f : Frame} (hf : Spoiled c f) {rest : List Frame}
    (hqueue : t.queued = f :: rest) :
    ((Link.mk line port).receiveByte c maxWait).run.Ends w fun r w' =>
      (∃ b, r = .ok ⟨b, false⟩) ∧ Rests e ⟨rest, t.sent, t.errors + 1⟩ w' := by
  have hread := h.receive_ends hport hqueue hf.1 c hwait true
  simp only [hf.2] at hread
  refine hread.mono ?_
  rintro r w' ⟨rfl, hrests⟩
  exact ⟨⟨_, rfl⟩, hrests⟩

/-- Behind spoiled characters a character is understood within as many tries as it takes. -/
theorem receiveWithin_ends {n : Nat} {bad : List Frame} {b : UInt8} {rest : List Frame}
    (h : Rests e t w) (hbad : ∀ f ∈ bad, Spoiled c f) (hn : bad.length < n)
    (hqueue : t.queued = bad ++ Frame.encode b c :: rest) :
    ((Link.mk line port).receiveWithin c maxWait n).run.Ends w fun r w' =>
      r = .ok b ∧ Rests e ⟨rest, t.sent, t.errors + bad.length⟩ w' := by
  induction bad generalizing n w t with
  | nil =>
    obtain ⟨n, rfl⟩ := Nat.exists_eq_add_one.2 hn
    obtain ⟨_, w', hrun, rfl, hrests⟩ := receive_good hport hwait h hqueue
    exact Ends.after_ok (Returns.adapt_ok hrun) (Ends.ok ⟨rfl, hrests⟩)
  | cons f bad ih =>
    obtain ⟨n, rfl⟩ := Nat.exists_eq_add_one.2 (Nat.zero_lt_of_lt hn)
    obtain ⟨hf, hbad⟩ := List.forall_mem_cons.1 hbad
    obtain ⟨_, w', hrun, ⟨b', rfl⟩, hrests⟩ := receive_spoiled hport hwait h hf hqueue
    refine Ends.after_ok (Returns.adapt_ok hrun) ?_
    have hagain := ih hrests hbad (Nat.lt_of_succ_lt_succ hn) rfl
    rw [Nat.add_assoc, Nat.add_comm 1] at hagain
    exact hagain

theorem receiveChar_ends {k : Nat} {b : UInt8} {rest : List Frame} (h : Rests e t w) (hk : k ≤ 3)
    (hqueue : t.queued = repeated c [(k, b)] ++ rest) :
    ((Link.mk line port).receiveChar c maxWait).run.Ends w fun r w' =>
      r = .ok b ∧ Rests e ⟨rest, t.sent, t.errors + k⟩ w' := by
  have hcopies : ∀ f ∈ List.replicate k (Frame.encode b c).spoilParity, Spoiled c f := by
    intro f hf
    rw [List.eq_of_mem_replicate hf]
    exact spoiled_spoilParity b c
  have hfew : (List.replicate k (Frame.encode b c).spoilParity).length < tries := by
    rw [List.length_replicate]
    exact Nat.lt_succ_of_le hk
  have hsplit : t.queued =
      List.replicate k (Frame.encode b c).spoilParity ++ Frame.encode b c :: rest := by
    rw [hqueue]
    simp [repeated]
  have hread := receiveWithin_ends hport hwait h hcopies hfew hsplit
  rw [List.length_replicate] at hread
  exact hread

theorem receiveExpected_ends {k : Nat} {b : UInt8} {rest : List Frame} (h : Rests e t w)
    (hk : k ≤ 3) (hqueue : t.queued = repeated c [(k, b)] ++ rest) :
    ((Link.mk line port).receiveExpected c maxWait b).run.Ends w fun r w' =>
      r = .ok () ∧ Rests e ⟨rest, t.sent, t.errors + k⟩ w' := by
  obtain ⟨_, w', hrun, rfl, hrests⟩ := receiveChar_ends hport hwait h hk hqueue
  refine Ends.after_ok hrun ?_
  simp only [ne_eq, not_true_eq_false, ↓reduceIte]
  exact Ends.ok ⟨rfl, hrests⟩

/-- A series of characters is understood one by one. -/
theorem receiveChars_ends {n : Nat} {chars : List (Nat × UInt8)} {rest : List Frame}
    (h : Rests e t w) (hlen : chars.length = n) (hcopies : ∀ x ∈ chars, x.1 ≤ 3)
    (hqueue : t.queued = repeated c chars ++ rest) :
    ((Link.mk line port).receiveChars c maxWait n).run.Ends w fun r w' =>
      (∃ v, r = .ok v ∧ v.toList = chars.map (·.2)) ∧
        Rests e ⟨rest, t.sent, t.errors + (chars.map (·.1)).sum⟩ w' := by
  induction n generalizing chars rest with
  | zero =>
    obtain rfl := List.length_eq_zero_iff.1 hlen
    exact Ends.ok ⟨⟨#v[], rfl, rfl⟩, Traffic.queued_self hqueue.symm ▸ h⟩
  | succ n ih =>
    obtain ⟨init, ⟨k, b⟩, rfl⟩ : ∃ init last, chars = init ++ [last] :=
      ⟨_, _, (List.dropLast_concat_getLast (List.ne_nil_of_length_eq_add_one hlen)).symm⟩
    have hinit : ∀ x ∈ init, x.1 ≤ 3 := fun x hx => hcopies x (List.mem_append_left _ hx)
    have hlast : k ≤ 3 := hcopies (k, b) (List.mem_append_right _ List.mem_cons_self)
    rw [repeated_append, List.append_assoc] at hqueue
    rw [List.length_append, List.length_singleton] at hlen
    obtain ⟨_, w', hrun, ⟨v, rfl, hv⟩, hrests⟩ := ih (Nat.succ.inj hlen) hinit hqueue
    obtain ⟨_, w'', hrun', rfl, hrests'⟩ := receiveChar_ends hport hwait hrests hlast rfl
    refine Ends.after_ok hrun (Ends.after_ok hrun' (Ends.ok ⟨⟨_, rfl, ?_⟩, ?_⟩))
    · rw [Vector.toList_push, hv, List.map_append, List.map_singleton]
    · rw [List.map_append, List.sum_append, List.map_singleton, List.sum_singleton,
        ← Nat.add_assoc]
      exact hrests'

omit hport hwait in
/-- With nothing left to hear the wait for a character outlasts its polls. -/
theorem receiveChar_outlasts (h : Rests e t w) (hqueue : t.queued = []) (hlimit : maxWait ≠ 0) :
    ((Link.mk line port).receiveChar c maxWait).run.Ends w fun r w' =>
      r = .error (.link .timeout) ∧ w'.traffic = t := by
  obtain ⟨_, w', hrun, rfl, htraffic⟩ := h.receive_outlasts hqueue c hlimit true
  have hread : ((Link.mk line port).receiveByte c maxWait |>.adapt DiagnosticError.link).run.Returns
      w (.error (.link .timeout)) w' := Returns.map hrun
  exact Ends.after_error hread ⟨rfl, htraffic⟩

/-- A series of characters breaks off where the peer has nothing more to send. -/
theorem receiveChars_outlasts {n : Nat} {chars : List (Nat × UInt8)} (h : Rests e t w)
    (hshort : chars.length < n) (hcopies : ∀ x ∈ chars, x.1 ≤ 3)
    (hqueue : t.queued = repeated c chars) (hlimit : maxWait ≠ 0) :
    ((Link.mk line port).receiveChars c maxWait n).run.Ends w fun r w' =>
      r = .error (.link .timeout) ∧ w'.traffic.sent = t.sent := by
  induction n with
  | zero => exact absurd hshort (Nat.not_lt_zero _)
  | succ n ih =>
    rcases Nat.lt_or_eq_of_le (Nat.le_of_lt_succ hshort) with hless | hlast
    · obtain ⟨_, w', hrun, rfl, hsent⟩ := ih hless
      exact Ends.after_error hrun ⟨rfl, hsent⟩
    · obtain ⟨_, w', hrun, ⟨v, rfl, -⟩, hrests⟩ := receiveChars_ends hport hwait h hlast hcopies
        (hqueue.trans (List.append_nil _).symm)
      obtain ⟨_, w'', hrun', rfl, htraffic⟩ := receiveChar_outlasts hrests rfl hlimit (c := c)
      refine Ends.after_ok hrun (Ends.after_error hrun' ⟨rfl, ?_⟩)
      rw [htraffic]

/-- A series of characters sent once each. -/
theorem receiveChars_plain {n : Nat} {bytes : List UInt8} (h : Rests e t w)
    (hqueue : t.queued = bytes.map (Frame.encode · c)) (hn : n ≤ bytes.length) :
    ((Link.mk line port).receiveChars c maxWait n).run.Ends w fun r w' =>
      (∃ v, r = .ok v ∧ v.toList = bytes.take n) ∧
        Rests e ⟨(bytes.drop n).map (Frame.encode · c), t.sent, t.errors⟩ w' := by
  have hsplit : t.queued = repeated c ((bytes.take n).map (0, ·)) ++
      (bytes.drop n).map (Frame.encode · c) := by
    rw [hqueue, repeated_map_zero, ← List.map_append, List.take_append_drop]
  have hlen : ((bytes.take n).map ((0 : Nat), ·)).length = n := by
    rw [List.length_map, List.length_take_of_le hn]
  refine (receiveChars_ends hport hwait h hlen
    (fun _ => copies_map_zero) hsplit).mono ?_
  rintro r w' ⟨⟨v, rfl, hv⟩, hrests⟩
  simp only [List.map_map, Function.comp_def, List.map_id'] at hv hrests
  rw [List.map_const', List.sum_replicate_nat, Nat.mul_zero, Nat.add_zero] at hrests
  exact ⟨⟨v, rfl, hv⟩, hrests⟩

theorem receiveChars_plain_outlasts {n : Nat} {bytes : List UInt8} (h : Rests e t w)
    (hqueue : t.queued = bytes.map (Frame.encode · c)) (hn : bytes.length < n)
    (hlimit : maxWait ≠ 0) :
    ((Link.mk line port).receiveChars c maxWait n).run.Ends w fun r w' =>
      r = .error (.link .timeout) ∧ w'.traffic.sent = t.sent := by
  rw [← repeated_map_zero] at hqueue
  refine receiveChars_outlasts hport hwait h ?_ (fun _ => copies_map_zero) hqueue hlimit
  rwa [List.length_map]

end Receiving

/-! ## Sending -/

section Sending

/-- The bits of characters as the peer reads them. -/
def bitsOf (c : Convention) (bytes : List UInt8) : List (Vector Level 9) :=
  bytes.map fun b => (Frame.encode b c).bits

theorem bitsOf_append (c : Convention) (xs ys : List UInt8) :
    bitsOf c (xs ++ ys) = bitsOf c xs ++ bitsOf c ys :=
  List.map_append

/-- The peer reads the bytes that were sent, with the right parity. -/
theorem decode_bitsOf (c : Convention) (bytes : List UInt8) :
    (bitsOf c bytes).map (decode · c) = bytes.map (·, true) := by
  rw [bitsOf, List.map_map]
  exact List.map_congr_left fun b _ => decode_bits_encode b c

theorem sentCharacters_of_sent {bytes : List UInt8} (h : w.traffic.sent = bitsOf c bytes) :
    w.sentCharacters c = bytes.map (·, true) := by
  rw [sentCharacters_eq, h, decode_bitsOf]

/-- The traffic once further bytes were sent. -/
def Traffic.tells (t : Traffic) (c : Convention) (bytes : List UInt8) : Traffic :=
  ⟨t.queued, t.sent ++ bitsOf c bytes, t.errors⟩

theorem Traffic.tells_nil (t : Traffic) (c : Convention) : t.tells c [] = t := by
  rw [tells, bitsOf, List.map_nil, List.append_nil]

theorem Traffic.tells_tells (t : Traffic) (c : Convention) (xs ys : List UInt8) :
    (t.tells c xs).tells c ys = t.tells c (xs ++ ys) := by
  simp only [tells, bitsOf_append, List.append_assoc]

variable (hread : port.Reads e) (hwrite : port.Writes e)

include hwrite

theorem sendChar_ends (h : Rests e t w) (hopen : Open w) (b : UInt8) :
    ((Link.mk line port).sendChar c b).run.Ends w fun r w' =>
      r = .ok () ∧ Rests e (t.tells c [b]) w' ∧ Open w' := by
  obtain ⟨_, w', hrun, rfl, hrests, hopen', -⟩ := h.send_ends hopen hwrite b c
  refine Ends.after_ok (Returns.lift hrun) ?_
  exact Ends.ok ⟨rfl, hrests, hopen'⟩

theorem sendAfterGaps_ends {gap : Nat} (hgap : port.ticks * gap < Width.bits32.size)
    (bytes : List UInt8) (h : Rests e t w) (hopen : Open w) :
    ((Link.mk line port).sendAfterGaps c gap bytes).run.Ends w fun r w' =>
      r = .ok () ∧ Rests e (t.tells c bytes) w' ∧ Open w' := by
  induction bytes generalizing w t with
  | nil => exact Ends.ok ⟨rfl, (t.tells_nil c).symm ▸ h, hopen⟩
  | cons b rest ih =>
    obtain ⟨_, w₁, hpause, rfl, h₁, hopen₁⟩ := pause_stays_open h hopen hgap
    obtain ⟨_, w₂, hsend, rfl, h₂, hopen₂⟩ := sendChar_ends hwrite h₁ hopen₁ b (c := c)
    have hrest := ih h₂ hopen₂
    rw [t.tells_tells] at hrest
    exact Ends.after_ok hpause (Ends.after_ok hsend hrest)

include hread

theorem sendSeries_ends {gap : Nat} (hgap : gap ≤ 1075) (bytes : List UInt8)
    (h : Rests e t w) (hopen : Open w) :
    ((Link.mk line port).sendSeries c gap bytes).run.Ends w fun r w' =>
      r = .ok () ∧ Rests e (t.tells c bytes) w' ∧ Open w' := by
  have hroom : port.ticks * gap < Width.bits32.size := by
    have hlong := Nat.mul_le_mul_left port.ticks hgap
    have hmost := hread.room
    omega
  cases bytes with
  | nil => exact Ends.ok ⟨rfl, (t.tells_nil c).symm ▸ h, hopen⟩
  | cons b rest =>
    obtain ⟨_, w', hsend, rfl, h', hopen'⟩ := sendChar_ends hwrite h hopen b (c := c)
    have hrest := sendAfterGaps_ends hwrite hroom rest h' hopen' (c := c)
    rw [t.tells_tells] at hrest
    exact Ends.after_ok hsend hrest

end Sending

/-! ## Answers to reset -/

section Answers

variable (hread : port.Reads e) (hwrite : port.Writes e)

include hread

include hwrite

theorem sendSpaced_ends (bytes : List UInt8) (h : Rests e t w) (hopen : Open w) :
    ((Link.mk line port).sendSpaced bytes).run.Ends w fun r w' =>
      r = .ok () ∧ Rests e (t.tells .direct bytes) w' := by
  induction bytes generalizing w t with
  | nil => exact Ends.ok ⟨rfl, (t.tells_nil .direct).symm ▸ h⟩
  | cons b rest ih =>
    obtain ⟨_, w₁, hsend, rfl, h₁, hopen₁, -⟩ := h.sendBlind_ends hopen hwrite b .direct
    obtain ⟨_, w₂, hwait, rfl, h₂, hopen₂⟩ := wait_opens h₁ hread (show 2 ≤ 1075 by decide)
    have hrest := ih h₂ (hopen₂ (.inr hopen₁))
    rw [show (⟨t.queued, t.sent ++ [(Frame.encode b .direct).bits], t.errors⟩ : Traffic) =
      t.tells .direct [b] from rfl, t.tells_tells] at hrest
    exact Ends.after_ok hsend (Ends.after_ok hwait hrest)

/-- The answer to reset of the device. -/
theorem answerReset_ends (tc1 : UInt8) (h : Rests e t w) (hopen : Open w) :
    ((Link.mk line port).answerReset tc1).run.Ends w fun r w' =>
      r = .ok () ∧ Rests e (t.tells .direct [0x3B, 0x60, 0x00, tc1]) w' := by
  obtain ⟨_, w₁, hsend, rfl, h₁, hopen₁, -⟩ := h.sendBlind_ends hopen hwrite 0x3B .direct
  obtain ⟨_, w₂, hwait, rfl, h₂, hopen₂⟩ := wait_opens h₁ hread (show 250 ≤ 1075 by decide)
  have hrest := sendSpaced_ends hread hwrite [0x60, 0x00, tc1] h₂ (hopen₂ (.inr hopen₁))
  rw [show (⟨t.queued, t.sent ++ [(Frame.encode 0x3B .direct).bits], t.errors⟩ : Traffic) =
    t.tells .direct [0x3B] from rfl, t.tells_tells] at hrest
  exact Ends.after_ok hsend (Ends.after_ok hwait hrest)

omit hwrite in
/-- A reader gets the characters of the peer and asks for no more than it needs. -/
theorem drive_ends {α : Type} {maxWait : Nat} (hwait : maxWait = 0 ∨ 2 ≤ maxWait)
    {reader : Reader α} {bytes : List UInt8} {a : α} {rest : List Frame} (h : Rests e t w)
    (hfeed : reader.feed bytes = some (a, []))
    (hqueue : t.queued = bytes.map (Frame.encode · c) ++ rest) :
    (reader.drive do
      let received ← (Link.mk line port).receiveSilently c maxWait
      pure received.byte).run.Ends w fun r w' =>
        r = .ok a ∧ Rests e ⟨rest, t.sent, t.errors⟩ w' := by
  induction bytes generalizing reader w t with
  | nil =>
    cases reader with
    | done a' =>
      obtain rfl : a' = a := congrArg Prod.fst (Option.some.inj hfeed)
      exact Ends.ok ⟨rfl, Traffic.queued_self hqueue.symm ▸ h⟩
    | ask next => cases hfeed
  | cons b bytes ih =>
    cases reader with
    | done a' => cases hfeed
    | ask next =>
      have hchar := h.receiveSilently_ends hread hqueue (Frame.encode_starts b c) c hwait
      rw [decode_bits_encode] at hchar
      obtain ⟨_, w', hrun, rfl, hrests⟩ := hchar
      refine Ends.after_ok (Returns.bind_ok hrun (Returns.ok _ _)) ?_
      have hrest := ih hrests hfeed rfl
      exact hrest

end Answers

end CardTap.Bench.Wire
