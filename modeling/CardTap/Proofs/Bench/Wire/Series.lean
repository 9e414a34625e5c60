import CardTap.Proofs.Bench.Wire.Receive
import CardTap.Proofs.Bench.Wire.Send

/-!
# Series of characters between two clocks

Port and peer count their own ticks, and each character begins with a new start bit, so that their
clocks drift apart over one character only.  A port with the slower clock takes every character
that the peer has queued, one with each call (`series_received`).  The peer reads every character
that the port sends back to back, each in its own convention (`series_sent`).
-/

namespace CardTap.Bench.Wire

open CardTap.Run

variable {w : Wire} {e : Nat} {t : Traffic} {port : Etu}

/-! ## Characters of the peer -/

section Receiving

/-- A character that the peer sends, and the call with which the port takes it. -/
structure Incoming where
  byte : UInt8
  convention : Convention
  /-- Whether the peer sends the wrong parity bit. -/
  spoiled : Bool
  /-- Whether the port signals a parity error. -/
  signalling : Bool
  maxWait : Nat

namespace Incoming

/-- The levels that the peer drives. -/
def frame (x : Incoming) : Frame :=
  let f := Frame.encode x.byte x.convention
  if x.spoiled then f.spoilParity else f

/-- Has the peer send the character. -/
def enqueued (w : Wire) (x : Incoming) : Wire :=
  if x.spoiled then w.enqueueSpoiled x.byte x.convention else w.enqueue [x.byte] x.convention

/-- The call of the port. -/
def take (port : Etu) (x : Incoming) : LinkRun Wire Reception :=
  if x.signalling then (Link.mk line port).receiveByte x.convention x.maxWait
  else (Link.mk line port).receiveSilently x.convention x.maxWait

def reception (x : Incoming) : Reception := ⟨x.byte, !x.spoiled⟩

/-- Whether the port drives an error signal. -/
def complains (x : Incoming) : Bool := x.spoiled && x.signalling

theorem frame_starts (x : Incoming) : x.frame.Starts := by
  have hstart := Frame.encode_starts x.byte x.convention
  unfold frame
  cases x.spoiled with
  | false => exact hstart
  | true => exact hstart.spoilParity

theorem decode_frame (x : Incoming) :
    decode x.frame.bits x.convention = (x.byte, !x.spoiled) := by
  unfold frame
  cases x.spoiled with
  | false => exact decode_bits_encode x.byte x.convention
  | true => exact decode_bits_spoilParity x.byte x.convention

theorem enqueued_eq (w : Wire) (x : Incoming) :
    enqueued w x = { w with queued := w.queued ++ [x.frame] } := by
  unfold enqueued frame
  cases x.spoiled with
  | false => rfl
  | true => rfl

theorem take_eq (x : Incoming) : x.take port =
    (Link.mk line port).receive x.convention x.maxWait x.signalling := by
  unfold take
  cases x.signalling with
  | false => rfl
  | true => rfl

theorem foldl_enqueued (w : Wire) (chars : List Incoming) :
    chars.foldl enqueued w = { w with queued := w.queued ++ chars.map frame } := by
  induction chars generalizing w with
  | nil => rw [List.foldl_nil, List.map_nil, List.append_nil]
  | cons x rest ih =>
    rw [List.foldl_cons, ih, enqueued_eq, List.map_cons, List.append_assoc, List.singleton_append]

end Incoming

/-- Takes characters one after the other. -/
def takeEach (port : Etu) : List Incoming → LinkRun Wire (List Reception)
  | [] => pure []
  | x :: rest => do
    let received ← x.take port
    let more ← takeEach port rest
    pure (received :: more)

/-- One call takes one character. -/
theorem take_ends {x : Incoming} {rest : List Frame} (h : Rests e t w) (hport : port.Reads e)
    (hqueue : t.queued = x.frame :: rest) (hwait : x.maxWait = 0 ∨ 2 ≤ x.maxWait) :
    (x.take port).run.Ends w fun r w' =>
      r = .ok x.reception ∧
        Rests e ⟨rest, t.sent, t.errors + if x.complains then 1 else 0⟩ w' := by
  have hread := h.receive_ends hport hqueue x.frame_starts x.convention hwait x.signalling
  rw [x.decode_frame, Bool.not_not] at hread
  rw [x.take_eq]
  exact hread

/-- The calls of a series find the characters in the order of the queue. -/
theorem takeEach_ends {heard : List Incoming} {rest : List Frame} (h : Rests e t w)
    (hport : port.Reads e) (hqueue : t.queued = heard.map Incoming.frame ++ rest)
    (hwait : ∀ x ∈ heard, x.maxWait = 0 ∨ 2 ≤ x.maxWait) :
    (takeEach port heard).run.Ends w fun r w' =>
      r = .ok (heard.map Incoming.reception) ∧
        Rests e ⟨rest, t.sent, t.errors + heard.countP Incoming.complains⟩ w' := by
  induction heard generalizing w t with
  | nil =>
    obtain rfl : t.queued = rest := hqueue
    exact Ends.ok ⟨rfl, h⟩
  | cons x heard ih =>
    obtain ⟨hfirst, hothers⟩ := List.forall_mem_cons.1 hwait
    obtain ⟨_, w₁, htake, rfl, h₁⟩ := take_ends h hport hqueue hfirst
    obtain ⟨_, w₂, hrest, rfl, h₂⟩ := ih h₁ rfl hothers
    refine Ends.after_ok htake (Ends.after_ok hrest (Ends.ok ⟨rfl, ?_⟩))
    rw [List.countP_cons, Nat.add_comm (heard.countP _), ← Nat.add_assoc]
    exact h₂

/-- **A port with the slower clock loses nothing**: of the characters queued on a fresh line the
calls take one each, in order, and tell for each whether its parity bit was right.  An error signal
goes out for a wrong one that is taken with a signalling call and for no other, and the port begins
no character of its own. -/
theorem series_received (hport : port.Reads e) (heard more : List Incoming)
    (hwait : ∀ x ∈ heard, x.maxWait = 0 ∨ 2 ≤ x.maxWait) :
    (takeEach port heard).run.Ends ((heard ++ more).foldl Incoming.enqueued { etu := e })
      fun r w' =>
        r = .ok (heard.map Incoming.reception) ∧ w'.queued = more.map Incoming.frame ∧
          w'.errorsSignalled = heard.countP Incoming.complains ∧ w'.sendTimes = [] := by
  have hpos : 0 < e := by
    have hlast := hport.last
    omega
  rw [Incoming.foldl_enqueued, List.map_append]
  have hrests := rests_fresh hpos (heard.map Incoming.frame ++ more.map Incoming.frame)
  refine (takeEach_ends hrests hport rfl hwait).mono ?_
  rintro r w' ⟨rfl, h⟩
  refine ⟨rfl, h.queued_eq, ?_, ?_⟩
  · rw [h.errors_eq, Nat.zero_add]
  · have hsent := h.sent_eq
    rwa [List.map_eq_nil_iff, List.reverse_eq_nil_iff] at hsent

/-- Three of four characters, with a clock that is almost too slow. -/
theorem series_received_slowly :
    let heard : List Incoming := [⟨0x3B, .direct, false, true, 0⟩, ⟨0xA7, .inverse, true, true, 2⟩,
      ⟨0x00, .direct, true, false, 5⟩]
    let last : Incoming := ⟨0xFF, .inverse, false, false, 1⟩
    (takeEach ⟨391⟩ heard).run.Ends ((heard ++ [last]).foldl Incoming.enqueued { etu := 372 })
      fun r w' =>
        r = .ok [⟨0x3B, true⟩, ⟨0xA7, false⟩, ⟨0x00, false⟩] ∧
          w'.queued = [Frame.encode 0xFF .inverse] ∧ w'.errorsSignalled = 1 ∧
            w'.sendTimes = [] := by
  intro heard last
  have hport : (⟨391⟩ : Etu).Reads 372 := ⟨by decide, by decide, by decide⟩
  exact series_received hport heard [last] (by decide)

end Receiving

/-! ## Characters of the port -/

section Sending

/-- A character that the port sends, and whether it looks for the error signal of the peer. -/
structure Outgoing where
  byte : UInt8
  convention : Convention
  checked : Bool

namespace Outgoing

/-- The call of the port. -/
def send (port : Etu) (x : Outgoing) : LinkRun Wire Unit :=
  if x.checked then (Link.mk line port).send x.byte x.convention
  else (Link.mk line port).sendBlind x.byte x.convention

/-- The bits as the peer finds them. -/
def bits (x : Outgoing) : Vector Level 9 := (Frame.encode x.byte x.convention).bits

end Outgoing

/-- Sends characters one after the other. -/
def sendEach (port : Etu) : List Outgoing → LinkRun Wire Unit
  | [] => pure ()
  | x :: rest => do
    x.send port
    sendEach port rest

/-- Either call sends one character and returns at the end of its guard time. -/
theorem sendOne_ends (h : Rests e t w) (hopen : Open w) (hport : port.Writes e) (x : Outgoing) :
    (x.send port).run.Ends w fun r w' =>
      r = .ok () ∧ Rests e ⟨t.queued, t.sent ++ [x.bits], t.errors⟩ w' ∧ Open w' ∧
        w'.now = w.now + port.ticks * 12 ∧ w'.sendTimes = w.now :: w.sendTimes := by
  unfold Outgoing.send
  split
  · exact h.send_ends hopen hport x.byte x.convention
  · exact h.sendBlind_ends hopen hport x.byte x.convention

/-- The characters of a series start twelve ETUs apart. -/
theorem sendEach_ends (h : Rests e t w) (hopen : Open w) (hport : port.Writes e)
    (chars : List Outgoing) :
    (sendEach port chars).run.Ends w fun r w' =>
      r = .ok () ∧ Rests e ⟨t.queued, t.sent ++ chars.map Outgoing.bits, t.errors⟩ w' ∧
        w'.sendTimes.reverse =
          w.sendTimes.reverse ++ List.range' w.now chars.length (12 * port.ticks) := by
  induction chars generalizing w t with
  | nil =>
    rw [List.map_nil, List.append_nil]
    exact Ends.ok ⟨rfl, h, (List.append_nil _).symm⟩
  | cons x chars ih =>
    obtain ⟨_, w₁, hsend, rfl, h₁, hopen₁, hnow, htimes⟩ := sendOne_ends h hopen hport x
    obtain ⟨_, w₂, hrest, rfl, h₂, htimes'⟩ := ih h₁ hopen₁
    rw [List.append_assoc, List.singleton_append] at h₂
    refine Ends.after_ok hsend (Returns.ends hrest ⟨rfl, h₂, ?_⟩)
    rw [htimes', htimes, hnow, List.reverse_cons, List.append_assoc, List.singleton_append,
      List.length_cons, List.range'_succ, Nat.mul_comm port.ticks]

/-- **The peer reads what the port sends**, whichever of the two clocks is the faster one: on a line
without rejections every call succeeds, the characters start twelve ETUs of the port apart, and in
the middle of its own bit periods the peer finds each byte with the right parity, if it reads the
character in the convention in which it was sent. -/
theorem series_sent (hport : port.Writes e) (queued : List Frame) (chars : List Outgoing) :
    (sendEach port chars).run.Ends { etu := e, queued } fun r w' =>
      r = .ok () ∧ w'.queued = queued ∧
        w'.sendTimes.reverse = List.range' 0 chars.length (12 * port.ticks) ∧
          ∀ i (hi : i < chars.length),
            (w'.sentCharacters chars[i].convention)[i]? = some (chars[i].byte, true) := by
  have hpos : 0 < e := by
    have hlast := hport.last
    have henough := hport.enough
    omega
  have hopen : Open { etu := e, queued } := nofun
  refine (sendEach_ends (rests_fresh hpos queued) hopen hport chars).mono ?_
  rintro r w' ⟨rfl, h, htimes⟩
  refine ⟨rfl, h.queued_eq, htimes, ?_⟩
  intro i hi
  have hsent : w'.traffic.sent = chars.map Outgoing.bits := congrArg Traffic.sent h.traffic_eq
  rw [sentCharacters_eq, hsent, List.map_map, List.getElem?_map, List.getElem?_eq_getElem hi]
  exact congrArg some (decode_bits_encode chars[i].byte chars[i].convention)

/-- A port with a faster clock, to a peer that reads each character in its own convention. -/
theorem series_sent_quickly :
    (sendEach ⟨354⟩ [⟨0x3F, .inverse, true⟩, ⟨0x00, .direct, false⟩]).run.Ends { etu := 372 }
      fun r w' =>
        r = .ok () ∧ w'.sendTimes.reverse = [0, 4248] ∧
          (w'.sentCharacters .inverse)[0]? = some (0x3F, true) ∧
            (w'.sentCharacters .direct)[1]? = some (0x00, true) := by
  have hport : (⟨354⟩ : Etu).Writes 372 := ⟨by decide, by decide, by decide⟩
  apply (series_sent hport [] [⟨0x3F, .inverse, true⟩, ⟨0x00, .direct, false⟩]).mono
  rintro r w' ⟨hr, -, htimes, hread⟩
  exact ⟨hr, htimes, hread 0 (by decide), hread 1 (by decide)⟩

end Sending

end CardTap.Bench.Wire
