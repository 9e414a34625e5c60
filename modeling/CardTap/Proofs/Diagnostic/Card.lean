import CardTap.Proofs.Atr.Reader
import CardTap.Proofs.Diagnostic.Basic

/-!
# Every conforming card is probed to the end

A card may use either convention, answer the reset in any way that is accepted, and send any of the
later characters up to three times with the wrong parity bit before it sends it right.  The sequence
still succeeds, sends the same bytes, and records what was exchanged (`card_probed`).
-/

namespace CardTap.Bench

open CardTap.Run CardTap.Bench.Wire

variable {size : Nat} {b : Bench} {t : Traffic} {c : Convention} {rest : List Frame} {α : Type}

/-! ## The card -/

section Card

/-- A card that answers the reset, the SELECT and the GET RESPONSE. -/
structure ConformingCard where
  convention : Convention
  atr : Atr
  /-- The answer to reset without its TS. -/
  answer : List UInt8
  accepted : (Atr.Parser.atr convention).run.feed answer = some (.ok atr, [])
  data : List UInt8
  data_le : data.length ≤ Response.dataMax
  sw1 : UInt8
  sw2 : UInt8
  /-- The later characters, each with the number of times that its parity bit is wrong first. -/
  chars : List (Nat × UInt8)
  chars_eq : chars.map (·.2) =
    [0xA4, 0x61, UInt8.ofNat data.length, 0xC0] ++ data ++ [sw1, sw2]
  copies_le : ∀ x ∈ chars, x.1 ≤ 3

namespace ConformingCard

/-- Everything that the card sends. -/
def script (card : ConformingCard) : List Frame :=
  Frame.encode card.convention.ts card.convention ::
    card.answer.map (Frame.encode · card.convention) ++ repeated card.convention card.chars

/-- How many characters come with the wrong parity bit. -/
def spoiled (card : ConformingCard) : Nat := (card.chars.map (·.1)).sum

/-- The length of the response, as the card announces it. -/
def available (card : ConformingCard) : UInt8 := UInt8.ofNat card.data.length

theorem available_toNat (card : ConformingCard) : card.available.toNat = card.data.length := by
  have hle : card.data.length ≤ 192 := card.data_le
  rw [available, UInt8.toNat_ofNat']
  omega

/-- The answers of the card, one by one. -/
theorem chars_split (card : ConformingCard) : ∃ k₁ k₂ k₃ k₄ data status,
    card.chars = [(k₁, selectIns), (k₂, responseAvailable), (k₃, card.available)] ++
      ([(k₄, getResponseIns)] ++ (data ++ status)) ∧
      data.map (·.2) = card.data ∧ status.map (·.2) = [card.sw1, card.sw2] := by
  obtain ⟨front, status, hchars, hfront, hstatus⟩ := List.map_eq_append_iff.1 card.chars_eq
  obtain ⟨first, data, rfl, hfirst, hdata⟩ := List.map_eq_append_iff.1 hfront
  simp only [List.map_eq_cons_iff, List.map_eq_nil_iff] at hfirst
  obtain ⟨⟨k₁, _⟩, _, rfl, rfl, ⟨k₂, _⟩, _, rfl, rfl, ⟨k₃, _⟩, _, rfl, rfl, ⟨k₄, _⟩, _, rfl, rfl,
    rfl⟩ := hfirst
  refine ⟨k₁, k₂, k₃, k₄, data, status, ?_, hdata, hstatus⟩
  rw [hchars, List.append_assoc]
  rfl

section Parts

variable {card : ConformingCard} {k₁ k₂ k₃ k₄ : Nat} {data status : List (Nat × UInt8)}
  (hchars : card.chars =
    [(k₁, selectIns), (k₂, responseAvailable), (k₃, card.available)] ++
      ([(k₄, getResponseIns)] ++ (data ++ status)))

include hchars

theorem script_eq : card.script = Frame.encode card.convention.ts card.convention ::
    (card.answer.map (Frame.encode · card.convention) ++ (repeated card.convention
      [(k₁, selectIns), (k₂, responseAvailable), (k₃, card.available)] ++
        (repeated card.convention [(k₄, getResponseIns)] ++
          (repeated card.convention data ++ (repeated card.convention status ++ []))))) := by
  rw [script, hchars, repeated_append, repeated_append, repeated_append, List.append_nil]
  rfl

theorem spoiled_eq :
    card.spoiled = k₁ + k₂ + k₃ + (k₄ + (data.map (·.1)).sum + (status.map (·.1)).sum) := by
  simp only [spoiled, hchars, List.map_append, List.map_cons, List.map_nil, List.sum_append,
    List.sum_cons, List.sum_nil]
  omega

theorem copies_split : (k₁ ≤ 3 ∧ k₂ ≤ 3 ∧ k₃ ≤ 3) ∧ k₄ ≤ 3 ∧
    (∀ x ∈ data, x.1 ≤ 3) ∧ ∀ x ∈ status, x.1 ≤ 3 := by
  have hcopies := card.copies_le
  simp only [hchars, List.mem_append, List.mem_cons, List.not_mem_nil, or_false, or_imp, forall_and,
    forall_eq] at hcopies
  exact hcopies

end Parts

end ConformingCard

end Card

/-! ## Exchanges with the card -/

section Exchanges

theorem card_reads : Etu.card.Reads Etu.card.ticks := Etu.reads_self (by decide) (by decide)

theorem card_writes : Etu.card.Writes Etu.card.ticks := Etu.writes_self (by decide) (by decide)

theorem cardPolls_enough : cardPolls = 0 ∨ 2 ≤ cardPolls := .inr (by decide)

/-- Characters are sent, and the card answers with the one that is expected. -/
theorem exchange_ends {f : DiagnosticRun Bench α} {S : Except DiagnosticError α → Bench → Prop}
    {k : Nat} {ins : UInt8} (bytes : List UInt8) (h : Rests Etu.card.ticks t b.card) (hk : k ≤ 3)
    (hqueue : t.queued = repeated c [(k, ins)] ++ rest)
    (hf : ∀ w, Rests Etu.card.ticks ⟨rest, t.sent ++ bitsOf c bytes, t.errors + k⟩ w →
      f.run.Ends { b with card := w } S) :
    (ExceptT.run do
      (board size).onCard fun p => p.pause 5
      (board size).onCard fun p => p.sendSeries c 2 bytes
      (board size).onCard fun p => p.pause 1
      (board size).onCard fun p => p.receiveExpected c cardPolls ins
      f).Ends b S := by
  obtain ⟨_, w₁, hpause, rfl, h₁, hopen⟩ := pause_ends h card_reads (show 5 ≤ 1075 by decide)
  obtain ⟨_, w₂, hseries, rfl, h₂, -⟩ := sendSeries_ends card_reads card_writes
    (show 2 ≤ 1075 by decide) bytes h₁ (hopen (.inl (by decide))) (c := c)
  obtain ⟨_, w₃, hpause', rfl, h₃, -⟩ := pause_ends h₂ card_reads (show 1 ≤ 1075 by decide)
  obtain ⟨_, w₄, hexpected, rfl, h₄⟩ :=
    receiveExpected_ends card_reads cardPolls_enough h₃ hk hqueue
  refine Ends.after_ok (onCard_returns hpause) ?_
  refine Ends.after_ok (onCard_returns hseries) ?_
  refine Ends.after_ok (onCard_returns hpause') ?_
  exact Ends.after_ok (onCard_returns hexpected) (hf w₄ h₄)

end Exchanges

/-! ## The reset of the card -/

section Reset

/-- The slot while the card is in use after a cold activation. -/
def Slot.inUse (s : Slot) : Slot :=
  { s with activations := false :: s.activations, powered := true, rstHigh := true }

theorem activate_returns (h : b.slot.inserted = true) :
    ((board size).slot.run (·.activate false)).Returns b true
      { b with slot :=
        { b.slot with
          activations := false :: b.slot.activations, powered := true, rstHigh := false } } := by
  have hstep := Returns.step (fun s : Slot => s.activated false) b.slot
  rw [Slot.activated, if_pos h] at hstep
  exact Returns.mounted (p := slotPart) hstep

/-- The convention is the one that TS announced, and the rest is read in it. -/
theorem readAtr_ends {w : Wire} {ts : UInt8} {atr : Atr} {answer : List UInt8}
    (hts : Convention.ofTs? ts = some c)
    (haccepted : (Atr.Parser.atr c).run.feed answer = some (.ok atr, []))
    (h : Rests Etu.card.ticks t w) (hqueue : t.queued = answer.map (Frame.encode · c) ++ rest) :
    (Atr.read ts fun c => do
      let received ← Link.receiveSilently ⟨Wire.line, .card⟩ c cardPolls
      pure received.byte).run.Ends w fun r w' =>
        r = .ok atr ∧ Rests Etu.card.ticks ⟨rest, t.sent, t.errors⟩ w' := by
  obtain ⟨_, w', hdrive, rfl, h'⟩ := drive_ends card_reads cardPolls_enough h haccepted hqueue
  unfold Atr.read
  rw [hts]
  exact Ends.after_ok (Returns.adapt_ok hdrive) (Ends.ok ⟨rfl, h'⟩)

variable {atr : Atr} {answer : List UInt8} (hslot : b.slot.inserted = true)
  (haccepted : (Atr.Parser.atr c).run.feed answer = some (.ok atr, []))
  (h : Rests Etu.card.ticks t b.card)
  (hqueue : t.queued = Frame.encode c.ts c :: (answer.map (Frame.encode · c) ++ rest))

include hslot haccepted h hqueue

theorem once_ends (size : Nat) :
    (CardReset.once (board size).slot (board size).card .card false).run.Ends b fun r b' =>
      r = .ok atr ∧ ∃ w, b' = { b with card := w, slot := b.slot.inUse } ∧
        Rests Etu.card.ticks ⟨rest, t.sent, t.errors⟩ w := by
  obtain ⟨_, w₁, hwait, rfl, h₁, -⟩ := wait_opens h card_reads (show 112 ≤ 1075 by decide)
  obtain ⟨_, w₂, hts, rfl, h₂⟩ := h₁.receiveSilently_ends card_reads hqueue
    (Frame.encode_starts c.ts c) .direct (show tsPolls = 0 ∨ 2 ≤ tsPolls from .inr (by decide))
  have hannounced := ofTs?_decode c
  -- what is known of TS from here on is that it announces the convention
  generalize decode (Frame.encode c.ts c).bits .direct = ts at hts hannounced
  obtain ⟨_, w₃, hread, rfl, h₃⟩ := readAtr_ends hannounced haccepted h₂ rfl
  have hrst := Returns.change (fun s : Slot => { s with rstHigh := true })
    { b.slot with activations := false :: b.slot.activations, powered := true, rstHigh := false }
  refine Ends.after_ok (Returns.lift (activate_returns hslot)) ?_
  refine Ends.after_ok (Returns.adapt_ok (Returns.attempted (p := cardPart) hwait)) ?_
  refine Ends.after_ok (Returns.lift (Returns.mounted (p := slotPart) hrst)) ?_
  refine Ends.after_ok (Returns.adapt_ok (Returns.attempted (p := cardPart) hts)) ?_
  refine Returns.ends (Returns.adapt_ok (Returns.attempted (p := cardPart) hread)) ?_
  exact ⟨rfl, w₃, rfl, h₃⟩

/-- The first activation succeeds, so there is no second one. -/
theorem reset_ends (size : Nat) :
    (CardReset.run (board size).slot (board size).card .card).run.Ends b fun r b' =>
      r = .ok atr ∧ ∃ w, b' = { b with card := w, slot := b.slot.inUse } ∧
        Rests Etu.card.ticks ⟨rest, t.sent, t.errors⟩ w := by
  obtain ⟨_, _, honce, rfl, w, rfl, hw⟩ := once_ends hslot haccepted h hqueue size
  refine Ends.after honce (Ends.after (Returns.pure (Except.ok atr) _) ?_)
  exact Ends.pure ⟨rfl, w, rfl, hw⟩

end Reset

/-! ## The commands -/

section Commands

theorem selectPayment_ends (size : Nat) {k₁ k₂ k₃ : Nat} {n : UInt8}
    (h : Rests Etu.card.ticks t b.card) (hk₁ : k₁ ≤ 3) (hk₂ : k₂ ≤ 3) (hk₃ : k₃ ≤ 3)
    (hqueue : t.queued = repeated c [(k₁, selectIns), (k₂, responseAvailable), (k₃, n)] ++ rest) :
    ((board size).selectPayment c).run.Ends b fun r b' =>
      r = .ok n ∧ (∃ x, x.onLine = (selectHeader ++ paymentName, [0x61, n]) ∧ Records b [x] b') ∧
        Rests Etu.card.ticks
          ⟨rest, t.sent ++ bitsOf c (selectHeader ++ paymentName), t.errors + (k₁ + k₂ + k₃)⟩
          b'.card := by
  rw [repeated_cons c (k₁, selectIns), repeated_cons c (k₂, responseAvailable),
    List.append_assoc, List.append_assoc] at hqueue
  refine exchange_ends selectHeader h hk₁ hqueue ?_
  intro w₁ h₁
  refine exchange_ends paymentName h₁ hk₂ rfl ?_
  intro w₂ h₂
  obtain ⟨_, w₃, hpause, rfl, h₃, -⟩ := pause_ends h₂ card_reads (show 1 ≤ 1075 by decide)
  obtain ⟨_, w₄, hchar, rfl, h₄⟩ := receiveChar_ends card_reads cardPolls_enough h₃ hk₃ rfl
  obtain ⟨_, b', hrecord, -, hcard, x, hx, hrecords⟩ :=
    recordExchange_ends size (b := { b with card := w₄ }) (selectHeader ++ paymentName) []
      responseAvailable n (by decide) (by decide) (Nat.zero_le 192)
  refine Ends.after_ok (onCard_returns hpause) ?_
  refine Ends.after_ok (onCard_returns hchar) ?_
  refine Ends.after_ok (Returns.lift hrecord) (Ends.ok ⟨rfl, ⟨x, hx, ?_⟩, ?_⟩)
  · exact (Records.nothing b b.terminal w₄ b.panel).trans hrecords
  · rw [hcard, bitsOf_append, ← List.append_assoc, ← Nat.add_assoc, ← Nat.add_assoc]
    exact h₄

theorem toList_pair {n : Nat} (u : Vector UInt8 n) (hn : n = 2) (h₀ : 0 < n) (h₁ : 1 < n) :
    u.toList = [u[0], u[1]] := by
  subst hn
  obtain ⟨⟨bytes⟩, hsize⟩ := u
  match bytes, hsize with
  | [_, _], _ => rfl

/-- As many characters are read as the card has announced, and its status. -/
theorem fetchResponse_ends (size : Nat) {k : Nat} {n : UInt8} {data status : List (Nat × UInt8)}
    (h : Rests Etu.card.ticks t b.card) (hk : k ≤ 3) (hn : n.toNat = data.length)
    (hmax : data.length ≤ 192) (hdata : ∀ x ∈ data, x.1 ≤ 3) (hstatus : ∀ x ∈ status, x.1 ≤ 3)
    (htwo : status.length = 2) (hqueue : t.queued =
      repeated c [(k, getResponseIns)] ++ (repeated c data ++ (repeated c status ++ []))) :
    ((board size).fetchResponse c n).run.Ends b fun r b' =>
      r = .ok () ∧
        (∃ x, x.onLine = (getResponseHeader n, data.map (·.2) ++ status.map (·.2)) ∧
          Records b [x] b') ∧
        Rests Etu.card.ticks
          ⟨[], t.sent ++ bitsOf c (getResponseHeader n),
            t.errors + (k + (data.map (·.1)).sum + (status.map (·.1)).sum)⟩
          b'.card := by
  refine exchange_ends (getResponseHeader n) h hk hqueue ?_
  intro w₁ h₁
  obtain ⟨_, w₂, hread, ⟨v, rfl, hv⟩, h₂⟩ :=
    receiveChars_ends card_reads cardPolls_enough h₁ hn.symm hdata rfl
  obtain ⟨_, w₃, hread', ⟨u, rfl, hu⟩, h₃⟩ :=
    receiveChars_ends card_reads cardPolls_enough h₂ htwo hstatus rfl
  have hlen : v.toList.length ≤ 192 := by
    rw [Vector.length_toList, hn]
    exact hmax
  obtain ⟨_, b', hrecord, -, hcard, x, hx, hrecords⟩ :=
    recordExchange_ends size (b := { b with card := w₃ }) (getResponseHeader n) v.toList
      u[0] u[1] (Nat.le_refl 5) (show 5 ≤ 69 by decide) hlen
  refine Ends.after_ok (onCard_returns hread) ?_
  refine Ends.after_ok (onCard_returns hread') ?_
  refine Ends.after_ok (Returns.lift hrecord) (Returns.ends (Returns.lift (Returns.note _ _)) ?_)
  refine ⟨rfl, ⟨x, hx.trans ?_, ?_⟩, ?_⟩
  · rw [hv, ← hu, toList_pair u rfl]
  · exact (Records.nothing b b.terminal w₃ b.panel).trans hrecords
  · rw [hcard, ← Nat.add_assoc, ← Nat.add_assoc]
    exact h₃

end Commands

/-! ## The whole sequence -/

section Sequence

theorem cardSequence_ends (size : Nat) (card : ConformingCard) (hslot : b.slot.inserted = true)
    (h : Rests Etu.card.ticks t b.card) (hqueue : t.queued = card.script) :
    (board size).cardSequence.run.Ends b fun r b' =>
      r = .ok () ∧ b'.slot = b.slot.inUse ∧
        (∃ x y, x.onLine = (selectHeader ++ paymentName, [0x61, card.available]) ∧
          y.onLine =
            (getResponseHeader card.available, card.data ++ [card.sw1, card.sw2]) ∧
          Records { b with slot := b.slot.inUse } [x, y] b') ∧
        Rests Etu.card.ticks
          ⟨[], t.sent ++ bitsOf card.convention
            (selectHeader ++ paymentName ++ getResponseHeader card.available),
            t.errors + card.spoiled⟩ b'.card := by
  obtain ⟨k₁, k₂, k₃, k₄, data, status, hchars, hdata, hstatus⟩ := card.chars_split
  obtain ⟨⟨hk₁, hk₂, hk₃⟩, hk₄, hks, hks'⟩ := ConformingCard.copies_split hchars
  have hlen : data.length = card.data.length := by rw [← hdata, List.length_map]
  have htwo : status.length = 2 := by rw [← List.length_map, hstatus]; rfl
  have hle : data.length ≤ 192 := hlen ▸ card.data_le
  obtain ⟨_, _, hreset, rfl, w₁, rfl, h₁⟩ := reset_ends hslot card.accepted h
    (hqueue.trans (ConformingCard.script_eq hchars)) size
  obtain ⟨_, b₂, hselect, rfl, ⟨x, hx, hrecords⟩, h₂⟩ :=
    selectPayment_ends size (b := { b with card := w₁, slot := b.slot.inUse }) h₁
      hk₁ hk₂ hk₃ rfl
  obtain ⟨_, b₃, hfetch, rfl, ⟨y, hy, hrecords'⟩, h₃⟩ :=
    fetchResponse_ends size h₂ hk₄ (card.available_toNat.trans hlen.symm) hle hks hks' htwo rfl
  refine Ends.after_ok (Returns.adapt_ok hreset) ?_
  refine Ends.after_ok (Returns.lift (Returns.note _ _)) ?_
  rw [convention_of_accepted card.accepted]
  refine Ends.after_ok hselect ?_
  rw [if_neg (Nat.not_lt.2 (card.available_toNat.symm ▸ card.data_le))]
  refine Returns.ends hfetch ⟨rfl, ?_, ⟨x, y, hx, ?_, ?_⟩, ?_⟩
  · exact hrecords'.slot_eq.trans hrecords.slot_eq
  · rw [hy, hdata, hstatus]
  · exact ((Records.nothing { b with slot := b.slot.inUse } b.terminal w₁ b.panel).trans
      hrecords).trans hrecords'
  · rw [bitsOf_append, ← List.append_assoc, ConformingCard.spoiled_eq hchars, ← Nat.add_assoc]
    exact h₃

/-- **Every conforming card is probed to the end**: the same bytes are sent to each, its spoiled
characters are signalled, and both exchanges are recorded as far as there is room for them. -/
theorem card_probed (size : Nat) (card : ConformingCard) (hslot : b.slot.inserted = true)
    (hline : b.card = { etu := Etu.card.ticks, queued := card.script }) :
    (board size).actAsTerminal.Ends b fun r b' =>
      r = .ok () ∧
        b'.card.sentCharacters card.convention =
          (selectHeader ++ paymentName ++ getResponseHeader card.available).map (·, true) ∧
        b'.card.errorsSignalled = card.spoiled ∧ b'.card.queued = [] ∧
        (∃ x y, x.onLine = (selectHeader ++ paymentName, [0x61, card.available]) ∧
          y.onLine =
            (getResponseHeader card.available, card.data ++ [card.sw1, card.sw2]) ∧
          b'.ram.captured.items = (b.ram.captured.items ++ [x, y]).take Buffer.capacity) ∧
        b'.slot.activations = false :: b.slot.activations ∧ b'.slot.powered = false := by
  have hrests : Rests Etu.card.ticks ⟨card.script, [], 0⟩ b.card :=
    hline ▸ rests_fresh (by decide) _
  obtain ⟨_, b₁, hrun, rfl, hinUse, ⟨x, y, hx, hy, hrecords⟩, hw⟩ :=
    cardSequence_ends size card hslot hrests rfl
  have hoff := Returns.change Slot.deactivated b₁.slot
  refine Ends.after hrun (Ends.after (Returns.mounted (p := slotPart) hoff) (Ends.pure ?_))
  refine ⟨rfl, ?_, ?_, hw.queued_eq, ⟨x, y, hx, hy, hrecords.captured_eq⟩, ?_, rfl⟩
  · exact sentCharacters_of_sent hw.sent_eq
  · exact hw.errors_eq.trans (Nat.zero_add _)
  · exact congrArg Slot.activations hinUse

/-- A card of the inverse convention that sends three characters wrong at first, one of them three
times. -/
def inverseCard : ConformingCard where
  convention := .inverse
  atr := { convention := .inverse, t0 := 0x60, groups := [{ tb := some 0x00, tc := some 0x0F }],
           historical := [], tck := none }
  answer := [0x60, 0x00, 0x0F]
  accepted := by decide +kernel
  data := [0x6F, 0x15]
  data_le := by decide
  sw1 := 0x90
  sw2 := 0x00
  chars := [(1, 0xA4), (0, 0x61), (0, 0x02), (3, 0xC0), (0, 0x6F), (2, 0x15), (0, 0x90), (0, 0x00)]
  chars_eq := by decide
  copies_le := by decide

theorem card_probed_inverse :
    let b : Bench :=
      { slot := { inserted := true }
        card := { etu := Etu.card.ticks, queued := inverseCard.script } }
    (board 0).actAsTerminal.Ends b fun r b' =>
      r = .ok () ∧ b'.card.errorsSignalled = 6 ∧
        b'.card.bytesSent .inverse = [0x00, 0xA4, 0x04, 0x00, 0x0E, 0x31, 0x50, 0x41, 0x59, 0x2E,
          0x53, 0x59, 0x53, 0x2E, 0x44, 0x44, 0x46, 0x30, 0x31, 0x00, 0xC0, 0x00, 0x00, 0x02] ∧
        b'.ram.captured.items.length = 2 ∧ b'.slot.activations = [false] := by
  intro b
  refine (card_probed 0 (b := b) inverseCard rfl rfl).mono ?_
  rintro r b' ⟨rfl, hsent, herrors, -, ⟨x, y, -, -, hitems⟩, hslot, -⟩
  refine ⟨rfl, herrors, ?_, ?_, hslot⟩
  · exact congrArg (List.map (·.1)) hsent
  · rw [hitems]
    rfl

end Sequence

end CardTap.Bench
