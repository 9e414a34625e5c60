import CardTap.Proofs.Atr.Grammar
import CardTap.Proofs.Ends

/-!
# Reading an answer to reset

The reader is run on a tape, which hands out given characters and then fails, and keeps the
conventions that were asked for.  Whatever the characters are, the reader accepts exactly those that
begin with an answer, asks for no character behind it, and keeps everything that it read
(`read_exactly`).  An answer that speaks T=1 may come without waiting times (`waiting_times_iff`).
-/

namespace CardTap.Atr

open CardTap.Run

section Tape

/-- The characters that a card is still to send, and the conventions in which characters were asked
for, newest first. -/
structure Tape where
  left : List UInt8
  asked : List Convention := []

/-- Receives the next character; behind the last one there is an error. -/
def Tape.receive (e : LinkError) (c : Convention) : LinkRun Tape UInt8 :=
  ExceptT.mk (Run.step fun t => match t.left with
    | [] => (.error e, { t with asked := c :: t.asked })
    | b :: rest => (.ok b, ⟨rest, c :: t.asked⟩))

variable {α : Type} {e : LinkError} {c : Convention}

theorem receive_cons (b : UInt8) (rest : List UInt8) (asked : List Convention) :
    (Tape.receive e c).run.Returns ⟨b :: rest, asked⟩ (.ok b) ⟨rest, c :: asked⟩ :=
  fun journal => ⟨journal, rfl⟩

theorem receive_nil (asked : List Convention) :
    (Tape.receive e c).run.Returns ⟨[], asked⟩ (.error e) ⟨[], c :: asked⟩ :=
  fun journal => ⟨journal, rfl⟩

/-- A reader that finishes on a list finishes on the tape, and has asked for the characters that it
took. -/
theorem drive_returns {x : Reader α} {sent rest : List UInt8} {a : α}
    (h : x.feed sent = some (a, rest)) (asked : List Convention) :
    ∃ taken, sent = taken ++ rest ∧ (x.drive (Tape.receive e c)).run.Returns ⟨sent, asked⟩ (.ok a)
      ⟨rest, List.replicate taken.length c ++ asked⟩ := by
  induction x generalizing sent asked with
  | done a' =>
    cases h
    exact ⟨[], rfl, Returns.ok _ _⟩
  | ask next ih =>
    cases sent with
    | nil => exact nomatch h
    | cons b sent =>
      obtain ⟨taken, rfl, hrun⟩ := ih b h (c :: asked)
      refine ⟨b :: taken, rfl, Returns.bind_ok (receive_cons b _ asked) ?_⟩
      rw [List.length_cons, List.replicate_succ', List.append_assoc]
      exact hrun

/-- A reader that runs out of characters ends with the error behind them. -/
theorem drive_runs_out {x : Reader α} {sent : List UInt8} (h : x.feed sent = none)
    (asked : List Convention) :
    (x.drive (Tape.receive e c)).run.Ends ⟨sent, asked⟩ fun result _ => result = .error e := by
  induction x generalizing sent asked with
  | done a => exact nomatch h
  | ask next ih =>
    cases sent with
    | nil => exact Ends.after_error (receive_nil asked) rfl
    | cons b sent => exact Ends.after_ok (receive_cons b sent asked) (ih b h (c :: asked))

/-- TS announces the convention. -/
def Announces (ts : UInt8) (c : Convention) : Prop :=
  ts = 0x3B ∧ c = .direct ∨ ts = 0x03 ∧ c = .inverse

theorem ofTs?_eq_some {ts : UInt8} : Convention.ofTs? ts = some c ↔ Announces ts c := by
  unfold Convention.ofTs? Announces
  split
  · next h =>
    subst h
    cases c <;> simp
  · next h =>
    split
    · next h' =>
      subst h'
      cases c <;> simp
    · next h' => simp [h, h']

/-- These characters are an answer to reset after its TS. -/
def IsAnswer (bytes : List UInt8) : Prop := ∃ a : Atr, a.Conforms ∧ a.bytes = bytes

theorem feed_eq_some {sent rest : List UInt8} {a : Atr} :
    (Parser.atr c).run.feed sent = some (.ok a, rest) ↔
      sent = a.bytes ++ rest ∧ a.convention = c ∧ a.Conforms := by
  rw [Parser.atr_accepts c sent a rest]
  simp only [acceptable_iff]
  exact ⟨fun ⟨_, hsent, hbytes, hc, ha⟩ => ⟨hbytes ▸ hsent, hc, ha⟩,
    fun ⟨hsent, hc, ha⟩ => ⟨_, hsent, rfl, hc, ha⟩⟩

/-- The grammar does not look at the convention. -/
theorem Conforms.inConvention {a : Atr} (h : a.Conforms) (c : Convention) :
    ({ a with convention := c } : Atr).Conforms :=
  ⟨h.1, h.2, h.3, h.4, h.5, h.6, h.7, h.8, h.9, h.10, h.11, h.12, h.13⟩

/-- At most one prefix of the characters is an answer. -/
theorem IsAnswer.unique {front front' sent : List UInt8} (h : IsAnswer front) (h' : IsAnswer front')
    (hfront : front <+: sent) (hfront' : front' <+: sent) : front = front' := by
  obtain ⟨a, ha, rfl⟩ := h
  obtain ⟨a', ha', rfl⟩ := h'
  obtain ⟨rest, rfl⟩ := hfront
  obtain ⟨rest', hrest⟩ := hfront'
  -- in one convention both answers are what one parser makes of the same characters
  have hread {b : Atr} {rest : List UInt8} (hb : b.Conforms) :
      (Parser.atr .direct).run.feed (b.bytes ++ rest) =
        some (.ok { b with convention := .direct }, rest) :=
    feed_eq_some.2 ⟨rfl, rfl, hb.inConvention .direct⟩
  have hsame := (hread ha).symm.trans ((congrArg _ hrest.symm).trans (hread ha'))
  have hatr := Except.ok.inj (Prod.mk.inj (Option.some.inj hsame)).1
  have hbytes := congrArg Atr.bytes hatr
  exact hbytes

/-- A card that speaks T=1 with all its restricted bytes, five historical bytes and a check byte. -/
example : IsAnswer
    [0xE5, 0x00, 0x00, 0x81, 0x31, 0xFE, 0x45, 0x01, 0x02, 0x03, 0x04, 0x05, 0xEF] :=
  have hread : (Parser.atr .direct).run.feed
      [0xE5, 0x00, 0x00, 0x81, 0x31, 0xFE, 0x45, 0x01, 0x02, 0x03, 0x04, 0x05, 0xEF] =
      some (.ok ⟨.direct, 0xE5,
        [{ tb := some 0x00, tc := some 0x00, td := some 0x81 }, { td := some 0x31 },
          { ta := some 0xFE, tb := some 0x45 }],
        [0x01, 0x02, 0x03, 0x04, 0x05], some 0xEF⟩, []) := rfl
  ⟨_, (feed_eq_some.1 hread).2.2, rfl⟩

/-- Reading on a tape: what is accepted, and what was taken and asked for. -/
theorem read_ends (ts : UInt8) (sent : List UInt8) (e : LinkError) :
    (Atr.read ts (Tape.receive e)).run.Ends ⟨sent, []⟩ fun result after =>
      (∀ a, result = .ok a ↔ Announces ts a.convention ∧ a.Conforms ∧ a.bytes <+: sent) ∧
      ∀ a, result = .ok a → sent = a.bytes ++ after.left ∧
        after.asked = List.replicate a.bytes.length a.convention := by
  unfold Atr.read
  cases hts : Convention.ofTs? ts with
  | none =>
    refine Ends.throw ⟨fun a => iff_of_false nofun fun h => ?_, nofun⟩
    rw [ofTs?_eq_some.2 h.1] at hts
    exact nomatch hts
  | some c =>
    have hread {a : Atr} (hts' : Announces ts a.convention) (ha : a.Conforms)
        (hsent : a.bytes <+: sent) :
        ∃ rest, (Parser.atr c).run.feed sent = some (.ok a, rest) := by
      obtain ⟨rest, hrest⟩ := hsent
      have hc : a.convention = c := Option.some.inj ((ofTs?_eq_some.2 hts').symm.trans hts)
      exact ⟨rest, feed_eq_some.2 ⟨hrest.symm, hc, ha⟩⟩
    cases hfeed : (Parser.atr c).run.feed sent with
    | none =>
      obtain ⟨_, after, hrun, rfl⟩ := drive_runs_out (e := e) (c := c) hfeed []
      refine Ends.after_error (Returns.map hrun) ⟨fun a => iff_of_false nofun ?_, nofun⟩
      rintro ⟨hts', ha, hsent⟩
      obtain ⟨rest, hok⟩ := hread hts' ha hsent
      exact nomatch hfeed.symm.trans hok
    | some r =>
      obtain ⟨parsed, rest⟩ := r
      obtain ⟨taken, rfl, hrun⟩ := drive_returns (e := e) (c := c) hfeed []
      refine Ends.after_ok (Returns.adapt_ok hrun) ((Returns.pure parsed _).ends ?_)
      refine ⟨fun a => ⟨?_, ?_⟩, ?_⟩
      · rintro rfl
        obtain ⟨hsent, rfl, ha⟩ := feed_eq_some.1 hfeed
        exact ⟨ofTs?_eq_some.1 hts, ha, rest, hsent.symm⟩
      · rintro ⟨hts', ha, hsent⟩
        obtain ⟨rest', hok⟩ := hread hts' ha hsent
        exact (Prod.mk.inj (Option.some.inj (hfeed.symm.trans hok))).1
      · rintro a rfl
        obtain ⟨hsent, rfl, -⟩ := feed_eq_some.1 hfeed
        obtain rfl := List.append_cancel_right hsent
        exact ⟨rfl, List.append_nil _⟩

/-- **An answer to reset is read exactly.** Reading returns an answer if and only if TS announces
its convention, it conforms to the grammar and the characters begin with its bytes; so it returns
one if and only if TS announces a convention and some prefix is an answer, which is then the only
such prefix.  It has then taken the bytes of the answer and no other, each asked for in the
convention announced. -/
theorem read_exactly (ts : UInt8) (sent : List UInt8) (e : LinkError) :
    (Atr.read ts (Tape.receive e)).run.Ends ⟨sent, []⟩ fun result after =>
      (∀ a, result = .ok a ↔ Announces ts a.convention ∧ a.Conforms ∧ a.bytes <+: sent) ∧
      ((∃ a, result = .ok a) ↔
        (ts = 0x3B ∨ ts = 0x03) ∧ ∃ front, front <+: sent ∧ IsAnswer front) ∧
      (∀ front front', front <+: sent → front' <+: sent → IsAnswer front → IsAnswer front' →
        front = front') ∧
      ∀ a, result = .ok a → sent = a.bytes ++ after.left ∧
        after.asked = List.replicate a.bytes.length a.convention := by
  refine (read_ends ts sent e).mono fun result after ⟨haccepts, htaken⟩ =>
    ⟨haccepts, ⟨?_, ?_⟩, fun _ _ hfront hfront' h h' => h.unique h' hfront hfront', htaken⟩
  · rintro ⟨a, hresult⟩
    obtain ⟨hts, ha, hsent⟩ := (haccepts a).1 hresult
    exact ⟨hts.imp And.left And.left, a.bytes, hsent, a, ha, rfl⟩
  · rintro ⟨hts, _, hsent, a, ha, rfl⟩
    obtain ⟨c, hc⟩ : ∃ c, Announces ts c :=
      hts.elim (fun h => ⟨.direct, .inl ⟨h, rfl⟩⟩) fun h => ⟨.inverse, .inr ⟨h, rfl⟩⟩
    exact ⟨{ a with convention := c }, (haccepts _).2 ⟨hc, ha.inConvention c, hsent⟩⟩

end Tape

/-! ## The waiting times of T=1 -/

section WaitingTimes

variable {a : Atr} {n i : Nat} {lead : UInt8} {g : InterfaceGroup} {groups : List InterfaceGroup}

/-- In front of a group there is one with TD, which announces it. -/
theorem Chained.before (h : Chained n lead groups) (hg : groups[i + 1]? = some g) :
    ∃ g', groups[i]? = some g' ∧ ∃ td ∈ g'.td, g.AnnouncedBy td := by
  induction n generalizing i lead groups with
  | zero =>
    obtain rfl : groups = [] := h
    exact nomatch hg
  | succ n ih =>
    cases groups with
    | nil => exact h.elim
    | cons first rest =>
      obtain ⟨-, hrest⟩ := h
      rw [List.getElem?_cons_succ] at hg
      cases htd : first.td with
      | none =>
        rw [htd] at hrest
        obtain rfl : rest = [] := hrest
        exact nomatch hg
      | some td =>
        rw [htd] at hrest
        cases i with
        | zero =>
          cases n with
          | zero =>
            obtain rfl : rest = [] := hrest
            exact nomatch hg
          | succ n =>
            obtain ⟨g', hg', hannounced⟩ := hrest.first
            obtain rfl := Option.some.inj (hg.symm.trans hg')
            exact ⟨first, rfl, td, htd, hannounced⟩
        | succ i =>
          obtain ⟨g', hg', hbefore⟩ := ih hrest hg
          exact ⟨g', by rw [List.getElem?_cons_succ, hg'], hbefore⟩

/-- The second group has TD exactly if TD1 announces it. -/
theorem isSome_td2 (h : Chained 4 a.t0 a.groups) :
    (a.td 2).isSome ↔ ∃ td ∈ a.td 1, hasBit (td >>> 4) InterfaceKind.d.bit := by
  constructor
  · intro hsome
    obtain ⟨td, htd⟩ := Option.isSome_iff_exists.1 hsome
    obtain ⟨g, hg, hgtd⟩ := Option.mem_bind_iff.1 htd
    obtain ⟨g', hg', td', htd', hannounced⟩ := h.before hg
    refine ⟨td', Option.mem_bind_iff.2 ⟨g', hg', htd'⟩, ?_⟩
    rw [← hannounced .d]
    exact Option.isSome_of_mem hgtd
  · rintro ⟨td, htd, hbit⟩
    obtain ⟨g, hg, hgtd⟩ := Option.mem_bind_iff.1 htd
    obtain ⟨g', hg', hannounced⟩ := h.next (by decide) hg hgtd
    rw [td_succ, hg']
    exact (hannounced .d).trans hbit

/-- With T=1 there is a TB3 exactly if there is a TD2: the third group cannot go without TB3, but it
can go missing. -/
theorem Conforms.isSome_tb3_iff (h : a.Conforms) (hprotocol : a.protocol = 1) :
    a.tb3.isSome ↔ (a.td 2).isSome := by
  constructor
  · intro hsome
    obtain ⟨tb, htb⟩ := Option.isSome_iff_exists.1 hsome
    obtain ⟨g, hg, -⟩ := Option.mem_bind_iff.1 htb
    obtain ⟨g', hg', td, htd, -⟩ := h.groups.before hg
    exact Option.isSome_of_mem (Option.mem_bind_iff.2 ⟨g', hg', htd⟩)
  · intro hsome
    exact h.tb3_sent hsome hprotocol

/-- **When a T=1 answer carries its waiting times.**  Of an answer that is read and speaks T=1, TB3
is within its bounds if it is there, and it is there exactly if TD1 announces a TD2. -/
theorem waiting_times_iff (ts : UInt8) (sent : List UInt8) (e : LinkError) :
    (Atr.read ts (Tape.receive e)).run.Ends ⟨sent, []⟩ fun result _ =>
      ∀ a, result = .ok a → a.protocol = 1 →
        (∀ tb ∈ a.tb3, tb.toNat % 16 ≤ 5 ∧ tb.toNat / 16 ≤ 4) ∧
        (a.tb3.isSome ↔ ∃ td ∈ a.td 1, hasBit (td >>> 4) InterfaceKind.d.bit) := by
  refine (read_ends ts sent e).mono ?_
  rintro result after ⟨haccepts, -⟩ a hresult hprotocol
  obtain ⟨-, ha, -⟩ := (haccepts a).1 hresult
  exact ⟨ha.tb3, (ha.isSome_tb3_iff hprotocol).trans (isSome_td2 ha.groups)⟩

/-- The answer to reset of a card that speaks T=1, with both TA3 and TB3. -/
def waitingTimesAnswer : Atr where
  convention := .direct
  t0 := 0xE5
  groups := [{ tb := some 0x00, tc := some 0x00, td := some 0x81 }, { td := some 0x31 },
    { ta := some 0xFE, tb := some 0x45 }]
  historical := [0x01, 0x02, 0x03, 0x04, 0x05]
  tck := some 0xEF

/-- It is read, TD1 announces TD2, and so TB3 is there. -/
theorem waiting_times_sent :
    (Atr.read 0x3B (Tape.receive .timeout)).run.Ends ⟨waitingTimesAnswer.bytes, []⟩
      fun result _ => result = .ok waitingTimesAnswer ∧ waitingTimesAnswer.protocol = 1 ∧
        waitingTimesAnswer.tb3.isSome := by
  obtain ⟨result, after, hrun, hread⟩ := waiting_times_iff 0x3B waitingTimesAnswer.bytes .timeout
  have hanswer : (Atr.read 0x3B (Tape.receive .timeout)).run.Returns
      ⟨waitingTimesAnswer.bytes, []⟩ (.ok waitingTimesAnswer) ⟨[], List.replicate 13 .direct⟩ :=
    fun journal => ⟨journal, rfl⟩
  obtain rfl := (hrun.unique hanswer).1
  obtain ⟨-, hsent⟩ := hread waitingTimesAnswer rfl rfl
  exact hrun.ends ⟨rfl, rfl, hsent.2 ⟨0x81, rfl, rfl⟩⟩

/-- A second group without TD ends the chain, and the answer is accepted without waiting times. -/
theorem accepted_without_tb3 :
    (Atr.read 0x3B (Tape.receive .timeout)).run.Ends ⟨[0xA0, 0x00, 0x01, 0xA1], []⟩
      fun result _ => ∃ a, result = .ok a ∧ a.protocol = 1 ∧ a.tb3 = none := by
  have hread : (Atr.read 0x3B (Tape.receive .timeout)).run.Returns ⟨[0xA0, 0x00, 0x01, 0xA1], []⟩
      (.ok ⟨.direct, 0xA0, [{ tb := some 0x00, td := some 0x01 }, {}], [], some 0xA1⟩)
      ⟨[], List.replicate 4 .direct⟩ :=
    fun journal => ⟨journal, rfl⟩
  exact hread.ends ⟨_, rfl, rfl, rfl⟩

end WaitingTimes

end CardTap.Atr
