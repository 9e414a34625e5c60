import CardTap.Proofs.Diagnostic.Basic

/-!
# Every terminal is answered as far as it keeps to the script

The device compares sixteen of the bytes that a terminal sends: the instruction byte of the SELECT,
its name, and the instruction byte of the GET RESPONSE.  How far the sequence comes, what is sent,
what is recorded and how it ends depends on these bytes and on how many there are
(`terminal_answered`).
-/

namespace CardTap.Bench

open CardTap.Run CardTap.Bench.Wire

variable {size : Nat} {b : Bench} {t : Traffic} {q : List UInt8}

/-! ## The script -/

section Script

/-- The byte that has to come in a place, where one has to. -/
def scripted (place : Nat) : Option UInt8 :=
  if place = 1 then some selectIns
  else if place = 20 then some getResponseIns
  else if 5 ≤ place then paymentName[place - 5]?
  else none

/-- The header of the SELECT has come, and its instruction byte is the right one. -/
def Selects (q : List UInt8) : Prop := 5 ≤ q.length ∧ q[1]? = some selectIns

/-- The name has come as well, and is the right one. -/
def Names (q : List UInt8) : Prop :=
  Selects q ∧ 19 ≤ q.length ∧ (q.drop 5).take 14 = paymentName

/-- The header of the GET RESPONSE has come as well, and its instruction byte is the right one. -/
def Fetches (q : List UInt8) : Prop := Names q ∧ 24 ≤ q.length ∧ q[20]? = some getResponseIns

/-- The bytes end while everything compared so far is right. -/
def RunsOut (q : List UInt8) : Prop :=
  q.length < 5 ∨ Selects q ∧ q.length < 19 ∨ Names q ∧ q.length < 24

/-- The first byte that is not the one that has to come is `got` instead of `want`. -/
def Deviates (q : List UInt8) (want got : UInt8) : Prop :=
  ∃ place, scripted place = some want ∧ q[place]? = some got ∧ got ≠ want ∧
    ∀ i v, i < place → scripted i = some v → q[i]? = some v

/-- Why the sequence breaks off: the terminal falls silent, or it sends a wrong byte. -/
def BreaksOff (q : List UInt8) (e : DiagnosticError) : Prop :=
  RunsOut q ∧ e = .link .timeout ∨
    ¬RunsOut q ∧ ∃ want got, Deviates q want got ∧ e = .unexpected want got

instance : Decidable (Selects q) := inferInstanceAs (Decidable (_ ∧ _))

instance : Decidable (Names q) := inferInstanceAs (Decidable (_ ∧ _))

instance : Decidable (Fetches q) := inferInstanceAs (Decidable (_ ∧ _))

instance : Decidable (RunsOut q) := inferInstanceAs (Decidable (_ ∨ _))

/-- The bytes sent to a terminal that sends `q`. -/
def reply (q : List UInt8) : List UInt8 :=
  [0x3B, 0x60, 0x00, 0x0F] ++ (if Selects q then [0xA4] else []) ++
    (if Names q then [0x61, 0x04] else []) ++
    if Fetches q then [0xC0, 0xDE, 0xAD, 0xBE, 0xEF, 0x90, 0x00] else []

/-- The exchanges recorded with a terminal that sends `q`, as on the line. -/
def recorded (q : List UInt8) : List (List UInt8 × List UInt8) :=
  (if Names q then [(q.take 19, [0x61, 0x04])] else []) ++
    if Fetches q then [((q.drop 19).take 5, [0xDE, 0xAD, 0xBE, 0xEF, 0x90, 0x00])] else []

end Script

/-! ## Bytes that differ -/

section Differences

variable {want got : UInt8}

theorem firstMismatch_cons (g e : UInt8) (gs es : List UInt8) :
    firstMismatch (g :: gs) (e :: es) =
      if g = e then firstMismatch gs es else some (e, g) := by
  unfold firstMismatch
  rw [List.zip_cons_cons, List.find?_cons]
  by_cases h : g = e
  · simp only [h, bne_self_eq_false, ↓reduceIte]
  · simp only [bne_iff_ne.2 h, h, ↓reduceIte, Option.map_some]

theorem firstMismatch_none {bytes expected : List UInt8} (hlen : bytes.length = expected.length)
    (h : firstMismatch bytes expected = none) : bytes = expected := by
  induction bytes generalizing expected with
  | nil => exact (List.length_eq_zero_iff.1 hlen.symm).symm
  | cons g gs ih =>
    cases expected with
    | nil => cases hlen
    | cons e es =>
      rw [firstMismatch_cons] at h
      split at h
      · next heq => rw [heq, ih (Nat.succ.inj hlen) h]
      · cases h

theorem firstMismatch_some {bytes expected : List UInt8}
    (h : firstMismatch bytes expected = some (want, got)) :
    ∃ i : Nat, expected[i]? = some want ∧ bytes[i]? = some got ∧ got ≠ want ∧
      ∀ j : Nat, j < i → bytes[j]? = expected[j]? := by
  induction bytes generalizing expected with
  | nil => cases h
  | cons g gs ih =>
    cases expected with
    | nil => cases h
    | cons e es =>
      rw [firstMismatch_cons] at h
      split at h
      · next heq =>
        obtain ⟨i, hwant, hgot, hne, hbefore⟩ := ih h
        refine ⟨i + 1, hwant, hgot, hne, ?_⟩
        intro j hj
        cases j with
        | zero => exact congrArg some heq
        | succ j => exact hbefore j (Nat.lt_of_succ_lt_succ hj)
      · next hne =>
        cases h
        exact ⟨0, rfl, rfl, hne, fun j hj => absurd hj (Nat.not_lt_zero j)⟩

/-- There is at most one first byte that is wrong. -/
theorem Deviates.unique {want' got' : UInt8} (h : Deviates q want got)
    (h' : Deviates q want' got') : want = want' ∧ got = got' := by
  obtain ⟨place, hwant, hgot, hne, hbefore⟩ := h
  obtain ⟨place', hwant', hgot', hne', hbefore'⟩ := h'
  rcases Nat.lt_trichotomy place place' with hlt | rfl | hlt
  · have hright := hbefore' place want hlt hwant
    exact absurd (Option.some.inj (hgot.symm.trans hright)) hne
  · exact ⟨Option.some.inj (hwant.symm.trans hwant'), Option.some.inj (hgot.symm.trans hgot')⟩
  · have hright := hbefore place' want' hlt hwant'
    exact absurd (Option.some.inj (hgot'.symm.trans hright)) hne'

/-- The bytes up to some place of the name are right if those of the name are. -/
theorem Selects.agrees (h : Selects q) {k i : Nat} {v : UInt8} (hk : k ≤ 14)
    (hname : ∀ j : Nat, j < k → ((q.drop 5).take 14)[j]? = paymentName[j]?) (hi : i < 5 + k)
    (hv : scripted i = some v) : q[i]? = some v := by
  unfold scripted at hv
  split at hv
  · next hplace => rw [hplace, h.2, hv]
  · split at hv
    · omega
    · split at hv
      · next hplace =>
        have hbyte := hname (i - 5) (by omega)
        rw [hv, List.getElem?_take_of_lt (by omega), List.getElem?_drop,
          Nat.add_sub_cancel' hplace] at hbyte
        exact hbyte
      · cases hv

theorem deviates_select (hgot : q[1]? = some got) (hne : got ≠ selectIns) :
    Deviates q selectIns got := by
  refine ⟨1, rfl, hgot, hne, ?_⟩
  intro i v hi hv
  obtain rfl := Nat.lt_one_iff.1 hi
  cases hv

theorem deviates_name (h : Selects q)
    (hname : firstMismatch ((q.drop 5).take 14) paymentName = some (want, got)) :
    Deviates q want got := by
  obtain ⟨i, hwant, hgot, hne, hbefore⟩ := firstMismatch_some hname
  have hi : i < 14 := (List.getElem?_eq_some_iff.1 hwant).1
  rw [List.getElem?_take_of_lt hi, List.getElem?_drop] at hgot
  refine ⟨5 + i, ?_, hgot, hne, ?_⟩
  · unfold scripted
    rw [if_neg (by omega), if_neg (by omega), if_pos (by omega), Nat.add_sub_cancel_left]
    exact hwant
  · intro j v hj hv
    exact h.agrees (Nat.le_of_lt hi) hbefore hj hv

theorem deviates_fetch (h : Names q) (hgot : q[20]? = some got) (hne : got ≠ getResponseIns) :
    Deviates q getResponseIns got := by
  refine ⟨20, rfl, hgot, hne, ?_⟩
  intro i v hi hv
  rcases Nat.lt_or_eq_of_le (Nat.le_of_lt_succ hi) with hname | rfl
  · exact h.1.agrees (Nat.le_refl 14) (fun j _ => by rw [h.2.2]) hname hv
  · cases hv

/-! ### Why the sequence breaks off -/

theorem breaks_select (hlen : 5 ≤ q.length) (hgot : q[1]? = some got) (hne : got ≠ selectIns) :
    ¬Selects q ∧ BreaksOff q (.unexpected selectIns got) := by
  have hselects : ¬Selects q := by
    rintro ⟨-, hins⟩
    exact hne (Option.some.inj (hgot.symm.trans hins))
  refine ⟨hselects, .inr ⟨?_, selectIns, got, deviates_select hgot hne, rfl⟩⟩
  rintro (hshort | ⟨h, -⟩ | ⟨h, -⟩)
  · omega
  · exact hselects h
  · exact hselects h.1

theorem breaks_name (h : Selects q) (hlen : 19 ≤ q.length)
    (hname : firstMismatch ((q.drop 5).take 14) paymentName = some (want, got)) :
    ¬Names q ∧ BreaksOff q (.unexpected want got) := by
  have hnames : ¬Names q := by
    rintro ⟨-, -, hright⟩
    obtain ⟨i, hwant, hgot, hne, -⟩ := firstMismatch_some hname
    rw [hright, hwant] at hgot
    exact hne (Option.some.inj hgot).symm
  refine ⟨hnames, .inr ⟨?_, want, got, deviates_name h hname, rfl⟩⟩
  rintro (hshort | ⟨-, hshort⟩ | ⟨h, -⟩)
  · omega
  · omega
  · exact hnames h

theorem breaks_fetch (h : Names q) (hlen : 24 ≤ q.length) (hgot : q[20]? = some got)
    (hne : got ≠ getResponseIns) :
    ¬Fetches q ∧ BreaksOff q (.unexpected getResponseIns got) := by
  have hfetches : ¬Fetches q := by
    rintro ⟨-, -, hright⟩
    exact hne (Option.some.inj (hgot.symm.trans hright))
  refine ⟨hfetches, .inr ⟨?_, getResponseIns, got, deviates_fetch h hgot hne, rfl⟩⟩
  rintro (hshort | ⟨-, hshort⟩ | ⟨-, hshort⟩) <;> omega

end Differences

/-! ## Listening to the terminal -/

section Listening

/-- What the terminal sends `q` for, with the traffic of the device so far. -/
def Wire.Traffic.hears (t : Traffic) (q : List UInt8) : Traffic :=
  ⟨q.map (Frame.encode · .direct), t.sent, t.errors⟩

theorem Wire.Traffic.hears_tells (t : Traffic) (q bytes : List UInt8) :
    (t.hears q).tells .direct bytes = (t.tells .direct bytes).hears q :=
  rfl

theorem terminal_reads : Etu.terminal.Reads Etu.terminal.ticks :=
  Etu.reads_self (by decide) (by decide)

theorem terminal_writes : Etu.terminal.Writes Etu.terminal.ticks :=
  Etu.writes_self (by decide) (by decide)

/-- The byte in a place of what was received. -/
theorem getElem?_of_toList {n i : Nat} {v : Vector UInt8 n} (h : v.toList = q.take n)
    (hi : i < n) : q[i]? = some v[i] := by
  rw [← List.getElem?_take_of_lt hi, ← h]
  simp [hi]

/-- Either as many bytes come as are asked for, or the wait for them ends the sequence. -/
theorem hear_ends {n : Nat} {f : Vector UInt8 n → DiagnosticRun Bench Unit}
    {S : Except DiagnosticError Unit → Bench → Prop}
    (h : Rests Etu.terminal.ticks (t.hears q) b.terminal)
    (hshort : q.length < n → ∀ w : Wire, w.traffic.sent = t.sent →
      S (.error (.link .timeout)) { b with terminal := w })
    (henough : n ≤ q.length → ∀ (v : Vector UInt8 n) (w : Wire), v.toList = q.take n →
      Rests Etu.terminal.ticks (t.hears (q.drop n)) w →
        (f v).run.Ends { b with terminal := w } S) :
    (ExceptT.run do
      let v ← (board size).onTerminal fun p => p.receiveChars .direct terminalPolls n
      f v).Ends b S := by
  have hpolls : terminalPolls = 0 ∨ 2 ≤ terminalPolls := .inr (by decide)
  rcases Nat.lt_or_ge q.length n with hlen | hlen
  · obtain ⟨_, w, hrun, rfl, hsent⟩ :=
      receiveChars_plain_outlasts terminal_reads hpolls h rfl hlen (by decide)
    exact Ends.after_error (onTerminal_returns hrun) (hshort hlen w hsent)
  · obtain ⟨_, w, hrun, ⟨v, rfl, hv⟩, hw⟩ :=
      receiveChars_plain terminal_reads hpolls h rfl hlen
    exact Ends.after_ok (onTerminal_returns hrun) (henough hlen v w hv hw)

/-- A header is compared in its instruction byte before the sequence goes on. -/
theorem header_ends {n : Nat} (hn : 1 < n) {ins : UInt8}
    {f : Vector UInt8 n → DiagnosticRun Bench Unit}
    {S : Except DiagnosticError Unit → Bench → Prop}
    (h : Rests Etu.terminal.ticks (t.hears q) b.terminal)
    (hshort : q.length < n → ∀ w : Wire, w.traffic.sent = t.sent →
      S (.error (.link .timeout)) { b with terminal := w })
    (hother : n ≤ q.length → ∀ got, q[1]? = some got → got ≠ ins → ∀ w : Wire,
      w.traffic.sent = t.sent → S (.error (.unexpected ins got)) { b with terminal := w })
    (hright : n ≤ q.length → q[1]? = some ins → ∀ (header : Vector UInt8 n) (w : Wire),
      header.toList = q.take n → Rests Etu.terminal.ticks (t.hears (q.drop n)) w →
        (f header).run.Ends { b with terminal := w } S) :
    (ExceptT.run do
      let header ← (board size).onTerminal fun p => p.receiveChars .direct terminalPolls n
      if header[1] ≠ ins then throw (.unexpected ins header[1])
      f header).Ends b S := by
  refine hear_ends h hshort ?_
  intro hlen header w hheader hw
  have hbyte : q[1]? = some header[1] := getElem?_of_toList hheader hn
  by_cases hins : header[1] = ins
  · simp only [ne_eq, hins, not_true_eq_false, ↓reduceIte]
    exact hright hlen (hins ▸ hbyte) header w hheader hw
  · simp only [ne_eq, hins, not_false_eq_true, ↓reduceIte]
    refine Ends.after_error (Returns.throw _ _) ?_
    exact hother hlen _ hbyte hins w hw.sent_eq

/-- The name is shown and compared before the sequence goes on. -/
theorem name_ends {f : Vector UInt8 14 → DiagnosticRun Bench Unit}
    {S : Except DiagnosticError Unit → Bench → Prop}
    (h : Rests Etu.terminal.ticks (t.hears q) b.terminal)
    (hshort : q.length < 14 → ∀ w : Wire, w.traffic.sent = t.sent →
      S (.error (.link .timeout)) { b with terminal := w })
    (hother : 14 ≤ q.length → ∀ want got,
      firstMismatch (q.take 14) paymentName = some (want, got) → ∀ (w : Wire) (panel : Panel),
        w.traffic.sent = t.sent →
          S (.error (.unexpected want got)) { b with terminal := w, panel })
    (hright : 14 ≤ q.length → q.take 14 = paymentName → ∀ (name : Vector UInt8 14) (w : Wire)
      (panel : Panel), name.toList = q.take 14 →
        Rests Etu.terminal.ticks (t.hears (q.drop 14)) w →
          (f name).run.Ends { b with terminal := w, panel } S) :
    (ExceptT.run do
      let name ← (board size).onTerminal fun p => p.receiveChars .direct terminalPolls 14
      ((board size).panel.run (·.showLine (displayText name.toList)) : Run Bench Unit)
      match firstMismatch name.toList paymentName with
      | some (expected, got) => throw (.unexpected expected got)
      | none => pure ()
      f name).Ends b S := by
  refine hear_ends h hshort ?_
  intro hlen name w hname hw
  obtain ⟨_, _, hshow, panel, rfl⟩ := showLine_ends size (displayText name.toList)
    (b := { b with terminal := w })
  refine Ends.after_ok (Returns.lift hshow) ?_
  rw [hname]
  cases hmismatch : firstMismatch (q.take 14) paymentName with
  | none =>
    have hsame : (q.take 14).length = paymentName.length := List.length_take_of_le hlen
    exact hright hlen (firstMismatch_none hsame hmismatch) name w panel hname hw
  | some x =>
    exact Ends.after_error (Returns.throw _ _) (hother hlen x.1 x.2 hmismatch w panel hw.sent_eq)

end Listening

/-! ## Answering the commands -/

section Answering

/-- An answer is sent behind a pause, and the exchange is recorded with it. -/
theorem answer_ends {n : Nat} {line data : List UInt8} {sw1 sw2 : UInt8} (bytes : List UInt8)
    (h : Rests Etu.terminal.ticks t b.terminal) (htwo : 2 ≤ n) (hn : n ≤ 1075)
    (hmin : 5 ≤ line.length) (hmax : line.length ≤ 69) (hdata : data.length ≤ 192) :
    (ExceptT.run (m := Run Bench) (ε := DiagnosticError) do
      (board size).onTerminal fun p => p.pause n
      (board size).onTerminal fun p => p.sendSeries .direct 2 bytes
      ((board size).recordExchange line (Response.make data sw1 sw2) : Run Bench Unit)).Ends b
        fun r b' => r = .ok () ∧ Rests Etu.terminal.ticks (t.tells .direct bytes) b'.terminal ∧
          ∃ x, x.onLine = (line, data ++ [sw1, sw2]) ∧ Records b [x] b' := by
  obtain ⟨_, w₁, hpause, rfl, h₁, hopen⟩ := pause_ends h terminal_reads hn
  obtain ⟨_, w₂, hseries, rfl, h₂, -⟩ := sendSeries_ends terminal_reads terminal_writes
    (show 2 ≤ 1075 by decide) bytes h₁ (hopen (.inl htwo)) (c := .direct)
  obtain ⟨_, b', hrecord, hterminal, -, x, hx, hrecords⟩ := recordExchange_ends size
    (b := { b with terminal := w₂ }) line data sw1 sw2 hmin hmax hdata
  refine Ends.after_ok (onTerminal_returns hpause) ?_
  refine Ends.after_ok (onTerminal_returns hseries) ?_
  refine Returns.ends (Returns.lift hrecord) ⟨rfl, ?_, x, hx, ?_⟩
  · rw [hterminal]
    exact h₂
  · exact (Records.nothing b w₂ b.card b.panel).trans hrecords

theorem answerSelect_ends (size : Nat) (h : Rests Etu.terminal.ticks (t.hears q) b.terminal) :
    (board size).answerSelect.run.Ends b fun r b' =>
      (r = .ok () ∧ Names q ∧
        (∃ x, x.onLine = (q.take 19, [0x61, 0x04]) ∧ Records b [x] b') ∧
          Rests Etu.terminal.ticks ((t.tells .direct [0xA4, 0x61, 0x04]).hears (q.drop 19))
            b'.terminal) ∨
      ∃ e, r = .error e ∧ ¬Names q ∧ BreaksOff q e ∧ Records b [] b' ∧
        b'.terminal.traffic.sent = (t.tells .direct (if Selects q then [0xA4] else [])).sent := by
  refine header_ends (by decide) h ?_ ?_ ?_
  · intro hlen w hsent
    have hselects : ¬Selects q := fun hselects => Nat.not_lt.2 hselects.1 hlen
    refine .inr ⟨_, rfl, fun hnames => hselects hnames.1, .inl ⟨.inl hlen, rfl⟩,
      Records.nothing b w b.card b.panel, ?_⟩
    rw [if_neg hselects, t.tells_nil]
    exact hsent
  · intro hlen got hgot hne w hsent
    obtain ⟨hselects, hbreaks⟩ := breaks_select hlen hgot hne
    refine .inr ⟨_, rfl, fun hnames => hselects hnames.1, hbreaks,
      Records.nothing b w b.card b.panel, ?_⟩
    rw [if_neg hselects, t.tells_nil]
    exact hsent
  · intro hlen hins header w hheader hw
    have hselects : Selects q := ⟨hlen, hins⟩
    obtain ⟨_, w₁, hpause, rfl, hw₁, hopen⟩ :=
      pause_ends hw terminal_reads (show 20 ≤ 1075 by decide)
    obtain ⟨_, w₂, hsend, rfl, hw₂, -⟩ := sendChar_ends terminal_writes hw₁
      (hopen (.inl (by decide))) selectIns (c := .direct)
    refine Ends.after_ok (onTerminal_returns hpause) ?_
    refine Ends.after_ok (onTerminal_returns hsend) ?_
    refine name_ends (t := t.tells .direct [0xA4]) hw₂ ?_ ?_ ?_
    · intro hshort w' hsent
      rw [List.length_drop] at hshort
      refine .inr ⟨_, rfl, ?_, .inl ⟨.inr (.inl ⟨hselects, by omega⟩), rfl⟩,
        Records.nothing b w' b.card b.panel, ?_⟩
      · rintro ⟨-, hlong, -⟩
        omega
      · rw [if_pos hselects]
        exact hsent
    · intro hlong want got hmismatch w' panel hsent
      rw [List.length_drop] at hlong
      obtain ⟨hnames, hbreaks⟩ := breaks_name hselects (by omega) hmismatch
      refine .inr ⟨_, rfl, hnames, hbreaks, Records.nothing b w' b.card panel, ?_⟩
      rw [if_pos hselects]
      exact hsent
    · intro hlong hright name w' panel hname hw'
      rw [List.length_drop] at hlong
      have hline : header.toList ++ name.toList = q.take 19 := by
        rw [hheader, hname]
        exact List.take_add.symm
      have hdrop : (q.drop 5).drop 14 = q.drop 19 := List.drop_drop
      rw [hdrop] at hw'
      have htaken : (q.take 19).length = 19 := List.length_take_of_le (by omega)
      rw [hline]
      refine (answer_ends (b := { b with terminal := w', panel }) [responseAvailable, 0x04] hw'
        (Nat.le_refl 2) (by decide) (by omega) (by omega)
        (show List.length [] ≤ 192 by decide)).mono ?_
      rintro r b' ⟨rfl, hrests, x, hx, hrecords⟩
      rw [Wire.Traffic.hears_tells, t.tells_tells] at hrests
      refine .inl ⟨rfl, ⟨hselects, by omega, hright⟩, ⟨x, hx, ?_⟩, hrests⟩
      exact (Records.nothing b w' b.card panel).trans hrecords

/-- The GET RESPONSE is compared in its instruction byte only. -/
theorem answerGetResponse_ends (size : Nat) (hnames : Names q)
    (h : Rests Etu.terminal.ticks (t.hears (q.drop 19)) b.terminal) :
    (board size).answerGetResponse.run.Ends b fun r b' =>
      (r = .ok () ∧ Fetches q ∧
        (∃ x, x.onLine = ((q.drop 19).take 5, [0xDE, 0xAD, 0xBE, 0xEF, 0x90, 0x00]) ∧
          Records b [x] b') ∧
        b'.terminal.traffic.sent =
          (t.tells .direct [0xC0, 0xDE, 0xAD, 0xBE, 0xEF, 0x90, 0x00]).sent) ∨
      ∃ e, r = .error e ∧ ¬Fetches q ∧ BreaksOff q e ∧ Records b [] b' ∧
        b'.terminal.traffic.sent = t.sent := by
  have hins (v : UInt8) (hv : (q.drop 19)[1]? = some v) : q[20]? = some v :=
    List.getElem?_drop.symm.trans hv
  refine header_ends (by decide) h ?_ ?_ ?_
  · intro hshort w hsent
    rw [List.length_drop] at hshort
    have hlen : q.length < 24 := by omega
    have hfetches : ¬Fetches q := fun hfetches => Nat.not_lt.2 hfetches.2.1 hlen
    exact .inr ⟨_, rfl, hfetches, .inl ⟨.inr (.inr ⟨hnames, hlen⟩), rfl⟩,
      Records.nothing b w b.card b.panel, hsent⟩
  · intro hlong got hgot hne w hsent
    rw [List.length_drop] at hlong
    obtain ⟨hfetches, hbreaks⟩ := breaks_fetch hnames (by omega) (hins got hgot) hne
    exact .inr ⟨_, rfl, hfetches, hbreaks, Records.nothing b w b.card b.panel, hsent⟩
  · intro hlong hright header w hheader hw
    have htaken : ((q.drop 19).take 5).length = 5 := List.length_take_of_le hlong
    rw [List.length_drop] at hlong
    rw [hheader]
    refine (answer_ends (b := { b with terminal := w })
      (getResponseIns :: responseData ++ [0x90, 0x00]) hw (show 2 ≤ 20 by decide) (by decide)
      (by omega) (by omega) (show responseData.length ≤ 192 by decide)).mono ?_
    rintro r b' ⟨rfl, hrests, x, hx, hrecords⟩
    refine .inl ⟨rfl, ⟨hnames, by omega, hins _ hright⟩, ⟨x, hx, ?_⟩, hrests.sent_eq⟩
    exact (Records.nothing b w b.card b.panel).trans hrecords

end Answering

/-! ## The whole sequence -/

section Sequence

theorem pollUntil_returns {σ : Type} {test : Run σ Bool} {m : σ} {n : Nat}
    (htest : test.Returns m true m) (hn : 0 < n) : (Run.pollUntil test n).Returns m true m := by
  cases n with
  | zero => exact absurd hn (Nat.lt_irrefl 0)
  | succ n => exact Returns.bind htest (Returns.pure true m)

/-- A terminal that is there already is not waited for. -/
theorem awaitTerminal_returns (hclock : b.terminal.clock = true)
    (hreset : b.terminal.reset = false) : (board size).awaitTerminal.run.Returns b (.ok ()) b := by
  have hclocked : line.clockRunning.Returns b.terminal true b.terminal :=
    hclock ▸ Wire.clockRunning_returns b.terminal
  have hreleased : (not <$> line.resetHeld).Returns b.terminal true b.terminal := by
    have hread := Returns.map (g := not) (Wire.resetHeld_returns b.terminal)
    rw [hreset] at hread
    exact hread
  have hpoll := pollUntil_returns hclocked (show 0 < terminalPolls by decide)
  have hpoll' := pollUntil_returns hreleased (show 0 < terminalPolls by decide)
  refine Returns.bind_ok (Returns.lift (Returns.mounted (p := terminalPart) hpoll)) ?_
  exact Returns.bind_ok (Returns.lift (Returns.mounted (p := terminalPart) hpoll')) (Returns.ok _ _)

theorem terminalSequence_ends (size : Nat) (h : Rests Etu.terminal.ticks (t.hears q) b.terminal) :
    (board size).terminalSequence.run.Ends b fun r b' =>
      b'.terminal.traffic.sent = (t.tells .direct (reply q)).sent ∧
        (∃ xs, xs.map Exchange.onLine = recorded q ∧ Records b xs b') ∧
        (r = .ok () ↔ Fetches q) ∧ ∀ e, r = .error e → BreaksOff q e := by
  obtain ⟨_, w₁, hpause, rfl, hw₁, hopen⟩ :=
    pause_ends h terminal_reads (show 10 ≤ 1075 by decide)
  obtain ⟨_, w₂, hanswer, rfl, hw₂⟩ := answerReset_ends terminal_reads terminal_writes guardTime hw₁
    (hopen (.inl (by decide)))
  obtain ⟨_, _, hshow, panel, rfl⟩ := showLine_ends size "ATR Sent"
    (b := { b with terminal := w₂ })
  refine Ends.after_ok (awaitTerminal_returns h.clock h.reset) ?_
  refine Ends.after_ok (onTerminal_returns hpause) ?_
  refine Ends.after_ok (onTerminal_returns (Returns.adapt_ok hanswer)) ?_
  refine Ends.after_ok (Returns.lift hshow) ?_
  have hgreeted : Records b [] { b with terminal := w₂, panel } :=
    Records.nothing b w₂ b.card panel
  obtain ⟨_, b₁, hselect, hcase⟩ := answerSelect_ends size
    (b := { b with terminal := w₂, panel }) (t := t.tells .direct [0x3B, 0x60, 0x00, 0x0F]) hw₂
  rcases hcase with ⟨rfl, hnames, ⟨x, hx, hrecords⟩, hw⟩ |
    ⟨e, rfl, hnames, hbreaks, hrecords, hsent⟩
  · refine Ends.after_ok hselect ?_
    obtain ⟨_, b₂, hfetch, hcase⟩ := answerGetResponse_ends size hnames hw
    rcases hcase with ⟨rfl, hfetches, ⟨y, hy, hrecords'⟩, hsent⟩ |
      ⟨e, rfl, hfetches, hbreaks, hrecords', hsent⟩
    · obtain ⟨_, _, hshown, panel', rfl⟩ := showLine_ends size "Data    Sent" (b := b₂)
      have hdone : Records b₂ [] { b₂ with panel := panel' } :=
        Records.nothing b₂ b₂.terminal b₂.card panel'
      refine Ends.after_ok hfetch
        (Returns.ends (Returns.lift hshown) ⟨?_, ⟨[x, y], ?_, ?_⟩, ?_, ?_⟩)
      · refine hsent.trans ?_
        rw [t.tells_tells, t.tells_tells]
        simp [reply, hnames, hfetches, hnames.1]
      · simp [recorded, hnames, hfetches, hx, hy]
      · exact ((hgreeted.trans hrecords).trans hrecords').trans hdone
      · exact iff_of_true rfl hfetches
      · rintro e ⟨⟩
    · refine Ends.after_error hfetch ⟨?_, ⟨[x], ?_, ?_⟩, ?_, ?_⟩
      · rw [hsent, t.tells_tells]
        simp [reply, hnames, hfetches, hnames.1]
      · simp [recorded, hnames, hfetches, hx]
      · exact (hgreeted.trans hrecords).trans hrecords'
      · simp [hfetches]
      · rintro e' ⟨⟩
        exact hbreaks
  · have hfetches : ¬Fetches q := fun hfetches => hnames hfetches.1
    refine Ends.after_error hselect ⟨?_, ⟨[], ?_, hgreeted.trans hrecords⟩, ?_, ?_⟩
    · rw [hsent, t.tells_tells]
      simp [reply, hnames, hfetches]
    · simp [recorded, hnames, hfetches]
    · simp [hfetches]
    · rintro e' ⟨⟩
      exact hbreaks

/-- On a fresh line the bytes of a terminal decide alone what it is sent, what is recorded and how
the sequence ends. -/
theorem terminal_answered (size : Nat) (q : List UInt8) (hline : b.terminal =
      { etu := Etu.terminal.ticks, queued := q.map (Frame.encode · .direct) }) :
    (board size).actAsCard.Ends b fun r b' =>
      b'.terminal.sentCharacters .direct = (reply q).map (·, true) ∧
        (∃ xs, xs.map Exchange.onLine = recorded q ∧ Records b xs b') ∧
        (r = .ok () ↔ Fetches q) ∧ ∀ e, r = .error e → BreaksOff q e := by
  have hrests : Rests Etu.terminal.ticks (Wire.Traffic.hears ⟨[], [], 0⟩ q) b.terminal :=
    hline ▸ rests_fresh (by decide) _
  obtain ⟨r, b₁, hrun, hsent, ⟨xs, hxs, hrecords⟩, hok, herror⟩ :=
    terminalSequence_ends size hrests
  have hchars : b₁.terminal.sentCharacters .direct = (reply q).map (·, true) :=
    sentCharacters_of_sent hsent
  refine Ends.after hrun ?_
  cases r with
  | ok u => exact Ends.pure ⟨hchars, ⟨xs, hxs, hrecords⟩, hok, herror⟩
  | error e =>
    obtain ⟨_, _, hreport, panel, rfl⟩ := reportFailure_ends size "terminal" e (b := b₁)
    have hshown : Records b₁ [] { b₁ with panel } :=
      Records.nothing b₁ b₁.terminal b₁.card panel
    refine Ends.after hreport (Ends.pure ⟨hchars, ⟨xs, hxs, ?_⟩, hok, herror⟩)
    have hall := hrecords.trans hshown
    rwa [List.append_nil] at hall

/-- A terminal that sends a name with a wrong letter. -/
theorem terminal_answered_wrong_name :
    let q : List UInt8 := selectHeader ++ [0x32, 0x50, 0x41, 0x59, 0x2E, 0x53, 0x59, 0x53, 0x2E,
      0x44, 0x44, 0x46, 0x30, 0x31] ++ getResponseHeader 4
    let b : Bench :=
      { terminal := { etu := Etu.terminal.ticks, queued := q.map (Frame.encode · .direct) } }
    (board 0).actAsCard.Ends b fun r b' =>
      b'.terminal.bytesSent .direct = [0x3B, 0x60, 0x00, 0x0F, 0xA4] ∧
        b'.ram.captured.items = [] ∧ r = .error (.unexpected 0x31 0x32) := by
  intro q b
  refine (terminal_answered 0 (b := b) q rfl).mono ?_
  rintro r b' ⟨hsent, ⟨xs, hxs, _, _, _, captured, rfl, hitems⟩, hok, herror⟩
  refine ⟨?_, ?_, ?_⟩
  · rw [bytesSent, hsent]
    decide
  · obtain rfl : xs = [] := List.map_eq_nil_iff.1 (hxs.trans (by decide))
    exact hitems
  · cases r with
    | ok u => exact absurd (hok.1 rfl) (by decide)
    | error e =>
      obtain ⟨hruns, -⟩ | ⟨-, want, got, hdeviates, rfl⟩ := herror e rfl
      · exact absurd hruns (by decide)
      · have hfirst : Deviates q 0x31 0x32 := deviates_name (by decide) (by decide)
        obtain ⟨rfl, rfl⟩ := hdeviates.unique hfirst
        rfl

end Sequence

end CardTap.Bench
