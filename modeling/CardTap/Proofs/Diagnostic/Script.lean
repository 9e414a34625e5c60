import CardTap.Proofs.Diagnostic.Terminal
import CardTap.Proofs.Yields

/-!
# What a terminal has sent that is answered to the end

The script of a terminal has twenty-four bytes, and the device compares sixteen of them.  Whatever
is on the line, a sequence that succeeds has recorded two commands in which these sixteen are right;
the commands are the script exactly if the class bytes, the parameters and the lengths, which
nothing compares, are right as well.  Every choice of these eight bytes is accepted
(`script_kept_iff`).
-/

namespace CardTap.Bench

open CardTap.Run CardTap.Bench.Wire

variable {size : Nat} {b : Bench} {q : List UInt8} {α β : Type}

/-! ## The script, byte for byte -/

section Script

/-- The bytes that a terminal has to send: the SELECT with its name, and the GET RESPONSE. -/
def script : List UInt8 := selectHeader ++ paymentName ++ getResponseHeader 4

/-- Only the places up to the instruction byte of the GET RESPONSE are compared. -/
theorem scripted_le {i : Nat} {v : UInt8} (h : scripted i = some v) : i < 19 ∨ i = 20 := by
  unfold scripted at h
  split at h
  · omega
  · split at h
    · exact .inr ‹_›
    · split at h
      · have hlt : i - 5 < 14 := (List.getElem?_eq_some_iff.1 h).1
        omega
      · cases h

/-- What is accepted is right in every place that is compared. -/
theorem Fetches.agrees (h : Fetches q) {i : Nat} {v : UInt8} (hv : scripted i = some v) :
    q[i]? = some v := by
  obtain ⟨hnames, -, hins⟩ := h
  rcases scripted_le hv with hi | rfl
  · exact hnames.1.agrees (Nat.le_refl 14) (fun j _ => by rw [hnames.2.2]) hi hv
  · cases hv
    exact hins

/-- What is accepted is wrong nowhere. -/
theorem Fetches.not_deviates (h : Fetches q) {want got : UInt8} : ¬Deviates q want got := by
  rintro ⟨place, hwant, hgot, hne, -⟩
  exact hne (Option.some.inj (hgot.symm.trans (h.agrees hwant)))

/-- What is accepted is the script exactly if the bytes that nothing compares are those of it. -/
theorem Fetches.eq_script_iff (h : Fetches q) :
    q = script ↔ ∀ place, scripted place = none → q[place]? = script[place]? := by
  constructor
  · rintro rfl place -
    rfl
  · intro hothers
    apply List.ext_getElem?
    intro i
    cases hi : scripted i with
    | none => exact hothers i hi
    | some v =>
      have hscript : Fetches script := by decide
      rw [h.agrees hi, hscript.agrees hi]

end Script

/-! ## What a sequence has recorded -/

section Recording

/-- On every bench, the sequence has recorded exchanges that satisfy the condition if it
succeeds. -/
def Recording (P : α → List Exchange → Prop) (x : DiagnosticRun Bench α) : Prop :=
  ∀ b, x.run.Yields b fun r b' => ∀ a, r = .ok a → ∃ xs, P a xs ∧ Records b xs b'

/-- A sequence that records nothing. -/
def Quiet (x : DiagnosticRun Bench α) : Prop := Recording (fun _ xs => xs = []) x

variable {P : α → List Exchange → Prop} {Q : β → List Exchange → Prop} {x : DiagnosticRun Bench α}
  {f : α → DiagnosticRun Bench β}

theorem Recording.mono {R : α → List Exchange → Prop} (h : Recording R x)
    (hRP : ∀ a xs, R a xs → P a xs) : Recording P x := by
  refine fun b => (h b).mono ?_
  rintro r b' hr a rfl
  obtain ⟨xs, hxs, hrecords⟩ := hr a rfl
  exact ⟨xs, hRP a xs hxs, hrecords⟩

theorem Recording.bind (hx : Recording P x)
    (hf : ∀ a xs, P a xs → Recording (fun c ys => Q c (xs ++ ys)) (f a)) :
    Recording Q (x >>= f) := by
  intro b
  refine Yields.bind_ok (hx b) ?_ ?_
  · intro a b₁ hfirst
    obtain ⟨xs, hP, hrecords⟩ := hfirst a rfl
    refine (hf a xs hP b₁).mono ?_
    rintro r b' hrest c rfl
    obtain ⟨ys, hQ, hrecords'⟩ := hrest c rfl
    exact ⟨xs ++ ys, hQ, hrecords.trans hrecords'⟩
  · rintro e b' - c ⟨⟩

theorem recording_throw (e : DiagnosticError) :
    Recording P (MonadExcept.throw e : DiagnosticRun Bench α) :=
  fun b => Yields.throw (R := fun r b' => ∀ a, r = .ok a → ∃ xs, P a xs ∧ Records b xs b')
    (by rintro a ⟨⟩)

theorem Quiet.bind (hx : Quiet x) (hf : ∀ a, Recording Q (f a)) : Recording Q (x >>= f) := by
  refine Recording.bind hx ?_
  rintro a _ rfl
  exact hf a

/-- The bytes received are compared before the sequence goes on. -/
theorem recording_compared {expected got : UInt8} {x : DiagnosticRun Bench β}
    (hx : got = expected → Recording Q x) :
    Recording Q (do
      if got ≠ expected then throw (.unexpected expected got)
      x) := by
  by_cases heq : got = expected
  · simp only [ne_eq, heq, not_true_eq_false, ↓reduceIte]
    exact hx heq
  · simp only [ne_eq, heq, not_false_eq_true, ↓reduceIte]
    exact recording_throw _

theorem quiet_pure (a : α) : Quiet (Pure.pure a : DiagnosticRun Bench α) := by
  refine fun b => Yields.ok ?_
  intro _ _
  exact ⟨[], rfl, Records.nothing b b.terminal b.card b.panel⟩

/-! ### The parts of a sequence -/

theorem onTerminal_quiet {f : {σ : Type} → Link σ → DiagnosticRun σ α} :
    Quiet ((board size).onTerminal f) := by
  refine fun b => Yields.within _ ?_
  intro r w _ _
  exact ⟨[], rfl, Records.nothing b w b.card b.panel⟩

theorem showLine_quiet (text : String) :
    Quiet (liftM ((board size).panel.run (·.showLine text)) : DiagnosticRun Bench Unit) := by
  intro b
  obtain ⟨_, _, hshow, panel, rfl⟩ := showLine_ends size text (b := b)
  refine (Returns.ends (Returns.lift hshow) ?_).yields
  intro _ _
  exact ⟨[], rfl, Records.nothing b b.terminal b.card panel⟩

theorem poll_quiet {f : Line Wire → Run Wire Bool} :
    Quiet (liftM ((board size).terminal.run f) : DiagnosticRun Bench Bool) := by
  refine fun b => Yields.lift (Yields.within _ ?_)
  intro r w _ _
  exact ⟨[], rfl, Records.nothing b w b.card b.panel⟩

theorem awaitTerminal_quiet : Quiet (board size).awaitTerminal := by
  refine Quiet.bind poll_quiet fun clocked => ?_
  cases clocked with
  | false => exact recording_throw _
  | true =>
    refine Quiet.bind poll_quiet fun released => ?_
    cases released with
    | false => exact recording_throw _
    | true => exact quiet_pure ()

/-- An answer is sent behind a pause, and the exchange is recorded with it. -/
theorem answer_recording {n : Nat} {line data bytes : List UInt8} {sw1 sw2 : UInt8}
    (hmin : 5 ≤ line.length) (hmax : line.length ≤ 69) (hdata : data.length ≤ 192) :
    Recording (fun _ xs => ∃ x, xs = [x] ∧ x.command.bytes = line) (do
      (board size).onTerminal fun p => p.pause n
      (board size).onTerminal fun p => p.sendSeries .direct 2 bytes
      ((board size).recordExchange line (Response.make data sw1 sw2) : Run Bench Unit)) := by
  refine Quiet.bind onTerminal_quiet fun _ => Quiet.bind onTerminal_quiet fun _ b => ?_
  obtain ⟨_, b', hrecord, -, -, x, hx, hrecords⟩ :=
    recordExchange_ends size line data sw1 sw2 hmin hmax hdata (b := b)
  refine (Returns.ends (Returns.lift hrecord) ?_).yields
  intro _ _
  exact ⟨[x], ⟨x, rfl, congrArg Prod.fst hx⟩, hrecords⟩

end Recording

/-! ## The commands that are accepted -/

section Accepted

/-- The SELECT is accepted only with the right instruction byte and the right name. -/
theorem answerSelect_recording :
    Recording (fun _ xs => ∃ x, xs = [x] ∧ x.command.bytes.length = 19 ∧ Names x.command.bytes)
      (board size).answerSelect := by
  refine Quiet.bind onTerminal_quiet fun header => ?_
  refine recording_compared fun hins => ?_
  refine Quiet.bind onTerminal_quiet fun _ => ?_
  refine Quiet.bind onTerminal_quiet fun _ => ?_
  refine Quiet.bind onTerminal_quiet fun name => ?_
  refine Quiet.bind (showLine_quiet _) fun _ => ?_
  cases hmismatch : firstMismatch name.toList paymentName with
  | some x => exact recording_throw _
  | none =>
    have hname : name.toList = paymentName := firstMismatch_none (by simp [paymentName]) hmismatch
    have hlen : (header.toList ++ name.toList).length = 19 := by simp
    refine (answer_recording (by omega) (by omega) (show List.length [] ≤ 192 by decide)).mono ?_
    rintro _ _ ⟨x, rfl, hline⟩
    refine ⟨x, rfl, hline ▸ hlen, ?_⟩
    rw [hline]
    refine ⟨⟨by omega, ?_⟩, by omega, ?_⟩
    · rw [List.getElem?_append_left (by simp), ← hins]
      simp
    · rw [List.drop_left' (by simp), hname]
      rfl

/-- The GET RESPONSE is accepted only with the right instruction byte. -/
theorem answerGetResponse_recording :
    Recording (fun _ xs => ∃ y, xs = [y] ∧ y.command.bytes.length = 5 ∧
      y.command.bytes[1]? = some getResponseIns) (board size).answerGetResponse := by
  refine Quiet.bind onTerminal_quiet fun header => ?_
  refine recording_compared fun hins => ?_
  have hlen : header.toList.length = 5 := by simp
  refine (answer_recording (by omega) (by omega) (by decide)).mono ?_
  rintro _ _ ⟨y, rfl, hline⟩
  refine ⟨y, rfl, hline ▸ hlen, ?_⟩
  rw [hline, ← hins]
  simp

/-- Two commands in which every byte that is compared is the right one. -/
def Accepted (xs : List Exchange) : Prop :=
  ∃ x y, xs = [x, y] ∧ x.command.bytes.length = 19 ∧ y.command.bytes.length = 5 ∧
    Fetches (x.command.bytes ++ y.command.bytes)

theorem accepted_pair {x y : Exchange} (hx : x.command.bytes.length = 19)
    (hnames : Names x.command.bytes) (hy : y.command.bytes.length = 5)
    (hins : y.command.bytes[1]? = some getResponseIns) : Accepted [x, y] := by
  obtain ⟨⟨-, hselect⟩, -, hname⟩ := hnames
  have hlen : (x.command.bytes ++ y.command.bytes).length = 24 := by
    rw [List.length_append, hx, hy]
  refine ⟨x, y, rfl, hx, hy, ⟨⟨by omega, ?_⟩, by omega, ?_⟩, by omega, ?_⟩
  · rw [List.getElem?_append_left (by omega)]
    exact hselect
  · rw [List.drop_append_of_le_length (by omega), List.take_append_of_le_length (by simp [hx])]
    exact hname
  · rw [List.getElem?_append_right (by omega), hx]
    exact hins

/-- A sequence that succeeds has recorded two commands with the right bytes, whatever came. -/
theorem terminalSequence_recording :
    Recording (fun _ xs => Accepted xs) (board size).terminalSequence := by
  refine Quiet.bind awaitTerminal_quiet fun _ => ?_
  refine Quiet.bind onTerminal_quiet fun _ => ?_
  refine Quiet.bind onTerminal_quiet fun _ => ?_
  refine Quiet.bind (showLine_quiet _) fun _ => ?_
  refine Recording.bind answerSelect_recording ?_
  rintro _ _ ⟨x, rfl, hx, hnames⟩
  refine Recording.bind answerGetResponse_recording ?_
  rintro _ _ ⟨y, rfl, hy, hins⟩
  refine (showLine_quiet _).mono ?_
  rintro _ _ rfl
  exact accepted_pair hx hnames hy hins

theorem actAsCard_yields :
    (board size).actAsCard.Yields b fun r b' =>
      r = .ok () → ∃ xs, Accepted xs ∧ Records b xs b' := by
  refine Yields.bind (terminalSequence_recording b) ?_
  intro r b₁ hrun
  cases r with
  | ok u =>
    refine Yields.bind (R := fun _ b' => b' = b₁) (Yields.pure rfl) ?_
    rintro _ _ rfl
    exact Yields.pure fun _ => hrun () rfl
  | error e =>
    refine Yields.bind (reportFailure_ends size "terminal" e).yields ?_
    intro _ _ _
    exact Yields.pure (by rintro ⟨⟩)

/-- Twenty-four bytes are answered to the end if they are right where they are compared, and end
the sequence otherwise. -/
theorem actAsCard_decides (size : Nat) (hlen : q.length = 24) (hline : b.terminal =
      { etu := Etu.terminal.ticks, queued := q.map (Frame.encode · .direct) }) :
    (board size).actAsCard.Ends b fun r b' =>
      (Fetches q ∧ r = .ok () ∧ ∃ x y,
        x.command.bytes = q.take 19 ∧ y.command.bytes = q.drop 19 ∧ Records b [x, y] b') ∨
      ∃ want got, Deviates q want got ∧ r = .error (.unexpected want got) := by
  have hrests : Rests Etu.terminal.ticks (Wire.Traffic.hears ⟨[], [], 0⟩ q) b.terminal :=
    hline ▸ rests_fresh (by decide) _
  obtain ⟨r, b₁, hrun, -, ⟨xs, hxs, hrecords⟩, hok, herror⟩ := terminalSequence_ends size hrests
  refine Ends.after hrun ?_
  cases r with
  | ok u =>
    have hfetches : Fetches q := hok.1 rfl
    rw [recorded, if_pos hfetches.1, if_pos hfetches, List.singleton_append] at hxs
    obtain ⟨x, ys, rfl, hx, hys⟩ := List.map_eq_cons_iff.1 hxs
    obtain ⟨y, zs, rfl, hy, hzs⟩ := List.map_eq_cons_iff.1 hys
    obtain rfl := List.map_eq_nil_iff.1 hzs
    have htake : (q.drop 19).take 5 = q.drop 19 :=
      List.take_of_length_le (by rw [List.length_drop]; omega)
    exact Ends.pure (.inl ⟨hfetches, rfl, x, y, congrArg Prod.fst hx,
      (congrArg Prod.fst hy).trans htake, hrecords⟩)
  | error e =>
    have hruns : ¬RunsOut q := by
      rintro (hshort | ⟨-, hshort⟩ | ⟨-, hshort⟩) <;> omega
    refine (reportFailure_ends size "terminal" e).bind fun _ _ _ => Ends.pure (.inr ?_)
    obtain ⟨hout, -⟩ | ⟨-, want, got, hdeviates, rfl⟩ := herror e rfl
    · exact absurd hout hruns
    · exact ⟨want, got, hdeviates, rfl⟩

/-- **The script is kept exactly as far as it is compared**: what a sequence that succeeds has
recorded is the script exactly if the eight bytes that nothing compares are right.  A terminal may
send anything in their places, and nothing else in the others. -/
theorem script_kept_iff (size : Nat) :
    (∀ b : Bench, (board size).actAsCard.Yields b fun r b' => r = .ok () → ∃ x y,
      Records b [x, y] b' ∧ x.command.bytes.length = 19 ∧ y.command.bytes.length = 5 ∧
        Fetches (x.command.bytes ++ y.command.bytes) ∧
        (x.command.bytes ++ y.command.bytes = script ↔ ∀ place, scripted place = none →
          (x.command.bytes ++ y.command.bytes)[place]? = script[place]?)) ∧
      ∀ (b : Bench) (q : List UInt8), q.length = 24 → b.terminal =
          { etu := Etu.terminal.ticks, queued := q.map (Frame.encode · .direct) } →
        (board size).actAsCard.Ends b fun r b' =>
          (Fetches q ∧ r = .ok () ∧ ∃ x y,
            x.command.bytes = q.take 19 ∧ y.command.bytes = q.drop 19 ∧ Records b [x, y] b') ∨
          ∃ want got, Deviates q want got ∧ r = .error (.unexpected want got) := by
  constructor
  · intro b
    refine actAsCard_yields.mono ?_
    intro r b' hrun hr
    obtain ⟨_, ⟨x, y, rfl, hx, hy, hfetches⟩, hrecords⟩ := hrun hr
    exact ⟨x, y, hrecords, hx, hy, hfetches, hfetches.eq_script_iff⟩
  · intro b q hlen hline
    exact actAsCard_decides size hlen hline

/-- All eight bytes may be wrong at once. -/
theorem script_kept_nowhere_else :
    let q : List UInt8 := [0x80, 0xA4, 0xFF, 0xFF, 0x00] ++ paymentName ++
      [0xFF, 0xC0, 0x01, 0x02, 0xFF]
    let b : Bench :=
      { terminal := { etu := Etu.terminal.ticks, queued := q.map (Frame.encode · .direct) } }
    q.length = 24 ∧ (board 0).actAsCard.Ends b fun r b' =>
      r = .ok () ∧ b'.ram.captured.items.map (·.command.bytes) = [q.take 19, q.drop 19] := by
  intro q b
  have hlen : q.length = 24 := by decide
  refine ⟨hlen, ((script_kept_iff 0).2 b q hlen rfl).mono ?_⟩
  rintro r b' (⟨-, rfl, x, y, hx, hy, hrecords⟩ | ⟨want, got, hdeviates, -⟩)
  · refine ⟨rfl, ?_⟩
    rw [hrecords.captured_eq, ← hx, ← hy]
    rfl
  · exact absurd hdeviates (Fetches.not_deviates (by decide))

/-- A SELECT with the class byte 80 is answered to the end, and recorded as it came. -/
theorem wrong_class_accepted :
    let q : List UInt8 := [0x80, 0xA4, 0x04, 0x00, 0x0E] ++ paymentName ++ getResponseHeader 4
    let b : Bench :=
      { terminal := { etu := Etu.terminal.ticks, queued := q.map (Frame.encode · .direct) } }
    (board 0).actAsCard.Ends b fun r b' => r = .ok () ∧
      b'.ram.captured.items.map (·.command.bytes) = [q.take 19, q.drop 19] ∧
      q.take 19 ≠ selectHeader ++ paymentName := by
  intro q b
  refine (actAsCard_decides 0 (q := q) (b := b) (by decide) rfl).mono ?_
  rintro r b' (⟨-, rfl, x, y, hx, hy, hrecords⟩ | ⟨want, got, hdeviates, -⟩)
  · refine ⟨rfl, ?_, by decide⟩
    rw [hrecords.captured_eq, ← hx, ← hy]
    rfl
  · exact absurd hdeviates (Fetches.not_deviates (by decide))

end Accepted

end CardTap.Bench
