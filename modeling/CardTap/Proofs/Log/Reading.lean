import CardTap.Log.Session
import CardTap.Proofs.Capture
import CardTap.Proofs.Log.Clean
import CardTap.Proofs.Log.Plan

/-!
# Sessions are read back

The reader is followed record by record over the bytes of a session.  Clean exchanges are read back
as they were written, up to the last response: if the bytes behind the end marker look like the end
marker, the response grows by their number (`sessions_sessionBytes`).  Outside a session anything
but an application marker is passed over.
-/

namespace CardTap

/-! ## What is to be read -/

section Expected

/-- An exchange that can be told from the markers around it: nothing inside its halves looks like a
marker, and the response does not start like the marker in front of it. -/
structure Exchange.Clean (next : Marker) (x : Exchange) : Prop where
  command : Log.Clean .response x.command.bytes
  status : x.response.sw1 ≠ Marker.response.byte
  response : Log.Clean next x.response.bytes

instance (next : Marker) (x : Exchange) : Decidable (x.Clean next) :=
  decidable_of_iff (Log.Clean .response x.command.bytes ∧ x.response.sw1 ≠ Marker.response.byte ∧
    Log.Clean next x.response.bytes) ⟨fun h => ⟨h.1, h.2.1, h.2.2⟩, fun h => ⟨h.1, h.2, h.3⟩⟩

/-- Exchanges of which each is clean before what follows it, the next command or the end of the
session; no command but the first starts like the marker in front of it. -/
def CleanSession : List Exchange → Prop
  | [] => True
  | [x] => x.Clean .finish
  | x :: y :: rest =>
    x.Clean .command ∧ y.command.header.cla ≠ Marker.command.byte ∧ CleanSession (y :: rest)

instance CleanSession.decide : (exchanges : List Exchange) → Decidable (CleanSession exchanges)
  | [] => .isTrue trivial
  | [x] => inferInstanceAs (Decidable (x.Clean .finish))
  | x :: y :: rest =>
    have : Decidable (CleanSession (y :: rest)) := CleanSession.decide (y :: rest)
    inferInstanceAs (Decidable (x.Clean .command ∧ y.command.header.cla ≠ Marker.command.byte ∧
      CleanSession (y :: rest)))

/-- An exchange as it is to be read back. -/
def Exchange.logged (x : Exchange) : LoggedExchange :=
  ⟨some x.command.bytes, some x.response.bytes⟩

/-- An exchange on the line as it is to be read back. -/
def Captured.logged (x : Captured) : LoggedExchange :=
  ⟨some x.command, some (statusFirst x.response)⟩

theorem Captured.logged_exchange (x : Captured) : x.exchange.logged = x.logged := by
  have h := x.entry_exchange
  rw [Exchange.entry, Entry.mk.injEq] at h
  rw [Exchange.logged, h.1, h.2, Captured.logged]

/-- The exchanges of a session whose last response has grown by some bytes. -/
def loggedWith (grown : List UInt8) : List Exchange → List LoggedExchange
  | [] => []
  | [x] => [⟨some x.command.bytes, some (x.response.bytes ++ grown)⟩]
  | x :: y :: rest => x.logged :: loggedWith grown (y :: rest)

/-- A session as it is to be read back. -/
def Session.written (app : UInt8) (exchanges : List Exchange) : Session :=
  ⟨app, exchanges.map Exchange.logged, true⟩

/-- The records that an exchange is read from. -/
def LoggedExchange.records (x : LoggedExchange) : List Record :=
  (x.command.map Record.command).toList ++ (x.response.map Record.response).toList

/-- An exchange with both halves. -/
def LoggedExchange.Whole (x : LoggedExchange) : Prop := x.command.isSome ∧ x.response.isSome

theorem length_loggedWith (grown : List UInt8) (exchanges : List Exchange) :
    (loggedWith grown exchanges).length = exchanges.length := by
  induction exchanges with
  | nil => rfl
  | cons x rest ih =>
    cases rest with
    | nil => rfl
    | cons y rest => exact congrArg (· + 1) ih

theorem whole_of_mem_loggedWith {grown : List UInt8} {exchanges : List Exchange}
    {y : LoggedExchange} (h : y ∈ loggedWith grown exchanges) : y.Whole := by
  induction exchanges with
  | nil => exact absurd h List.not_mem_nil
  | cons x rest ih =>
    cases rest with
    | nil =>
      obtain rfl := List.mem_singleton.1 h
      exact ⟨rfl, rfl⟩
    | cons z rest =>
      rcases List.mem_cons.1 h with rfl | h
      · exact ⟨rfl, rfl⟩
      · exact ih h

theorem loggedWith_nil (exchanges : List Exchange) :
    loggedWith [] exchanges = exchanges.map Exchange.logged := by
  induction exchanges with
  | nil => rfl
  | cons x rest ih =>
    cases rest with
    | nil => simp [loggedWith, Exchange.logged]
    | cons y rest => exact congrArg (x.logged :: ·) ih

theorem loggedWith_eq_iff {grown : List UInt8} {exchanges : List Exchange} (hne : exchanges ≠ []) :
    loggedWith grown exchanges = exchanges.map Exchange.logged ↔ grown = [] := by
  induction exchanges with
  | nil => exact absurd rfl hne
  | cons x rest ih =>
    cases rest with
    | nil => simp [loggedWith, Exchange.logged]
    | cons y rest =>
      have hrest := ih (List.cons_ne_nil y rest)
      rw [loggedWith, List.map_cons, List.cons_inj_right, hrest]

end Expected

namespace Log

/-! ## Records -/

section Records

variable {inSession : Bool} {next : Marker} {body : List UInt8}

theorem recordsFrom_of_next? {input rest : List UInt8} {r : Record} {s : Bool}
    (h : next? inSession input = some (r, s, rest)) :
    recordsFrom inSession input = r :: recordsFrom s rest := by
  rw [recordsFrom]
  split
  · next hnone => exact absurd (h.symm.trans hnone) (Option.some_ne_none _)
  · next hsome =>
    rw [hsome] at h
    obtain ⟨rfl, rfl, rfl⟩ : _ = r ∧ _ = s ∧ _ = rest := by simpa using h
    rfl

theorem recordsFrom_of_none {input : List UInt8} (h : next? inSession input = none) :
    recordsFrom inSession input = [] := by
  rw [recordsFrom]
  split
  · rfl
  · next hsome => exact absurd (hsome.symm.trans h) (Option.some_ne_none _)

theorem recordsFrom_application (inSession : Bool) (app : UInt8) (rest : List UInt8) :
    recordsFrom inSession (Marker.application.bytes ++ app :: rest) =
      .application app :: recordsFrom true rest := by
  have hwant : wanted inSession .application = true := by cases inSession <;> rfl
  apply recordsFrom_of_next?
  rw [next?, findMarker_bytes hwant]
  rfl

theorem recordsFrom_finish (rest : List UInt8) :
    recordsFrom true (Marker.finish.bytes ++ rest) = .finish :: recordsFrom false rest := by
  apply recordsFrom_of_next?
  rw [next?, findMarker_bytes rfl]
  rfl

theorem recordsFrom_command_split (input : List UInt8) :
    recordsFrom true (Marker.command.bytes ++ input) =
      .command (splitBody input).1 :: recordsFrom true (splitBody input).2 := by
  apply recordsFrom_of_next?
  rw [next?, findMarker_bytes rfl]
  rfl

theorem recordsFrom_response_split (input : List UInt8) :
    recordsFrom true (Marker.response.bytes ++ input) =
      .response (splitBody input).1 :: recordsFrom true (splitBody input).2 := by
  apply recordsFrom_of_next?
  rw [next?, findMarker_bytes rfl]
  rfl

theorem recordsFrom_command (h : Clean next body) (rest : List UInt8) :
    recordsFrom true (Marker.command.bytes ++ (body ++ (next.bytes ++ rest))) =
      .command (body ++ rest.takeWhile (· == next.byte)) ::
        recordsFrom true (next.bytes ++ rest.dropWhile (· == next.byte)) := by
  rw [recordsFrom_command_split, splitBody_append h]

theorem recordsFrom_response (h : Clean next body) (rest : List UInt8) :
    recordsFrom true (Marker.response.bytes ++ (body ++ (next.bytes ++ rest))) =
      .response (body ++ rest.takeWhile (· == next.byte)) ::
        recordsFrom true (next.bytes ++ rest.dropWhile (· == next.byte)) := by
  rw [recordsFrom_response_split, splitBody_append h]

/-- Outside a session bytes at which no application marker starts are passed over. -/
theorem recordsFrom_pass {b : UInt8} {rest : List UInt8}
    (h : Marker.leading? (b :: rest) ≠ some .application) :
    recordsFrom false (b :: rest) = recordsFrom false rest := by
  have hlead : (Marker.leading? (b :: rest)).filter (wanted false) = none := by
    rw [Option.filter_eq_none_iff]
    intro m hm hwant
    obtain rfl : m = .application := by simpa [wanted] using hwant
    exact h hm
  have hnext : next? false (b :: rest) = next? false rest := by
    rw [next?, next?, findMarker_cons hlead]
    cases findMarker (wanted false) rest with
    | none => rfl
    | some found =>
      simp only [Option.map_some, Option.bind_eq_bind, Option.bind_some, Nat.add_right_comm _ 1,
        List.drop_succ_cons]
  cases hrest : next? false rest with
  | none => rw [recordsFrom_of_none hrest, recordsFrom_of_none (hnext.trans hrest)]
  | some found => rw [recordsFrom_of_next? hrest, recordsFrom_of_next? (hnext.trans hrest)]

theorem recordsFrom_skip {b : UInt8} (h : b ≠ Marker.application.byte) (rest : List UInt8) :
    recordsFrom false (b :: rest) = recordsFrom false rest := by
  apply recordsFrom_pass
  intro hlead
  obtain ⟨tail, htail⟩ := leading?_eq_some.1 hlead
  exact h (List.cons.inj htail).1

theorem recordsFrom_skip_all {noise : List UInt8} (h : ∀ b ∈ noise, b ≠ Marker.application.byte)
    (rest : List UInt8) : recordsFrom false (noise ++ rest) = recordsFrom false rest := by
  induction noise with
  | nil => rfl
  | cons b noise ih =>
    rw [List.cons_append, recordsFrom_skip (h b List.mem_cons_self),
      ih fun c hc => h c (List.mem_cons_of_mem b hc)]

/-- A response does not start like its marker, so the command ends where it was written to. -/
theorem recordsFrom_framed {x : Exchange} (h : x.Clean next) (rest : List UInt8) :
    recordsFrom true (framed x.entry ++ (next.bytes ++ rest)) =
      .command x.command.bytes ::
        .response (x.response.bytes ++ rest.takeWhile (· == next.byte)) ::
          recordsFrom true (next.bytes ++ rest.dropWhile (· == next.byte)) := by
  have hbytes : framed x.entry ++ (next.bytes ++ rest) =
      Marker.command.bytes ++ (x.command.bytes ++
        (Marker.response.bytes ++ (x.response.bytes ++ (next.bytes ++ rest)))) := by
    simp only [framed, recordBytes, Exchange.entry, List.append_assoc]
  have hstatus : (x.response.sw1 == Marker.response.byte) = false := beq_false_of_ne h.status
  rw [hbytes, recordsFrom_command h.command]
  simp only [Response.bytes, List.cons_append, List.takeWhile_cons, List.dropWhile_cons, hstatus,
    Bool.false_eq_true, ↓reduceIte, List.append_nil]
  exact congrArg _ (recordsFrom_response h.response rest)

/-- Clean exchanges are read back up to what runs into the end marker. -/
theorem recordsFrom_exchanges {exchanges : List Exchange} (h : CleanSession exchanges)
    (rest : List UInt8) :
    recordsFrom true ((exchanges.map Exchange.entry).flatMap framed ++
        (Marker.finish.bytes ++ rest)) =
      (loggedWith (rest.takeWhile (· == Marker.finish.byte)) exchanges).flatMap
        LoggedExchange.records ++ .finish :: recordsFrom false rest := by
  have hrest : recordsFrom false (rest.dropWhile (· == Marker.finish.byte)) =
      recordsFrom false rest := by
    have hnoise : ∀ b ∈ rest.takeWhile (· == Marker.finish.byte), b ≠ Marker.application.byte := by
      intro b hb
      rw [eq_of_mem_takeWhile hb]
      decide
    rw [← recordsFrom_skip_all hnoise, List.takeWhile_append_dropWhile]
  induction exchanges with
  | nil => exact recordsFrom_finish rest
  | cons x tail ih =>
    cases tail with
    | nil =>
      rw [List.map_singleton, List.flatMap_singleton, recordsFrom_framed h, recordsFrom_finish,
        hrest]
      rfl
    | cons y tail =>
      obtain ⟨hx, hclass, htail⟩ := h
      have hcla : (y.command.header.cla == Marker.command.byte) = false := beq_false_of_ne hclass
      have hbytes : ((x :: y :: tail).map Exchange.entry).flatMap framed ++
          (Marker.finish.bytes ++ rest) = framed x.entry ++ (Marker.command.bytes ++
            (y.command.bytes ++ (recordBytes .response y.entry.response ++
              ((tail.map Exchange.entry).flatMap framed ++ (Marker.finish.bytes ++ rest))))) := by
        simp only [List.map_cons, List.flatMap_cons, framed, recordBytes, Exchange.entry,
          List.append_assoc]
      have hnext : Marker.command.bytes ++ (y.command.bytes ++
          (recordBytes .response y.entry.response ++
            ((tail.map Exchange.entry).flatMap framed ++ (Marker.finish.bytes ++ rest)))) =
          ((y :: tail).map Exchange.entry).flatMap framed ++ (Marker.finish.bytes ++ rest) := by
        simp only [List.map_cons, List.flatMap_cons, framed, recordBytes, Exchange.entry,
          List.append_assoc]
      rw [hbytes, recordsFrom_framed hx]
      simp only [Command.bytes, Header.bytes, List.cons_append, List.takeWhile_cons,
        List.dropWhile_cons, hcla, Bool.false_eq_true, ↓reduceIte, List.append_nil]
      refine congrArg (_ :: _ :: ·) ?_
      exact (congrArg (recordsFrom true) hnext).trans (ih htail)

end Records

/-! ## Sessions -/

section Sessions

theorem group_exchanges {s : Session} {exchanges : List LoggedExchange}
    (hopened : ∀ x ∈ exchanges, x.command.isSome)
    (hroom : s.exchanges.length + exchanges.length ≤ Session.capacity) (rest : List Record) :
    group (some s) (exchanges.flatMap LoggedExchange.records ++ rest) =
      group (some { s with exchanges := s.exchanges ++ exchanges }) rest := by
  induction exchanges generalizing s with
  | nil => simp
  | cons x tail ih =>
    obtain ⟨command, response⟩ := x
    obtain ⟨c, rfl⟩ := Option.isSome_iff_exists.1 (hopened _ List.mem_cons_self)
    rw [List.length_cons] at hroom
    have hpush : s.exchanges.length < Session.capacity := by omega
    have htail := ih (s := { s with exchanges := s.exchanges ++ [⟨some c, response⟩] })
      (fun y hy => hopened y (List.mem_cons_of_mem _ hy))
      (by simp only [List.length_append, List.length_singleton]; omega)
    rw [List.append_assoc] at htail
    refine Eq.trans ?_ htail
    cases response with
    | none =>
      have hopen : s.openExchange c = { s with exchanges := s.exchanges ++ [⟨some c, none⟩] } := by
        simp [Session.openExchange, Session.push, hpush]
      rw [← hopen]
      rfl
    | some r =>
      have hpair : (s.openExchange c).closeExchange r =
          { s with exchanges := s.exchanges ++ [⟨some c, some r⟩] } := by
        simp [Session.openExchange, Session.push, hpush, Session.closeExchange]
      rw [← hpair]
      rfl

theorem sessions_skip_all {noise : List UInt8} (h : ∀ b ∈ noise, b ≠ Marker.application.byte)
    (rest : List UInt8) : sessions (noise ++ rest) = sessions rest := by
  rw [sessions, records, recordsFrom_skip_all h]
  rfl

/-- **A session is read back.** Its exchanges are the written ones, but for the bytes of the end
marker's value behind it: the last response has grown by those. -/
theorem sessions_sessionBytes (app : UInt8) {exchanges : List Exchange}
    (hclean : CleanSession exchanges) (hroom : exchanges.length ≤ Session.capacity)
    (rest : List UInt8) :
    sessions (sessionBytes app (exchanges.map Exchange.entry) ++ rest) =
      ⟨app, loggedWith (rest.takeWhile (· == Marker.finish.byte)) exchanges, true⟩ ::
        sessions rest := by
  have hbytes : sessionBytes app (exchanges.map Exchange.entry) ++ rest =
      Marker.application.bytes ++ app ::
        ((exchanges.map Exchange.entry).flatMap framed ++ (Marker.finish.bytes ++ rest)) := by
    simp only [sessionBytes, List.append_assoc, List.cons_append, List.nil_append]
  rw [sessions, records, hbytes, recordsFrom_application, recordsFrom_exchanges hclean]
  show group (some { app }) _ = _
  rw [group_exchanges (fun _ h => (whole_of_mem_loggedWith h).1)
    (by rw [length_loggedWith, List.length_nil, Nat.zero_add]; exact hroom)]
  rfl

/-- Ahead of anything that does not look like the end marker, a session is read back as written. -/
theorem sessions_written (app : UInt8) {exchanges : List Exchange}
    (hclean : CleanSession exchanges) (hroom : exchanges.length ≤ Session.capacity)
    {rest : List UInt8} (hrest : rest.head? ≠ some Marker.finish.byte) :
    sessions (sessionBytes app (exchanges.map Exchange.entry) ++ rest) =
      .written app exchanges :: sessions rest := by
  rw [sessions_sessionBytes app hclean hroom, takeWhile_eq_nil_of_head?_ne hrest, loggedWith_nil]
  rfl

end Sessions

end Log

end CardTap
