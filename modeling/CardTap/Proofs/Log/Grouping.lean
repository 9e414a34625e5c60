import CardTap.Proofs.Log.Rewritten

/-!
# Sessions with more exchanges than they hold

A dump is read from cells that may hold anything, so a session in it may show more exchanges than a
flush ever writes.  `groups` pairs the halves of such a session without a limit.  The reader has a
limit of eight and refuses any exchange beyond, but it goes on looking at the last exchange it
holds: a response that belongs to a refused command completes the eighth exchange if that has no
response of its own (`sessions_eq_groups`).  This is the only way in which it mis-pairs.
-/

namespace CardTap.Log

/-! ## Pairing without a limit -/

section Pairing

/-- The exchanges of a session with one more of its records: a command opens an exchange, a response
completes the last one if that has no response and opens one without a command otherwise. -/
def paired (xs : List LoggedExchange) : Record → List LoggedExchange
  | .command body => xs ++ [{ command := some body }]
  | .response body =>
    match xs.getLast? with
    | some ⟨command, none⟩ => xs.dropLast ++ [⟨command, some body⟩]
    | _ => xs ++ [{ response := some body }]
  | _ => xs

/-- The halves of exchanges in front of the next session or the end record, and whether the end
record comes first. -/
def halves : List Record → List Record × Bool
  | [] => ([], false)
  | .application _ :: _ => ([], false)
  | .finish :: _ => ([], true)
  | r :: rest => (r :: (halves rest).1, (halves rest).2)

/-- The sessions of a row of records, each with all its exchanges. -/
def groups : List Record → List Session
  | [] => []
  | .application app :: rest =>
    ⟨app, (halves rest).1.foldl paired [], (halves rest).2⟩ :: groups rest
  | _ :: rest => groups rest

/-- What a record has to say about a command that has no response yet. -/
def answer? : Record → Option (List UInt8)
  | .response body => some body
  | _ => none

variable {xs ys : List LoggedExchange}

theorem length_paired_le (xs : List LoggedExchange) (r : Record) :
    (paired xs r).length ≤ xs.length + 1 := by
  cases r with
  | response body =>
    rw [paired]
    split
    · simp only [List.length_append, List.length_dropLast, List.length_singleton]
      omega
    · simp
  | _ => simp [paired]

/-- Only the last exchange is looked at. -/
theorem paired_append (h : ys ≠ []) (xs : List LoggedExchange) (r : Record) :
    paired (xs ++ ys) r = xs ++ paired ys r := by
  cases r with
  | response body =>
    rw [paired, paired, List.getLast?_append_of_ne_nil _ h, List.dropLast_append_of_ne_nil h]
    split <;> simp only [List.append_assoc]
  | _ => simp [paired]

/-- A record never changes the first command. -/
theorem paired_cons (x : LoggedExchange) (later : List LoggedExchange) (r : Record) :
    ∃ response later', paired (x :: later) r = ⟨x.command, response⟩ :: later' := by
  cases later with
  | cons y later =>
    exact ⟨x.response, paired (y :: later) r, paired_append (List.cons_ne_nil y later) [x] r⟩
  | nil =>
    obtain ⟨command, response⟩ := x
    cases r <;> cases response <;> exact ⟨_, _, rfl⟩

/-- The first response stays the first one. -/
theorem findSome?_paired (h : ys ≠ []) (r : Record) :
    (paired ys r).findSome? (·.response) = (ys.findSome? (·.response)).or (answer? r) := by
  cases r with
  | response body =>
    rw [← List.dropLast_concat_getLast h]
    rcases ys.getLast h with ⟨command, _ | response⟩ <;>
      simp [paired, answer?, List.findSome?_append]
  | command body => simp [paired, answer?, List.findSome?_append]
  | _ => simp [paired, answer?]

end Pairing

/-! ## What the reader keeps -/

section Kept

variable {xs : List LoggedExchange} {s : Session}

/-- The exchanges that the reader keeps of those of a session: the first eight, of which the eighth
has the first response from there on, be it its own or not. -/
def kept (xs : List LoggedExchange) : List LoggedExchange :=
  xs.take (Session.capacity - 1) ++ ((xs.drop (Session.capacity - 1)).head?.map fun x =>
    ⟨x.command, (xs.drop (Session.capacity - 1)).findSome? (·.response)⟩).toList

theorem kept_long {front : List LoggedExchange} (hfront : front.length = Session.capacity - 1)
    (x : LoggedExchange) (later : List LoggedExchange) :
    kept (front ++ x :: later) =
      front ++ [⟨x.command, (x :: later).findSome? (·.response)⟩] := by
  rw [kept, List.take_left' hfront, List.drop_left' hfront]
  rfl

theorem kept_short (h : xs.length ≤ Session.capacity) : kept xs = xs := by
  rcases Nat.lt_or_eq_of_le h with hlt | heq
  · have hle : xs.length ≤ Session.capacity - 1 := Nat.le_sub_one_of_lt hlt
    rw [kept, List.take_of_length_le hle, List.drop_of_length_le hle]
    exact List.append_nil xs
  · have hne : xs ≠ [] := List.ne_nil_of_length_eq_add_one heq
    have hfront : xs.dropLast.length = Session.capacity - 1 := by
      rw [List.length_dropLast, heq]
    have hlong := kept_long hfront (xs.getLast hne) []
    rw [List.dropLast_concat_getLast hne] at hlong
    rw [hlong]
    conv_rhs => rw [← List.dropLast_concat_getLast hne]
    simp

/-- A session holds fewer exchanges than it may, or there is an eighth one. -/
theorem short_or_long (xs : List LoggedExchange) :
    xs.length < Session.capacity ∨ ∃ front x later, xs = front ++ x :: later ∧
      front.length = Session.capacity - 1 := by
  by_cases h : xs.length < Session.capacity
  · exact .inl h
  · right
    have hlt : Session.capacity - 1 < xs.length := by
      have hpos : 0 < Session.capacity := by decide
      omega
    refine ⟨xs.take (Session.capacity - 1), xs[Session.capacity - 1],
      xs.drop (Session.capacity - 1 + 1), ?_, List.length_take_of_le (Nat.le_of_lt hlt)⟩
    rw [← List.drop_eq_getElem_cons hlt, List.take_append_drop]

theorem openExchange_kept (app : UInt8) (complete : Bool) (xs : List LoggedExchange)
    (body : List UInt8) :
    Session.openExchange ⟨app, kept xs, complete⟩ body =
      ⟨app, kept (paired xs (.command body)), complete⟩ := by
  rcases short_or_long xs with hshort | ⟨front, x, later, rfl, hfront⟩
  · have hlen := length_paired_le xs (.command body)
    rw [kept_short (Nat.le_of_lt hshort), kept_short (by omega), Session.openExchange,
      Session.push, if_pos hshort]
    rfl
  · obtain ⟨response, later', hpaired⟩ := paired_cons x later (.command body)
    have hfirst : (paired (x :: later) (.command body)).findSome? (·.response) =
        (x :: later).findSome? (·.response) := by
      rw [findSome?_paired (List.cons_ne_nil x later)]
      exact Option.or_none
    have hfull : ¬ (kept (front ++ x :: later)).length < Session.capacity := by
      rw [kept_long hfront, List.length_append, hfront, List.length_singleton]
      decide
    rw [Session.openExchange, Session.push, if_neg hfull,
      paired_append (List.cons_ne_nil x later), hpaired, kept_long hfront, kept_long hfront,
      ← hpaired, hfirst]

theorem closeExchange_kept (app : UInt8) (complete : Bool) (xs : List LoggedExchange)
    (body : List UInt8) :
    Session.closeExchange ⟨app, kept xs, complete⟩ body =
      ⟨app, kept (paired xs (.response body)), complete⟩ := by
  rcases short_or_long xs with hshort | ⟨front, x, later, rfl, hfront⟩
  · have hlen := length_paired_le xs (.response body)
    rw [kept_short (Nat.le_of_lt hshort), kept_short (by omega)]
    rcases hlast : xs.getLast? with _ | ⟨command, _ | response⟩ <;>
      simp [Session.closeExchange, paired, Session.push, hshort, hlast]
  · obtain ⟨response, later', hpaired⟩ := paired_cons x later (.response body)
    have hfirst := findSome?_paired (List.cons_ne_nil x later) (.response body)
    have hfull : ¬ front.length + 1 < Session.capacity := by
      rw [hfront]
      decide
    rw [paired_append (List.cons_ne_nil x later), hpaired, kept_long hfront, kept_long hfront,
      ← hpaired, hfirst, answer?]
    -- the eighth exchange takes the response, unless it holds one by now
    cases (x :: later).findSome? (·.response) <;>
      simp [Session.closeExchange, Session.push, hfull]

end Kept

/-! ## Sessions -/

section Sessions

/-- What the reader keeps of a session. -/
def keptOf (s : Session) : Session := { s with exchanges := kept s.exchanges }

/-- The session with its first eight exchanges as they are. -/
def firstOf (s : Session) : Session := { s with exchanges := s.exchanges.take Session.capacity }

/-- **The reader groups as without a limit**, up to what it keeps: from outside a session, and from
inside one whose halves so far were paired as `xs`. -/
theorem group_eq_groups (w : List Record) :
    group none w = (groups w).map keptOf ∧
      ∀ (app : UInt8) (xs : List LoggedExchange), group (some ⟨app, kept xs, false⟩) w =
        ⟨app, kept ((halves w).1.foldl paired xs), (halves w).2⟩ :: (groups w).map keptOf := by
  induction w with
  | nil => exact ⟨rfl, fun app xs => rfl⟩
  | cons r w ih =>
    obtain ⟨houtside, hinside⟩ := ih
    cases r with
    | application app =>
      have hopened := hinside app []
      rw [kept_short (Nat.zero_le _)] at hopened
      refine ⟨?_, fun app' xs => ?_⟩
      · exact hopened
      · exact congrArg (_ :: ·) hopened
    | finish => exact ⟨houtside, fun app xs => congrArg (_ :: ·) houtside⟩
    | command body =>
      refine ⟨houtside, fun app xs => ?_⟩
      rw [group, openExchange_kept]
      exact hinside app (paired xs (.command body))
    | response body =>
      refine ⟨houtside, fun app xs => ?_⟩
      rw [group, closeExchange_kept]
      exact hinside app (paired xs (.response body))

/-- The eighth exchange of a session has no response, but a later one has. -/
def Borrows (xs : List LoggedExchange) : Prop :=
  ∃ x ∈ xs[Session.capacity - 1]?, x.response = none ∧
    ∃ y ∈ xs.drop Session.capacity, y.response ≠ none

theorem borrows_long {front : List LoggedExchange} (hfront : front.length = Session.capacity - 1)
    (x : LoggedExchange) (later : List LoggedExchange) :
    Borrows (front ++ x :: later) ↔ x.response = none ∧ ∃ y ∈ later, y.response ≠ none := by
  have hcapacity : Session.capacity = front.length + 1 := by
    rw [hfront]
    rfl
  have heighth : (front ++ x :: later)[Session.capacity - 1]? = some x := by
    rw [← hfront]
    simp
  have hlater : (front ++ x :: later).drop Session.capacity = later := by
    rw [hcapacity, List.drop_length_add_append]
    rfl
  simp [Borrows, heighth, hlater]

theorem kept_eq_take_iff (xs : List LoggedExchange) :
    kept xs = xs.take Session.capacity ↔ ¬ Borrows xs := by
  rcases short_or_long xs with hshort | ⟨front, x, later, rfl, hfront⟩
  · have hnone : xs[Session.capacity - 1]? = none :=
      List.getElem?_eq_none (Nat.le_sub_one_of_lt hshort)
    rw [kept_short (Nat.le_of_lt hshort), List.take_of_length_le (Nat.le_of_lt hshort)]
    simp [Borrows, hnone]
  · have hcapacity : Session.capacity = front.length + 1 := by
      rw [hfront]
      rfl
    have htake : (front ++ x :: later).take Session.capacity = front ++ [x] := by
      rw [hcapacity, List.take_length_add_append]
      rfl
    rw [kept_long hfront, htake, borrows_long hfront, List.append_cancel_left_eq]
    obtain ⟨command, _ | response⟩ := x <;> simp

/-- **What becomes of overlong sessions.** The sessions read from a dump are those of its records,
each with the same id, the same end and the exchanges that are kept of it.  These are its first
eight as they were, for every session of the dump, exactly if none borrows a response. -/
theorem sessions_eq_groups (dump : List UInt8) :
    sessions dump = (groups (records dump)).map keptOf ∧
      (sessions dump = (groups (records dump)).map firstOf ↔
        ∀ s ∈ groups (records dump), ¬ Borrows s.exchanges) := by
  have hkept : sessions dump = (groups (records dump)).map keptOf := (group_eq_groups _).1
  refine ⟨hkept, ?_⟩
  rw [hkept, List.map_inj_left]
  refine forall₂_congr fun s _ => ?_
  rw [← kept_eq_take_iff, keptOf, firstOf, Session.mk.injEq]
  simp

/-- A session with nine commands and, behind the ninth, one response. -/
def overlong : List Record :=
  .application 1 :: ((List.range 9).map fun n => .command [UInt8.ofNat n]) ++
    [.response [0x90, 0x00], .finish]

/-- The eighth command is read with the response to the ninth. -/
theorem eighth_borrows_response :
    sessions (overlong.flatMap Record.bytes) =
        [⟨1, ((List.range 7).map fun n => ⟨some [UInt8.ofNat n], none⟩) ++
          [⟨some [7], some [0x90, 0x00]⟩], true⟩] ∧
      (groups (records (overlong.flatMap Record.bytes))).map firstOf =
        [⟨1, (List.range 8).map fun n => ⟨some [UInt8.ofNat n], none⟩, true⟩] ∧
      sessions (overlong.flatMap Record.bytes) ≠
        (groups (records (overlong.flatMap Record.bytes))).map firstOf := by
  have hrecords : records (overlong.flatMap Record.bytes) = overlong := by cbv
  rw [sessions, hrecords]
  exact ⟨rfl, rfl, by decide⟩

end Sessions

end CardTap.Log
