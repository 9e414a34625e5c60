import CardTap.Proofs.Log.TornBody

/-!
# What is read of a torn session

The exchanges of a session are written one after the other, so a power loss leaves whole exchanges,
then one that is torn, then erased cells.  `tornExchanges` follows the reader over what was left,
one exchange at a time; `cutOf_tornExchanges_iff` says when the outcome is a first part of what was
written, and `Misread` names the places of the power loss where it is not.
-/

namespace CardTap

/-! ## First parts of a session -/

/-- What was read is a first part of the exchanges: each one but the last is the written one, and of
the last one each half that is present is a first part of the written half. -/
inductive CutOf : List Exchange → List LoggedExchange → Prop where
  | nothing (xs : List Exchange) : CutOf xs []
  | last {x : Exchange} {xs : List Exchange} {y : LoggedExchange}
      (command : ∀ c ∈ y.command, c <+: x.command.bytes)
      (response : ∀ r ∈ y.response, r <+: x.response.bytes) : CutOf (x :: xs) [y]
  | more (x : Exchange) {xs : List Exchange} {ys : List LoggedExchange} (later : CutOf xs ys) :
      CutOf (x :: xs) (x.logged :: ys)

section CutOf

variable {x : Exchange} {xs zs : List Exchange} {y : LoggedExchange} {ys : List LoggedExchange}

theorem CutOf.append (h : CutOf xs ys) (zs : List Exchange) : CutOf (xs ++ zs) ys := by
  induction h with
  | nothing => exact .nothing _
  | last command response => exact .last command response
  | more x _ ih => exact .more x ih

theorem CutOf.of_append (h : CutOf (xs ++ zs) ys) (hlen : ys.length ≤ xs.length) : CutOf xs ys := by
  induction xs generalizing ys with
  | nil =>
    obtain rfl := List.eq_nil_of_length_eq_zero (Nat.le_zero.1 hlen)
    exact .nothing _
  | cons x xs ih =>
    cases h with
    | nothing => exact .nothing _
    | last command response => exact .last command response
    | more _ later => exact .more x (ih later (Nat.le_of_succ_le_succ hlen))

/-- Exchanges that were not reached do not matter. -/
theorem cutOf_take_iff {n : Nat} (hlen : ys.length ≤ (xs.take n).length) :
    CutOf xs ys ↔ CutOf (xs.take n) ys := by
  constructor
  · intro h
    rw [← List.take_append_drop n xs] at h
    exact h.of_append hlen
  · intro h
    have hall := h.append (xs.drop n)
    rwa [List.take_append_drop] at hall

theorem cutOf_logged_cons : CutOf (x :: xs) (x.logged :: ys) ↔ CutOf xs ys := by
  constructor
  · intro h
    cases h with
    | last => exact .nothing _
    | more _ later => exact later
  · exact .more x

/-- An exchange that is followed by another one was read as it was written. -/
theorem CutOf.eq_logged {z : LoggedExchange} (h : CutOf (x :: xs) (y :: z :: ys)) :
    y = x.logged := by
  cases h
  rfl

theorem prefix_of_mem_some {c bytes : List UInt8} (h : c ∈ some bytes) : c <+: bytes := by
  obtain rfl := Option.some.inj h
  exact List.prefix_rfl

theorem cutOf_singleton {command response : Option (List UInt8)} :
    CutOf (x :: xs) [⟨command, response⟩] ↔
      (∀ c ∈ command, c <+: x.command.bytes) ∧ ∀ r ∈ response, r <+: x.response.bytes := by
  constructor
  · intro h
    cases h with
    | last command response => exact ⟨command, response⟩
    | more _ _ => exact ⟨fun _ => prefix_of_mem_some, fun _ => prefix_of_mem_some⟩
  · exact fun h => .last h.1 h.2

end CutOf

namespace Log

/-! ## The bytes of a session behind its application record -/

section Tail

variable {x : Exchange} {rest exchanges : List Exchange}

/-- The marker behind an exchange: that of the next command, or the end marker. -/
def following : List Exchange → Marker
  | [] => .finish
  | _ :: _ => .command

/-- What a session holds behind its application record. -/
def tailBytes (exchanges : List Exchange) : List UInt8 :=
  (exchanges.map Exchange.entry).flatMap framed ++ Marker.finish.bytes

theorem sessionBytes_entries (app : UInt8) (exchanges : List Exchange) :
    sessionBytes app (exchanges.map Exchange.entry) =
      Marker.application.bytes ++ app :: tailBytes exchanges := by
  simp only [sessionBytes, tailBytes, List.append_assoc, List.cons_append, List.nil_append]

theorem tailBytes_cons (x : Exchange) (rest : List Exchange) :
    tailBytes (x :: rest) = Marker.command.bytes ++ (x.command.bytes ++
      (Marker.response.bytes ++ (x.response.bytes ++ tailBytes rest))) := by
  simp only [tailBytes, List.map_cons, List.flatMap_cons, framed, recordBytes, Exchange.entry,
    List.append_assoc]

theorem cleanSession_cons (h : CleanSession (x :: rest)) :
    x.Clean (following rest) ∧ CleanSession rest := by
  cases rest with
  | nil => exact ⟨h, trivial⟩
  | cons y rest => exact ⟨h.1, h.2.2⟩

/-- Behind an exchange stands the following marker, and what follows it does not look like it. -/
theorem exists_tailBytes (h : CleanSession (x :: rest)) :
    ∃ more, tailBytes rest = (following rest).bytes ++ more ∧
      more.head? ≠ some (following rest).byte := by
  cases rest with
  | nil => exact ⟨[], rfl, nofun⟩
  | cons y rest => exact ⟨_, tailBytes_cons y rest, fun hhead => h.2.1 (Option.some.inj hhead)⟩

end Tail

/-! ## What is read -/

section Reading

variable {x : Exchange} {rest exchanges : List Exchange} {reached k : Nat}

/-- What is read of exchanges and the end marker behind them, of which only some bytes reached the
store; and whether the end marker was found. -/
def tornExchanges : List Exchange → Nat → List LoggedExchange × Bool
  | [], reached => ([], decide (Marker.size ≤ reached))
  | x :: rest, reached =>
    if reached < Marker.size then ([], false)
    else
      match tornBody .response x.command.bytes (reached - Marker.size) with
      | (c, none) => ([⟨some c, none⟩], false)
      | (c, some left) =>
        match tornBody (following rest) x.response.bytes (left - Marker.size) with
        | (r, none) => ([⟨some c, some r⟩], false)
        | (r, some left) =>
          (⟨some c, some r⟩ :: (tornExchanges rest left).1, (tornExchanges rest left).2)

/-- A session as it is read after a power loss. -/
def tornSession (app : UInt8) (exchanges : List Exchange) (reached : Nat) : Session :=
  ⟨app, (tornExchanges exchanges reached).1, (tornExchanges exchanges reached).2⟩

theorem tornExchanges_part (x : Exchange) (rest : List Exchange) (h : reached < Marker.size) :
    tornExchanges (x :: rest) reached = ([], false) := by
  rw [tornExchanges, if_pos h]

theorem tornExchanges_command {c : List UInt8} (h : Marker.size ≤ reached)
    (hc : tornBody .response x.command.bytes (reached - Marker.size) = (c, none)) :
    tornExchanges (x :: rest) reached = ([⟨some c, none⟩], false) := by
  rw [tornExchanges, if_neg (Nat.not_lt.2 h), hc]

theorem tornExchanges_response {c r : List UInt8} {left : Nat} (h : Marker.size ≤ reached)
    (hc : tornBody .response x.command.bytes (reached - Marker.size) = (c, some left))
    (hr : tornBody (following rest) x.response.bytes (left - Marker.size) = (r, none)) :
    tornExchanges (x :: rest) reached = ([⟨some c, some r⟩], false) := by
  rw [tornExchanges, if_neg (Nat.not_lt.2 h), hc]
  simp only [hr]

theorem tornExchanges_later {c r : List UInt8} {left behind : Nat} (h : Marker.size ≤ reached)
    (hc : tornBody .response x.command.bytes (reached - Marker.size) = (c, some left))
    (hr : tornBody (following rest) x.response.bytes (left - Marker.size) = (r, some behind)) :
    tornExchanges (x :: rest) reached =
      (⟨some c, some r⟩ :: (tornExchanges rest behind).1, (tornExchanges rest behind).2) := by
  rw [tornExchanges, if_neg (Nat.not_lt.2 h), hc]
  simp only [hr]

theorem length_tornExchanges (exchanges : List Exchange) (reached : Nat) :
    (tornExchanges exchanges reached).1.length ≤ exchanges.length := by
  induction exchanges generalizing reached with
  | nil => exact Nat.le_refl _
  | cons x rest ih =>
    rw [tornExchanges]
    repeat' split
    · exact Nat.zero_le _
    · exact Nat.succ_le_succ (Nat.zero_le _)
    · exact Nat.succ_le_succ (Nat.zero_le _)
    · exact Nat.succ_le_succ (ih _)

theorem opened_of_mem_tornExchanges {y : LoggedExchange}
    (h : y ∈ (tornExchanges exchanges reached).1) : y.command.isSome := by
  induction exchanges generalizing reached with
  | nil => exact absurd h List.not_mem_nil
  | cons x rest ih =>
    rw [tornExchanges] at h
    repeat' split at h
    · exact absurd h List.not_mem_nil
    · rw [List.mem_singleton.1 h]
      rfl
    · rw [List.mem_singleton.1 h]
      rfl
    · rcases List.mem_cons.1 h with rfl | h
      · rfl
      · exact ih h

theorem recordsFrom_of_no_marker {inSession : Bool} {input : List UInt8}
    (h : ∀ marker : Marker, ¬ marker.bytes <:+: input) : recordsFrom inSession input = [] := by
  apply recordsFrom_of_none
  rw [next?, findMarker_eq_none h]
  rfl

/-- Less than a whole marker means nothing. -/
theorem recordsFrom_part {inSession : Bool} {input : List UInt8} (h : input.length < Marker.size)
    (k : Nat) : recordsFrom inSession (input ++ List.replicate k 0xFF) = [] := by
  refine recordsFrom_of_no_marker fun marker hin => ?_
  have := (infix_of_infix_erased hin).length_le
  rw [length_bytes] at this
  omega

theorem recordsFrom_nil (inSession : Bool) : recordsFrom inSession [] = [] :=
  recordsFrom_of_none rfl

theorem recordsFrom_erased (k : Nat) : recordsFrom false (List.replicate k 0xFF) = [] := by
  rw [← List.nil_append (List.replicate k _)]
  exact recordsFrom_part (by decide) k

theorem take_bytes_append {marker : Marker} (h : Marker.size ≤ reached) (behind : List UInt8) :
    (marker.bytes ++ behind).take reached =
      marker.bytes ++ behind.take (reached - Marker.size) := by
  rw [List.take_append, length_bytes, List.take_of_length_le (by rw [length_bytes]; exact h)]

theorem le_left_tornBody {next : Marker} {body : List UInt8} {left : Nat}
    (h : (tornBody next body reached).2 = some left) : Marker.size ≤ left := by
  unfold tornBody at h
  split at h
  · obtain rfl := Option.some.inj h
    exact Nat.le_max_left _ _
  · exact nomatch h

/-- The reader is followed over what reached the store, exchange by exchange. -/
theorem recordsFrom_torn (h : CleanSession exchanges) (reached k : Nat) :
    recordsFrom true ((tailBytes exchanges).take reached ++ List.replicate k 0xFF) =
      (tornExchanges exchanges reached).1.flatMap LoggedExchange.records ++
        bif (tornExchanges exchanges reached).2 then [.finish] else [] := by
  induction exchanges generalizing reached with
  | nil =>
    by_cases hreached : Marker.size ≤ reached
    · have hall : (tailBytes []).take reached = Marker.finish.bytes :=
        List.take_of_length_le (by simpa [tailBytes, length_bytes] using hreached)
      rw [hall, recordsFrom_finish, recordsFrom_erased]
      simp [tornExchanges, hreached]
    · rw [recordsFrom_part (by rw [List.length_take]; omega)]
      simp [tornExchanges, hreached]
  | cons x rest ih =>
    obtain ⟨hclean, hrest⟩ := cleanSession_cons h
    obtain ⟨more, htail, hmore⟩ := exists_tailBytes h
    have hstatus : (x.response.bytes ++ tailBytes rest).head? ≠ some Marker.response.byte :=
      fun hhead => hclean.status (Option.some.inj hhead)
    by_cases hreached : reached < Marker.size
    · rw [tornExchanges_part x rest hreached, recordsFrom_part (by rw [List.length_take]; omega)]
      rfl
    have hstart : Marker.size ≤ reached := Nat.le_of_not_lt hreached
    rw [tailBytes_cons, take_bytes_append hstart, List.append_assoc, recordsFrom_command_split,
      splitBody_torn hclean.command hstatus]
    obtain ⟨c, left?, hc⟩ : ∃ c left?,
      tornBody .response x.command.bytes (reached - Marker.size) = (c, left?) := ⟨_, _, rfl⟩
    rw [hc]
    cases left? with
    | none =>
      rw [tornExchanges_command hstart hc]
      exact congrArg (_ :: ·) (recordsFrom_nil true)
    | some left =>
      have hleft : Marker.size ≤ left := le_left_tornBody (congrArg Prod.snd hc)
      obtain ⟨r, behind?, hr⟩ : ∃ r behind?,
        tornBody (following rest) x.response.bytes (left - Marker.size) = (r, behind?) :=
        ⟨_, _, rfl⟩
      simp only
      rw [take_bytes_append hleft, List.append_assoc, recordsFrom_response_split, htail,
        splitBody_torn hclean.response hmore, ← htail, hr]
      cases behind? with
      | none =>
        rw [tornExchanges_response hstart hc hr]
        exact congrArg (_ :: _ :: ·) (recordsFrom_nil true)
      | some behind =>
        rw [tornExchanges_later hstart hc hr]
        exact congrArg (_ :: _ :: ·) (ih hrest behind)

/-- **What is read of a torn session**, once its application record reached the store. -/
theorem sessions_torn (app : UInt8) (hclean : CleanSession exchanges)
    (hroom : exchanges.length ≤ Session.capacity) (reached k : Nat) :
    sessions ((sessionBytes app (exchanges.map Exchange.entry)).take (6 + reached) ++
        List.replicate k 0xFF) =
      [tornSession app exchanges reached] := by
  have hbytes : (sessionBytes app (exchanges.map Exchange.entry)).take (6 + reached) ++
      List.replicate k 0xFF = Marker.application.bytes ++
        app :: ((tailBytes exchanges).take reached ++ List.replicate k 0xFF) := by
    have hrecord : (Marker.application.bytes ++ [app]).length = 6 := rfl
    rw [sessionBytes_entries, ← List.singleton_append, ← List.append_assoc, List.take_append,
      List.take_of_length_le (by rw [hrecord]; omega), hrecord, Nat.add_sub_cancel_left]
    simp only [List.append_assoc, List.cons_append, List.nil_append]
  rw [sessions, records, hbytes, recordsFrom_application, recordsFrom_torn hclean]
  show group (some { app }) _ = _
  rw [group_exchanges (fun _ h => opened_of_mem_tornExchanges h)
    (Nat.le_trans (by rw [List.length_nil, Nat.zero_add]; exact length_tornExchanges _ _) hroom),
    tornSession]
  cases (tornExchanges exchanges reached).2 <;> rfl

end Reading

/-! ## Where the reader is led astray -/

section Misread

variable {x : Exchange} {rest exchanges : List Exchange} {reached : Nat}

/-- The power was lost at a place where more than the tail is lost: inside the marker behind a body,
so that its first bytes are read as part of the body; or, with another exchange to follow, where a
response that ends like a command's marker is read too short and an empty command behind it. -/
def Misread : List Exchange → Nat → Prop
  | [], _ => False
  | x :: rest, reached =>
    Stray .response x.command.bytes (reached - Marker.size) ∨
    Stray (following rest) x.response.bytes
      (reached - Marker.size - x.command.bytes.length - Marker.size) ∨
    following rest = .command ∧ Early .command x.response.bytes
      (reached - Marker.size - x.command.bytes.length - Marker.size) ∨
    Misread rest
      (reached - Marker.size - x.command.bytes.length - Marker.size - x.response.bytes.length)

instance Misread.decide : (exchanges : List Exchange) → (reached : Nat) →
    Decidable (Misread exchanges reached)
  | [], _ => .isFalse id
  | x :: rest, reached =>
    have : Decidable (Misread rest
        (reached - Marker.size - x.command.bytes.length - Marker.size - x.response.bytes.length)) :=
      Misread.decide rest _
    inferInstanceAs (Decidable (_ ∨ _ ∨ _ ∧ _ ∨ _))

/-- Not even a byte behind the first marker: nothing to be misread. -/
theorem not_misread_of_le (exchanges : List Exchange) (h : reached ≤ Marker.size) :
    ¬ Misread exchanges reached := by
  induction exchanges generalizing reached with
  | nil => exact id
  | cons x rest ih =>
    have hnone : reached - Marker.size = 0 := Nat.sub_eq_zero_of_le h
    simp only [Misread, hnone, Nat.zero_sub, not_or, not_and]
    exact ⟨not_stray_zero _ _, not_stray_zero _ _, fun _ => not_early_zero _ _,
      ih (Nat.zero_le _)⟩

theorem not_prefix_stray (body : List UInt8) {n : Nat} (hn : 0 < n) (b : UInt8) :
    ¬ body ++ List.replicate n b <+: body := by
  intro h
  have := h.length_le
  rw [List.length_append, List.length_replicate] at this
  omega

/-- What is left of the command decides, unless the marker behind it reached the store. -/
theorem cutOf_torn_command (x : Exchange) (rest : List Exchange) (hstart : Marker.size ≤ reached)
    (hpart : reached - Marker.size < x.command.bytes.length + Marker.size) :
    CutOf (x :: rest) (tornExchanges (x :: rest) reached).1 ↔ ¬ Misread (x :: rest) reached := by
  have hbehind : reached - Marker.size - x.command.bytes.length - Marker.size = 0 := by omega
  have hrest : ¬ Misread rest 0 := not_misread_of_le rest (Nat.zero_le _)
  have hmisread : Misread (x :: rest) reached ↔
      Stray .response x.command.bytes (reached - Marker.size) := by
    simp only [Misread, hbehind, not_stray_zero, not_early_zero, Nat.zero_sub, hrest, and_false,
      or_false]
  rw [hmisread]
  rcases torn_cases .response x.command.bytes (reached - Marker.size) with
    hwhole | hearly | hshort | hstray
  · omega
  · -- the command is read too short, and an empty response behind it
    obtain ⟨short, hprefix, -, htorn⟩ := tornBody_early hearly
    rw [tornExchanges_response hstart htorn (tornBody_zero _ _), cutOf_singleton]
    exact iff_of_true ⟨fun c hc => (prefix_of_mem_some hc).trans hprefix,
      fun r hr => (prefix_of_mem_some hr).trans List.nil_prefix⟩ fun h => h.2.2 hearly.2
  · obtain ⟨short, hprefix, htorn⟩ := tornBody_short hshort
    rw [tornExchanges_command hstart htorn, cutOf_singleton]
    exact iff_of_true ⟨fun c hc => (prefix_of_mem_some hc).trans hprefix, nofun⟩
      fun h => absurd hshort.1 (Nat.not_le.2 h.1)
  · rw [tornExchanges_command hstart (tornBody_stray hstray), cutOf_singleton]
    refine iff_of_false (fun h => ?_) (not_not_intro hstray)
    exact not_prefix_stray x.command.bytes (Nat.sub_pos_of_lt hstray.1) _ (h.1 _ rfl)

/-- Behind a whole command, what is left of the response and of the later exchanges decides. -/
theorem cutOf_torn_response {left : Nat} (hstart : Marker.size ≤ reached)
    (hc : tornBody .response x.command.bytes (reached - Marker.size) =
      (x.command.bytes, some (Marker.size + left)))
    (hlater : CutOf rest (tornExchanges rest (left - x.response.bytes.length)).1 ↔
      ¬ Misread rest (left - x.response.bytes.length)) :
    CutOf (x :: rest) (tornExchanges (x :: rest) reached).1 ↔
      ¬ (Stray (following rest) x.response.bytes left ∨
        following rest = .command ∧ Early .command x.response.bytes left ∨
        Misread rest (left - x.response.bytes.length)) := by
  have hresponse {read : List UInt8 × Option Nat}
      (h : tornBody (following rest) x.response.bytes left = read) :
      tornBody (following rest) x.response.bytes (Marker.size + left - Marker.size) = read := by
    rwa [Nat.add_sub_cancel_left]
  have hread {short : List UInt8} (h : short <+: x.response.bytes) :
      CutOf (x :: rest) [⟨some x.command.bytes, some short⟩] :=
    .last (fun _ => prefix_of_mem_some) (fun r hr => (prefix_of_mem_some hr).trans h)
  rcases torn_cases (following rest) x.response.bytes left with hwhole | hearly | hshort | hstray
  · have hnostray : ¬ Stray (following rest) x.response.bytes left :=
      fun h => Nat.not_le.2 h.2.1 hwhole
    have hnoearly : ¬ Early .command x.response.bytes left := fun h => Nat.not_le.2 h.1 hwhole
    rw [tornExchanges_later hstart hc (hresponse (tornBody_whole hwhole))]
    simp only [hnostray, hnoearly, and_false, false_or]
    exact cutOf_logged_cons.trans hlater
  · obtain ⟨short, hprefix, hlen, htorn⟩ := tornBody_early hearly
    have hnostray : ¬ Stray (following rest) x.response.bytes left := fun h => h.2.2 hearly.2
    rw [tornExchanges_later hstart hc (hresponse htorn)]
    cases rest with
    | nil =>
      refine iff_of_true (hread hprefix) ?_
      rintro (h | ⟨h, -⟩ | h)
      · exact hnostray h
      · exact nomatch h
      · exact h
    | cons y rest =>
      -- the marker of the next command is found, and nothing behind it
      rw [tornExchanges_command (Nat.le_refl _) (tornBody_zero _ _)]
      refine iff_of_false (fun h => ?_) (not_not_intro (.inr (.inl ⟨rfl, hearly⟩)))
      have hwritten : short = x.response.bytes := by
        simpa only [Exchange.logged, LoggedExchange.mk.injEq, Option.some.injEq, true_and] using
          h.eq_logged
      rw [hwritten] at hlen
      exact Nat.lt_irrefl _ hlen
  · obtain ⟨short, hprefix, htorn⟩ := tornBody_short hshort
    rw [tornExchanges_response hstart hc (hresponse htorn)]
    refine iff_of_true (hread hprefix) ?_
    rintro (h | ⟨hnext, h⟩ | h)
    · exact Nat.not_le.2 h.1 hshort.1
    · exact hshort.2 (hnext ▸ h.2)
    · rw [Nat.sub_eq_zero_of_le hshort.1] at h
      exact not_misread_of_le rest (Nat.zero_le _) h
  · rw [tornExchanges_response hstart hc (hresponse (tornBody_stray hstray)), cutOf_singleton]
    refine iff_of_false (fun h => ?_) (not_not_intro (.inl hstray))
    exact not_prefix_stray x.response.bytes (Nat.sub_pos_of_lt hstray.1) _ (h.2 _ rfl)

/-- **Only the tail is lost, unless the reader is led astray.** -/
theorem cutOf_tornExchanges_iff (exchanges : List Exchange) (reached : Nat) :
    CutOf exchanges (tornExchanges exchanges reached).1 ↔ ¬ Misread exchanges reached := by
  induction exchanges generalizing reached with
  | nil => exact iff_of_true (.nothing _) id
  | cons x rest ih =>
    by_cases hpart : reached < Marker.size
    · rw [tornExchanges_part x rest hpart]
      exact iff_of_true (.nothing _) (not_misread_of_le _ (Nat.le_of_lt hpart))
    have hstart : Marker.size ≤ reached := Nat.le_of_not_lt hpart
    by_cases hcommand : reached - Marker.size < x.command.bytes.length + Marker.size
    · exact cutOf_torn_command x rest hstart hcommand
    · have hnostray : ¬ Stray .response x.command.bytes (reached - Marker.size) :=
        fun h => hcommand h.2.1
      have hc : tornBody .response x.command.bytes (reached - Marker.size) =
          (x.command.bytes, some (Marker.size +
            (reached - Marker.size - x.command.bytes.length - Marker.size))) := by
        rw [tornBody_whole (Nat.le_of_not_lt hcommand), Nat.add_sub_cancel' (by omega)]
      rw [Misread, or_iff_right hnostray]
      exact cutOf_torn_response hstart hc (ih _)

end Misread

end Log

end CardTap
