import Mathlib.Data.List.DropRight
import CardTap.Proofs.Log.Misread
import CardTap.Proofs.Log.TornSession

/-!
# Records written again

Whatever the bytes of a dump are, the records that the reader finds in it can be written again, one
behind the other and without the noise that was skipped, and are then read as the same records.  Not
every row of records has this property: `Legible` names those that do (`recordsFrom_legible`), and
the reader only ever finds such rows (`legible_recordsFrom`).  A dump that ends in an application
marker without an id is left out: that marker ends the body in front of it, but is not a record.
-/

namespace CardTap.Log

/-! ## One record -/

/-- The reader, standing at a marker, reads a record, and stands inside a session or not and in
front of the rest afterwards. -/
inductive Reads : Bool → List UInt8 → Record → Bool → List UInt8 → Prop
  | application (inSession : Bool) (id : UInt8) (rest : List UInt8) :
      Reads inSession (Marker.application.bytes ++ id :: rest) (.application id) true rest
  | finish (rest : List UInt8) : Reads true (Marker.finish.bytes ++ rest) .finish false rest
  | half {r : Record} {input rest : List UInt8} (h : r.marker = .command ∨ r.marker = .response)
      (hsplit : splitBody input = (r.body, rest)) :
      Reads true (r.marker.bytes ++ input) r true rest

section OneRecord

variable {inSession s : Bool} {input rest : List UInt8} {r : Record}

theorem splitBody_suffix (input : List UInt8) : (splitBody input).2 <:+ input := by
  rw [splitBody]
  split
  · exact List.drop_suffix _ _
  · exact List.nil_suffix

/-- A record is read from its marker and what stands between that and the rest. -/
theorem Reads.split (h : Reads inSession input r s rest) :
    ∃ read, input = r.marker.bytes ++ (read ++ rest) := by
  cases h with
  | application _ id => exact ⟨[id], rfl⟩
  | finish => exact ⟨[], rfl⟩
  | @half _ input _ h hsplit =>
    obtain ⟨read, hread⟩ := splitBody_suffix input
    rw [hsplit] at hread
    exact ⟨read, by rw [hread]⟩

theorem Reads.rest_suffix (h : Reads inSession input r s rest) : rest <:+ input := by
  obtain ⟨read, rfl⟩ := h.split
  exact (List.suffix_append read rest).trans (List.suffix_append _ _)

/-- The reader skips noise and reads a record. -/
theorem reads_of_next? (h : next? inSession input = some (r, s, rest)) :
    ∃ noise found, input = noise ++ found ∧ Reads inSession found r s rest := by
  obtain ⟨⟨i, marker⟩, hfind, h⟩ := Option.bind_eq_some_iff.1 h
  obtain ⟨hwant, noise, tail, rfl, rfl⟩ := findMarker_eq_some hfind
  have htail : (noise ++ (marker.bytes ++ tail)).drop (noise.length + Marker.size) = tail := by
    rw [← List.append_assoc, ← length_bytes marker, ← List.length_append, List.drop_left]
  refine ⟨noise, _, rfl, ?_⟩
  simp only [htail] at h
  -- inside a session unless the marker is an application marker
  have hinside (hmarker : marker ≠ .application) : inSession = true := by
    simpa [wanted, hmarker] using hwant
  cases marker with
  | application =>
    cases tail with
    | nil => cases h
    | cons id tail =>
      obtain ⟨rfl, rfl, rfl⟩ : Record.application id = r ∧ true = s ∧ tail = rest := by
        simpa using h
      exact .application inSession id tail
  | finish =>
    obtain rfl := hinside (by decide)
    obtain ⟨rfl, rfl, rfl⟩ : Record.finish = r ∧ false = s ∧ tail = rest := by simpa using h
    exact .finish tail
  | command =>
    obtain rfl := hinside (by decide)
    obtain ⟨rfl, rfl, rfl⟩ : Record.command (splitBody tail).1 = r ∧ true = s ∧
      (splitBody tail).2 = rest := by simpa using h
    exact Reads.half (r := .command _) (.inl rfl) rfl
  | response =>
    obtain rfl := hinside (by decide)
    obtain ⟨rfl, rfl, rfl⟩ : Record.response (splitBody tail).1 = r ∧ true = s ∧
      (splitBody tail).2 = rest := by simpa using h
    exact Reads.half (r := .response _) (.inr rfl) rfl

end OneRecord

/-! ## Rows of records that can be read back -/

/-- A row of records that says itself where each of them ends: the last body has no marker in it and
no erased cell at its end, any other body is clean before the next marker, and what follows that
marker does not run into it. -/
inductive Legible : Bool → List Record → Prop
  | nil (inSession : Bool) : Legible inSession []
  | application (inSession : Bool) (id : UInt8) {w : List Record} (h : Legible true w) :
      Legible inSession (.application id :: w)
  | finish {w : List Record} (h : Legible false w) : Legible true (.finish :: w)
  | last {r : Record} (hhalf : r.marker = .command ∨ r.marker = .response)
      (hnone : ∀ marker : Marker, ¬ marker.bytes <:+: r.body)
      (herased : dropErased r.body = r.body) : Legible true [r]
  | half {r next : Record} {w : List Record} (hhalf : r.marker = .command ∨ r.marker = .response)
      (hclean : Clean next.marker r.body)
      (hrun : (next.body ++ w.flatMap Record.bytes).head? ≠ some next.marker.byte)
      (h : Legible true (next :: w)) : Legible true (r :: next :: w)

section Rows

variable {inSession : Bool} {w : List Record}

/-- **A legible row is read as it was written.** -/
theorem recordsFrom_legible (h : Legible inSession w) :
    recordsFrom inSession (w.flatMap Record.bytes) = w := by
  induction h with
  | nil inSession => exact recordsFrom_nil inSession
  | application inSession id _ ih =>
    rw [List.flatMap_cons, Record.bytes, List.append_assoc]
    exact (recordsFrom_application inSession id _).trans (congrArg _ ih)
  | finish _ ih =>
    rw [List.flatMap_cons, Record.bytes, List.append_assoc]
    exact (recordsFrom_finish _).trans (congrArg _ ih)
  | @last r hhalf hnone herased =>
    have hsplit : splitBody r.body = (r.body, []) := by
      rw [splitBody_of_no_marker hnone, herased]
    rw [List.flatMap_singleton, Record.bytes, recordsFrom_half_of_split hhalf hsplit,
      recordsFrom_nil]
  | @half r next w hhalf hclean hrun _ ih =>
    rw [List.flatMap_cons, Record.bytes, List.append_assoc] at ih ⊢
    rw [List.flatMap_cons, Record.bytes, List.append_assoc,
      recordsFrom_half_of_split hhalf (splitBody_whole hclean hrun), ih]

end Rows

/-! ## What the reader finds is legible -/

section Decoded

variable {next : Marker} {behind input : List UInt8} {inSession : Bool}

theorem dropErased_idem (input : List UInt8) :
    dropErased (dropErased input) = dropErased input := by
  rw [dropErased, dropErased, List.reverse_reverse, List.dropWhile_idempotent]

/-- The marker that ends a body starts the next record. -/
theorem recordsFrom_bytes (hend : ¬ Marker.application.bytes <:+ next.bytes ++ behind) :
    ∃ r w, recordsFrom true (next.bytes ++ behind) = r :: w ∧ r.marker = next := by
  cases next with
  | application =>
    cases behind with
    | nil => exact absurd (List.suffix_refl _) hend
    | cons id behind => exact ⟨_, _, recordsFrom_application true id behind, rfl⟩
  | finish => exact ⟨_, _, recordsFrom_finish behind, rfl⟩
  | command =>
    obtain ⟨r, hmarker, -, hread⟩ := recordsFrom_half (.inl rfl) behind
    exact ⟨r, _, hread, hmarker⟩
  | response =>
    obtain ⟨r, hmarker, -, hread⟩ := recordsFrom_half (.inr rfl) behind
    exact ⟨r, _, hread, hmarker⟩

/-- Outside a session only an application record can come first. -/
theorem head?_rewritten_outside (input : List UInt8) :
    ((recordsFrom false input).flatMap Record.bytes).head? ≠ some Marker.finish.byte := by
  cases hnext : next? false input with
  | none =>
    rw [recordsFrom_of_none hnext]
    exact nofun
  | some found =>
    obtain ⟨r, s, rest⟩ := found
    obtain ⟨noise, found, -, hreads⟩ := reads_of_next? hnext
    rw [recordsFrom_of_next? hnext]
    cases hreads with
    | application _ id => exact nofun

/-- A body and what follows it start, when they are written again, as they did. -/
theorem head?_rewritten_body {b : UInt8}
    (hend : ¬ Marker.application.bytes <:+ input) (hhead : input.head? ≠ some b) :
    ((splitBody input).1 ++
      (recordsFrom true (splitBody input).2).flatMap Record.bytes).head? ≠ some b := by
  rcases exists_clean_body input with hnone | ⟨body, next, behind, hclean, hrun, rfl⟩
  · rw [splitBody_of_no_marker hnone, recordsFrom_nil, List.flatMap_nil, List.append_nil]
    obtain ⟨erased, herased⟩ := dropErased_isPrefix input
    rw [← herased] at hhead
    cases hbody : dropErased input with
    | nil => exact nofun
    | cons c body => rwa [hbody] at hhead
  · obtain ⟨r, w, hread, rfl⟩ := recordsFrom_bytes fun h => hend (h.trans (List.suffix_append _ _))
    rw [splitBody_whole hclean hrun, hread, List.flatMap_cons, Record.bytes]
    cases body with
    | nil => exact hhead
    | cons c body => exact hhead

/-- What follows a marker does not run into it when it is written again if it did not before. -/
theorem head?_rewritten {r : Record} {w : List Record}
    (hend : ¬ Marker.application.bytes <:+ r.marker.bytes ++ behind)
    (hhead : behind.head? ≠ some r.marker.byte)
    (hread : recordsFrom true (r.marker.bytes ++ behind) = r :: w) :
    (r.body ++ w.flatMap Record.bytes).head? ≠ some r.marker.byte := by
  have hbehind : ¬ Marker.application.bytes <:+ behind :=
    fun h => hend (h.trans (List.suffix_append _ _))
  cases r with
  | application id =>
    cases behind with
    | nil => exact absurd (List.suffix_refl _) hend
    | cons c behind =>
      have happ := (recordsFrom_application true c behind).symm.trans hread
      obtain rfl : c = id := Record.application.inj (List.cons.inj happ).1
      exact hhead
  | finish =>
    have hfinish := (recordsFrom_finish behind).symm.trans hread
    obtain rfl := (List.cons.inj hfinish).2
    exact head?_rewritten_outside behind
  | command body =>
    have hcommand := (recordsFrom_command_split behind).symm.trans hread
    obtain ⟨hbody, rfl⟩ := List.cons.inj hcommand
    obtain rfl := Record.command.inj hbody
    exact head?_rewritten_body hbehind hhead
  | response body =>
    have hresponse := (recordsFrom_response_split behind).symm.trans hread
    obtain ⟨hbody, rfl⟩ := List.cons.inj hresponse
    obtain rfl := Record.response.inj hbody
    exact head?_rewritten_body hbehind hhead

/-- **The reader finds legible rows only.** -/
theorem legible_recordsFrom (hend : ¬ Marker.application.bytes <:+ input) :
    Legible inSession (recordsFrom inSession input) := by
  induction inSession, input using recordsFrom.induct with
  | case1 inSession input hnone =>
    rw [recordsFrom_of_none hnone]
    exact .nil inSession
  | case2 inSession input r s rest hnext ih =>
    obtain ⟨noise, found, rfl, hreads⟩ := reads_of_next? hnext
    have hfound : ¬ Marker.application.bytes <:+ found :=
      fun h => hend (h.trans (List.suffix_append _ _))
    have hrow := ih fun h => hfound (h.trans hreads.rest_suffix)
    rw [recordsFrom_of_next? hnext]
    cases hreads with
    | application _ id => exact .application inSession id hrow
    | finish => exact .finish hrow
    | @half _ tail _ hhalf hsplit =>
      rcases exists_clean_body tail with hnone | ⟨body, next, behind, hclean, hrun, rfl⟩
      · rw [splitBody_of_no_marker hnone] at hsplit
        obtain ⟨hbody, rfl⟩ := Prod.mk.inj hsplit
        rw [recordsFrom_nil]
        refine .last hhalf (fun marker hin => hnone marker ?_) ?_
        · rw [← hbody] at hin
          exact hin.trans (dropErased_isPrefix tail).isInfix
        · rw [← hbody, dropErased_idem]
      · rw [splitBody_whole hclean hrun] at hsplit
        obtain ⟨rfl, rfl⟩ := Prod.mk.inj hsplit
        have hnext : ¬ Marker.application.bytes <:+ next.bytes ++ behind := by
          intro h
          exact hfound ((h.trans (List.suffix_append _ _)).trans (List.suffix_append _ _))
        obtain ⟨a, w, hread, rfl⟩ := recordsFrom_bytes hnext
        rw [hread] at hrow ⊢
        exact .half hhalf hclean (head?_rewritten hnext hrun hread) hrow

end Decoded

/-! ## Reading, writing, reading -/

section Rewriting

/-- Every record takes a marker of the input. -/
theorem length_recordsFrom (inSession : Bool) (input : List UInt8) :
    Marker.size * (recordsFrom inSession input).length ≤ input.length := by
  induction inSession, input using recordsFrom.induct with
  | case1 inSession input hnone =>
    rw [recordsFrom_of_none hnone]
    exact Nat.zero_le _
  | case2 inSession input r s rest hnext ih =>
    obtain ⟨noise, found, rfl, hreads⟩ := reads_of_next? hnext
    obtain ⟨read, rfl⟩ := hreads.split
    rw [recordsFrom_of_next? hnext, List.length_cons, Nat.mul_succ]
    simp only [List.length_append, length_bytes]
    omega

/-- **What the reader found, written again, is read as what it found**, for every dump that does
not end in an application marker; and the reader finds no more records than there is room for
markers. -/
theorem records_rewritten {dump : List UInt8} (hend : ¬ Marker.application.bytes <:+ dump) :
    Marker.size * (records dump).length ≤ dump.length ∧
      records ((records dump).flatMap Record.bytes) = records dump :=
  ⟨length_recordsFrom false dump, recordsFrom_legible (legible_recordsFrom hend)⟩

/-- A dump with noise before the first session, an id of the marker's value, a command that its own
marker runs into and that stands before a run of the next marker, noise between two sessions, and a
last body in front of erased cells. -/
def corrupted : List UInt8 :=
  [0xCC, 0xDD, 0xDD, 0x00] ++ Marker.application.bytes ++ [0xDD, 0xBB, 0xBB] ++
    Marker.command.bytes ++ [0xCC, 0xCC, 0xAA, 0xAA] ++ Marker.response.bytes ++ [0xAA, 0x90] ++
    Marker.finish.bytes ++ [0xBB, 0xAA] ++ Marker.command.bytes ++ Marker.application.bytes ++
    [0x01] ++ Marker.response.bytes ++ [0x90, 0xFF, 0xDD, 0xDD, 0xFF, 0xFF]

/-- Six records are read of it, before and after it is rewritten. -/
theorem records_rewritten_corrupted :
    ¬ Marker.application.bytes <:+ corrupted ∧
      records corrupted = [.application 0xDD, .command [0xCC, 0xCC, 0xAA, 0xAA, 0xAA],
        .response [0x90, 0xBB], .finish, .application 0x01, .response [0x90, 0xFF, 0xDD, 0xDD]] ∧
      Marker.size * (records corrupted).length ≤ corrupted.length ∧
      records ((records corrupted).flatMap Record.bytes) = records corrupted := by
  have hend : ¬ Marker.application.bytes <:+ corrupted := by decide
  refine ⟨hend, ?_, records_rewritten hend⟩
  rw [records, recordsFrom_of_next? rfl, recordsFrom_of_next? rfl, recordsFrom_of_next? rfl,
    recordsFrom_of_next? rfl, recordsFrom_of_next? rfl, recordsFrom_of_next? rfl,
    recordsFrom_of_none rfl]
  decide

end Rewriting

end CardTap.Log
