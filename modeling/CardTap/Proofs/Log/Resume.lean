import CardTap.Proofs.Log.Rewritten

/-!
# Reading resumes behind noise

Anything may stand between two sessions.  Noise is passed over if it neither holds an application
marker nor ends like the beginning of one (`Quiet`), and no other noise is: whatever is not quiet
shows a record with some bytes behind it.  A dump that ends in an end record is read the same
whether or not more follows, since every body in it was ended by a marker inside it; only a byte of
the end marker's value right behind it would lengthen the run that the last body ends in.
-/

namespace CardTap.Log

/-! ## Noise -/

section Noise

/-- Bytes that show no application marker, whatever follows them. -/
structure Quiet (noise : List UInt8) : Prop where
  inside : ¬ Marker.application.bytes <:+: noise
  last : noise.getLast? ≠ some Marker.application.byte

variable {noise : List UInt8}

theorem Quiet.tail {b : UInt8} (h : Quiet (b :: noise)) : Quiet noise := by
  refine ⟨fun hin => h.inside (List.infix_cons hin), fun hlast => h.last ?_⟩
  cases noise with
  | nil => exact nomatch hlast
  | cons c noise => rwa [List.getLast?_cons_cons]

theorem Quiet.leading?_ne {b : UInt8} (h : Quiet (b :: noise)) (rest : List UInt8) :
    Marker.leading? (b :: noise ++ rest) ≠ some .application := by
  intro hlead
  obtain ⟨tail, htail⟩ := leading?_eq_some.1 hlead
  rcases List.append_eq_append_iff.1 htail with ⟨as, has, -⟩ | ⟨cs, hcs, -⟩
  · -- the marker would begin inside the noise and end behind it
    apply h.last
    rw [List.getLast?_eq_some_getLast (List.cons_ne_nil b noise), Option.some.injEq]
    apply eq_byte_of_mem
    rw [has]
    exact List.mem_append_left _ (List.getLast_mem _)
  · exact h.inside ⟨[], cs, hcs.symm⟩

/-- **Quiet noise is passed over.** -/
theorem recordsFrom_quiet (h : Quiet noise) (rest : List UInt8) :
    recordsFrom false (noise ++ rest) = recordsFrom false rest := by
  induction noise with
  | nil => rfl
  | cons b noise ih =>
    rw [← ih h.tail]
    exact recordsFrom_pass (h.leading?_ne rest)

/-- A wanted marker is found where it stands, or another one in front of it. -/
theorem exists_findMarker {want : Marker → Bool} {marker : Marker} (hwant : want marker = true)
    (before rest : List UInt8) :
    ∃ i m, findMarker want (before ++ (marker.bytes ++ rest)) = some (i, m) ∧
      i ≤ before.length := by
  induction before with
  | nil => exact ⟨0, marker, findMarker_bytes hwant rest, Nat.le_refl 0⟩
  | cons b before ih =>
    obtain ⟨i, m, hfind, hi⟩ := ih
    rw [List.cons_append, findMarker]
    split
    · next m' _ => exact ⟨0, m', rfl, Nat.zero_le _⟩
    · exact ⟨i + 1, m, by rw [hfind]; rfl, Nat.succ_le_succ hi⟩

/-- An application marker with a byte behind it is no noise. -/
theorem recordsFrom_application_ne_nil (before : List UInt8) (id : UInt8) (rest : List UInt8) :
    recordsFrom false (before ++ (Marker.application.bytes ++ id :: rest)) ≠ [] := by
  have hwanted : wanted false .application = true := rfl
  obtain ⟨i, m, hfind, hi⟩ := exists_findMarker hwanted before (id :: rest)
  obtain ⟨hwant, -⟩ := findMarker_eq_some hfind
  obtain rfl : m = .application := by simpa [wanted] using hwant
  cases hbehind : (before ++ (Marker.application.bytes ++ id :: rest)).drop (i + Marker.size) with
  | nil =>
    have hlen := congrArg List.length hbehind
    simp only [List.length_drop, List.length_append, length_bytes, List.length_cons,
      List.length_nil] at hlen
    omega
  | cons first behind =>
    have hnext : next? false (before ++ (Marker.application.bytes ++ id :: rest)) =
        some (.application first, true, behind) := by
      rw [next?, hfind]
      simp only [Option.bind_eq_bind, Option.bind_some, hbehind]
    rw [recordsFrom_of_next? hnext]
    exact List.cons_ne_nil _ _

/-- Bytes without a record are quiet unless they end like an application marker. -/
theorem quiet_of_no_record (h : recordsFrom false noise = [])
    (hlast : noise.getLast? ≠ some Marker.application.byte) : Quiet noise := by
  refine ⟨?_, hlast⟩
  rintro ⟨before, behind, rfl⟩
  cases behind with
  | nil =>
    apply hlast
    rw [List.append_nil, List.getLast?_append]
    rfl
  | cons id rest =>
    rw [List.append_assoc] at h
    exact recordsFrom_application_ne_nil before id rest h

/-- **Nothing but quiet noise is passed over.** -/
theorem quiet_of_passed (h : ∀ rest, records (noise ++ rest) = records rest) : Quiet noise := by
  have hquiet {rest : List UInt8} (hnone : records rest = []) (hlast : rest.getLast? = some 0) :
      Quiet (noise ++ rest) := by
    apply quiet_of_no_record ((h rest).trans hnone)
    rw [List.getLast?_append, hlast, Option.some_or]
    exact fun hzero => absurd (Option.some.inj hzero) (by decide)
  refine ⟨fun hin => ?_, fun hlast => ?_⟩
  · have hzero : Quiet (noise ++ [0]) := hquiet (recordsFrom_of_none rfl) rfl
    exact hzero.inside (hin.trans (List.infix_append' [] noise [0]))
  · -- four more bytes complete the marker
    obtain ⟨front, rfl⟩ := List.getLast?_eq_some_iff.1 hlast
    have hmore : Quiet (front ++ [Marker.application.byte] ++ [0xDD, 0xDD, 0xDD, 0xDD, 0]) :=
      hquiet (recordsFrom_of_none rfl) rfl
    apply hmore.inside
    exact ⟨front, [0], by simp [Marker.bytes, Marker.size, Marker.byte, List.replicate]⟩

end Noise

/-! ## Bytes behind a dump -/

section Behind

variable {input behind : List UInt8}

theorem leading?_append (h : Marker.size ≤ input.length) (behind : List UInt8) :
    Marker.leading? (input ++ behind) = Marker.leading? input := by
  rcases input with _ | ⟨_, _ | ⟨_, _ | ⟨_, _ | ⟨_, _ | ⟨_, _⟩⟩⟩⟩⟩
  case cons.cons.cons.cons.cons => rfl
  all_goals simp [Marker.size] at h

/-- What follows does not change the first marker. -/
theorem findMarker_append {want : Marker → Bool} {i : Nat} {marker : Marker}
    (h : findMarker want input = some (i, marker)) (behind : List UInt8) :
    findMarker want (input ++ behind) = some (i, marker) := by
  induction input generalizing i with
  | nil => exact nomatch h
  | cons b rest ih =>
    have hroom := findMarker_lt h
    have hlead := leading?_append (Nat.le_trans (Nat.le_add_left _ i) hroom) behind
    rw [List.cons_append] at hlead ⊢
    rw [findMarker] at h ⊢
    rw [hlead]
    split at h
    · exact h
    · obtain ⟨⟨j, m⟩, hj, hji⟩ := Option.map_eq_some_iff.1 h
      obtain ⟨rfl, rfl⟩ : j + 1 = i ∧ m = marker := by simpa using hji
      rw [ih hj]
      rfl

/-- A body that was ended by a marker ends there, unless the input ends in the end marker and what
follows runs on in its value. -/
theorem splitBody_extended (hfound : (splitBody input).2 ≠ [])
    (hend : [Marker.finish.byte] <:+ input) (hhead : behind.head? ≠ some Marker.finish.byte) :
    splitBody (input ++ behind) = ((splitBody input).1, (splitBody input).2 ++ behind) := by
  rcases exists_clean_body input with hnone | ⟨body, next, rest, hclean, hrun, rfl⟩
  · rw [splitBody_of_no_marker hnone] at hfound
    exact absurd rfl hfound
  · have hrun' : (rest ++ behind).head? ≠ some next.byte := by
      cases rest with
      | cons b rest => exact hrun
      | nil =>
        have hlast : [Marker.finish.byte] <:+ next.bytes := by
          rw [List.append_nil] at hend
          apply List.suffix_of_suffix_length_le hend (List.suffix_append body _)
          rw [length_bytes]
          decide
        rwa [← eq_byte_of_mem (hlast.subset List.mem_cons_self)]
    rw [splitBody_whole hclean hrun]
    simp only [List.append_assoc]
    exact splitBody_whole hclean hrun'

/-- What follows a dump that ends in the end marker's value is left to the next records. -/
theorem next?_extended {inSession s : Bool} {r : Record} {rest : List UInt8}
    (h : next? inSession input = some (r, s, rest)) (hmore : r = .finish ∨ rest ≠ [])
    (hend : [Marker.finish.byte] <:+ input) (hhead : behind.head? ≠ some Marker.finish.byte) :
    next? inSession (input ++ behind) = some (r, s, rest ++ behind) := by
  obtain ⟨⟨i, marker⟩, hfind, h⟩ := Option.bind_eq_some_iff.1 h
  have hdrop : (input ++ behind).drop (i + Marker.size) =
      input.drop (i + Marker.size) ++ behind := List.drop_append_of_le_length (findMarker_lt hfind)
  -- a body that is followed by more records ends in front of a marker
  have hsplit (hrest : (splitBody (input.drop (i + Marker.size))).2 ≠ []) :
      splitBody (input.drop (i + Marker.size) ++ behind) =
        ((splitBody (input.drop (i + Marker.size))).1,
          (splitBody (input.drop (i + Marker.size))).2 ++ behind) := by
    refine splitBody_extended hrest ?_ hhead
    refine List.suffix_of_suffix_length_le hend (List.drop_suffix _ _) ?_
    apply List.length_pos_iff.2
    intro hnil
    rw [hnil] at hrest
    exact hrest rfl
  rw [next?, findMarker_append hfind]
  simp only [Option.bind_eq_bind, Option.bind_some, hdrop]
  cases marker with
  | application =>
    cases htail : input.drop (i + Marker.size) with
    | nil => simp [htail] at h
    | cons id tail =>
      simp only [htail, Option.some.injEq, Prod.mk.injEq] at h
      obtain ⟨rfl, rfl, rfl⟩ := h
      rfl
  | finish =>
    simp only [Option.some.injEq, Prod.mk.injEq] at h
    obtain ⟨rfl, rfl, rfl⟩ := h
    rfl
  | command =>
    simp only [Option.some.injEq, Prod.mk.injEq] at h
    obtain ⟨rfl, rfl, rfl⟩ := h
    rw [hsplit (hmore.resolve_left (by simp))]
  | response =>
    simp only [Option.some.injEq, Prod.mk.injEq] at h
    obtain ⟨rfl, rfl, rfl⟩ := h
    rw [hsplit (hmore.resolve_left (by simp))]

/-- **A dump that ends in an end record is read the same whatever follows.** -/
theorem recordsFrom_extended {inSession : Bool}
    (hlast : [Record.finish] <:+ recordsFrom inSession input)
    (hend : [Marker.finish.byte] <:+ input) (hhead : behind.head? ≠ some Marker.finish.byte) :
    recordsFrom inSession (input ++ behind) =
      recordsFrom inSession input ++ recordsFrom false behind := by
  induction inSession, input using recordsFrom.induct with
  | case1 inSession input hnone =>
    rw [recordsFrom_of_none hnone] at hlast
    exact absurd (List.suffix_nil.1 hlast) (List.cons_ne_nil _ _)
  | case2 inSession input r s rest hnext ih =>
    obtain ⟨noise, found, hinput, hreads⟩ := reads_of_next? hnext
    have hrest : rest <:+ input := by
      rw [hinput]
      exact hreads.rest_suffix.trans (List.suffix_append noise found)
    have hend' (hne : rest ≠ []) : [Marker.finish.byte] <:+ rest :=
      List.suffix_of_suffix_length_le hend hrest (List.length_pos_iff.2 hne)
    rw [recordsFrom_of_next? hnext] at hlast ⊢
    cases hmore : recordsFrom s rest with
    | nil =>
      -- behind the last record there is only noise
      rw [hmore] at hlast
      obtain rfl : Record.finish = r := (List.cons.inj (hlast.eq_of_length rfl)).1
      obtain rfl : s = false := by
        cases hreads with
        | finish => rfl
        | half hhalf _ => exact absurd hhalf (by decide)
      have hquiet : Quiet rest := by
        apply quiet_of_no_record hmore
        intro happ
        have hne : rest ≠ [] := by
          rintro rfl
          cases happ
        obtain ⟨front, rfl⟩ := hend' hne
        rw [List.getLast?_concat, Option.some.injEq] at happ
        exact absurd happ (by decide)
      rw [recordsFrom_of_next? (next?_extended hnext (.inl rfl) hend hhead),
        recordsFrom_quiet hquiet]
      rfl
    | cons a w =>
      have hne : rest ≠ [] := by
        rintro rfl
        rw [recordsFrom_nil] at hmore
        cases hmore
      have hlast' : [Record.finish] <:+ recordsFrom s rest := by
        refine List.suffix_of_suffix_length_le hlast (List.suffix_cons r _) ?_
        rw [hmore]
        exact Nat.succ_pos _
      rw [recordsFrom_of_next? (next?_extended hnext (.inr hne) hend hhead),
        ih hlast' (hend' hne), ← hmore]
      rfl

end Behind

/-! ## One dump behind another -/

section Joined

/-- An end record closes the session before it, so that what follows is grouped on its own. -/
theorem group_finish (current : Option Session) (before behind : List Record) :
    group current (before ++ .finish :: behind) =
      group current (before ++ [.finish]) ++ group none behind := by
  induction before generalizing current with
  | nil => cases current <;> simp [group]
  | cons r before ih => cases r <;> cases current <;> simp [group, ih]

/-- A dump whose last record is an end record, and that ends in an end marker. -/
structure Ended (dump : List UInt8) : Prop where
  record : [Record.finish] <:+ records dump
  marker : Marker.finish.bytes <:+ dump

/-- A session that can be read back ends in its end record. -/
theorem ended_session (app : UInt8) {exchanges : List Exchange} (h : CleanSession exchanges) :
    Ended (sessionBytes app (exchanges.map Exchange.entry)) := by
  refine ⟨?_, List.suffix_append _ _⟩
  have hread := records_clean_session app h 0
  rw [List.replicate_zero, List.append_nil] at hread
  rw [hread, writtenRecords, ← List.cons_append]
  exact List.suffix_append _ _

/-- **The reader resumes behind noise.** Quiet bytes, and no others, can stand in front of any dump
without changing its records.  Between a dump that ends in an end record and another one they are
passed over as well, if no byte of the end marker's value follows that marker: records and sessions
are those of the one dump and those of the other. -/
theorem reading_resumes (noise : List UInt8) :
    (Quiet noise ↔ ∀ behind, records (noise ++ behind) = records behind) ∧
      ∀ before behind, Ended before → Quiet noise →
        (noise ++ behind).head? ≠ some Marker.finish.byte →
        records (before ++ noise ++ behind) = records before ++ records behind ∧
          sessions (before ++ noise ++ behind) = sessions before ++ sessions behind := by
  refine ⟨⟨recordsFrom_quiet, quiet_of_passed⟩, fun before behind hended hquiet hhead => ?_⟩
  have hbyte : [Marker.finish.byte] <:+ before := by
    refine List.IsSuffix.trans ?_ hended.marker
    exact List.suffix_append (List.replicate 4 Marker.finish.byte) _
  have hrecords : records (before ++ noise ++ behind) = records before ++ records behind := by
    rw [List.append_assoc, records, recordsFrom_extended hended.record hbyte hhead,
      recordsFrom_quiet hquiet]
    rfl
  refine ⟨hrecords, ?_⟩
  obtain ⟨w, hw⟩ := hended.record
  rw [sessions, sessions, sessions, hrecords, ← hw, List.append_assoc]
  exact group_finish none w _

/-- Noise that holds an end marker and a command marker and all but one byte of an application
marker, between a session whose last response ends like the end marker and one whose id is the byte
of its marker. -/
theorem reading_resumes_crowded :
    let first := sessionBytes 1 ([longExchange].map Exchange.entry)
    let noise :=
      [0xAA] ++ Marker.finish.bytes ++ Marker.command.bytes ++ [0xDD, 0xDD, 0xDD, 0xDD, 0]
    let second := sessionBytes 0xDD ([shortExchange].map Exchange.entry)
    Ended first ∧ Quiet noise ∧ (noise ++ second).head? ≠ some Marker.finish.byte ∧
      records (first ++ noise ++ second) = records first ++ records second ∧
      sessions (first ++ noise ++ second) = sessions first ++ sessions second := by
  intro first noise second
  have hended : Ended first := ended_session 1 (by decide)
  have hquiet : Quiet noise := ⟨by decide, by decide⟩
  have hhead : (noise ++ second).head? ≠ some Marker.finish.byte := by decide
  exact ⟨hended, hquiet, hhead, (reading_resumes noise).2 first second hended hquiet hhead⟩

end Joined

end CardTap.Log
