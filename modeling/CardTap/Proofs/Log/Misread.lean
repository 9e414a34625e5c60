import Mathlib.Data.Nat.Find
import CardTap.Proofs.Log.RoundTrip
import CardTap.Proofs.Log.TornBody

/-!
# What the log cannot carry

Records are told apart by their bytes alone, so some captured traffic cannot be read back: a body
that shows a marker elsewhere than in its final run of the next marker's value, and a body that
starts with the byte of the marker in front of it.  `CleanSession` excludes exactly these.  The
first body that offends is read with another length, or, if it runs into the marker in front of it,
the body before it is (`reads_otherwise`); everything in front is read as it was written.
-/

namespace CardTap

/-! ## Records as they are written -/

namespace Record

/-- The marker of a record. -/
def marker : Record → Marker
  | .application _ => .application
  | .command _ => .command
  | .response _ => .response
  | .finish => .finish

/-- What a record holds behind its marker. -/
def body : Record → List UInt8
  | .application id => [id]
  | .command body => body
  | .response body => body
  | .finish => []

/-- The bytes of a record in the log. -/
def bytes (r : Record) : List UInt8 := r.marker.bytes ++ r.body

/-- A half of an exchange: its body runs up to the next marker. -/
structure Half (r : Record) : Prop where
  marker : r.marker = .command ∨ r.marker = .response
  body : r.body ≠ []

theorem eq_of_marker_body {r r' : Record} (hmarker : r'.marker = r.marker)
    (hbody : r'.body = r.body) : r' = r := by
  cases r <;> cases r' <;> simp_all [marker, body]

end Record

namespace Log

/-- The records that a session is written as. -/
def writtenRecords (app : UInt8) (exchanges : List Exchange) : List Record :=
  .application app ::
    ((exchanges.map Exchange.logged).flatMap LoggedExchange.records ++ [.finish])

section Written

variable {exchanges : List Exchange}

theorem half_of_mem_records {x : Exchange} {r : Record} (h : r ∈ x.logged.records) : r.Half := by
  have hcases : r = .command x.command.bytes ∨ r = .response x.response.bytes := by
    simpa [LoggedExchange.records, Exchange.logged] using h
  rcases hcases with rfl | rfl
  · exact ⟨.inl rfl, List.cons_ne_nil _ _⟩
  · exact ⟨.inr rfl, List.cons_ne_nil _ _⟩

theorem half_of_mem_exchanges {r : Record}
    (h : r ∈ (exchanges.map Exchange.logged).flatMap LoggedExchange.records) : r.Half := by
  obtain ⟨y, hy, hr⟩ := List.mem_flatMap.1 h
  obtain ⟨x, -, rfl⟩ := List.mem_map.1 hy
  exact half_of_mem_records hr

theorem flatMap_bytes_records (exchanges : List Exchange) :
    ((exchanges.map Exchange.logged).flatMap LoggedExchange.records).flatMap Record.bytes =
      (exchanges.map Exchange.entry).flatMap framed := by
  induction exchanges with
  | nil => rfl
  | cons x rest ih =>
    rw [List.map_cons, List.flatMap_cons, List.flatMap_append, ih, List.map_cons, List.flatMap_cons]
    simp [LoggedExchange.records, Exchange.logged, Record.bytes, Record.marker, Record.body, framed,
      recordBytes, Exchange.entry]

theorem sessionBytes_records (app : UInt8) (exchanges : List Exchange) :
    sessionBytes app (exchanges.map Exchange.entry) =
      (writtenRecords app exchanges).flatMap Record.bytes := by
  rw [writtenRecords, List.flatMap_cons, List.flatMap_append, flatMap_bytes_records, sessionBytes]
  simp [Record.bytes, Record.marker, Record.body]

end Written

/-! ## A body that is not clean is not split off where it ends -/

section Split

variable {next : Marker} {body : List UInt8}

/-- **Only a clean body is split off where it ends.** -/
theorem length_splitBody_ne (h : ¬ Clean next body) (rest : List UInt8) :
    (splitBody (body ++ (next.bytes ++ rest))).1.length ≠ body.length := by
  intro hlen
  rcases exists_clean_body (body ++ (next.bytes ++ rest)) with
    hnone | ⟨found, ending, behind, hclean, hhead, heq⟩
  · exact hnone next ⟨body, rest, List.append_assoc ..⟩
  · rw [heq, splitBody_whole hclean hhead] at hlen
    obtain ⟨rfl, hending⟩ := List.append_inj heq hlen.symm
    have hbyte : next.byte = ending.byte := (List.cons.inj hending).1
    exact h (byte_injective hbyte ▸ hclean)

end Split

/-! ## Offences -/

section Offences

variable {first i : Nat} {r : Record} {w : List Record}

/-- The record in this place cannot be read back: its body is not clean before the next marker, or,
in a place behind `first`, it starts with the byte of its own marker. -/
def Offends (first : Nat) (w : List Record) (i : Nat) : Prop :=
  ∃ r ∈ w[i]?, ∃ next ∈ w[i + 1]?,
    ¬ Clean next.marker r.body ∨ first < i ∧ r.body.head? = some r.marker.byte

instance (first : Nat) (w : List Record) (i : Nat) : Decidable (Offends first w i) :=
  inferInstanceAs (Decidable (∃ r ∈ w[i]?, ∃ next ∈ w[i + 1]?, _))

/-- The first place that cannot be read back. -/
structure FirstOffence (first : Nat) (w : List Record) (i : Nat) : Prop where
  offends : Offends first w i
  least : ∀ j < i, ¬ Offends first w j

theorem exists_firstOffence (h : ∃ i, Offends first w i) : ∃ i, FirstOffence first w i :=
  ⟨Nat.find h, Nat.find_spec h, fun _ => Nat.find_min h⟩

theorem FirstOffence.unique {j : Nat} (hi : FirstOffence first w i) (hj : FirstOffence first w j) :
    i = j :=
  Nat.le_antisymm (Nat.le_of_not_lt fun h => hi.least j h hj.offends)
    (Nat.le_of_not_lt fun h => hj.least i h hi.offends)

theorem Offends.lt_length (h : Offends first w i) : i + 1 < w.length := by
  obtain ⟨-, -, next, hnext, -⟩ := h
  exact (List.getElem?_eq_some_iff.1 hnext).1

theorem offends_cons_succ : Offends (first + 1) (r :: w) (i + 1) ↔ Offends first w i := by
  simp [Offends]

theorem Offends.cons (h : Offends 0 w i) (r : Record) : Offends 0 (r :: w) (i + 1) := by
  obtain ⟨a, ha, next, hnext, hoffence⟩ := h
  exact ⟨a, ha, next, hnext, hoffence.imp_right fun hhead => ⟨Nat.succ_pos i, hhead.2⟩⟩

/-- Behind a record that the next one does not run into, the offences are those of the rest. -/
theorem Offends.of_cons {next : Record} (h : Offends 0 (r :: next :: w) (i + 1))
    (hhead : next.body.head? ≠ some next.marker.byte) : Offends 0 (next :: w) i := by
  obtain ⟨a, ha, b, hb, hoffence⟩ := h
  refine ⟨a, ha, b, hb, hoffence.imp_right fun hrun => ?_⟩
  cases i with
  | zero =>
    obtain rfl : next = a := Option.some.inj ha
    exact absurd hrun.2 hhead
  | succ i => exact ⟨Nat.succ_pos i, hrun.2⟩

theorem of_not_offends {next : Record} (h : ¬ Offends first w i) (hr : w[i]? = some r)
    (hnext : w[i + 1]? = some next) :
    Clean next.marker r.body ∧ (first < i → r.body.head? ≠ some r.marker.byte) := by
  constructor
  · by_contra hclean
    exact h ⟨r, hr, next, hnext, .inl hclean⟩
  · exact fun hi hhead => h ⟨r, hr, next, hnext, .inr ⟨hi, hhead⟩⟩

section First

variable {next : Record}

theorem FirstOffence.eq_zero_of_not_clean (h : FirstOffence 0 (r :: next :: w) i)
    (hclean : ¬ Clean next.marker r.body) : i = 0 := by
  by_contra hpos
  exact h.least 0 (Nat.pos_of_ne_zero hpos) ⟨r, rfl, next, rfl, .inl hclean⟩

theorem FirstOffence.ne_zero (h : FirstOffence 0 (r :: next :: w) i)
    (hclean : Clean next.marker r.body) : i ≠ 0 := by
  rintro rfl
  obtain ⟨a, ha, b, hb, hoffence⟩ := h.offends
  obtain rfl : r = a := Option.some.inj ha
  obtain rfl : next = b := Option.some.inj hb
  exact hoffence.elim (absurd hclean) fun hrun => Nat.lt_irrefl 0 hrun.1

/-- A record that runs into its own marker offends, so there is no first offence behind it. -/
theorem FirstOffence.eq_zero_of_head? (h : FirstOffence 0 (r :: next :: w) (i + 1))
    (hhead : next.body.head? = some next.marker.byte) : i = 0 := by
  have hlen := h.offends.lt_length
  cases i with
  | zero => rfl
  | succ i =>
    obtain ⟨b, w, rfl⟩ : ∃ b w', w = b :: w' := by
      refine List.exists_cons_of_ne_nil fun hnil => ?_
      simp only [hnil, List.length_cons, List.length_nil] at hlen
      omega
    exact absurd ⟨next, rfl, b, rfl, .inr ⟨Nat.one_pos, hhead⟩⟩ (h.least 1 (by omega))

theorem FirstOffence.tail (h : FirstOffence 0 (r :: next :: w) (i + 1))
    (hhead : next.body.head? ≠ some next.marker.byte) : FirstOffence 0 (next :: w) i :=
  ⟨h.offends.of_cons hhead, fun j hj hoffends => h.least (j + 1) (by omega) (hoffends.cons r)⟩

end First

/-- Two rows of records agree up to a place where both hold a record of one kind, the bodies of
which have different lengths. -/
structure MisreadAt (written found : List Record) (k : Nat) : Prop where
  before : found.take k = written.take k
  differs : ∃ r ∈ written[k]?, ∃ r' ∈ found[k]?,
    r'.marker = r.marker ∧ r'.body.length ≠ r.body.length

theorem MisreadAt.ne {written found : List Record} {k : Nat} (h : MisreadAt written found k) :
    found ≠ written := by
  rintro rfl
  obtain ⟨r, hr, r', hr', -, hlen⟩ := h.differs
  obtain rfl : r = r' := Option.some.inj (hr.symm.trans hr')
  exact hlen rfl

theorem MisreadAt.cons {written found : List Record} {k : Nat} (h : MisreadAt written found k)
    (r : Record) : MisreadAt (r :: written) (r :: found) (k + 1) :=
  ⟨congrArg (r :: ·) h.before, h.differs⟩

end Offences

/-! ## Reading up to the first offence -/

section Reading

variable {r next : Record}

theorem recordsFrom_half {marker : Marker} (h : marker = .command ∨ marker = .response)
    (input : List UInt8) :
    ∃ r : Record, r.marker = marker ∧ r.body = (splitBody input).1 ∧
      recordsFrom true (marker.bytes ++ input) = r :: recordsFrom true (splitBody input).2 := by
  rcases h with rfl | rfl
  · exact ⟨.command _, rfl, rfl, recordsFrom_command_split input⟩
  · exact ⟨.response _, rfl, rfl, recordsFrom_response_split input⟩

theorem recordsFrom_half_of_split (h : r.marker = .command ∨ r.marker = .response)
    {input rest : List UInt8} (hsplit : splitBody input = (r.body, rest)) :
    recordsFrom true (r.marker.bytes ++ input) = r :: recordsFrom true rest := by
  obtain ⟨r', hmarker, hbody, hread⟩ := recordsFrom_half h input
  rw [hsplit] at hbody hread
  rw [hread, Record.eq_of_marker_body hmarker hbody]

/-- A record of which the body is read with another length. -/
theorem misreadAt_zero (h : r.Half) {input : List UInt8} (w : List Record)
    (hlen : (splitBody input).1.length ≠ r.body.length) :
    MisreadAt (r :: w) (recordsFrom true (r.marker.bytes ++ input)) 0 := by
  obtain ⟨r', hmarker, hbody, hread⟩ := recordsFrom_half h.marker input
  rw [hread]
  exact ⟨rfl, r, rfl, r', rfl, hmarker, hbody ▸ hlen⟩

/-- A body grows by the bytes of the next marker's value that follow that marker. -/
theorem misreadAt_of_head? (h : r.Half) (hclean : Clean next.marker r.body)
    (hhead : next.body.head? = some next.marker.byte) (w : List Record) (rest : List UInt8) :
    MisreadAt (r :: w) (recordsFrom true (r.bytes ++ (next.bytes ++ rest))) 0 := by
  obtain ⟨tail, htail⟩ := List.head?_eq_some_iff.1 hhead
  rw [Record.bytes, Record.bytes, List.append_assoc, List.append_assoc]
  refine misreadAt_zero h w ?_
  rw [splitBody_append hclean, htail, List.cons_append, List.takeWhile_cons,
    if_pos (beq_self_eq_true _)]
  simp

/-- A clean body is read as it was written if what follows does not run into the next marker. -/
theorem recordsFrom_half_clean (h : r.Half) (hclean : Clean next.marker r.body) (hnext : next.Half)
    (hhead : next.body.head? ≠ some next.marker.byte) (rest : List UInt8) :
    recordsFrom true (r.bytes ++ (next.bytes ++ rest)) =
      r :: recordsFrom true (next.bytes ++ rest) := by
  have hrun : (next.body ++ rest).head? ≠ some next.marker.byte := by
    obtain ⟨b, body, hbody⟩ := List.exists_cons_of_ne_nil hnext.body
    rwa [hbody] at hhead ⊢
  rw [Record.bytes, Record.bytes, List.append_assoc, List.append_assoc]
  exact recordsFrom_half_of_split h.marker (splitBody_whole hclean hrun)

/-- The reader goes wrong at the first offence or right before it. -/
theorem reads_otherwise {halves : List Record} (hhalves : ∀ r ∈ halves, r.Half) (rest : List UInt8)
    {i : Nat} (h : FirstOffence 0 (halves ++ [Record.finish]) i) :
    ∃ k, (k = i ∨ k + 1 = i) ∧ MisreadAt (halves ++ [Record.finish])
      (recordsFrom true ((halves ++ [Record.finish]).flatMap Record.bytes ++ rest)) k := by
  induction halves generalizing i with
  | nil => exact absurd h.offends.lt_length (by simp)
  | cons r halves ih =>
    obtain ⟨next, w, hw⟩ : ∃ next w, halves ++ [Record.finish] = next :: w :=
      List.exists_cons_of_ne_nil (by simp)
    have hr : r.Half := hhalves r List.mem_cons_self
    have hbytes : (r :: next :: w).flatMap Record.bytes ++ rest =
        r.bytes ++ (next.bytes ++ (w.flatMap Record.bytes ++ rest)) := by
      simp only [List.flatMap_cons, List.append_assoc]
    rw [List.cons_append, hw] at h ⊢
    rw [hbytes]
    by_cases hclean : Clean next.marker r.body
    · obtain ⟨i, rfl⟩ := Nat.exists_eq_succ_of_ne_zero (h.ne_zero hclean)
      by_cases hhead : next.body.head? = some next.marker.byte
      · have hi := h.eq_zero_of_head? hhead
        exact ⟨0, .inr (by omega), misreadAt_of_head? hr hclean hhead _ _⟩
      · have hnext : next.Half := by
          have hlen := h.offends.lt_length
          cases halves with
          | nil =>
            obtain ⟨-, rfl⟩ : Record.finish = next ∧ [] = w := by simpa using hw
            simp only [List.length_cons, List.length_nil] at hlen
            omega
          | cons a halves =>
            obtain ⟨rfl, -⟩ := List.cons.inj hw
            exact hhalves _ (List.mem_cons_of_mem _ List.mem_cons_self)
        obtain ⟨k, hk, hmisread⟩ := ih (fun a ha => hhalves a (List.mem_cons_of_mem r ha))
          (hw ▸ h.tail hhead)
        rw [hw, List.flatMap_cons, List.append_assoc] at hmisread
        rw [recordsFrom_half_clean hr hclean hnext hhead]
        exact ⟨k + 1, by omega, hmisread.cons r⟩
    · rw [Record.bytes, Record.bytes, List.append_assoc, List.append_assoc]
      exact ⟨0, .inl (h.eq_zero_of_not_clean hclean).symm,
        misreadAt_zero hr _ (length_splitBody_ne hclean _)⟩

end Reading

/-! ## What a flush writes is read back exactly if it is clean -/

section Flush

open CardTap.Run CardTap.Bench CardTap.Bench.Memory

variable {app : UInt8} {exchanges : List Exchange}

/-- A whole session goes wrong at its first offence or right before it, whatever stands behind. -/
theorem session_reads_otherwise {i : Nat} (h : FirstOffence 1 (writtenRecords app exchanges) i)
    (rest : List UInt8) :
    ∃ k, (k = i ∨ k + 1 = i) ∧ MisreadAt (writtenRecords app exchanges)
      (records (sessionBytes app (exchanges.map Exchange.entry) ++ rest)) k := by
  cases i with
  | zero =>
    obtain ⟨r, hr, next, -, hoffence⟩ := h.offends
    obtain rfl : Record.application app = r := Option.some.inj hr
    have hclean : Clean next.marker [app] :=
      clean_cons.2 ⟨fun hlead => absurd hlead Bool.false_ne_true, clean_nil _⟩
    exact hoffence.elim (absurd hclean) fun hrun => absurd hrun.1 (by decide)
  | succ i =>
    obtain ⟨k, hk, hmisread⟩ := reads_otherwise (fun r => half_of_mem_exchanges) rest
      ⟨offends_cons_succ.1 h.offends,
        fun j hj hoffends => h.least (j + 1) (by omega) (offends_cons_succ.2 hoffends)⟩
    refine ⟨k + 1, by omega, ?_⟩
    rw [sessionBytes_records, writtenRecords, List.flatMap_cons, List.append_assoc, Record.bytes,
      Record.marker, Record.body, List.append_assoc, List.singleton_append, records,
      recordsFrom_application]
    exact hmisread.cons _

/-- A session without an offence is clean. -/
theorem cleanSession_of_not_offends (h : ∀ i, ¬ Offends 0
      ((exchanges.map Exchange.logged).flatMap LoggedExchange.records ++ [Record.finish]) i) :
    CleanSession exchanges := by
  induction exchanges with
  | nil => trivial
  | cons x rest ih =>
    obtain ⟨hcommand, -⟩ := of_not_offends (h 0) rfl rfl
    cases rest with
    | nil =>
      obtain ⟨hresponse, hstatus⟩ := of_not_offends (h 1) rfl rfl
      exact ⟨hcommand, fun heq => hstatus Nat.one_pos (congrArg some heq), hresponse⟩
    | cons y rest =>
      obtain ⟨hresponse, hstatus⟩ := of_not_offends (h 1) rfl rfl
      obtain ⟨-, hclass⟩ := of_not_offends (h 2) rfl rfl
      refine ⟨⟨hcommand, fun heq => hstatus Nat.one_pos (congrArg some heq), hresponse⟩,
        fun heq => hclass Nat.two_pos (congrArg some heq), ih fun i hi => ?_⟩
      exact h (i + 2) ((hi.cons _).cons _)

theorem exists_offends_of_not_clean (app : UInt8) (h : ¬ CleanSession exchanges) :
    ∃ i, Offends 1 (writtenRecords app exchanges) i := by
  by_contra hnone
  exact h (cleanSession_of_not_offends fun i hi => hnone ⟨i + 1, offends_cons_succ.2 hi⟩)

/-- A clean session in front of erased cells is read as it was written. -/
theorem records_clean_session (app : UInt8) (hclean : CleanSession exchanges) (n : Nat) :
    records (sessionBytes app (exchanges.map Exchange.entry) ++ List.replicate n 0xFF) =
      writtenRecords app exchanges := by
  have hbytes : sessionBytes app (exchanges.map Exchange.entry) ++ List.replicate n 0xFF =
      Marker.application.bytes ++ app :: ((exchanges.map Exchange.entry).flatMap framed ++
        (Marker.finish.bytes ++ List.replicate n 0xFF)) := by
    simp only [sessionBytes, List.append_assoc, List.cons_append, List.nil_append]
  have hhead : (List.replicate n 0xFF).head? ≠ some Marker.finish.byte := by
    have herased : (List.replicate n (0xFF : UInt8) ++ []).head? ≠ some Marker.finish.byte :=
      head?_erased_append_ne fun _ => rfl
    rwa [List.append_nil] at herased
  have hnothing : recordsFrom false (List.replicate n 0xFF) = [] := by
    have hquiet : ∀ b ∈ List.replicate n (0xFF : UInt8), b ≠ Marker.application.byte := by
      intro b hb
      rw [List.eq_of_mem_replicate hb]
      decide
    have hskip := recordsFrom_skip_all hquiet []
    rw [List.append_nil] at hskip
    rw [hskip, recordsFrom_of_none rfl]
  rw [records, hbytes, recordsFrom_application, recordsFrom_exchanges hclean,
    takeWhile_eq_nil_of_head?_ne hhead, loggedWith_nil, hnothing, writtenRecords]

/-- The log from the start of a flush that writes exchanges: its session, and behind it what stood
there before. -/
theorem slice_session {m m' : Memory} (hpower : m.budget = none) (xs : List Exchange) (app : UInt8)
    (hm' : m'.settled = (m.programmedAll (flushWrites m (xs.map Exchange.entry) app)).settled)
    (hwritten : 1 ≤ takenCount (startOf m.persistedCursor) (xs.map Exchange.entry)) :
    ∃ n, m'.slice (startOf m.persistedCursor) Layout.logEnd =
      sessionBytes app ((xs.take (takenCount (startOf m.persistedCursor)
        (xs.map Exchange.entry))).map Exchange.entry) ++
          (m.slice (startOf m.persistedCursor) Layout.logEnd).drop n := by
  have hopen : opens (startOf m.persistedCursor) (xs.map Exchange.entry) := by
    by_contra hclosed
    rw [takenCount, if_neg hclosed] at hwritten
    exact absurd hwritten (by decide)
  have hlog := slice_flushWrites (m := m) (xs.map Exchange.entry) app
  simp only [hpower, landing] at hlog
  refine ⟨(plannedBytes (startOf m.persistedCursor) (xs.map Exchange.entry) app).length, ?_⟩
  rw [slice_congr _ fun i _ _ => cell?_of_settled hm' i, hlog, drop_slice,
    plannedBytes_opens app hopen, ← List.map_take]

/-- **The log carries clean sessions and no others.** If a flush writes exchanges that are not
clean, the cells from its start on are not read as the records that were written, whatever else they
hold: the first body that offends, or the one before it, is read with another length.  Clean
exchanges on erased cells are read back. -/
theorem misread_unless_clean {m : Memory} (hpower : m.budget = none) (buffer : Buffer Exchange)
    (app : UInt8) :
    let r := planned m.persistedCursor (buffer.items.map Exchange.entry) app
    ∃ m', (flush (eeprom cellCount) Exchange.entry buffer app).Returns m ⟨.ok r, .empty⟩ m' ∧
      (1 ≤ r.written →
        let exchanges := buffer.items.take r.written
        let written := writtenRecords app exchanges
        let found := records (m'.slice r.start Layout.logEnd)
        (¬ CleanSession exchanges → found ≠ written ∧
          ∃ i k, FirstOffence 1 written i ∧ (k = i ∨ k + 1 = i) ∧ MisreadAt written found k) ∧
        (CleanSession exchanges →
          (∀ i, r.start ≤ i → i < Layout.logEnd → m.cell? i = some 0xFF) → found = written)) := by
  intro r
  obtain ⟨m', hrun, hm'⟩ := flush_returns (show Layout.logEnd ≤ cellCount by decide)
    (Nat.le_refl _) Exchange.entry buffer app m
  refine ⟨m', hrun, fun hwritten => ?_⟩
  intro exchanges written found
  obtain ⟨n, hslice⟩ := slice_session hpower buffer.items app hm' hwritten
  have hfound : found = records (sessionBytes app (exchanges.map Exchange.entry) ++
      (m.slice r.start Layout.logEnd).drop n) := congrArg records hslice
  rw [hfound]
  refine ⟨fun hunclean => ?_, fun hclean herased => ?_⟩
  · obtain ⟨i, hi⟩ := exists_firstOffence (exists_offends_of_not_clean app hunclean)
    obtain ⟨k, hk, hmisread⟩ := session_reads_otherwise hi _
    exact ⟨hmisread.ne, i, k, hi, hk, hmisread⟩
  · rw [slice_eq_replicate m herased, List.drop_replicate]
    exact records_clean_session app hclean _

/-- A response that starts with the byte of its own marker. -/
def sameStart : Exchange := { shortExchange with response.sw1 := 0xAA }

/-- The response, or the command in front of it, is read with another length. -/
theorem misread_sameStart :
    ∃ m', (flush (eeprom cellCount) Exchange.entry ⟨[sameStart], by decide⟩ 1).Returns {}
        ⟨.ok ⟨0x80, 0xA0, 1, 0, 0⟩, .empty⟩ m' ∧
      ∃ k, (k = 2 ∨ k + 1 = 2) ∧
        MisreadAt (writtenRecords 1 [sameStart]) (records (m'.slice 0x80 Layout.logEnd)) k := by
  obtain ⟨m', hrun, hread⟩ := misread_unless_clean (m := {}) rfl ⟨[sameStart], by decide⟩ 1
  have hreport : planned ({} : Memory).persistedCursor ([sameStart].map Exchange.entry) 1 =
      ⟨0x80, 0xA0, 1, 0, 0⟩ := by
    rw [blank_default.persistedCursor_eq]
    decide
  rw [hreport] at hrun hread
  obtain ⟨-, i, k, hi, hk, hmisread⟩ := (hread (Nat.le_refl 1)).1 (by decide)
  have hsecond : FirstOffence 1 (writtenRecords 1 [sameStart]) 2 := ⟨by decide, by decide⟩
  obtain rfl : i = 2 := hi.unique hsecond
  exact ⟨m', hrun, k, hk, hmisread⟩

end Flush

end Log

end CardTap
