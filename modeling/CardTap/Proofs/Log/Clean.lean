import CardTap.Log.Record

/-!
# Where a body ends

Records carry no length: a body ends where the reader finds the next marker, five equal bytes, and
body bytes of that marker's value that run into it stay with the body.  So a body is read back whole
if it shows no other marker (`Clean`).  What follows the marker matters as well: bytes of its value
right behind it look like the marker itself, and the same number of bytes is counted to the body
(`splitBody_append`).  Any bytes with a marker in them start with a clean body and the marker that
ends it (`exists_clean_body`).
-/

namespace CardTap.Log

/-! ## Markers -/

section Markers

variable {marker next : Marker} {want : Marker → Bool}

theorem ofByte?_eq_some {b : UInt8} : Marker.ofByte? b = some marker ↔ b = marker.byte := by
  constructor
  · intro h
    unfold Marker.ofByte? at h
    repeat' split at h
    all_goals first | (obtain rfl := Option.some.inj h; assumption) | exact nomatch h
  · rintro rfl
    cases marker <;> rfl

theorem leading?_eq_some {input : List UInt8} :
    Marker.leading? input = some marker ↔ ∃ rest, input = marker.bytes ++ rest := by
  constructor
  · intro h
    unfold Marker.leading? at h
    split at h
    · next a b c d e rest =>
      split at h
      · next heq =>
        obtain ⟨rfl, rfl, rfl, rfl⟩ := heq
        obtain rfl := ofByte?_eq_some.1 h
        exact ⟨rest, rfl⟩
      · exact nomatch h
    · exact nomatch h
  · rintro ⟨rest, rfl⟩
    have hbyte : Marker.ofByte? marker.byte = some marker := ofByte?_eq_some.2 rfl
    simp [Marker.leading?, Marker.bytes, Marker.size, List.replicate, hbyte]

theorem leading?_append_eq_none {input behind : List UInt8}
    (h : Marker.leading? (input ++ behind) = none) : Marker.leading? input = none := by
  rw [Option.eq_none_iff_forall_ne_some] at h ⊢
  intro marker hmarker
  obtain ⟨tail, rfl⟩ := leading?_eq_some.1 hmarker
  exact h marker (leading?_eq_some.2 ⟨tail ++ behind, List.append_assoc ..⟩)

theorem eq_byte_of_mem {b : UInt8} (h : b ∈ marker.bytes) : b = marker.byte :=
  List.eq_of_mem_replicate h

theorem byte_injective (h : marker.byte = next.byte) : marker = next := by
  have hmarker : Marker.ofByte? marker.byte = some marker := ofByte?_eq_some.2 rfl
  rw [h, ofByte?_eq_some.2 rfl] at hmarker
  exact (Option.some.inj hmarker).symm

theorem eq_of_mem_takeWhile {b c : UInt8} {input : List UInt8}
    (h : b ∈ input.takeWhile (· == c)) : b = c :=
  beq_iff_eq.1 (List.all_eq_true.1 List.all_takeWhile b h)

theorem takeWhile_eq_nil_of_head?_ne {c : UInt8} {input : List UInt8} (h : input.head? ≠ some c) :
    input.takeWhile (· == c) = [] := by
  cases input with
  | nil => rfl
  | cons b rest =>
    have hb : ¬ (b == c) = true := fun hb => h (by rw [eq_of_beq hb]; rfl)
    exact List.takeWhile_cons_of_neg hb

theorem bytes_append_replicate (marker : Marker) (n : Nat) :
    marker.bytes ++ List.replicate n marker.byte =
      List.replicate n marker.byte ++ marker.bytes := by
  rw [Marker.bytes, List.replicate_append_replicate, List.replicate_append_replicate, Nat.add_comm]

theorem findMarker_bytes (hwant : want marker = true) (rest : List UInt8) :
    findMarker want (marker.bytes ++ rest) = some (0, marker) := by
  have hlead : Marker.leading? (marker.bytes ++ rest) = some marker :=
    leading?_eq_some.2 ⟨rest, rfl⟩
  have hhead : marker.bytes ++ rest = marker.byte :: (List.replicate 4 marker.byte ++ rest) := rfl
  rw [hhead] at hlead ⊢
  rw [findMarker, hlead, Option.filter_some, if_pos hwant]

theorem findMarker_cons {b : UInt8} {rest : List UInt8}
    (h : (Marker.leading? (b :: rest)).filter want = none) :
    findMarker want (b :: rest) = (findMarker want rest).map fun (i, m) => (i + 1, m) := by
  rw [findMarker, h]

theorem findMarker_eq_some {input : List UInt8} {i : Nat}
    (h : findMarker want input = some (i, marker)) :
    want marker = true ∧
      ∃ noise rest, input = noise ++ (marker.bytes ++ rest) ∧ noise.length = i := by
  induction input generalizing i with
  | nil => exact nomatch h
  | cons b rest ih =>
    rw [findMarker] at h
    split at h
    · next m hm =>
      obtain ⟨rfl, rfl⟩ : 0 = i ∧ m = marker := by simpa using h
      obtain ⟨hlead, hwant⟩ := Option.filter_eq_some_iff.1 hm
      obtain ⟨tail, htail⟩ := leading?_eq_some.1 hlead
      exact ⟨hwant, [], tail, htail, rfl⟩
    · obtain ⟨⟨j, m⟩, hj, hji⟩ := Option.map_eq_some_iff.1 h
      obtain ⟨rfl, rfl⟩ : j + 1 = i ∧ m = marker := by simpa using hji
      obtain ⟨hwant, noise, tail, rfl, rfl⟩ := ih hj
      exact ⟨hwant, b :: noise, tail, rfl, rfl⟩

/-- At the place of a marker the first byte is repeated at least five times. -/
theorem size_le_leadingRun {input : List UInt8} {i : Nat}
    (h : findMarker want input = some (i, marker)) : Marker.size ≤ leadingRun (input.drop i) := by
  obtain ⟨-, noise, rest, rfl, rfl⟩ := findMarker_eq_some h
  rw [List.drop_left]
  simp [leadingRun, Marker.bytes, Marker.size, List.replicate]

theorem bodyLength_cons {b : UInt8} {rest : List UInt8} (h : Marker.leading? (b :: rest) = none) :
    bodyLength (b :: rest) = (bodyLength rest).map (· + 1) := by
  unfold bodyLength
  rw [findMarker_cons (by rw [h]; rfl)]
  cases hfind : findMarker (fun _ => true) rest with
  | none => rfl
  | some found =>
    have hrun := size_le_leadingRun hfind
    simp only [Option.map_some, Option.bind_eq_bind, Option.bind_some, Option.pure_def,
      List.drop_succ_cons, Option.some.injEq]
    omega

/-- Bytes of a marker's value behind it count as much as in front of it. -/
theorem bodyLength_replicate (next : Marker) (n : Nat) (rest : List UInt8) :
    bodyLength (List.replicate n next.byte ++ (next.bytes ++ rest)) =
      some (n + (rest.takeWhile (· == next.byte)).length) := by
  have hrun : leadingRun (next.bytes ++ (List.replicate n next.byte ++ rest)) =
      Marker.size + n + (rest.takeWhile (· == next.byte)).length := by
    show ((List.replicate 4 next.byte ++ (List.replicate n next.byte ++ rest)).takeWhile
      (· == next.byte)).length + 1 = _
    rw [List.takeWhile_append_of_pos (by simp), List.takeWhile_append_of_pos (by simp)]
    simp only [List.length_append, List.length_replicate, Marker.size]
    omega
  rw [← List.append_assoc, ← bytes_append_replicate, List.append_assoc, bodyLength,
    findMarker_bytes rfl]
  simp only [Option.bind_eq_bind, Option.bind_some, Option.pure_def, List.drop_zero, hrun,
    Option.some.injEq]
  omega

end Markers

/-! ## Clean bodies -/

section Clean

variable {next : Marker} {body rest : List UInt8}

/-- A body that the marker `next` ends shows markers in its final run of that marker's value only:
five equal marker bytes inside it are of that value, and so is everything behind them. -/
def Clean (next : Marker) (body : List UInt8) : Prop :=
  ∀ (before : List UInt8) (marker : Marker) (behind : List UInt8),
    body = before ++ marker.bytes ++ behind → marker = next ∧ ∀ b ∈ behind, b = next.byte

theorem clean_nil (next : Marker) : Clean next [] := by
  intro before marker behind h
  simp [Marker.bytes, Marker.size] at h

/-- A body is clean if its tail is and a marker at its front makes the whole body one run. -/
theorem clean_cons {b : UInt8} :
    Clean next (b :: body) ↔
      ((Marker.leading? (b :: body)).isSome → ∀ c ∈ b :: body, c = next.byte) ∧
        Clean next body := by
  constructor
  · intro h
    refine ⟨fun hlead c hc => ?_, fun before marker behind heq => ?_⟩
    · obtain ⟨marker, hmarker⟩ := Option.isSome_iff_exists.1 hlead
      obtain ⟨behind, heq⟩ := leading?_eq_some.1 hmarker
      obtain ⟨rfl, hbehind⟩ := h [] marker behind heq
      rw [heq] at hc
      exact (List.mem_append.1 hc).elim eq_byte_of_mem (hbehind c)
    · exact h (b :: before) marker behind (by rw [heq]; rfl)
  · rintro ⟨hfront, htail⟩ before marker behind heq
    cases before with
    | nil =>
      have hlead : (Marker.leading? (b :: body)).isSome :=
        Option.isSome_iff_exists.2 ⟨marker, leading?_eq_some.2 ⟨behind, heq⟩⟩
      have hall := hfront hlead
      rw [heq] at hall
      refine ⟨byte_injective ?_, fun c hc => hall c (List.mem_append_right _ hc)⟩
      exact hall marker.byte (List.mem_append_left _ (List.mem_cons_self ..))
    | cons _ before =>
      obtain ⟨rfl, rfl⟩ := List.cons.inj heq
      exact htail before marker behind rfl

theorem clean_of_forall_eq (h : ∀ b ∈ body, b = next.byte) : Clean next body := by
  intro before marker behind hbody
  have hmarker : marker.byte = next.byte :=
    h _ (by rw [hbody]; simp [Marker.bytes, Marker.size])
  exact ⟨byte_injective hmarker, fun b hb => h b (hbody ▸ List.mem_append_right _ hb)⟩

instance Clean.decide : (next : Marker) → (body : List UInt8) → Decidable (Clean next body)
  | next, [] => .isTrue (clean_nil next)
  | next, b :: body =>
    have : Decidable (Clean next body) := Clean.decide next body
    decidable_of_iff' _ (clean_cons : Clean next (b :: body) ↔ _)

/-- A marker that is found inside a clean body before its end runs up to the end marker. -/
theorem Clean.eq_byte_of_leading (h : Clean next body)
    (hlead : (Marker.leading? (body ++ (next.bytes ++ rest))).isSome) :
    ∀ b ∈ body, b = next.byte := by
  obtain ⟨marker, hmarker⟩ := Option.isSome_iff_exists.1 hlead
  obtain ⟨behind, heq⟩ := leading?_eq_some.1 hmarker
  have hinside {cs : List UInt8} (hbody : body = marker.bytes ++ cs) :
      ∀ b ∈ body, b = next.byte := by
    obtain ⟨rfl, hcs⟩ := h [] marker cs hbody
    intro b hb
    rw [hbody] at hb
    exact (List.mem_append.1 hb).elim eq_byte_of_mem (hcs b)
  rcases List.append_eq_append_iff.1 heq with ⟨as, has, has'⟩ | ⟨cs, hcs, -⟩
  · cases as with
    | nil =>
      exact hinside
        (show body = marker.bytes ++ [] by rw [has, List.append_nil, List.append_nil])
    | cons a as =>
      -- the marker straddles the end of the body, so both markers have the same byte
      have ha : a = marker.byte :=
        eq_byte_of_mem (by rw [has]; exact List.mem_append_right _ List.mem_cons_self)
      have ha' : next.byte = a := (List.cons.inj has').1
      intro b hb
      have hb' : b ∈ marker.bytes := by rw [has]; exact List.mem_append_left _ hb
      rw [eq_byte_of_mem hb', ← ha, ← ha']
  · exact hinside hcs

theorem Clean.bodyLength (h : Clean next body) :
    bodyLength (body ++ (next.bytes ++ rest)) =
      some (body.length + (rest.takeWhile (· == next.byte)).length) := by
  induction body with
  | nil => simpa using bodyLength_replicate next 0 rest
  | cons b body ih =>
    by_cases hlead : (Marker.leading? (b :: body ++ (next.bytes ++ rest))).isSome
    · have hrun : b :: body = List.replicate (b :: body).length next.byte :=
        List.eq_replicate_of_mem (h.eq_byte_of_leading hlead)
      rw [hrun, bodyLength_replicate, List.length_replicate]
    · rw [Option.not_isSome_iff_eq_none] at hlead
      have htail := ih (clean_cons.1 h).2
      rw [List.cons_append] at hlead ⊢
      rw [bodyLength_cons hlead, htail, Option.map_some, List.length_cons, Nat.add_right_comm]

/-- **A clean body is split off where it ends.** Bytes of the marker's value that follow the marker
are counted to the body instead. -/
theorem splitBody_append (h : Clean next body) (rest : List UInt8) :
    splitBody (body ++ (next.bytes ++ rest)) =
      (body ++ rest.takeWhile (· == next.byte),
        next.bytes ++ rest.dropWhile (· == next.byte)) := by
  have hrun : rest.takeWhile (· == next.byte) =
      List.replicate (rest.takeWhile (· == next.byte)).length next.byte :=
    List.eq_replicate_of_mem fun _ => eq_of_mem_takeWhile
  have hswap : next.bytes ++ rest.takeWhile (· == next.byte) =
      rest.takeWhile (· == next.byte) ++ next.bytes := by
    rw [hrun, bytes_append_replicate]
  have hinput : body ++ (next.bytes ++ rest) = (body ++ rest.takeWhile (· == next.byte)) ++
      (next.bytes ++ rest.dropWhile (· == next.byte)) := by
    rw [List.append_assoc, ← List.append_assoc (rest.takeWhile _), ← hswap, List.append_assoc,
      List.takeWhile_append_dropWhile]
  rw [splitBody, h.bodyLength, hinput, ← List.length_append]
  simp only [List.take_left, List.drop_left]

example : splitBody [0x90, 0x00, 0xBB, 0xBB, 0xBB, 0xBB, 0xBB, 0xBB, 0xFF] =
    ([0x90, 0x00, 0xBB], [0xBB, 0xBB, 0xBB, 0xBB, 0xBB, 0xFF]) := by decide

/-- Bytes without a marker, or a clean body, the marker that ends it and what does not run into
that marker. -/
theorem exists_clean_body (input : List UInt8) :
    (∀ marker : Marker, ¬ marker.bytes <:+: input) ∨
      ∃ body next behind, Clean next body ∧ behind.head? ≠ some next.byte ∧
        input = body ++ (next.bytes ++ behind) := by
  induction input with
  | nil => exact .inl fun marker hin => List.cons_ne_nil _ _ (List.infix_nil.1 hin)
  | cons b rest ih =>
    cases hlead : Marker.leading? (b :: rest) with
    | some next =>
      -- the body is what the run of the marker has too much
      obtain ⟨tail, htail⟩ := leading?_eq_some.1 hlead
      refine .inr ⟨tail.takeWhile (· == next.byte), next, tail.dropWhile (· == next.byte),
        clean_of_forall_eq fun _ => eq_of_mem_takeWhile, ?_, ?_⟩
      · intro hhead
        have hstop := List.head?_dropWhile_not (· == next.byte) tail
        rw [hhead] at hstop
        simp at hstop
      · have hrun : tail.takeWhile (· == next.byte) =
            List.replicate (tail.takeWhile (· == next.byte)).length next.byte :=
          List.eq_replicate_of_mem fun _ => eq_of_mem_takeWhile
        rw [htail, ← List.append_assoc, hrun, ← bytes_append_replicate, ← hrun,
          List.append_assoc, List.takeWhile_append_dropWhile]
    | none =>
      rcases ih with hnone | ⟨body, next, behind, hclean, hhead, rfl⟩
      · refine .inl fun marker hin => ?_
        rcases List.infix_cons_iff.1 hin with ⟨tail, htail⟩ | hrest
        · rw [leading?_eq_some.2 ⟨tail, htail.symm⟩] at hlead
          exact nomatch hlead
        · exact hnone marker hrest
      · refine .inr ⟨b :: body, next, behind, clean_cons.2 ⟨fun hsome => ?_, hclean⟩, hhead, rfl⟩
        rw [← List.cons_append] at hlead
        rw [leading?_append_eq_none hlead] at hsome
        exact absurd hsome Bool.false_ne_true

end Clean

end CardTap.Log
