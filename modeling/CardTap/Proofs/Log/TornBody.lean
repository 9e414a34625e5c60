import CardTap.Proofs.Log.Reading

/-!
# Where a torn body ends

A power loss leaves a first part of what was to be written, and erased cells behind it.  A body is
then read in one of four ways, told by how many bytes of the body and of the marker behind it
reached the store (`splitBody_torn`).  If the whole marker did, the body is read as it was written
(`tornBody_whole`).  If the part ends with five bytes of the marker's value all the same, since the
body itself ends with some of them, these are taken for the marker and the body is read too short
(`tornBody_early`).  Otherwise no marker is found and the body is all that is left, which is a first
part of it (`tornBody_short`), unless it is followed by some bytes of the marker, which are then
read as part of the body (`tornBody_stray`).
-/

namespace CardTap.Log

/-! ## Inputs without a marker -/

section NoMarker

variable {want : Marker → Bool} {input : List UInt8}

theorem findMarker_eq_none (h : ∀ marker : Marker, ¬ marker.bytes <:+: input) :
    findMarker want input = none := by
  induction input with
  | nil => rfl
  | cons b rest ih =>
    have hlead : Marker.leading? (b :: rest) = none := by
      rw [Option.eq_none_iff_forall_ne_some]
      intro marker hmarker
      obtain ⟨behind, heq⟩ := leading?_eq_some.1 hmarker
      exact h marker ⟨[], behind, heq.symm⟩
    rw [findMarker_cons (by rw [hlead]; rfl),
      ih fun marker hin => h marker (List.infix_cons hin)]
    rfl

theorem splitBody_of_no_marker (h : ∀ marker : Marker, ¬ marker.bytes <:+: input) :
    splitBody input = (dropErased input, []) := by
  rw [splitBody, bodyLength, findMarker_eq_none h]
  rfl

/-- Erased cells are not part of any marker. -/
theorem infix_of_infix_erased {marker : Marker} {k : Nat}
    (h : marker.bytes <:+: input ++ List.replicate k 0xFF) : marker.bytes <:+: input := by
  obtain ⟨before, behind, heq⟩ := h
  rcases List.append_eq_append_iff.1 heq with ⟨as, rfl, -⟩ | ⟨cs, hcs, hk⟩
  · exact ⟨before, as, rfl⟩
  · -- the marker would end inside the erased cells
    cases cs with
    | nil => exact ⟨before, [], by rw [hcs, List.append_nil, List.append_nil]⟩
    | cons c cs =>
      have hlast : marker.byte ∈ c :: cs := by
        have hsuffix : c :: cs <:+ before ++ marker.bytes := ⟨input, hcs.symm⟩
        have hmem := List.getLast_mem (List.cons_ne_nil c cs)
        have hbytes : marker.bytes ≠ [] := List.cons_ne_nil _ _
        rwa [hsuffix.getLast (List.cons_ne_nil c cs), List.getLast_append_of_ne_nil _ hbytes,
          eq_byte_of_mem (List.getLast_mem hbytes)] at hmem
      have herased : marker.byte ∈ List.replicate k 0xFF := by
        rw [hk]
        exact List.mem_append_left _ hlast
      have := List.eq_of_mem_replicate herased
      cases marker <;> exact absurd this (by decide)

theorem dropErased_erased (input : List UInt8) (k : Nat) :
    dropErased (input ++ List.replicate k 0xFF) = dropErased input := by
  rw [dropErased, dropErased, List.reverse_append, List.reverse_replicate,
    List.dropWhile_append_of_pos (fun b hb => by rw [List.eq_of_mem_replicate hb]; rfl)]

theorem dropErased_isPrefix (input : List UInt8) : dropErased input <+: input := by
  have h : (input.reverse.dropWhile (· == 0xFF)).reverse <+: input.reverse.reverse :=
    List.reverse_prefix.2 (List.dropWhile_suffix _)
  rwa [List.reverse_reverse] at h

theorem dropErased_of_ne {b : UInt8} (h : b ≠ 0xFF) (input : List UInt8) :
    dropErased (input ++ [b]) = input ++ [b] := by
  rw [dropErased, List.reverse_append, List.reverse_singleton, List.singleton_append,
    List.dropWhile_cons_of_neg (by simpa using h), List.reverse_cons, List.reverse_reverse]

end NoMarker

/-! ## Parts of clean bodies -/

section Parts

variable {next : Marker} {body part : List UInt8}

theorem Clean.of_prefix (h : Clean next body) (hpart : part <+: body) : Clean next part := by
  obtain ⟨behind, rfl⟩ := hpart
  intro before marker tail heq
  obtain ⟨hmarker, hall⟩ := h before marker (tail ++ behind) (by rw [heq, List.append_assoc])
  exact ⟨hmarker, fun b hb => hall b (List.mem_append_left _ hb)⟩

/-- The marker that ends a clean body does not spoil it. -/
theorem Clean.append_bytes (h : Clean next body) : Clean next (body ++ next.bytes) := by
  induction body with
  | nil =>
    intro before marker behind heq
    have hall {b : UInt8} (hb : b ∈ before ++ marker.bytes ++ behind) : b = next.byte :=
      eq_byte_of_mem (by rw [← heq] at hb; exact hb)
    refine ⟨byte_injective (hall ?_), fun b hb => hall (List.mem_append_right _ hb)⟩
    exact List.mem_append_left _ (List.mem_append_right _ List.mem_cons_self)
  | cons b body ih =>
    rw [List.cons_append, clean_cons]
    refine ⟨fun hlead c hc => ?_, ih (clean_cons.1 h).2⟩
    have hall : ∀ c ∈ b :: body, c = next.byte := by
      apply h.eq_byte_of_leading
      rw [List.append_nil]
      exact hlead
    exact (List.mem_append.1 hc).elim (hall c) eq_byte_of_mem

/-- In a clean part without a marker at its end there is no marker at all. -/
theorem Clean.no_marker (h : Clean next part) (hend : ¬ next.bytes <:+ part) (marker : Marker) :
    ¬ marker.bytes <:+: part := by
  rintro ⟨before, behind, heq⟩
  obtain ⟨rfl, hall⟩ := h before marker behind heq.symm
  refine hend ⟨before ++ behind, ?_⟩
  rw [← heq, List.eq_replicate_of_mem hall, List.append_assoc, List.append_assoc,
    bytes_append_replicate]

end Parts

/-! ## Torn bodies -/

section Torn

variable {next : Marker} {body more : List UInt8} {reached k : Nat}

/-- What of a body and the marker behind it reached the store. -/
def bodyPart (next : Marker) (body : List UInt8) (reached : Nat) : List UInt8 :=
  (body ++ next.bytes).take reached

/-- What is read of a body of which only some bytes, those of the following marker counted along,
reached the store; and how many bytes from that marker on are left to be read, if it is found. -/
def tornBody (next : Marker) (body : List UInt8) (reached : Nat) : List UInt8 × Option Nat :=
  if next.bytes <:+ bodyPart next body reached then
    ((bodyPart next body reached).take ((bodyPart next body reached).length - Marker.size),
      some (max Marker.size (reached - body.length)))
  else (dropErased (bodyPart next body reached), none)

/-- No byte of the following marker reached the store, and what did does not end like it. -/
def Short (next : Marker) (body : List UInt8) (reached : Nat) : Prop :=
  reached ≤ body.length ∧ ¬ next.bytes <:+ bodyPart next body reached

/-- The following marker did not reach the store as a whole, but what did ends like it. -/
def Early (next : Marker) (body : List UInt8) (reached : Nat) : Prop :=
  reached < body.length + Marker.size ∧ next.bytes <:+ bodyPart next body reached

/-- The following marker reached the store in part, and what did does not end like it. -/
def Stray (next : Marker) (body : List UInt8) (reached : Nat) : Prop :=
  body.length < reached ∧ reached < body.length + Marker.size ∧
    ¬ next.bytes <:+ bodyPart next body reached

instance (next : Marker) (body : List UInt8) (reached : Nat) :
    Decidable (Early next body reached) :=
  inferInstanceAs (Decidable (_ ∧ _))

instance (next : Marker) (body : List UInt8) (reached : Nat) :
    Decidable (Stray next body reached) :=
  inferInstanceAs (Decidable (_ ∧ _))

/-- The following marker reached the store as a whole, or the body is torn in one of three ways. -/
theorem torn_cases (next : Marker) (body : List UInt8) (reached : Nat) :
    body.length + Marker.size ≤ reached ∨ Early next body reached ∨ Short next body reached ∨
      Stray next body reached := by
  by_cases hwhole : body.length + Marker.size ≤ reached
  · exact .inl hwhole
  · by_cases hends : next.bytes <:+ bodyPart next body reached
    · exact .inr (.inl ⟨Nat.lt_of_not_le hwhole, hends⟩)
    · by_cases hle : reached ≤ body.length
      · exact .inr (.inr (.inl ⟨hle, hends⟩))
      · exact .inr (.inr (.inr ⟨Nat.lt_of_not_le hle, Nat.lt_of_not_le hwhole, hends⟩))

theorem not_early_zero (next : Marker) (body : List UInt8) : ¬ Early next body 0 := by
  rintro ⟨-, hends⟩
  exact absurd (List.suffix_nil.1 hends) (List.cons_ne_nil _ _)

theorem not_stray_zero (next : Marker) (body : List UInt8) : ¬ Stray next body 0 :=
  fun h => Nat.not_lt_zero _ h.1

theorem bodyPart_of_le (h : body.length + Marker.size ≤ reached) :
    bodyPart next body reached = body ++ next.bytes := by
  refine List.take_of_length_le ?_
  rw [List.length_append, length_bytes]
  exact h

theorem length_bodyPart (h : reached ≤ body.length + Marker.size) :
    (bodyPart next body reached).length = reached := by
  rw [bodyPart, List.length_take, List.length_append, length_bytes]
  exact Nat.min_eq_left h

theorem tornBody_whole (h : body.length + Marker.size ≤ reached) :
    tornBody next body reached = (body, some (reached - body.length)) := by
  have hmax : max Marker.size (reached - body.length) = reached - body.length := by omega
  rw [tornBody, bodyPart_of_le h, if_pos (List.suffix_append body next.bytes), hmax,
    List.length_append, length_bytes, Nat.add_sub_cancel, List.take_left]

theorem tornBody_early (h : Early next body reached) :
    ∃ short, short <+: body ∧ short.length < body.length ∧
      tornBody next body reached = (short, some Marker.size) := by
  obtain ⟨hlt, hends⟩ := h
  have hlen : (bodyPart next body reached).length = reached := length_bodyPart (by omega)
  have hsize : Marker.size ≤ reached := by
    have := hends.length_le
    rwa [length_bytes, hlen] at this
  have hmax : max Marker.size (reached - body.length) = Marker.size := by omega
  refine ⟨body.take (reached - Marker.size), List.take_prefix _ _, ?_, ?_⟩
  · rw [List.length_take]
    omega
  · rw [tornBody, if_pos hends, hlen, hmax, bodyPart, List.take_take,
      Nat.min_eq_left (Nat.sub_le _ _), List.take_append_of_le_length (by omega)]

theorem tornBody_zero (next : Marker) (body : List UInt8) :
    tornBody next body 0 = ([], none) := by
  have hends : ¬ next.bytes <:+ bodyPart next body 0 := fun h =>
    not_early_zero next body ⟨Nat.add_pos_right _ (by decide), h⟩
  rw [tornBody, if_neg hends]
  rfl

theorem tornBody_short (h : Short next body reached) :
    ∃ short, short <+: body ∧ tornBody next body reached = (short, none) := by
  obtain ⟨hle, hend⟩ := h
  refine ⟨_, ?_, if_neg hend⟩
  rw [bodyPart, List.take_append_of_le_length hle]
  exact (dropErased_isPrefix _).trans (List.take_prefix _ _)

theorem tornBody_stray (h : Stray next body reached) :
    tornBody next body reached =
      (body ++ List.replicate (reached - body.length) next.byte, none) := by
  obtain ⟨hlow, hhigh, hend⟩ := h
  obtain ⟨n, hn⟩ : ∃ n, reached - body.length = n + 1 := ⟨reached - body.length - 1, by omega⟩
  have hne : next.byte ≠ 0xFF := by cases next <;> decide
  have hpart : bodyPart next body reached =
      body ++ List.replicate (reached - body.length) next.byte := by
    rw [bodyPart, List.take_append, List.take_of_length_le (Nat.le_of_lt hlow), Marker.bytes,
      List.take_replicate, Nat.min_eq_left (by omega)]
  rw [tornBody, if_neg hend, hpart, hn, List.replicate_succ', ← List.append_assoc,
    dropErased_of_ne hne]

/-- A body that is followed by its marker, and that by something else, is split off whole. -/
theorem splitBody_whole {rest : List UInt8} (h : Clean next body)
    (hrest : rest.head? ≠ some next.byte) :
    splitBody (body ++ (next.bytes ++ rest)) = (body, next.bytes ++ rest) := by
  have htake := takeWhile_eq_nil_of_head?_ne hrest
  have hdrop : rest.dropWhile (· == next.byte) = rest := by
    have hall := List.takeWhile_append_dropWhile (p := (· == next.byte)) (l := rest)
    rwa [htake, List.nil_append] at hall
  rw [splitBody_append h, htake, hdrop, List.append_nil]

theorem head?_torn_ne (hmore : more.head? ≠ some next.byte) (n k : Nat) :
    (more.take n ++ List.replicate k 0xFF).head? ≠ some next.byte := by
  have herased : (List.replicate k (0xFF : UInt8)).head? ≠ some next.byte := by
    cases k with
    | zero => exact nofun
    | succ k =>
      intro hhead
      cases next <;> exact absurd (Option.some.inj hhead) (by decide)
  cases more with
  | nil => rwa [List.take_nil]
  | cons b more =>
    cases n with
    | zero => exact herased
    | succ n => exact hmore

/-- **What is read of a torn body.** The part of the body that reached the store tells, as long as
what was to follow the marker does not look like it. -/
theorem splitBody_torn (h : Clean next body) (hmore : more.head? ≠ some next.byte) :
    splitBody ((body ++ (next.bytes ++ more)).take reached ++ List.replicate k 0xFF) =
      ((tornBody next body reached).1,
        match (tornBody next body reached).2 with
        | some left => (next.bytes ++ more).take left ++ List.replicate k 0xFF
        | none => []) := by
  by_cases hwhole : body.length + Marker.size ≤ reached
  · have hleft : (next.bytes ++ more).take (reached - body.length) =
        next.bytes ++ more.take (reached - body.length - Marker.size) := by
      rw [List.take_append, length_bytes, List.take_of_length_le (by rw [length_bytes]; omega)]
    rw [tornBody_whole hwhole, List.take_append, List.take_of_length_le (by omega)]
    simp only [hleft, List.append_assoc]
    exact splitBody_whole h (head?_torn_ne hmore _ k)
  · have hpart : (body ++ (next.bytes ++ more)).take reached = bodyPart next body reached := by
      rw [bodyPart, ← List.append_assoc, List.take_append_of_le_length]
      rw [List.length_append, length_bytes]
      omega
    have hclean : Clean next (bodyPart next body reached) :=
      h.append_bytes.of_prefix (List.take_prefix _ _)
    rw [hpart]
    by_cases hends : next.bytes <:+ bodyPart next body reached
    · -- the part is a shorter clean body with its marker, so it is split like a whole one
      obtain ⟨front, hfront⟩ := hends
      have hmax : max Marker.size (reached - body.length) = Marker.size := by omega
      have hleft : (next.bytes ++ more).take Marker.size = next.bytes :=
        List.take_left' (length_bytes next)
      have hnone : ([] : List UInt8).head? ≠ some next.byte := nofun
      rw [tornBody, if_pos ⟨front, hfront⟩, hmax, ← hfront, List.length_append, length_bytes,
        Nat.add_sub_cancel, List.take_left]
      simp only [hleft, List.append_assoc]
      exact splitBody_whole (hclean.of_prefix ⟨_, hfront⟩) (head?_torn_ne hnone 0 k)
    · rw [tornBody, if_neg hends, splitBody_of_no_marker, dropErased_erased]
      exact fun marker hin => hclean.no_marker hends marker (infix_of_infix_erased hin)

end Torn

end CardTap.Log
