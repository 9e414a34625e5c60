import CardTap.Log.Marker

/-!
# Reading the log

Records carry no length: a body runs up to the next marker.  The reader looks for the next marker
wherever it is, so that a session cut short by a power loss only loses its own tail.
-/

namespace CardTap

/-- One record of the log. -/
inductive Record where
  | application (id : UInt8)
  | command (body : List UInt8)
  | response (body : List UInt8)
  | finish
  deriving DecidableEq, Repr

namespace Log

/-- Offset of the first marker that `want` accepts, and the marker. -/
def findMarker (want : Marker → Bool) : List UInt8 → Option (Nat × Marker)
  | [] => none
  | b :: rest =>
    match (Marker.leading? (b :: rest)).filter want with
    | some m => some (0, m)
    | none => (findMarker want rest).map fun (i, m) => (i + 1, m)

/-- How often the first byte is repeated at the start of the input. -/
def leadingRun : List UInt8 → Nat
  | [] => 0
  | b :: rest => (rest.takeWhile (· == b)).length + 1

/-- Offset of the marker that ends a body.  Body bytes of the marker's value run into it: the marker
is the last five bytes of the run. -/
def bodyLength (input : List UInt8) : Option Nat := do
  let (i, _) ← findMarker (fun _ => true) input
  pure (i + leadingRun (input.drop i) - Marker.size)

/-- The input without the erased cells at its end. -/
def dropErased (input : List UInt8) : List UInt8 :=
  (input.reverse.dropWhile (· == 0xFF)).reverse

/-- Splits a body from what follows it; the last body of the input ends before the erased cells. -/
def splitBody (input : List UInt8) : List UInt8 × List UInt8 :=
  match bodyLength input with
  | some i => (input.take i, input.drop i)
  | none => (dropErased input, [])

/-- The markers that mean something: outside a session only the application marker does. -/
def wanted (inSession : Bool) (m : Marker) : Bool := inSession || m == .application

/-- The next record of the input, whether it leaves the reader inside a session, and the rest. -/
def next? (inSession : Bool) (input : List UInt8) : Option (Record × Bool × List UInt8) := do
  let (i, m) ← findMarker (wanted inSession) input
  let rest := input.drop (i + Marker.size)
  match m with
  | .application => match rest with
    | id :: rest => some (.application id, true, rest)
    | [] => none
  | .finish => some (.finish, false, rest)
  | .command => let (body, rest) := splitBody rest; some (.command body, inSession, rest)
  | .response => let (body, rest) := splitBody rest; some (.response body, inSession, rest)

theorem findMarker_lt {want : Marker → Bool} {input : List UInt8} {i : Nat} {m : Marker}
    (h : findMarker want input = some (i, m)) : i + Marker.size ≤ input.length := by
  induction input generalizing i with
  | nil => simp [findMarker] at h
  | cons b rest ih =>
    rw [findMarker] at h
    split at h
    · rename_i m' hm
      obtain ⟨rfl, rfl⟩ := by simpa using h
      rcases rest with _ | ⟨_, _ | ⟨_, _ | ⟨_, _ | ⟨_, _⟩⟩⟩⟩ <;>
        simp [Marker.leading?, Marker.size] at hm ⊢
    · obtain ⟨⟨j, m'⟩, hj, hji⟩ := Option.map_eq_some_iff.1 h
      obtain ⟨rfl, rfl⟩ := by simpa using hji
      have := ih hj
      simp only [List.length_cons]
      omega

theorem splitBody_length (input : List UInt8) : (splitBody input).2.length ≤ input.length := by
  unfold splitBody
  split <;> simp

/-- A record takes at least the bytes of its marker. -/
theorem next?_length {inSession : Bool} {input : List UInt8} {r : Record} {s : Bool}
    {rest : List UInt8} (h : next? inSession input = some (r, s, rest)) :
    rest.length < input.length := by
  obtain ⟨⟨i, m⟩, hi, h⟩ := Option.bind_eq_some_iff.1 h
  have hlt := findMarker_lt hi
  have hdrop : (input.drop (i + Marker.size)).length < input.length := by
    simp [Marker.size] at hlt ⊢; omega
  cases m <;> simp only at h
  · split at h
    · rename_i id tail htail
      obtain ⟨-, -, rfl⟩ := by simpa using h
      rw [htail] at hdrop
      simp at hdrop
      omega
    · simp at h
  all_goals
    obtain ⟨-, -, rfl⟩ := by simpa using h
    first
      | exact hdrop
      | exact Nat.lt_of_le_of_lt (splitBody_length _) hdrop

/-- The records of an input, read from inside or outside a session. -/
def recordsFrom (inSession : Bool) (input : List UInt8) : List Record :=
  match _h : next? inSession input with
  | none => []
  | some (r, inSession, rest) => r :: recordsFrom inSession rest
termination_by input.length
decreasing_by exact next?_length _h

/-- The records of a dump of the log. -/
def records (dump : List UInt8) : List Record := recordsFrom false dump

end Log

end CardTap
