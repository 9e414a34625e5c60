/-!
# Scripted answers

A script hands out its values one by one; when they are used up it repeats the last one for ever.
-/

namespace CardTap.Chip

/-- The values still to be handed out, and the one repeated when there are none. -/
structure Script (α : Type) where
  rest : List α := []
  last : α

namespace Script

variable {α : Type}

/-- The value after the next one was taken. -/
def next (s : Script α) : Script α :=
  match s.rest with
  | a :: rest => ⟨rest, a⟩
  | [] => s

/-- Adds values at the end. -/
def append (s : Script α) (values : List α) : Script α := { s with rest := s.rest ++ values }

end Script

end CardTap.Chip
