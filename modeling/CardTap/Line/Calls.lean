import CardTap.Line

/-!
# Calls of a line in writing

A list of calls is written with one word for each, and one word for samples in a row.  The calls
that only ask for the clock or for the reset are left out, also between samples.
-/

namespace CardTap.Line.Call

/-- The word for so many samples in a row. -/
def samplesWord (count : Nat) : List String :=
  if count = 0 then [] else ["s" ++ toString count]

/-- The words for calls, oldest first, that follow so many samples. -/
def words : Nat → List Call → List String
  | count, [] => samplesWord count
  | count, .sample :: rest => words (count + 1) rest
  | count, .clockRunning :: rest => words count rest
  | count, .resetHeld :: rest => words count rest
  | count, .startTimer :: rest => samplesWord count ++ "R" :: words 0 rest
  | count, .waitFor ticks :: rest => samplesWord count ++ ("w" ++ toString ticks) :: words 0 rest
  | count, .drive .low :: rest => samplesWord count ++ "dL" :: words 0 rest
  | count, .drive .high :: rest => samplesWord count ++ "dH" :: words 0 rest
  | count, .release :: rest => samplesWord count ++ "r" :: words 0 rest

/-- Calls in writing, oldest first. -/
def text (calls : List Call) : String := String.intercalate " " (words 0 calls)

end CardTap.Line.Call
