import CardTap.Atr.Parse

/-!
# What a reader can come to

A property of every result that a reader can finish with, whatever the characters are, holds of the
result on a list of characters.
-/

namespace CardTap

variable {α β : Type}

/-- Whatever the characters are, a reader that finishes has a result with the property. -/
def Reader.Yields (P : α → Prop) : Reader α → Prop
  | .done a => P a
  | .ask next => ∀ b, (next b).Yields P

theorem Reader.Yields.bind {P : β → Prop} {x : Reader α} {f : α → Reader β}
    (hf : ∀ a, (f a).Yields P) : (x.bind f).Yields P := by
  induction x with
  | done a => exact hf a
  | ask next ih => exact fun b => ih b

theorem Reader.Yields.feed {P : α → Prop} {x : Reader α} {bytes rest : List UInt8} {a : α}
    (h : x.Yields P) (hfeed : x.feed bytes = some (a, rest)) : P a := by
  induction x generalizing bytes with
  | done a' =>
    cases hfeed
    exact h
  | ask next ih =>
    cases bytes with
    | nil => cases hfeed
    | cons b bytes => exact ih b (h b) hfeed

theorem parser_yields {P : Except AtrError β → Prop} {x : Atr.Parser α} {f : α → Atr.Parser β}
    (herror : ∀ e, P (.error e)) (hf : ∀ a, (f a).run.Yields P) : (x >>= f).run.Yields P := by
  refine Reader.Yields.bind ?_
  intro r
  cases r with
  | ok a => exact hf a
  | error e => exact herror e

/-- An answer to reset keeps the convention that it was read in. -/
theorem convention_of_accepted {c : Convention} {atr : Atr} {answer rest : List UInt8}
    (h : (Atr.Parser.atr c).run.feed answer = some (.ok atr, rest)) : atr.convention = c := by
  let keeps (r : Except AtrError Atr) : Prop := ∀ a, r = .ok a → a.convention = c
  have herror (e : AtrError) : keeps (.error e) := nofun
  have hdone (a : Atr) (ha : a.convention = c) : keeps (.ok a) := by
    rintro _ ⟨⟩
    exact ha
  have hyields : (Atr.Parser.atr c).run.Yields keeps := by
    unfold Atr.Parser.atr
    refine parser_yields herror fun t0 => ?_
    dsimp only
    split
    rotate_left
    -- a T0 without TB1 is refused, which leaves the same rest as one with it
    refine parser_yields herror fun _ => ?_
    all_goals
      refine parser_yields herror fun groups => parser_yields herror fun historical => ?_
      split
      · refine parser_yields herror fun tck => ?_
        split
        · exact parser_yields herror fun _ => hdone _ rfl
        · exact hdone _ rfl
      · exact hdone _ rfl
  exact hyields.feed h atr rfl

end CardTap
