import CardTap.Proofs.Atr.Reader

/-!
# What a parser accepts

A parser takes characters from the front of its input.  `Accepts` ties its results to the characters
taken: both directions at once, so that a value is returned exactly if the input begins with its
characters.  The rules follow the text of a parser.
-/

namespace CardTap

variable {α β : Type}

/-- The second reader goes on where the first one stopped. -/
theorem Reader.feed_bind (x : Reader α) (f : α → Reader β) (sent : List UInt8) :
    (x.bind f).feed sent = (x.feed sent).bind fun r => (f r.1).feed r.2 := by
  induction x generalizing sent with
  | done a => rfl
  | ask next ih =>
    cases sent with
    | nil => rfl
    | cons b sent => exact ih b sent

namespace Atr.Parser

/-- The parser returns a value exactly if its input begins with characters of that form, and it
takes just these. -/
def Accepts (p : Parser α) (Form : α → List UInt8 → Prop) : Prop :=
  ∀ sent a rest, p.run.feed sent = some (.ok a, rest) ↔
    ∃ taken, sent = taken ++ rest ∧ Form a taken

namespace Accepts

variable {p : Parser α} {f : α → Parser β} {P : α → List UInt8 → Prop}
  {Q : α → β → List UInt8 → Prop} {R S : β → List UInt8 → Prop}

theorem congr {p : Parser β} (h : Accepts p R) (hRS : ∀ b taken, R b taken ↔ S b taken) :
    Accepts p S := by
  intro sent b rest
  rw [h sent b rest]
  simp only [hRS]

theorem pure (a : α) : Accepts (Pure.pure a : Parser α) fun a' taken => a' = a ∧ taken = [] := by
  intro sent a' rest
  show some (Except.ok a, sent) = some (.ok a', rest) ↔ _
  simp only [Option.some.injEq, Prod.mk.injEq, Except.ok.injEq]
  constructor
  · rintro ⟨rfl, rfl⟩
    exact ⟨[], rfl, rfl, rfl⟩
  · rintro ⟨_, rfl, rfl, rfl⟩
    exact ⟨rfl, rfl⟩

theorem throw (e : AtrError) : Accepts (MonadExcept.throw e : Parser α) fun _ _ => False := by
  intro sent a rest
  show some ((Except.error e : Except AtrError α), sent) = some (.ok a, rest) ↔ _
  simp

theorem char : Accepts char fun b taken => taken = [b] := by
  intro sent b rest
  cases sent with
  | nil =>
    show none = some (Except.ok b, rest) ↔ _
    simp
  | cons c sent =>
    show some (Except.ok c, sent) = some (.ok b, rest) ↔ _
    simp only [Option.some.injEq, Prod.mk.injEq, Except.ok.injEq, exists_eq_right,
      List.singleton_append, List.cons.injEq]

theorem bind (hp : Accepts p P) (hf : ∀ a, Accepts (f a) (Q a)) :
    Accepts (p >>= f) fun b taken =>
      ∃ a front back, taken = front ++ back ∧ P a front ∧ Q a b back := by
  intro sent b rest
  let go : Except AtrError α → Reader (Except AtrError β)
    | .ok a => (f a).run
    | .error e => .done (.error e)
  have hrun : (p >>= f).run = p.run.bind go := by
    refine congrArg (Reader.bind p.run) (funext fun r => ?_)
    cases r <;> rfl
  rw [hrun, Reader.feed_bind, Option.bind_eq_some_iff]
  constructor
  · rintro ⟨⟨r, middle⟩, hfirst, hsecond⟩
    cases r with
    | error e => exact absurd hsecond (by simp [go, Reader.feed])
    | ok a =>
      obtain ⟨front, rfl, hfront⟩ := (hp _ _ _).1 hfirst
      obtain ⟨back, rfl, hback⟩ := (hf a _ _ _).1 hsecond
      exact ⟨front ++ back, (List.append_assoc ..).symm, a, front, back, rfl, hfront, hback⟩
  · rintro ⟨_, rfl, a, front, back, rfl, hfront, hback⟩
    exact ⟨(.ok a, back ++ rest), (hp _ _ _).2 ⟨front, List.append_assoc .., hfront⟩,
      (hf a _ _ _).2 ⟨back, rfl, hback⟩⟩

/-- What is refused first is refused whatever follows. -/
theorem throw_bind (e : AtrError) :
    Accepts (MonadExcept.throw e >>= f : Parser β) fun _ _ => False := by
  intro sent b rest
  show some ((Except.error e : Except AtrError β), sent) = some (.ok b, rest) ↔ _
  simp

end Accepts

end Atr.Parser

end CardTap
