import CardTap.Proofs.Ends

/-!
# What a run maintains

Where neither the value nor the exact machine matters, it is enough that a run returns and that an
invariant holds on.  `Maintains` is total, unlike `Keeps`, so that the invariant may be what lets
the run return at all.
-/

namespace CardTap.Run

variable {σ τ α β ε δ : Type}

/-- Started on a machine with the property, the run returns, on a machine with the property. -/
def Maintains (P : σ → Prop) (x : Run σ α) : Prop := ∀ m, P m → x.Ends m fun _ m' => P m'

namespace Maintains

variable {P Q : σ → Prop}

section Plain

variable {x : Run σ α} {f : α → Run σ β}

theorem pure (a : α) : Maintains P (Pure.pure a : Run σ α) := fun _ hm => Ends.pure hm

theorem bind (hx : Maintains P x) (hf : ∀ a, Maintains P (f a)) : Maintains P (x >>= f) := by
  intro m hm
  exact (hx m hm).bind fun a m' hm' => hf a m' hm'

theorem read (f : σ → α) : Maintains P (Run.read f) := fun m hm => (Returns.read f m).ends hm

theorem note (r : LogRecord) : Maintains P (Run.note r) := fun m hm => (Returns.note r m).ends hm

theorem change {f : σ → σ} (h : ∀ m, P m → P (f m)) : Maintains P (Run.change f) :=
  fun m hm => (Returns.change f m).ends (h m hm)

/-- A run on a part of the machine. -/
theorem within {get : σ → τ} {put : τ → σ → σ} {R : τ → Prop} {x : Run τ α} (hx : Maintains R x)
    (hget : ∀ m, P m → R (get m)) (hput : ∀ m t, P m → R t → P (put t m)) :
    Maintains P (Run.within get put x) := by
  intro m hm
  exact Ends.within ((hx (get m) (hget m hm)).mono fun _ t ht => hput m t hm ht)

end Plain

/-! ## Runs that may fail -/

section Failing

variable {x : ExceptT ε (Run σ) α} {f : α → ExceptT ε (Run σ) β}

theorem ok (a : α) : Maintains P (Pure.pure a : ExceptT ε (Run σ) α).run := pure (Except.ok a)

theorem throw (e : ε) : Maintains P (MonadExcept.throw e : ExceptT ε (Run σ) α).run :=
  pure (Except.error e)

theorem bind_ok (hx : Maintains P x.run) (hf : ∀ a, Maintains P (f a).run) :
    Maintains P (x >>= f).run := by
  intro m hm
  exact (hx m hm).bind_ok (fun a m' hm' => hf a m' hm') fun _ _ hm' => hm'

theorem lift {x : Run σ α} (hx : Maintains P x) :
    Maintains P (liftM x : ExceptT ε (Run σ) α).run :=
  fun m hm => Ends.lift (hx m hm)

/-- Arithmetic that has room, then the rest. -/
theorem bind_checked {c : Checked β} {b : β} {f : β → ExceptT ε (Run σ) α} (h : c = .ok b)
    (hf : Maintains P (f b).run) :
    Maintains P ((liftM (liftM c : Run σ β) : ExceptT ε (Run σ) β) >>= f).run :=
  fun m hm => Ends.after_ok (Returns.lift (Returns.checked h m)) (hf m hm)

theorem adapt {g : ε → δ} (hx : Maintains P x.run) : Maintains P (x.adapt g).run :=
  fun m hm => Ends.adapt (hx m hm)

end Failing

/-! ## Interfaces on a part of the machine -/

section Mounted

variable {I : Type → Type} {p : Part τ σ} {ops : I τ} {R : τ → Prop}

theorem attempted {f : I τ → ExceptT ε (Run τ) α} (hf : Maintains R (f ops).run)
    (hget : ∀ m, P m → R (p.get m)) (hput : ∀ m t, P m → R t → P (p.put t m)) :
    Maintains P ((Mounted.part p ops).attempt f).run :=
  within hf hget hput

end Mounted

end Maintains

end CardTap.Run
