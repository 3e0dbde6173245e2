/-!
# Outcomes of stateful computations

The parser and the evaluator are both computations that thread a state and may stop with an error,
which keeps the state it was raised in.  These are the equations by which proofs take such a
computation apart, forwards from the outcome of its first step and backwards from its success.

Two computations may also be followed side by side, if their states stay related.

## Main definitions

* `Outcome.Related`: two outcomes that correspond to each other.
-/

namespace Script.Outcome

variable {ε σ α β : Type} {x : EStateM ε σ α} {f : α → EStateM ε σ β}
variable {s t u : σ} {a : α} {b : β} {e : ε}

@[simp] theorem pure_apply (a : α) (s : σ) : (pure a : EStateM ε σ α) s = .ok a s := rfl

/-- A first step that yields a result hands over to the second. -/
theorem bind_of_ok (h : x s = .ok a t) : (x >>= f) s = f a t := by
  simp [bind, EStateM.bind, h]

/-- A first step that stops is the end. -/
theorem bind_of_error (h : x s = .error e t) : (x >>= f) s = .error e t := by
  simp [bind, EStateM.bind, h]

/-- Two steps succeed if and only if the first does, and then the second from there. -/
theorem bind_eq_ok_iff :
    (x >>= f) s = .ok b u ↔ ∃ a t, x s = .ok a t ∧ f a t = .ok b u := by
  cases h : x s with
  | ok a t =>
    rw [bind_of_ok h]
    constructor
    · intro hf
      exact ⟨a, t, rfl, hf⟩
    · rintro ⟨a', t', hx, hf⟩
      injection hx with ha ht
      rw [ha, ht]
      exact hf
  | error e t => simp [bind_of_error h]

/-- Two steps fail only if the first does, or if it succeeds and the second fails from there. -/
theorem error_of_bind (h : (x >>= f) s = .error e u) :
    x s = .error e u ∨ ∃ a t, x s = .ok a t ∧ f a t = .error e u := by
  cases hx : x s with
  | ok a t => exact .inr ⟨a, t, rfl, (bind_of_ok hx).symm.trans h⟩
  | error e' t =>
    rw [bind_of_error hx] at h
    cases h
    exact .inl rfl

/-- Two computations agree if their first steps do, and then what follows from there. -/
theorem bind_congr_at {y : EStateM ε σ α} {g : α → EStateM ε σ β} (hx : x s = y s)
    (hf : ∀ a t, y s = .ok a t → f a t = g a t) : (x >>= f) s = (y >>= g) s := by
  cases h : y s with
  | ok a t =>
    rw [bind_of_ok (hx.trans h), bind_of_ok h]
    exact hf a t h
  | error e t => rw [bind_of_error (hx.trans h), bind_of_error h]

theorem pure_eq_ok_iff {a' : α} : (pure a : EStateM ε σ α) s = .ok a' t ↔ a = a' ∧ s = t := by
  simp

/-! ## Two computations side by side -/

section Related

variable {τ γ δ : Type} {E : ε → ε → Prop} {S : σ → τ → Prop} {R : α → γ → Prop}
variable {R' : β → δ → Prop} {y : EStateM ε τ γ} {g : γ → EStateM ε τ δ} {v : τ}

/-- Two outcomes correspond: both are results or both are errors, and the states correspond. -/
inductive Related (E : ε → ε → Prop) (S : σ → τ → Prop) (R : α → γ → Prop) :
    EStateM.Result ε σ α → EStateM.Result ε τ γ → Prop
  | ok {a c s t} (hvalue : R a c) (hstate : S s t) : Related E S R (.ok a s) (.ok c t)
  | error {e e' s t} (herror : E e e') (hstate : S s t) : Related E S R (.error e s) (.error e' t)

/-- **Sequence.**  What follows need only correspond from corresponding results and states. -/
theorem Related.bind (hx : Related E S R (x s) (y v))
    (hf : ∀ a c t w, R a c → S t w → Related E S R' (f a t) (g c w)) :
    Related E S R' ((x >>= f) s) ((y >>= g) v) := by
  generalize hxs : x s = r at hx
  generalize hyv : y v = r' at hx
  cases hx with
  | ok hvalue hstate =>
    rw [bind_of_ok hxs, bind_of_ok hyv]
    exact hf _ _ _ _ hvalue hstate
  | error herror hstate =>
    rw [bind_of_error hxs, bind_of_error hyv]
    exact .error herror hstate

end Related

end Script.Outcome
