/-!
# Computations with a state

* `bind_of_ok`, `bind_of_error`, `exists_of_bind_ok`, `get_bind`, `modify_bind` : the first step of a computation, and
  the rest;
* `endState`, `view_endState_bind` : where a computation ends, in an error or not, and what it leaves alone;
* `mapState` : a result with another state;
* `run'_of_ok`, `exists_ok_of_run'` : a computation that gives a result ends with it.
-/

namespace GraphMarkup

variable {ε σ α β : Type}

section

variable {step : EStateM ε σ α} {k : α → EStateM ε σ β} {s s' : σ}

theorem bind_of_ok {a : α} (h : step s = .ok a s') : (step >>= k) s = k a s' := by
  simp only [bind, EStateM.bind, h]

theorem bind_of_error {e : ε} (h : step s = .error e s') : (step >>= k) s = .error e s' := by
  simp only [bind, EStateM.bind, h]

/-- A result of two steps in a row is one of the second, after the first. -/
theorem exists_of_bind_ok {b : β} (h : (step >>= k) s = .ok b s') : ∃ a s₁, step s = .ok a s₁ ∧ k a s₁ = .ok b s' := by
  cases hstep : step s with
  | ok a s₁ =>
    rw [bind_of_ok hstep] at h
    exact ⟨a, s₁, rfl, h⟩
  | error e s₁ =>
    rw [bind_of_error hstep] at h
    cases h

end

theorem get_bind (k : σ → EStateM ε σ β) (s : σ) : (get >>= k) s = k s s := rfl

theorem modify_bind (f : σ → σ) (k : Unit → EStateM ε σ β) (s : σ) : (modify f >>= k) s = k () (f s) := rfl

/-- The state in which a computation ends, in an error or not. -/
def endState : EStateM.Result ε σ α → σ
  | .ok _ s => s
  | .error _ s => s

/-- What two steps leave alone, the two of them in a row do. -/
theorem view_endState_bind {γ : Type} (view : σ → γ) {step : EStateM ε σ α} {k : α → EStateM ε σ β}
    (hstep : ∀ s, view (endState (step s)) = view s) (hrest : ∀ a s, view (endState (k a s)) = view s) (s : σ) :
    view (endState ((step >>= k) s)) = view s := by
  have hs := hstep s
  cases hresult : step s with
  | ok a s' =>
    rw [hresult] at hs
    rw [bind_of_ok hresult]
    exact (hrest a s').trans hs
  | error e s' =>
    rw [hresult] at hs
    rwa [bind_of_error hresult]

/-- A result with its state changed, in an error or not. -/
def mapState (f : σ → σ) : EStateM.Result ε σ α → EStateM.Result ε σ α
  | .ok a s => .ok a (f s)
  | .error e s => .error e (f s)

theorem run'_of_ok {step : EStateM ε σ α} {a : α} {s s' : σ} (h : step s = .ok a s') : step.run' s = some a := by
  delta EStateM.run' EStateM.run
  rw [h]

theorem exists_ok_of_run' {step : EStateM ε σ α} {s : σ} (h : (step.run' s).isSome) : ∃ a s', step s = .ok a s' := by
  delta EStateM.run' EStateM.run at h
  cases hstep : step s with
  | ok a s' => exact ⟨a, s', rfl⟩
  | error e s' =>
    rw [hstep] at h
    cases h

end GraphMarkup
