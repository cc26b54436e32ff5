import GraphMarkup.Markup.Event
import GraphMarkup.Proofs.State

/-!
# Replaying events

* `replay_cons_of_ok`, `replay_cons_of_error`, `exists_of_replay_cons` : the first event of a replay, and the rest;
* `replay_append_of_ok`, `replay_append_of_error` : a replay in two parts;
* `replay_invariant` : what every event keeps, a whole replay keeps.
-/

namespace GraphMarkup.Writer

variable {ω : Type} [Writer ω] {event : Event} {events later : List Event} {w w' w'' : ω} {e : Error}

theorem replay_cons_of_ok (h : put event w = .ok () w') : replay (event :: events) w = replay events w' := by
  rw [replay_cons, bind_of_ok h]

theorem replay_cons_of_error (h : put event w = .error e w') : replay (event :: events) w = .error e w' := by
  rw [replay_cons, bind_of_error h]

theorem exists_of_replay_cons (h : replay (event :: events) w = .ok () w'') :
    ∃ w', put event w = .ok () w' ∧ replay events w' = .ok () w'' := by
  cases hput : put event w with
  | ok _ w' =>
    rw [replay_cons_of_ok hput] at h
    exact ⟨w', rfl, h⟩
  | error e w' =>
    rw [replay_cons_of_error hput] at h
    cases h

theorem replay_append_of_ok (h : replay events w = .ok () w') : replay (events ++ later) w = replay later w' := by
  rw [replay_append, bind_of_ok h]

theorem replay_append_of_error (h : replay events w = .error e w') : replay (events ++ later) w = .error e w' := by
  rw [replay_append, bind_of_error h]

/-- What every event keeps, a whole replay keeps. -/
theorem replay_invariant {P : ω → Prop} (step : ∀ event ∈ events, ∀ w w' : ω, put event w = .ok () w' → P w → P w')
    (h : replay events w = .ok () w') (hw : P w) : P w' := by
  induction events generalizing w with
  | nil =>
    cases h
    exact hw
  | cons event events ih =>
    obtain ⟨w₁, hput, hrest⟩ := exists_of_replay_cons h
    exact ih (fun event hmem => step event (List.mem_cons_of_mem _ hmem)) hrest
      (step event (List.mem_cons_self ..) w w₁ hput hw)

end GraphMarkup.Writer
