import GraphMarkup.Proofs.Walk.Closure
import GraphMarkup.Proofs.Walk.Pervading

/-!
# Cancelled walks

* `NeedsStop` : a step that is cancelled only if a stop has been requested;
* `NeedsStop.bind`, `pervades_needsStop` : such steps in a row, and all the steps of a walk;
* `write_needs_stop` : writing a value is cancelled only by a stop, whatever the hints say.
-/

namespace GraphMarkup

variable {α β : Type}

/-- A step that is cancelled only if a stop has been requested. -/
def NeedsStop (step : WalkM α) : Prop := ∀ w w', step w = .error .cancelled w' → w'.run.stopped

namespace NeedsStop

theorem bind {step : WalkM α} {k : α → WalkM β} (h : NeedsStop step) (hk : ∀ a, NeedsStop (k a)) :
    NeedsStop (step >>= k) := by
  intro w w' hcancelled
  cases hstep : step w with
  | ok a w₁ =>
    rw [bind_of_ok hstep] at hcancelled
    exact hk a w₁ w' hcancelled
  | error e w₁ =>
    rw [bind_of_error hstep] at hcancelled
    cases hcancelled
    exact h w w' hstep

theorem get {k : Walker → WalkM β} (hk : ∀ w, NeedsStop (k w)) : NeedsStop (MonadState.get >>= k) :=
  fun w w' => hk w w w'

theorem pure (a : α) : NeedsStop (pure a : WalkM α) := fun _ _ h => nomatch h

end NeedsStop

theorem Still.needsStop {step : WalkM α} (h : Still step) : NeedsStop step :=
  fun w w' hcancelled => absurd hcancelled (h.not_cancelled w w')

/-! ## Steps through the graph -/

theorem needsStop_onRun (step : StateM Run α) : NeedsStop (WalkM.onRun step) := fun _ _ h => nomatch h

theorem needsStop_note (entry : Entry) : NeedsStop (WalkM.note entry) := needsStop_onRun _

theorem needsStop_poll : NeedsStop WalkM.poll := by
  intro w w' hcancelled
  by_cases hstopped : w.run.stopped
  · rw [WalkM.poll_of_stopped hstopped] at hcancelled
    cases hcancelled
    exact hstopped
  · rw [WalkM.poll_of_running hstopped] at hcancelled
    cases hcancelled

theorem needsStop_visit : NeedsStop WalkM.visit := fun _ _ h => nomatch h

theorem closedSteps_needsStop : ClosedSteps fun step => NeedsStop step where
  pure := NeedsStop.pure
  bind h hk := h.bind hk
  note := needsStop_note
  ask _ _ _ _ := needsStop_onRun _
  stopIf _ := needsStop_onRun _
  read _ _ := needsStop_onRun _
  form _ _ := needsStop_onRun _
  poll := needsStop_poll
  visit := needsStop_visit

/-! ## Loops -/

section Loops

variable {body : α → WalkM Unit}

theorem needsStop_forM (h : ∀ a, NeedsStop (body a)) (as : List α) : NeedsStop (as.forM body) := by
  induction as with
  | nil => exact NeedsStop.pure ()
  | cons a as ih => exact (h a).bind fun _ => ih

theorem needsStop_forEachStep (h : ∀ a, NeedsStop (body a)) (id : Nat) (endStops : Bool) (index : Nat)
    (steps : List (Step α)) : NeedsStop (forEachStep id endStops body index steps) := by
  induction steps generalizing index with
  | nil => exact needsStop_onRun _
  | cons step steps ih =>
    obtain ⟨outcome, stops⟩ := step
    refine (needsStop_onRun _).bind fun _ => ?_
    cases outcome with
    | ok item => exact (h item).bind fun _ => ih (index + 1)
    | error reason => exact needsStop_note _

theorem needsStop_forEachItem (h : ∀ a, NeedsStop (body a)) (items : Sequence α) :
    NeedsStop (forEachItem items body) := by
  cases items with
  | ready items => exact needsStop_forM h items
  | deferred enumerator =>
    refine (needsStop_onRun _).bind fun answer => ?_
    cases answer with
    | ok enumeration => exact needsStop_forEachStep h enumerator.id enumeration.endStops 0 enumeration.steps
    | error reason => exact needsStop_note _

end Loops

/-! ## Whole values -/

theorem pervades_needsStop (policy : Policy) : Pervades policy (fun _ => True) fun step => NeedsStop step where
  hereditary _ _ _ _ := trivial
  still h := h.needsStop
  bind h hk := h.bind hk
  poll := needsStop_poll
  visit := needsStop_visit
  promote h h' := by
    refine NeedsStop.get fun w => ?_
    split
    · exact NeedsStop.bind (fun _ _ h => nomatch h) fun _ => h
    · exact h'
  form _ := closedSteps_needsStop.stringForm policy _
  property _ _ hok herror := by
    refine (needsStop_onRun _).bind fun answer => ?_
    cases answer with
    | ok value => exact hok value
    | error reason =>
      obtain ⟨k', hk', hnoted⟩ := herror reason
      rw [hnoted]
      exact (needsStop_note _).bind fun _ => hk'
  elements _ h := needsStop_forEachItem h _
  entries _ h := needsStop_forEachItem h _

/-- Writing a value is cancelled only if a stop has been requested. -/
theorem write_needs_stop (policy : Policy) (value : Value) (name : Option String) (depth : Nat) :
    NeedsStop (write policy value name depth) :=
  (pervades_needsStop policy).write trivial name depth

end GraphMarkup
