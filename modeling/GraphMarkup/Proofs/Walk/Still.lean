import GraphMarkup.Proofs.Markup.Fault
import GraphMarkup.Proofs.Walk.Recording

/-!
# Steps that only write markup

* `Still` : a step that leaves everything but the recorder and the tag of the first element alone;
* `Still.bind` : such steps in a row;
* `still_openNode`, `still_writeScalar`, ... : the steps of a walk that put events and do nothing else.
-/

namespace GraphMarkup

variable {α β : Type}

/-- A step that leaves the run, the number of nodes and promotions alone, and is never cancelled. -/
structure Still (step : WalkM α) : Prop where
  run : ∀ w, (endState (step w)).run = w.run
  visited : ∀ w, (endState (step w)).visited = w.visited
  promotionDue : ∀ w, (endState (step w)).promotionDue = w.promotionDue
  not_cancelled : ∀ w w', step w ≠ .error .cancelled w'

namespace Still

theorem pure (a : α) : Still (pure a : WalkM α) :=
  ⟨fun _ => rfl, fun _ => rfl, fun _ => rfl, fun _ _ h => nomatch h⟩

theorem bind {step : WalkM α} {k : α → WalkM β} (h : Still step) (hk : ∀ a, Still (k a)) : Still (step >>= k) := by
  refine ⟨view_endState_bind _ h.run fun a => (hk a).run, view_endState_bind _ h.visited fun a => (hk a).visited,
    view_endState_bind _ h.promotionDue fun a => (hk a).promotionDue, fun w w' hcancelled => ?_⟩
  cases hresult : step w with
  | ok a w₁ =>
    rw [bind_of_ok hresult] at hcancelled
    exact (hk a).not_cancelled w₁ w' hcancelled
  | error e w₁ =>
    rw [bind_of_error hresult] at hcancelled
    cases hcancelled
    exact h.not_cancelled w w' hresult

theorem get {k : Walker → WalkM β} (hk : ∀ w, Still (k w)) : Still (MonadState.get >>= k) :=
  ⟨fun w => (hk w).run w, fun w => (hk w).visited w, fun w => (hk w).promotionDue w,
    fun w w' => (hk w).not_cancelled w w'⟩

end Still

/-! ## Markup -/

theorem still_put (event : Event) : Still (WalkM.put event) := by
  have hview {γ : Type} (view : Walker → γ) (hrecorder : ∀ w r, view { w with recorder := r } = view w) (w : Walker) :
      view (endState (WalkM.put event w)) = view w := by
    unfold WalkM.put
    split <;> exact hrecorder _ _
  refine ⟨hview _ fun _ _ => rfl, hview _ fun _ _ => rfl, hview _ fun _ _ => rfl, fun w w' h => ?_⟩
  unfold WalkM.put at h
  split at h
  · cases h
  · next e r hput =>
    obtain ⟨fault, rfl⟩ := Recorder.put_own event _ _ _ hput
    cases h

variable (policy : Policy)

theorem still_openNode (name : Option String) : Still (openNode policy name) := by
  cases name with
  | some name => exact (still_put _).bind fun _ => still_put _
  | none =>
    refine Still.get fun w => ?_
    by_cases hdue : w.itemTagDue
    · rw [if_pos hdue]
      exact Still.bind ⟨fun _ => rfl, fun _ => rfl, fun _ => rfl, fun _ _ h => nomatch h⟩ fun _ => still_put _
    · rw [if_neg hdue]
      exact still_put _

theorem still_writeType (typeName : Option String) : Still (writeType policy typeName) := by
  unfold writeType
  split
  · split
    · exact still_put _
    · exact Still.pure ()
  · exact Still.pure ()

theorem Still.around {inside : WalkM Unit} (h : Still inside) (name typeName : Option String) :
    Still (writeAround policy name typeName inside) :=
  (still_openNode policy name).bind fun _ => (still_writeType policy typeName).bind fun _ =>
    h.bind fun _ => still_put _

theorem still_writeNull (name : Option String) : Still (writeNull policy name) :=
  (Still.pure ()).around policy name none

theorem still_writeScalar (name : Option String) (scalar : Scalar) : Still (writeScalar policy name scalar) :=
  (still_put _).around policy name _

theorem still_writeEmptyProperty (p : Property Value) : Still (writeEmptyProperty policy p) :=
  (Still.pure ()).around policy (some p.name) (p.typeName? policy.knownTypes)

theorem still_writeLeaf (leaf : Option Scalar) : Still (writeLeaf policy leaf) := by
  cases leaf with
  | some leaf => exact still_writeScalar policy none leaf
  | none => exact Still.pure ()

end GraphMarkup
