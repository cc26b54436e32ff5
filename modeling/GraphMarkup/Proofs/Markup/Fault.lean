import GraphMarkup.Markup.Element
import GraphMarkup.Markup.Recorder
import GraphMarkup.Proofs.Markup.Pieces

/-!
# Faults of writers

* `OwnFaults` : a computation that fails only with the faults of a writer;
* `Writer.Own`, `Output.Own` : writers and outputs that fail only with such faults;
* instances for the recorder, for the builder of trees, and for XML text on any output that does so itself
  (`XmlWriter.pieced_ownFaults`).
-/

namespace GraphMarkup

variable {σ α β : Type}

/-- A computation whose errors are all faults of a writer. -/
def OwnFaults (step : EStateM Error σ α) : Prop := ∀ s e s', step s = .error e s' → ∃ fault, e = .writer fault

namespace OwnFaults

theorem pure (a : α) : OwnFaults (pure a : EStateM Error σ α) := fun _ _ _ h => nomatch h

theorem throw (fault : WriterFault) : OwnFaults (throw (.writer fault) : EStateM Error σ α) := by
  intro s e s' h
  cases h
  exact ⟨fault, rfl⟩

theorem modify (f : σ → σ) : OwnFaults (modify f : EStateM Error σ Unit) := fun _ _ _ h => nomatch h

theorem bind {step : EStateM Error σ α} {k : α → EStateM Error σ β} (h : OwnFaults step)
    (hk : ∀ a, OwnFaults (k a)) : OwnFaults (step >>= k) := by
  intro s e s' hs
  cases hstep : step s with
  | ok a s₁ =>
    rw [bind_of_ok hstep] at hs
    exact hk a s₁ e s' hs
  | error e₁ s₁ =>
    rw [bind_of_error hstep] at hs
    cases hs
    exact h s e s' hstep

theorem get {k : σ → EStateM Error σ β} (hk : ∀ s, OwnFaults (k s)) : OwnFaults (MonadState.get >>= k) :=
  fun s e s' h => hk s s e s' h

theorem ite {c : Prop} [Decidable c] {step step' : EStateM Error σ α} (h : OwnFaults step) (h' : OwnFaults step') :
    OwnFaults (if c then step else step') := by
  by_cases hc : c
  · rwa [if_pos hc]
  · rwa [if_neg hc]

end OwnFaults

/-- A writer that fails only with faults of its own. -/
class Writer.Own (ω : Type) [Writer ω] : Prop where
  put : ∀ event, OwnFaults (Writer.put event : EStateM Error ω Unit)

/-- An output that fails only with faults of a writer. -/
class Output.Own (ο : Type) [Output ο] : Prop where
  write : ∀ piece, OwnFaults (Output.write piece : EStateM Error ο Unit)

theorem Writer.replay_own {ω : Type} [Writer ω] [Writer.Own ω] (events : List Event) :
    OwnFaults (Writer.replay events : EStateM Error ω Unit) := by
  induction events with
  | nil => exact OwnFaults.pure ()
  | cons event events ih => exact (Writer.Own.put event).bind fun _ => ih

/-! ## Recorders and trees -/

theorem Recorder.put_own (event : Event) : OwnFaults (Recorder.put event) := by
  intro r e r' h
  cases event with
  | openElement tag => cases h
  | attr name value =>
    by_cases hstart : r.inStartTag
    · simp only [put, if_pos hstart] at h
      cases h
    · simp only [put, if_neg hstart] at h
      cases h
      exact ⟨_, rfl⟩
  | text _ | closeElement =>
    by_cases hdepth : r.depth = 0
    · simp only [put, if_pos hdepth] at h
      cases h
      exact ⟨_, rfl⟩
    · simp only [put, if_neg hdepth] at h
      cases h

instance : Writer.Own Recorder := ⟨Recorder.put_own⟩

theorem TreeBuilder.put_own (event : Event) : OwnFaults (TreeBuilder.put event) := by
  intro b e b' h
  obtain ⟨stack, roots⟩ := b
  cases event with
  | openElement tag => cases h
  | attr name value =>
    cases stack with
    | nil =>
      cases h
      exact ⟨_, rfl⟩
    | cons first rest =>
      by_cases hempty : first.isEmpty
      · simp only [put, if_pos hempty] at h
        cases h
      · simp only [put, if_neg hempty] at h
        cases h
        exact ⟨_, rfl⟩
  | text content =>
    cases stack with
    | nil =>
      cases h
      exact ⟨_, rfl⟩
    | cons first rest => cases h
  | closeElement =>
    cases stack with
    | nil =>
      cases h
      exact ⟨_, rfl⟩
    | cons first rest => cases rest <;> cases h

instance : Writer.Own TreeBuilder := ⟨TreeBuilder.put_own⟩

/-! ## XML text -/

instance : Output.Own String := ⟨fun piece => OwnFaults.modify (· ++ piece)⟩

theorem Sink.write_own (piece : String) : OwnFaults (Sink.write piece) := by
  intro sink e sink' h
  cases hroom : sink.room with
  | none =>
    simp only [write, hroom] at h
    cases h
  | some room =>
    by_cases hfits : piece.toUTF8.size ≤ room
    · simp only [write, hroom, if_pos hfits] at h
      cases h
    · simp only [write, hroom, if_neg hfits] at h
      cases h
      exact ⟨_, rfl⟩

instance : Output.Own Sink := ⟨Sink.write_own⟩

/-- An XML writer fails only with faults of its own and of its output. -/
theorem XmlWriter.pieced_ownFaults (ο : Type) [Output ο] [Output.Own ο] :
    Pieced fun {α : Type} (step : EStateM Error (XmlWriter ο) α) => OwnFaults step where
  pure := OwnFaults.pure
  throw := OwnFaults.throw
  bind h hk := h.bind hk
  look _ hk := OwnFaults.get hk
  change _ := OwnFaults.modify _
  emit piece := by
    intro w e w' h
    cases hwrite : Output.write piece w.out with
    | ok _ out =>
      rw [XmlWriter.emit_of_ok hwrite] at h
      cases h
    | error e₁ out =>
      rw [XmlWriter.emit_of_error hwrite] at h
      cases h
      exact Output.Own.write piece _ _ _ hwrite

instance {ο : Type} [Output ο] [Output.Own ο] : Writer.Own (XmlWriter ο) := ⟨(XmlWriter.pieced_ownFaults ο).put⟩

end GraphMarkup
