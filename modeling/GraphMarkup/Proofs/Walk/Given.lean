import GraphMarkup.Proofs.Walk.Grammar
import GraphMarkup.Proofs.Walk.Pruning

/-!
# Walks whose outcome is known

* `GivesInside` : a way to grow things that gives one thing inside the first element of a walk;
* `GivesElement` : a way to grow an element under a name, which is known but for the tag;
* `givesElement_text`, `GivesInside.around` : elements with text, and with what stands inside them;
* `Gives.then` : a step in front that gives the same everywhere.

The tag of an element depends on whether that of items is still due when it begins. All else does not.
-/

namespace GraphMarkup

variable {α β : Type} {policy : Policy}

/-- A way to grow things that gives one thing from every state inside the first element of a walk. -/
def GivesInside (a : α) (give : WalkM α) : Prop :=
  ∀ w : Walker, w.Underway → ∃ w', give w = .ok a w' ∧ w'.Underway

theorem givesInside_pure (a : α) : GivesInside a (pure a) := fun w hw => ⟨w, rfl, hw⟩

theorem GivesInside.bind {a : α} {b : β} {give : WalkM α} {k : α → WalkM β} (h : GivesInside a give)
    (hk : GivesInside b (k a)) : GivesInside b (give >>= k) := by
  intro w hw
  obtain ⟨w₁, hgive, hw₁⟩ := h w hw
  obtain ⟨w₂, hrest, hw₂⟩ := hk w₁ hw₁
  exact ⟨w₂, (bind_of_ok hgive).trans hrest, hw₂⟩

theorem Gives.inside {a : α} {step : WalkM α} (h : Gives a step) : GivesInside a step := by
  intro w hw
  obtain ⟨w', hstep, hw', hdue⟩ := h w hw.running
  exact ⟨w', hstep, hw', hdue.trans hw.tagged⟩

theorem GivesInside.join {es fs : List Element} {give give' : WalkM (List Element)} (h : GivesInside es give)
    (h' : GivesInside fs give') : GivesInside (es ++ fs) (do return (← give) ++ (← give')) :=
  h.bind (h'.bind (givesInside_pure _))

/-- A way to grow an element under a name, or under none, that gives the same element but for the tag, from every state
in which an element of the name can begin. -/
def GivesElement (policy : Policy) (name : Option String) (e : String → Element) (give : WalkM Element) : Prop :=
  ∀ w : Walker, ¬ w.run.stopped → (name ≠ none → w.itemTagDue = false) →
    ∃ w', give w = .ok (e (if w.itemTagDue then policy.names.object else policy.names.property)) w' ∧ w'.Underway

variable {name : Option String} {e : String → Element}

/-- A step in front of an element that gives the same everywhere. -/
theorem Gives.then {a : α} {step : WalkM α} {k : α → WalkM Element} (h : Gives a step)
    (hk : GivesElement policy name e (k a)) : GivesElement policy name e (step >>= k) := by
  intro w hw hname
  obtain ⟨w₁, hstep, hw₁, hdue⟩ := h w hw
  obtain ⟨w₂, hrest, hw₂⟩ := hk w₁ hw₁ fun hnamed => hdue.trans (hname hnamed)
  refine ⟨w₂, (bind_of_ok hstep).trans ?_, hw₂⟩
  rw [hrest, hdue]

theorem givesElement_text (policy : Policy) (name typeName : Option String) (text : String) :
    GivesElement policy name
      (fun tag => { tag, attributes := nameAttributes policy name ++ typeAttributes policy typeName, text := some text })
      (growText policy name typeName text) :=
  fun _ hw hname => ⟨_, growText_eq policy typeName text hname, hw, rfl⟩

/-- What stands inside an element is given there. -/
theorem GivesInside.around {children : List Element} {give : WalkM (List Element)} (h : GivesInside children give)
    (policy : Policy) (name typeName : Option String) :
    GivesElement policy name
      (fun tag => { tag, attributes := nameAttributes policy name ++ typeAttributes policy typeName, children })
      (growAround policy name typeName give) := by
  intro w hw hname
  obtain ⟨w', hgive, hw'⟩ := h { w with itemTagDue := false } ⟨hw, rfl⟩
  exact ⟨w', growAround_eq policy typeName hname hgive, hw'⟩

/-- Inside the first element of a walk every element has the tag of properties. -/
theorem GivesElement.inside {give : WalkM Element} (h : GivesElement policy name e give) :
    GivesInside (e policy.names.property) give := by
  intro w hw
  obtain ⟨w', hgive, hw'⟩ := h w hw.running fun _ => hw.tagged
  rw [hw.tagged] at hgive
  exact ⟨w', hgive, hw'⟩

theorem GivesElement.one {give : WalkM Element} (h : GivesElement policy name e give) :
    GivesInside [e policy.names.property] (do return [← give]) :=
  h.inside.bind (givesInside_pure _)

end GraphMarkup
