import GraphMarkup.Proofs.Walk.Outcome

/-!
# Names and children of elements

* `Element.Labelled` : an element that begins as that of a value with a given name, or without one, does;
* `Element.Labelled.attribute?_eq` : such an element carries that name;
* `Yields.children` : what stands inside an element;
* `closed_labelled` : the element of a value is labelled with the name that the value is written under.
-/

namespace GraphMarkup

variable {policy : Policy} {name : Option String}

/-- An element that begins as that of a value with a name, or none, does. -/
structure Element.Labelled (policy : Policy) (name : Option String) (e : Element) : Prop where
  tag : e.tag = policy.names.property ∨ (name = none ∧ e.tag = policy.names.object)
  attributes : ∃ typeName, e.attributes = nameAttributes policy name ++ typeAttributes policy typeName

theorem Element.Labelled.attribute?_eq {name : String} {e : Element} (h : e.Labelled policy (some name)) :
    e.attribute? policy.names.nameAttribute = some name := by
  obtain ⟨typeName, hattributes⟩ := h.attributes
  simp [Element.attribute?, hattributes, nameAttributes]

theorem Element.Labelled.tag_eq {name : String} {e : Element} (h : e.Labelled policy (some name)) :
    e.tag = policy.names.property :=
  h.tag.resolve_right fun ⟨hnone, _⟩ => nomatch hnone

theorem labelled_start (policy : Policy) (name typeName : Option String) :
    Yields (Element.Labelled policy name) (growStart policy name typeName) := by
  unfold growStart
  cases name with
  | some name => exact Yields.pure ⟨.inl rfl, typeName, rfl⟩
  | none =>
    refine Yields.get fun w => ?_
    by_cases hdue : w.itemTagDue
    · rw [if_pos hdue]
      exact fun _ => ⟨.inr ⟨rfl, rfl⟩, typeName, rfl⟩
    · rw [if_neg hdue]
      exact Yields.pure ⟨.inl rfl, typeName, rfl⟩

theorem labelled_text (policy : Policy) (name typeName : Option String) (text : String) :
    Yields (Element.Labelled policy name) (growText policy name typeName text) :=
  (labelled_start policy name typeName).bind fun _ hstart => Yields.pure ⟨hstart.tag, hstart.attributes⟩

theorem labelled_around {P : List Element → Prop} {give : WalkM (List Element)} (h : Yields P give)
    (name typeName : Option String) : Yields (Element.Labelled policy name) (growAround policy name typeName give) :=
  (labelled_start policy name typeName).bind fun _ hstart => h.bind fun _ _ =>
    Yields.pure ⟨hstart.tag, hstart.attributes⟩

/-! ## Children -/

theorem yields_text_childless (policy : Policy) (name typeName : Option String) (text : String) :
    Yields (fun e : Element => e.children = []) (growText policy name typeName text) :=
  (yields_start policy name typeName).bind fun _ hstart => Yields.pure hstart.2.2

/-- The children of an element are what stands inside it. -/
theorem Yields.children {P : List Element → Prop} {give : WalkM (List Element)} (h : Yields P give) (policy : Policy)
    (name typeName : Option String) : Yields (fun e : Element => P e.children) (growAround policy name typeName give) :=
  (yields_start policy name typeName).bind fun _ _ => h.bind fun _ hes => Yields.pure hes

theorem yields_null_childless (policy : Policy) (name : Option String) :
    Yields (fun e : Element => e.children = []) (growNull policy name) :=
  Yields.children (P := fun es => es = []) (Yields.pure rfl) policy name none

/-! ## Whole values -/

/-- Being labelled goes through walks, whatever stands inside. -/
theorem closed_labelled (policy : Policy) :
    Closed policy (fun step => Yields (fun _ => True) step) (fun name => Yields (Element.Labelled policy name))
      (Yields fun _ => True) where
  toClosedSteps := closedSteps_yields
  one_after h hk := h.after hk
  row_after h hk := h.after hk
  cancelled _ := Yields.cancelled
  absent p := Yields.pure ⟨.inl rfl, p.typeName? policy.knownTypes, rfl⟩
  text := labelled_text policy
  around h := labelled_around h
  nothing := Yields.pure trivial
  one h := h.bind fun _ _ => Yields.pure trivial
  join h h' := h.after fun _ => h'.after fun _ => Yields.pure trivial
  promote h h' := h.promote h'

end GraphMarkup
