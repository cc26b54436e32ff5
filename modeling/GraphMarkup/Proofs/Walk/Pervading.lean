import GraphMarkup.Proofs.Graph.Hereditary
import GraphMarkup.Proofs.Walk.Still
import GraphMarkup.Walk.Levels

/-!
# Properties of the steps of a walk

* `Pervades` : a property of steps that holds of whatever a walk over values of a kind is made of;
* `Pervades.node` : it holds of writing a value of the kind if it does of writing what is inside;
* `Pervades.write` : so it holds of writing any value of the kind.

The ways to write a value are gone through once, here. A request is taken together with what follows it, so that a
property can tie an answer to what is noted of it.
-/

namespace GraphMarkup

variable {α β : Type}

/-- A property of steps that holds of the steps of walks over values of a kind, and goes from the parts of a walk to what
is made of them. The values directly inside one of the kind are of the kind as well. -/
structure Pervades (policy : Policy) (Kind : Value → Prop) (Step : {α : Type} → WalkM α → Prop) : Prop where
  hereditary : Value.Hereditary Kind
  still : ∀ {α : Type} {step : WalkM α}, Still step → Step step
  bind : ∀ {α β : Type} {step : WalkM α} {k : α → WalkM β}, Step step → (∀ a, Step (k a)) → Step (step >>= k)
  poll : Step WalkM.poll
  visit : Step WalkM.visit
  promote : ∀ {step step' : WalkM Unit}, Step step → Step step' → Step do
    if (← get).promotionDue then
      modify fun w => { w with promotionDue := false }
      step
    else
      step'
  form : ∀ {v : Value}, Kind v → Step (stringForm policy v)
  property : ∀ {v : Value} {p : Property Value} {k : Except String Value → WalkM Unit}, Kind v → p ∈ v.properties →
    (∀ c, Step (k (.ok c))) →
    (∀ reason, ∃ k', Step k' ∧ k (.error reason) = do WalkM.note (.mended (.property p.name reason)); k') →
    Step (WalkM.onRun (p.value.read (.property p.name)) >>= k)
  elements : ∀ {kind : ListKind} {typeName : Option String} {elements : Sequence Value}
    {properties : List (Property Value)} {body : Value → WalkM Unit}, Kind (.list kind typeName elements properties) →
    (∀ c, Step (body c)) → Step (forEachItem elements body)
  entries : ∀ {typeName : Option String} {entries : Sequence (Value × Value)} {body : Value × Value → WalkM Unit},
    Kind (.dict typeName entries) → (∀ entry, Step (body entry)) → Step (forEachItem entries body)

namespace Pervades

variable {policy : Policy} {Kind : Value → Prop} {Step : {α : Type} → WalkM α → Prop} {inside : Inside} {v : Value}
  {depth : Nat}

section

variable (pervades : Pervades policy Kind Step)

include pervades

theorem around {step : WalkM Unit} (h : Step step) (name typeName : Option String) :
    Step (writeAround policy name typeName step) :=
  pervades.bind (pervades.still (still_openNode policy name)) fun _ =>
    pervades.bind (pervades.still (still_writeType policy typeName)) fun _ =>
      pervades.bind h fun _ => pervades.still (still_put _)

theorem leaf (hv : Kind v) : Step (stringLeaf policy v) := by
  unfold stringLeaf
  split
  · exact pervades.still (Still.pure _)
  · exact pervades.bind (pervades.form hv) fun _ => pervades.still (Still.pure _)

variable (hv : Kind v) (h : ∀ c name depth, Step (inside c name depth))

include hv h

/-! ## Properties -/

theorem oneProperty {p : Property Value} (hp : p ∈ v.properties) (depth : Nat) :
    Step (writeProperty policy inside depth p) := by
  have hempty : Step (writeEmptyProperty policy p) := pervades.still (still_writeEmptyProperty policy p)
  refine pervades.bind pervades.poll fun _ => pervades.property hv hp (fun value => ?_) fun reason => ⟨_, hempty, rfl⟩
  by_cases hnull : value.isNull
  · simp only [if_pos hnull]
    exact hempty
  · simp only [if_neg hnull]
    exact h value (some p.name) depth

theorem properties {ps : List (Property Value)} (hps : ∀ p ∈ ps, p ∈ v.properties) (depth : Nat) :
    Step (writeProperties policy inside depth ps) := by
  unfold writeProperties
  induction ps with
  | nil => exact pervades.still (Still.pure ())
  | cons p ps ih =>
    obtain ⟨hp, hps⟩ := List.forall_mem_cons.1 hps
    exact pervades.bind (pervades.oneProperty hv h hp (depth - 1)) fun _ => ih hps

theorem notes {ps : List (Property Value)} (hps : ∀ p ∈ ps, p ∈ v.notes) (depth : Nat) :
    Step (writeProperties policy inside depth ps) :=
  pervades.properties hv h (fun p hp => List.mem_append_right _ (hps p hp)) depth

theorem selection (depth : Nat) : Step (writeSelection policy inside v depth) :=
  pervades.properties hv h (fun _ hp => Policy.mem_properties_of_mem_selection hp) _

/-! ## The ways to write a value -/

theorem items {shape : Shape} (hshape : v.base.shape? = some shape) (depth : Nat) :
    Step (writeItems policy inside depth shape) := by
  have hbase := pervades.hereditary.base hv
  cases hcase : v.base with
  | list kind typeName elements properties =>
    rw [hcase] at hshape hbase
    obtain rfl := Option.some.inj hshape
    exact pervades.elements hbase fun item => h item none depth
  | dict typeName entries =>
    rw [hcase] at hshape hbase
    obtain rfl := Option.some.inj hshape
    exact pervades.entries hbase fun entry => pervades.bind (h entry.1 _ depth) fun _ => h entry.2 _ depth
  | null | scalar | enum | object | decorated =>
    rw [hcase] at hshape
    cases hshape

theorem container {shape : Shape} {decoration : Option Decoration}
    (hclass : classify policy v depth = .container shape decoration) (name : Option String) :
    Step (writeContainer policy inside v shape decoration name depth) := by
  obtain ⟨hshape, hnotes⟩ := base_and_notes_of_container hclass
  rw [writeContainer_eq]
  refine pervades.around (pervades.bind (pervades.items hv h hshape depth) fun _ => ?_) name _
  split
  · exact pervades.selection hv h _
  · exact pervades.notes hv h (fun p hp => by rwa [hnotes] at hp) depth

theorem notedScalar {notes : List (Property Value)} {scalar : Scalar}
    (hclass : classify policy v depth = .notedScalar notes scalar) (name : Option String) :
    Step (writeNotedScalar policy inside notes scalar name depth) := by
  obtain ⟨deserialized, rfl⟩ := eq_of_classify_eq_notedScalar hclass
  unfold writeNotedScalar
  split
  · exact pervades.still (still_writeScalar policy name scalar)
  · exact pervades.bind (pervades.still (still_openNode policy name)) fun _ =>
      pervades.bind (pervades.still (still_writeType policy _)) fun _ =>
        pervades.bind (pervades.still (still_writeScalar policy none scalar)) fun _ =>
          pervades.bind (pervades.notes hv h (fun _ hp => List.mem_append_right _ hp) depth) fun _ =>
            pervades.still (still_put _)

theorem asString (name : Option String) (depth : Nat) : Step (writeAsString policy inside v name depth) := by
  by_cases hempty : v.notes.isEmpty
  · simp only [writeAsString, if_pos hempty]
    refine pervades.bind (pervades.form hv) fun text => pervades.still ?_
    cases text with
    | some text => exact (still_put _).around policy name _
    | none => exact still_writeNull policy name
  · rw [writeAsString_eq policy inside hempty]
    refine pervades.around (pervades.bind (pervades.leaf hv) fun leaf => ?_) name _
    exact pervades.bind (pervades.still (still_writeLeaf policy leaf)) fun _ => pervades.notes hv h (fun _ hp => hp) depth

theorem promoted (depth : Nat) : Step (writePromoted policy inside v depth) := by
  unfold writePromoted
  split
  · exact pervades.selection hv h depth
  · exact pervades.bind (h _ none depth) fun _ => pervades.notes hv h (fun _ hp => hp) depth

theorem parts (depth : Nat) : Step (writeParts policy inside v depth) := by
  unfold writeParts
  split
  · refine pervades.promote (pervades.promoted hv h depth) (pervades.bind (h _ none depth) fun _ => ?_)
    exact pervades.notes hv h (fun _ hp => List.mem_append_right _ hp) depth
  · exact pervades.selection hv h _

/-- Writing a value has the property if writing what is inside does. -/
theorem node (name : Option String) (depth : Nat) : Step (writeNode policy inside v name depth) := by
  refine pervades.bind pervades.poll fun _ => pervades.bind pervades.visit fun _ => ?_
  cases hclass : classify policy v depth with
  | null => exact pervades.still (still_writeNull policy name)
  | scalar scalar => exact pervades.still (still_writeScalar policy name scalar)
  | notedScalar notes scalar => exact pervades.notedScalar hv h hclass name
  | container shape decoration => exact pervades.container hv h hclass name
  | enumLike _ underlying => exact pervades.still (still_writeScalar policy name underlying)
  | asString => exact pervades.asString hv h name depth
  | complex =>
    simp only [writeComplex_eq]
    exact pervades.around (pervades.parts hv h depth) name _

end

/-! ## Whole values -/

/-- Writing any value of the kind has the property. -/
theorem write (pervades : Pervades policy Kind Step) (hv : Kind v) (name : Option String) (depth : Nat) :
    Step (write policy v name depth) := by
  induction hn : v.height using Nat.strongRecOn generalizing v name depth with
  | ind n ih =>
    -- Only lower values of the kind are written inside, so that anything will do for the others.
    open scoped Classical in
    let inside : Inside := fun c =>
      if c.height < n ∧ Kind c then GraphMarkup.write policy c else fun _ _ => pure ()
    have hinside : ∀ c name depth, Step (inside c name depth) := by
      intro c name depth
      by_cases hc : c.height < n ∧ Kind c
      · simp only [inside, if_pos hc]
        exact ih c.height hc.1 hc.2 name depth rfl
      · simp only [inside, if_neg hc]
        exact pervades.still (Still.pure ())
    have hsame {c : Value} (hlower : c.height < v.height) (hc : Kind c) (name : Option String) (depth : Nat) :
        GraphMarkup.write policy c name depth = inside c name depth := by
      simp only [inside, if_pos (And.intro (hn ▸ hlower) hc)]
    have halike : WrittenAlike policy (GraphMarkup.write policy) inside depth depth v := by
      refine ⟨fun shape hshape c hc name => hsame ?_ ?_ name depth, ?_, fun p hp c hc name => hsame ?_ ?_ name _,
        fun p hp c hc name => hsame ?_ ?_ name _⟩
      · exact Nat.lt_of_lt_of_le (Shape.height_lt_of_mem_results hshape hc) v.height_base_le
      · exact pervades.hereditary _ (pervades.hereditary.base hv) c (Shape.mem_children_of_mem_results hshape hc)
      · rintro inner notes deserialized rfl name
        have hinner := Value.height_inner_lt inner notes deserialized
        have hkind : Kind inner := pervades.hereditary _ hv inner (List.mem_cons_self ..)
        exact ⟨hsame hinner hkind name depth, hsame (Nat.lt_of_le_of_lt inner.height_base_le hinner)
          (pervades.hereditary.base hkind) name depth⟩
      · exact Value.height_lt_of_mem_properties hp hc
      · exact pervades.hereditary.property hv hp hc
      · exact Value.height_lt_of_mem_notes hp hc
      · exact pervades.hereditary.note hv hp hc
    rw [write_eq_writeNode, writeNode_congr rfl halike name]
    exact pervades.node hv hinside name depth

end Pervades

end GraphMarkup
