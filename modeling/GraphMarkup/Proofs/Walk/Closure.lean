import GraphMarkup.Proofs.Walk.Growth

/-!
# Properties that go through a walk

* `ClosedSteps` : a property of steps through the graph, which goes on to those that ask for a string form;
* `Closed` : such a property, one of growing an element and one of growing elements in a row, each of which goes from
  the parts of a walk to what is made of them;
* `Closed.node` : they hold of growing the element of a value if they do for the values inside it;
* `Closed.grow` : so they hold of growing the element of any value.

The ways to write a value are gone through once, here. What is left to say of a property is how it fares with an element
that begins, with a text, with what stands inside an element, and with elements in a row.
-/

namespace GraphMarkup

/-- A property of steps through the graph: of those that poll, visit, ask parts or add to the journal, and of such steps
one after another. -/
structure ClosedSteps (Step : {α : Type} → WalkM α → Prop) : Prop where
  pure : ∀ {α : Type} (a : α), Step (pure a)
  bind : ∀ {α β : Type} {step : WalkM α} {k : α → WalkM β}, Step step → (∀ a, Step (k a)) → Step (step >>= k)
  note : ∀ entry, Step (WalkM.note entry)
  ask : ∀ request part failure stops, Step
    (WalkM.onRun (modify fun run => (Run.ask request part failure run).stopIf stops))
  stopIf : ∀ stops, Step (WalkM.onRun (modify (Run.stopIf stops)))
  read : ∀ {α : Type} (f : Fetch α) (request : Request), Step (WalkM.onRun (f.read request))
  form : ∀ (policy : Policy) (value : Value), Step (WalkM.onRun (stringForm? policy value))
  poll : Step WalkM.poll
  visit : Step WalkM.visit

namespace ClosedSteps

variable {Step : {α : Type} → WalkM α → Prop}

theorem stringForm (closed : ClosedSteps Step) (policy : Policy) (value : Value) : Step (stringForm policy value) := by
  refine closed.bind (closed.form policy value) fun text => ?_
  cases text with
  | ok text => exact closed.pure text
  | error reason => exact closed.bind (closed.note _) fun _ => closed.pure none

theorem stringLeaf (closed : ClosedSteps Step) (policy : Policy) (value : Value) : Step (stringLeaf policy value) := by
  unfold GraphMarkup.stringLeaf
  split
  · exact closed.pure _
  · exact closed.bind (closed.stringForm policy value) fun _ => closed.pure _

end ClosedSteps

/-- Properties that hold of the parts of a walk and go from them to what is made of them: `Step` of steps through the
graph, `One` of growing an element under a name or none, and `Row` of growing elements that stand inside another. -/
structure Closed (policy : Policy) (Step : {α : Type} → WalkM α → Prop) (One : Option String → WalkM Element → Prop)
    (Row : WalkM (List Element) → Prop) : Prop extends ClosedSteps Step where
  one_after : ∀ {α : Type} {step : WalkM α} {name : Option String} {k : α → WalkM Element},
    Step step → (∀ a, One name (k a)) → One name (step >>= k)
  row_after : ∀ {α : Type} {step : WalkM α} {k : α → WalkM (List Element)},
    Step step → (∀ a, Row (k a)) → Row (step >>= k)
  cancelled : ∀ name, One name (throw .cancelled)
  absent : ∀ p, One (some p.name) (return emptyProperty policy p)
  text : ∀ name typeName text, One name (growText policy name typeName text)
  around : ∀ {give}, Row give → ∀ name typeName, One name (growAround policy name typeName give)
  nothing : Row (return [])
  one : ∀ {name give}, One name give → Row (do return [← give])
  join : ∀ {give give'}, Row give → Row give' → Row (do return (← give) ++ (← give'))
  promote : ∀ {give give'}, Row give → Row give' → Row do
    if (← get).promotionDue then
      modify fun w => { w with promotionDue := false }
      give
    else
      give'

namespace Closed

variable {policy : Policy} {Step : {α : Type} → WalkM α → Prop} {One : Option String → WalkM Element → Prop}
  {Row : WalkM (List Element) → Prop}

section

variable (closed : Closed policy Step One Row)

include closed

/-! ## Elements in a row -/

theorem cons {name : Option String} {give : WalkM Element} {give' : WalkM (List Element)} (h : One name give)
    (h' : Row give') : Row (do return (← give) :: (← give')) := by
  have hrow := closed.join (closed.one h) h'
  simpa only [bind_assoc, pure_bind, List.singleton_append] using hrow

theorem gather {α : Type} {body : α → WalkM (List Element)} (h : ∀ a, Row (body a)) (as : List α) :
    Row (gather body as) := by
  induction as with
  | nil => exact closed.nothing
  | cons a as ih => exact closed.join (h a) ih

theorem gatherSteps {α : Type} {body : α → WalkM (List Element)} (h : ∀ a, Row (body a)) (id : Nat) (endStops : Bool)
    (index : Nat) (steps : List (GraphMarkup.Step α)) : Row (gatherSteps id endStops body index steps) := by
  induction steps generalizing index with
  | nil => exact closed.row_after (closed.stopIf endStops) fun _ => closed.nothing
  | cons step steps ih =>
    obtain ⟨outcome, stops⟩ := step
    refine closed.row_after (closed.ask _ _ _ stops) fun _ => ?_
    cases outcome with
    | ok item => exact closed.join (h item) (ih (index + 1))
    | error reason => exact closed.row_after (closed.note _) fun _ => closed.nothing

theorem gatherItems {α : Type} {body : α → WalkM (List Element)} (h : ∀ a, Row (body a)) (items : Sequence α) :
    Row (gatherItems items body) := by
  cases items with
  | ready items => exact closed.gather h items
  | deferred enumerator =>
    refine closed.row_after (closed.read (.deferred enumerator) .enumerator) fun answer => ?_
    cases answer with
    | ok enumeration => exact closed.gatherSteps h enumerator.id enumeration.endStops 0 enumeration.steps
    | error reason => exact closed.row_after (closed.note _) fun _ => closed.nothing

/-! ## The ways to write a value -/

theorem scalar (name : Option String) (scalar : Scalar) : One name (growScalar policy name scalar) :=
  closed.text name _ _

theorem null (name : Option String) : One name (growNull policy name) := closed.around closed.nothing name none

theorem leaf (leaf : Option Scalar) : Row (growLeaf policy leaf) := by
  cases leaf with
  | some leaf => exact closed.one (closed.scalar none leaf)
  | none => exact closed.nothing

variable {inside : InsideElement} (h : ∀ value name depth, One name (inside value name depth))

include h

theorem property (depth : Nat) (p : Property Value) : One (some p.name) (growProperty policy inside depth p) := by
  refine closed.one_after closed.poll fun _ => closed.one_after (closed.read p.value _) fun answer => ?_
  cases answer with
  | ok value =>
    by_cases hnull : value.isNull
    · simp only [if_pos hnull]
      exact closed.absent p
    · simp only [if_neg hnull]
      exact h value (some p.name) depth
  | error reason => exact closed.one_after (closed.note _) fun _ => closed.absent p

theorem properties (depth : Nat) (ps : List (Property Value)) : Row (growProperties policy inside depth ps) :=
  closed.gather (fun p => closed.one (closed.property h (depth - 1) p)) ps

theorem selection (value : Value) (depth : Nat) : Row (growSelection policy inside value depth) :=
  closed.properties h _ _

theorem items (depth : Nat) (shape : Shape) : Row (growItems policy inside depth shape) := by
  cases shape with
  | dictionary entries =>
    refine closed.gatherItems (fun entry => ?_) entries
    have hentry := closed.cons (h entry.1 (some policy.names.key) depth)
      (closed.one (h entry.2 (some policy.names.value) depth))
    simpa only [bind_assoc, pure_bind] using hentry
  | list kind elements => exact closed.gatherItems (fun item => closed.one (h item none depth)) elements

theorem contents (value : Value) (shape : Shape) (decoration : Option Decoration) (depth : Nat) :
    Row (growContents policy inside value shape decoration depth) := by
  unfold growContents
  by_cases hwhole : (shape.hasSidecar || decoration.any Decoration.deserialized) = true
  · simp only [if_pos hwhole]
    exact closed.join (closed.items h depth shape) (closed.selection h value depth)
  · simp only [if_neg hwhole]
    exact closed.join (closed.items h depth shape) (closed.properties h depth _)

theorem string (value : Value) (name : Option String) (depth : Nat) :
    One name (growString policy inside value name depth) := by
  unfold growString
  by_cases hempty : value.notes.isEmpty
  · simp only [if_pos hempty]
    refine closed.one_after (closed.stringForm policy value) fun text => ?_
    cases text with
    | some text => exact closed.text name _ text
    | none => exact closed.null name
  · simp only [if_neg hempty]
    refine closed.around (closed.row_after (closed.stringLeaf policy value) fun leaf => ?_) name _
    exact closed.join (closed.leaf leaf) (closed.properties h depth value.notes)

theorem chain (value inner : Value) (notes : List (Property Value)) (depth : Nat) :
    Row (growChain policy inside value inner notes depth) := by
  have hpromoted : Row (growPromoted policy inside value depth) := by
    unfold growPromoted
    split
    · exact closed.selection h value depth
    · exact closed.cons (h _ none depth) (closed.properties h depth value.notes)
  exact closed.promote hpromoted (closed.cons (h inner none depth) (closed.properties h depth notes))

theorem parts (value : Value) (depth : Nat) : Row (growParts policy inside value depth) := by
  unfold growParts
  split
  · exact closed.chain h _ _ _ depth
  · exact closed.selection h _ depth

theorem node (value : Value) (name : Option String) (depth : Nat) :
    One name (growNode policy inside value name depth) := by
  refine closed.one_after closed.poll fun _ => closed.one_after closed.visit fun _ => ?_
  cases classify policy value depth with
  | null => exact closed.null name
  | scalar scalar => exact closed.scalar name scalar
  | notedScalar notes scalar =>
    by_cases hempty : notes.isEmpty
    · simp only [if_pos hempty]
      exact closed.scalar name scalar
    · simp only [if_neg hempty]
      exact closed.around (closed.cons (closed.scalar none scalar) (closed.properties h depth notes)) name _
  | container shape decoration => exact closed.around (closed.contents h value shape decoration depth) name _
  | enumLike _ underlying => exact closed.scalar name underlying
  | asString => exact closed.string h value name depth
  | complex => exact closed.around (closed.parts h value depth) name _

end

/-! ## Whole values -/

theorem within (closed : Closed policy Step One Row) (levels : Nat) (value : Value) (name : Option String)
    (depth : Nat) : One name (growWithin policy levels value name depth) := by
  induction levels generalizing value name depth with
  | zero => exact closed.cancelled name
  | succ levels ih => exact closed.node ih value name depth

/-- A property that goes through walks holds of growing the element of any value. -/
theorem grow (closed : Closed policy Step One Row) (value : Value) (name : Option String) (depth : Nat) :
    One name (grow policy value name depth) :=
  closed.within value.height value name depth

end Closed

end GraphMarkup
