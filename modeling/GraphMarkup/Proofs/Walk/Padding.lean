import GraphMarkup.Proofs.Walk.Beside
import GraphMarkup.Proofs.Walk.Outline

/-!
# Decorators that add nothing

* `writeNode_decorated` : a decorator without notes changes nothing about how a value is written, if that is neither null
  nor decorated itself;
* `Value.Padded` : values that differ only in such decorators around some of the values in them;
* `Padded.keepsBase`, `Padded.parallel` : what a walk sees of them;
* `write_eq_of_padded` : such values are written by the same steps.

Around null a decorator is seen, since a null property is written without a value. And around a decorator, or directly
inside of one, it makes a chain, or keeps the other from standing directly around what it decorates.
-/

namespace GraphMarkup

def Value.isDecorator : Value → Bool
  | decorated .. => true
  | _ => false

/-! ## A decorator without notes -/

section

variable {policy : Policy} {inside : Inside} {v : Value}

namespace Value

/-- What is no decorator is its own base, without notes, and no chain. -/
theorem of_not_isDecorator (h : v.isDecorator = false) : v.base = v ∧ v.notes = [] ∧ v.isChain = false := by
  cases v with
  | decorated => cases h
  | null | scalar | enum | list | dict | object => exact ⟨rfl, rfl, rfl⟩

theorem isDecorator_base (v : Value) : v.base.isDecorator = false := by
  cases hbase : v.base with
  | decorated inner notes deserialized => exact (base_ne_decorated v _ _ _ hbase).elim
  | null | scalar | enum | list | dict | object => rfl

theorem isChain_decorated (inner : Value) (notes : List (Property Value)) (deserialized : Bool) :
    (decorated inner notes deserialized).isChain = inner.isDecorator := by
  cases inner <;> rfl

theorem notes_decorated_nil (v : Value) : (decorated v [] false).notes = v.notes := List.append_nil _

theorem properties_decorated_nil (v : Value) : (decorated v [] false).properties = v.properties := by
  rw [properties, properties, base_decorated, notes_decorated_nil]

end Value

theorem writeAsString_decorated (policy : Policy) (inside : Inside) (v : Value) :
    writeAsString policy inside (.decorated v [] false) = writeAsString policy inside v := by
  have hform : stringForm policy (.decorated v [] false) = stringForm policy v :=
    stringForm_decorated (List.forall_mem_nil _) false
  have hleaf : stringLeaf policy (.decorated v [] false) = stringLeaf policy v := by
    rw [stringLeaf, stringLeaf, hform]
    rfl
  funext name depth
  rw [writeAsString, writeAsString, v.notes_decorated_nil, hform, hleaf]
  rfl

theorem writeSelection_decorated (policy : Policy) (inside : Inside) (v : Value) :
    writeSelection policy inside (.decorated v [] false) = writeSelection policy inside v := by
  have hselection : policy.selection (.decorated v [] false) = policy.selection v := by
    rw [Policy.selection, Policy.selection, v.properties_decorated_nil]
    rfl
  funext depth
  rw [writeSelection, writeSelection, hselection]
  rfl

/-- What a decorator without notes makes of a way to write. -/
def Strategy.decorate : Strategy → Strategy
  | .scalar s => .notedScalar [] s
  | .container shape none => .container shape (some ⟨[], false⟩)
  | strategy => strategy

theorem classify_decorated (hnull : v.isNull = false) (hbare : v.isDecorator = false) (depth : Nat) :
    classify policy (.decorated v [] false) depth = (classify policy v depth).decorate := by
  have hleaf : Strategy.leaf? policy.knownTypes (.decorated v [] false) =
      (Strategy.leaf? policy.knownTypes v).map Strategy.decorate := by
    cases v with
    | null => cases hnull
    | scalar s =>
      simp only [Strategy.leaf?]
      split <;> rfl
    | enum | list | dict | object => rfl
    | decorated => cases hbare
  have hrest : Strategy.container? (.decorated v [] false) = (Strategy.container? v).map Strategy.decorate ∧
      Strategy.enumLike? (.decorated v [] false) = (Strategy.enumLike? v).map Strategy.decorate ∧
      Strategy.expansion policy (.decorated v [] false) = Strategy.expansion policy v := by
    cases v with
    | decorated => cases hbare
    | null | scalar | enum | list | dict | object => exact ⟨rfl, rfl, rfl⟩
  have hexpansion : Strategy.expansion policy (.decorated v [] false) = (Strategy.expansion policy v).decorate := by
    rcases Strategy.expansion_eq policy v with h | h <;> rw [hrest.2.2, h] <;> rfl
  unfold classify
  rw [hleaf, hrest.1, hrest.2.1, hexpansion]
  cases Strategy.leaf? policy.knownTypes v with
  | some strategy => rfl
  | none =>
    by_cases hdepth : depth = 0
    · simp only [Option.map_none, if_pos hdepth]
      rfl
    · simp only [Option.map_none, if_neg hdepth]
      cases Strategy.container? v with
      | some strategy => rfl
      | none => cases Strategy.enumLike? v <;> rfl

/-- A decorator without notes is invisible around what is neither null nor decorated. -/
theorem writeNode_decorated (hnull : v.isNull = false) (hbare : v.isDecorator = false) :
    writeNode policy inside (.decorated v [] false) = writeNode policy inside v := by
  funext name depth
  rw [writeNode, writeNode]
  refine bind_congr fun _ => bind_congr fun _ => ?_
  rw [classify_decorated hnull hbare]
  cases classify policy v depth with
  | null | scalar | notedScalar | enumLike => rfl
  | container shape decoration =>
    -- Without notes and without the mark, all that follows the items is what follows them in the bare container.
    cases decoration <;> simp only [Strategy.decorate, writeContainer, writeSelection_decorated] <;> rfl
  | asString => exact congrFun (congrFun (writeAsString_decorated policy inside v) name) depth
  | complex =>
    show writeComplex policy inside (.decorated v [] false) name depth = writeComplex policy inside v name depth
    rw [writeComplex_eq, writeComplex_eq]
    cases v with
    | decorated => cases hbare
    | null | scalar | enum | list | dict | object =>
      simp only [writeParts, writeSelection_decorated]
      rfl

end

/-! ## Values that differ in such decorators -/

/-- Values of which the second has decorators without notes around some of the values in the first. These are not null,
not decorators, and not directly inside of one. -/
inductive Value.Padded : Value → Value → Prop
  | null : Value.Padded .null .null
  | scalar (scalar : Scalar) : Value.Padded (.scalar scalar) (.scalar scalar)
  | enum (typeName name : String) (underlying : Scalar) :
    Value.Padded (.enum typeName name underlying) (.enum typeName name underlying)
  | list (kind : ListKind) (typeName : Option String) {elements elements' : Sequence Value}
    {properties properties' : List (Property Value)} (helements : elements.Rel Value.Padded elements')
    (hproperties : List.Forall₂ (Property.Rel Value.Padded) properties properties') :
    Value.Padded (.list kind typeName elements properties) (.list kind typeName elements' properties')
  | dict (typeName : Option String) {entries entries' : Sequence (Value × Value)}
    (hentries : entries.Rel (EntryRel Value.Padded) entries') :
    Value.Padded (.dict typeName entries) (.dict typeName entries')
  | object (typeName : String) (display : Option (Fetch String)) {properties properties' : List (Property Value)}
    (hproperties : List.Forall₂ (Property.Rel Value.Padded) properties properties') :
    Value.Padded (.object typeName properties display) (.object typeName properties' display)
  | decorated (deserialized : Bool) {inner inner' : Value} {notes notes' : List (Property Value)}
    (hinner : Value.Padded inner inner') (hbare : inner.isDecorator = inner'.isDecorator)
    (hnotes : List.Forall₂ (Property.Rel Value.Padded) notes notes') :
    Value.Padded (.decorated inner notes deserialized) (.decorated inner' notes' deserialized)
  /-- A decorator without notes, around what is neither null nor a decorator. -/
  | wrapped {v v' : Value} (h : Value.Padded v v') (hnull : v.isNull = false) (hbare : v.isDecorator = false)
    (hbare' : v'.isDecorator = false) : Value.Padded v (.decorated v' [] false)

namespace Value.Padded

variable {v v' : Value} {policy : Policy} {inside inside' : Inside}

/-- Nothing has to be wrapped. -/
theorem refl (v : Value) : Padded v v := by
  have hnodes : RelatesNodes Padded :=
    { null := .null
      scalar := .scalar
      enum := .enum
      list := fun kind typeName _ _ => .list kind typeName
      dict := fun typeName _ => .dict typeName
      object := fun typeName display _ => .object typeName display
      decorated := fun deserialized _ _ hinner hnotes => .decorated deserialized hinner rfl hnotes }
  exact hnodes.refl v

/-! ### What a walk sees of them -/

/-- Unless the outermost value is wrapped, the two have one outline. -/
theorem outline (h : Padded v v') (hsame : v.isDecorator = v'.isDecorator) : v.Outline Padded v' := by
  cases h with
  | null => exact .null
  | scalar scalar => exact .scalar scalar
  | enum typeName name underlying => exact .enum typeName name underlying
  | list kind typeName helements hproperties => exact .list kind typeName helements hproperties
  | dict typeName hentries => exact .dict typeName hentries
  | object typeName display => exact .object typeName display _ _
  | decorated deserialized hinner _ hnotes => exact .decorated deserialized hinner hnotes
  | wrapped _ _ hbare => cases hbare.symm.trans hsame

theorem base (h : Padded v v') : Padded v.base v'.base := by
  fun_induction Value.base v generalizing v' with
  | case1 inner notes deserialized ih =>
    cases h with
    | decorated _ hinner =>
      have hbase := ih hinner
      exact hbase
    | wrapped _ _ hbare => cases hbare
  | case2 v hv =>
    have hself := h
    cases h with
    | decorated => exact absurd rfl (hv _ _ _)
    | wrapped h _ _ hbare' => rwa [base_decorated, (of_not_isDecorator hbare').1]
    | null | scalar | enum | list | dict | object => exact hself

theorem notes (h : Padded v v') : List.Forall₂ (Property.Rel Padded) v.notes v'.notes := by
  fun_induction Value.notes v generalizing v' with
  | case1 inner notes deserialized ih =>
    cases h with
    | decorated _ hinner _ hnotes => exact List.rel_append (ih hinner) hnotes
    | wrapped _ _ hbare => cases hbare
  | case2 v hv =>
    cases h with
    | decorated => exact absurd rfl (hv _ _ _)
    | wrapped _ _ _ hbare' =>
      rw [notes_decorated_nil, (of_not_isDecorator hbare').2.1]
      exact .nil
    | null | scalar | enum | list | dict | object => exact .nil

theorem isDecorator_base_eq (v v' : Value) : v.base.isDecorator = v'.base.isDecorator :=
  v.isDecorator_base.trans v'.isDecorator_base.symm

theorem keepsBase : KeepsBase Padded where
  isNull _ _ h := by
    cases h with
    | wrapped _ hnull => exact hnull
    | null | scalar | enum | list | dict | object | decorated => rfl
  isChain _ _ h := by
    cases h with
    | decorated _ _ hbare => rwa [isChain_decorated, isChain_decorated]
    | wrapped _ _ hbare hbare' => rw [isChain_decorated, hbare', (of_not_isDecorator hbare).2.2]
    | null | scalar | enum | list | dict | object => rfl
  base _ _ h := h.base
  outline v v' h := h.base.outline (isDecorator_base_eq v v')
  notes _ _ h := h.notes

theorem parallel (h : Padded v v') (hsame : v.isDecorator = v'.isDecorator) : v.Parallel Padded v' where
  outline := h.outline hsame
  inner := by
    rintro inner inner' notes notes' deserialized deserialized' rfl rfl
    cases h with
    | decorated _ hinner hbare => exact hinner.outline hbare
    | wrapped _ _ hbare => cases hbare

/-- The properties of both correspond. -/
theorem properties (h : Padded v v') : List.Forall₂ (Property.Rel Padded) v.properties v'.properties := by
  refine List.rel_append ?_ h.notes
  have hsame := isDecorator_base_eq v v'
  have hbase := h.base
  generalize v.base = base, v'.base = base' at hbase hsame ⊢
  cases hbase with
  | list _ _ _ hproperties => exact hproperties
  | object _ _ hproperties => exact hproperties
  | wrapped _ _ hbare => cases hbare.symm.trans hsame
  | null | scalar | enum | dict | decorated => exact .nil

/-! ### Walks -/

/-- Unless the outermost value is wrapped, the two are written alike. -/
theorem agree_node_of_same (hinside : AgreeInside False Padded inside inside') (h : Padded v v')
    (hsame : v.isDecorator = v'.isDecorator) (name : Option String) (depth : Nat) :
    Agree False (writeNode policy inside v name depth) (writeNode policy inside' v' name depth) := by
  have hselection : Agree False (writeSelection policy inside v depth) (writeSelection policy inside' v' depth) :=
    agree_selection keepsBase.keepsMake hinside h (selection_rel keepsBase.keepsMake h h.properties)
  have hparts : Agree False (writeParts policy inside v depth) (writeParts policy inside' v' depth) :=
    keepsBase.agree_parts hinside (h.parallel hsame) (fun _ => hselection)
      fun _ => .inl (agree_promoted keepsBase hinside h hselection)
  exact keepsBase.agree_node hinside h (h.parallel hsame) (keepsBase.sourceProperty?_rel h fun _ => h.properties)
    (fun _ => hparts) name

/-- The outermost decorator is invisible, if it is one without notes. -/
theorem agree_node (hinside : AgreeInside False Padded inside inside') (h : Padded v v') (name : Option String)
    (depth : Nat) : Agree False (writeNode policy inside v name depth) (writeNode policy inside' v' name depth) := by
  by_cases hsame : v.isDecorator = v'.isDecorator
  · exact h.agree_node_of_same hinside hsame name depth
  · -- The second value is wrapped, around one that is related to the first and has no decorator either.
    cases h with
    | @wrapped _ v' h hnull hbare hbare' =>
      rw [writeNode_decorated ((keepsBase.isNull h).symm.trans hnull) hbare']
      exact h.agree_node_of_same hinside (hbare.trans hbare'.symm) name depth
    | null | scalar | enum | list | dict | object | decorated => exact absurd rfl hsame

end Value.Padded

/-! ## Whole values -/

/-- A decorator without notes is invisible: values that differ in nothing but such decorators around some values in them,
which are neither null nor decorators nor directly inside of one, are written by the same steps, from any state. -/
theorem write_eq_of_padded (policy : Policy) {v v' : Value} (h : v.Padded v') : write policy v = write policy v' := by
  have hagree : AgreeInside False Value.Padded (write policy) (write policy) :=
    agree_write_of_node fun inside inside' hinside v v' h => h.agree_node hinside
  funext name depth w
  rcases hagree v v' h name depth w with ⟨hsame, -⟩ | ⟨hexcused, -⟩
  · exact hsame
  · exact hexcused.elim

/-- A garage whose cars are computed, by a getter that fails at first, with a table of prices and a note on its owner: it
makes no difference whether the garage, the list of cars, a car in it, a key and a price, and the value of the note are
in decorators of their own. -/
theorem write_eq_of_padded_garage :
    ∃ (policy : Policy) (garage padded : Value),
      policy = ({} : Policy).withHints "Garage" { depth := some 2, stringSource := some "cars" } ∧
      garage = .object "Garage"
        [⟨"cars", none, .deferred ⟨1, .error "busy", [.ok (.list .queue none
            (.ready [.object "Car" [] none]) [])], some 2⟩⟩,
          ⟨"prices", none, .ready (.dict none (.ready [(.scalar (.string "day"), .enum "Price" "High" (.string "9"))]))⟩,
          ⟨"owner", none, .ready (.decorated (.object "Owner" [] none)
            [⟨"age", none, .ready (.scalar (.string "40"))⟩] true)⟩] none ∧
      padded = .decorated (.object "Garage"
        [⟨"cars", none, .deferred ⟨1, .error "busy", [.ok (.decorated (.list .queue none
            (.ready [.decorated (.object "Car" [] none) [] false]) []) [] false)], some 2⟩⟩,
          ⟨"prices", none, .ready (.dict none (.ready [(.decorated (.scalar (.string "day")) [] false,
            .decorated (.enum "Price" "High" (.string "9")) [] false)]))⟩,
          ⟨"owner", none, .ready (.decorated (.object "Owner" [] none)
            [⟨"age", none, .ready (.decorated (.scalar (.string "40")) [] false)⟩] true)⟩] none) [] false ∧
      garage.Padded padded ∧ write policy garage = write policy padded := by
  have hcar : Value.Padded (.object "Car" [] none) (.decorated (.object "Car" [] none) [] false) :=
    .wrapped (.refl _) rfl rfl rfl
  have hcars : Value.Padded (.list .queue none (.ready [.object "Car" [] none]) [])
      (.decorated (.list .queue none (.ready [.decorated (.object "Car" [] none) [] false]) []) [] false) :=
    .wrapped (.list .queue none (.ready (.cons hcar .nil)) .nil) rfl rfl rfl
  have hprices := Value.Padded.dict none (.ready (.cons
    (.intro (.wrapped (.refl (.scalar (.string "day"))) rfl rfl rfl)
      (.wrapped (.refl (.enum "Price" "High" (.string "9"))) rfl rfl rfl)) .nil))
  have howner := Value.Padded.decorated true (.refl (.object "Owner" [] none)) rfl
    (.cons (.intro "age" none (.ready (.wrapped (.refl (.scalar (.string "40"))) rfl rfl rfl))) .nil)
  have hgarage := Value.Padded.wrapped (.object "Garage" none
    (.cons (.intro "cars" none (.deferred (.intro 1 (some 2) (.error "busy") (.cons (.ok hcars) .nil))))
      (.cons (.intro "prices" none (.ready hprices)) (.cons (.intro "owner" none (.ready howner)) .nil)))) rfl rfl rfl
  exact ⟨_, _, _, rfl, rfl, rfl, hgarage, write_eq_of_padded _ hgarage⟩

end GraphMarkup
