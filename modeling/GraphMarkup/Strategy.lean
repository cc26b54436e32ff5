import GraphMarkup.Graph.Value
import GraphMarkup.Policy

/-!
# How a value is written

* `Strategy` : the ways to write a value;
* `classify` : the way for a value with a given depth left;
* `Strategy.Suits`, `suits_classify` : what a way to write tells about the value.

The rules are tried in order, and the first that applies decides:

1. null, and scalars of a known type, bare or directly decorated;
2. everything else collapses to its string form when no depth is left;
3. dictionaries and lists, bare or directly decorated;
4. named constants, under any decorators;
5. a decorator directly around another is expanded, whatever they wrap;
6. null and scalars are written as their string form, and so are types whose hints ask for it;
7. everything else is expanded property by property.
-/

namespace GraphMarkup

/-- What a container holds. -/
inductive Shape where
  | dictionary (entries : Sequence (Value × Value))
  | list (kind : ListKind) (elements : Sequence Value)

/-- What a decorator adds to the value inside. -/
structure Decoration where
  notes : List (Property Value)
  deserialized : Bool

/-- The ways to write a value. -/
inductive Strategy where
  | null
  | scalar (scalar : Scalar)
  | notedScalar (notes : List (Property Value)) (scalar : Scalar)
  | container (shape : Shape) (decoration : Option Decoration)
  | enumLike (name : String) (underlying : Scalar)
  | asString
  | complex

namespace Value

def shape? : Value → Option Shape
  | list kind _ elements _ => some (.list kind elements)
  | dict _ entries => some (.dictionary entries)
  | _ => none

theorem base_eq_of_shape? {v : Value} {shape : Shape} (h : v.shape? = some shape) : v.base = v ∧ v.notes = [] := by
  cases v with
  | list | dict => exact ⟨rfl, rfl⟩
  | null | scalar | enum | object | decorated => cases h

end Value

namespace Policy

def hintsFor? (policy : Policy) (value : Value) : Option TypeHints :=
  (value.typeName? policy.knownTypes).bind policy.typeHints?

end Policy

namespace Strategy

/-- The way to write what needs no depth. -/
def leaf? (table : TypeTable) : Value → Option Strategy
  | .null => some .null
  | .scalar s => if table.knows s then some (.scalar s) else none
  | .decorated (.scalar s) notes _ => if table.knows s then some (.notedScalar notes s) else none
  | _ => none

def container? : Value → Option Strategy
  | .decorated inner notes deserialized => inner.shape?.map fun shape => .container shape (some ⟨notes, deserialized⟩)
  | value => value.shape?.map fun shape => .container shape none

/-- The way to write a named constant. -/
def enumLike? (value : Value) : Option Strategy :=
  match value.base with
  | .enum _ name underlying => some (.enumLike name underlying)
  | _ => none

/-- Whether the type of a value asks for its string form. -/
def prefersString (policy : Policy) (value : Value) : Bool :=
  match policy.hintsFor? value with
  | some hints => hints.method == .string
  | none => false

/-- The way to write what is neither a leaf nor a container nor a constant. -/
def expansion (policy : Policy) (value : Value) : Strategy :=
  if value.isChain then .complex
  else
    match value.base with
    | .null | .scalar _ => .asString
    | _ => if prefersString policy value then .asString else .complex

end Strategy

def classify (policy : Policy) (value : Value) (depth : Nat) : Strategy :=
  match Strategy.leaf? policy.knownTypes value with
  | some strategy => strategy
  | none =>
    if depth = 0 then .asString
    else ((Strategy.container? value).or (Strategy.enumLike? value)).getD (Strategy.expansion policy value)

/-! ## What a strategy tells about the value -/

section

variable {policy : Policy} {value : Value} {depth : Nat}

namespace Strategy

theorem expansion_eq (policy : Policy) (value : Value) :
    expansion policy value = .complex ∨ expansion policy value = .asString := by
  unfold expansion
  split
  · exact .inl rfl
  · split
    · exact .inr rfl
    · exact .inr rfl
    · split
      · exact .inr rfl
      · exact .inl rfl

/-- The values, with the depth left, that the rules write in a given way. -/
inductive Suits (policy : Policy) (depth : Nat) : Value → Strategy → Prop
  | null : Suits policy depth .null .null
  | scalar (s : Scalar) : Suits policy depth (.scalar s) (.scalar s)
  | notedScalar (s : Scalar) (notes : List (Property Value)) (deserialized : Bool) :
    Suits policy depth (.decorated (.scalar s) notes deserialized) (.notedScalar notes s)
  | collapsed {value : Value} (hdepth : depth = 0) : Suits policy depth value .asString
  | container {value : Value} {shape : Shape} (hdepth : depth ≠ 0) (hshape : value.shape? = some shape) :
    Suits policy depth value (.container shape none)
  | decorated {inner : Value} {shape : Shape} (hdepth : depth ≠ 0) (hshape : inner.shape? = some shape)
    (notes : List (Property Value)) (deserialized : Bool) :
    Suits policy depth (.decorated inner notes deserialized) (.container shape (some ⟨notes, deserialized⟩))
  | enumLike {value : Value} {typeName name : String} {underlying : Scalar} (hdepth : depth ≠ 0)
    (hbase : value.base = .enum typeName name underlying) : Suits policy depth value (.enumLike name underlying)
  | asString {value : Value} (h : expansion policy value = .asString) : Suits policy depth value .asString
  | complex {value : Value} (h : expansion policy value = .complex) : Suits policy depth value .complex

variable {strategy : Strategy}

theorem suits_of_leaf? {table : TypeTable} (h : leaf? table value = some strategy) :
    Suits policy depth value strategy := by
  unfold leaf? at h
  split at h
  · exact Option.some.inj h ▸ .null
  · split at h
    · exact Option.some.inj h ▸ .scalar _
    · cases h
  · split at h
    · exact Option.some.inj h ▸ .notedScalar _ _ _
    · cases h
  · cases h

theorem suits_of_container? (hdepth : depth ≠ 0) (h : container? value = some strategy) :
    Suits policy depth value strategy := by
  unfold container? at h
  split at h
  · next inner notes deserialized =>
    obtain ⟨shape, hshape, rfl⟩ := Option.map_eq_some_iff.1 h
    exact .decorated hdepth hshape notes deserialized
  · obtain ⟨shape, hshape, rfl⟩ := Option.map_eq_some_iff.1 h
    exact .container hdepth hshape

theorem suits_of_enumLike? (hdepth : depth ≠ 0) (h : enumLike? value = some strategy) :
    Suits policy depth value strategy := by
  unfold enumLike? at h
  split at h
  · next hbase => exact Option.some.inj h ▸ .enumLike hdepth hbase
  · cases h

theorem suits_expansion : Suits policy depth value (expansion policy value) := by
  rcases expansion_eq policy value with h | h
  · exact h.symm ▸ .complex h
  · exact h.symm ▸ .asString h

theorem suits_classify (policy : Policy) (value : Value) (depth : Nat) :
    Suits policy depth value (classify policy value depth) := by
  unfold classify
  cases hleaf : leaf? policy.knownTypes value with
  | some strategy => exact suits_of_leaf? hleaf
  | none =>
    by_cases hdepth : depth = 0
    · simp only [if_pos hdepth]
      exact .collapsed hdepth
    · simp only [if_neg hdepth]
      cases hcontainer : container? value with
      | some strategy => exact suits_of_container? hdepth hcontainer
      | none =>
        cases henum : enumLike? value with
        | some strategy => exact suits_of_enumLike? hdepth henum
        | none => exact suits_expansion

theorem suits_of_classify (h : classify policy value depth = strategy) : Suits policy depth value strategy :=
  h ▸ suits_classify policy value depth

end Strategy

open Strategy (suits_of_classify)

/-- Only null is written as null. -/
theorem eq_of_classify_eq_null (h : classify policy value depth = .null) : value = .null := by
  cases suits_of_classify h
  rfl

/-- Only a bare scalar is written as one. -/
theorem eq_of_classify_eq_scalar {scalar : Scalar} (h : classify policy value depth = .scalar scalar) :
    value = .scalar scalar := by
  cases suits_of_classify h
  rfl

/-- Only a scalar directly inside a decorator is written as one with notes. -/
theorem eq_of_classify_eq_notedScalar {notes : List (Property Value)} {scalar : Scalar}
    (h : classify policy value depth = .notedScalar notes scalar) :
    ∃ deserialized, value = .decorated (.scalar scalar) notes deserialized := by
  cases suits_of_classify h with
  | notedScalar _ _ deserialized => exact ⟨deserialized, rfl⟩

/-- Only dictionaries and lists, bare or directly inside a decorator, are written as containers. -/
theorem eq_of_classify_eq_container {shape : Shape} {decoration : Option Decoration}
    (h : classify policy value depth = .container shape decoration) :
    (value.shape? = some shape ∧ decoration = none) ∨
      ∃ inner notes deserialized, value = .decorated inner notes deserialized ∧ inner.shape? = some shape ∧
        decoration = some ⟨notes, deserialized⟩ := by
  cases suits_of_classify h with
  | container _ hshape => exact .inl ⟨hshape, rfl⟩
  | decorated _ hshape notes deserialized => exact .inr ⟨_, notes, deserialized, rfl, hshape, rfl⟩

/-- A container is the base of its value, and its decoration has all the notes. -/
theorem base_and_notes_of_container {shape : Shape} {decoration : Option Decoration}
    (h : classify policy value depth = .container shape decoration) :
    value.base.shape? = some shape ∧ (decoration.map Decoration.notes).getD [] = value.notes := by
  rcases eq_of_classify_eq_container h with ⟨hshape, rfl⟩ | ⟨inner, notes, deserialized, rfl, hshape, rfl⟩
  · obtain ⟨hbase, hnotes⟩ := Value.base_eq_of_shape? hshape
    rw [hbase, hnotes]
    exact ⟨hshape, rfl⟩
  · obtain ⟨hbase, hnotes⟩ := Value.base_eq_of_shape? hshape
    rw [Value.base_decorated, hbase, Value.notes, hnotes]
    exact ⟨hshape, rfl⟩

/-- Only named constants with depth left are written as such. -/
theorem eq_of_classify_eq_enumLike {name : String} {underlying : Scalar}
    (h : classify policy value depth = .enumLike name underlying) :
    depth ≠ 0 ∧ ∃ typeName, value.base = .enum typeName name underlying := by
  cases suits_of_classify h with
  | enumLike hdepth hbase => exact ⟨hdepth, _, hbase⟩

/-- A value that is written property by property is expanded. -/
theorem expansion_of_classify_eq_complex (h : classify policy value depth = .complex) :
    Strategy.expansion policy value = .complex := by
  cases suits_of_classify h with
  | complex h => exact h

namespace Strategy

theorem leaf?_eq_none (table : TypeTable) (hnull : value.base ≠ .null) (hscalar : ∀ s, value.base ≠ .scalar s) :
    leaf? table value = none := by
  unfold leaf?
  split
  · exact absurd rfl hnull
  · exact absurd rfl (hscalar _)
  · exact absurd rfl (hscalar _)
  · rfl

theorem container?_eq_none (hshape : value.base.shape? = none) : container? value = none := by
  unfold container?
  split
  · next inner _ _ => cases inner <;> first | rfl | cases hshape
  · cases value <;> first | rfl | cases hshape

end Strategy

/-- With depth left, a named constant is written as such under any decorators. -/
theorem classify_of_base_eq_enum {typeName name : String} {underlying : Scalar}
    (hbase : value.base = .enum typeName name underlying) (hdepth : depth ≠ 0) :
    classify policy value depth = .enumLike name underlying := by
  have henum : Strategy.enumLike? value = some (.enumLike name underlying) := by
    unfold Strategy.enumLike?
    rw [hbase]
  unfold classify
  rw [Strategy.leaf?_eq_none _ (by simp [hbase]) (by simp [hbase]),
    Strategy.container?_eq_none (by rw [hbase]; rfl), henum]
  exact if_neg hdepth

/-- With depth left, it is only a question of expansion how an object is written, under any decorators. -/
theorem classify_of_base_eq_object {typeName : String} {properties : List (Property Value)}
    {display : Option (Fetch String)} (hbase : value.base = .object typeName properties display) (hdepth : depth ≠ 0) :
    classify policy value depth = Strategy.expansion policy value := by
  have henum : Strategy.enumLike? value = none := by
    unfold Strategy.enumLike?
    rw [hbase]
  unfold classify
  rw [Strategy.leaf?_eq_none _ (by simp [hbase]) (by simp [hbase]),
    Strategy.container?_eq_none (by rw [hbase]; rfl), henum]
  exact if_neg hdepth

/-- An object of a type without hints is expanded. -/
theorem expansion_of_no_hints {typeName : String} {properties : List (Property Value)}
    {display : Option (Fetch String)} (hbase : value.base = .object typeName properties display)
    (hhints : policy.hintsFor? value = none) : Strategy.expansion policy value = .complex := by
  unfold Strategy.expansion Strategy.prefersString
  rw [hbase, hhints]
  exact ite_self _

theorem classify_zero (policy : Policy) (value : Value) :
    classify policy value 0 = (Strategy.leaf? policy.knownTypes value).getD .asString := by
  unfold classify
  cases Strategy.leaf? policy.knownTypes value <;> rfl

/-- As long as there is some depth left, the way to write a value does not depend on how much. -/
theorem classify_eq_of_pos (policy : Policy) (value : Value) {d d' : Nat} (hd : 1 ≤ d) (hd' : 1 ≤ d') :
    classify policy value d = classify policy value d' := by
  unfold classify
  rw [if_neg (Nat.ne_of_gt hd), if_neg (Nat.ne_of_gt hd')]

end

end GraphMarkup
