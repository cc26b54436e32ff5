import GraphMarkup.Proofs.Graph.Items
import GraphMarkup.Walk.Node
import Mathlib.Data.List.Find

/-!
# What stands in an element

* `Value.shell` : what is left of a value when all that is inside is taken out;
* `Node`, `Value.node` : a value taken apart into its shell, its items, its properties and its notes, or anything else in
  the place of these parts;
* `Child`, `Body`, `Node.body` : what stands in the element of a value;
* `Node.body_map`, `Node.Each.body` : parts go into the body as they are, and nothing else does;
* `Value.body`, `body_of_asString`, ... : the body of a value that is no chain, by the way in which it is written.

How a value is written depends on its shell and on the names of its properties. So a value with other parts of the same
names has them in the same places of its element.
-/

namespace GraphMarkup

variable {α β γ δ : Type}

/-! ## What is left without anything inside -/

namespace Value

/-- What is left of a value when all that is inside is taken out. -/
def shell : Value → Value
  | null => null
  | scalar s => scalar s
  | enum typeName name underlying => enum typeName name underlying
  | list kind typeName _ _ => list kind typeName (.ready []) []
  | dict typeName _ => dict typeName (.ready [])
  | object typeName _ display => object typeName [] display
  | decorated inner _ deserialized => decorated inner.shell [] deserialized

/-- Whether the outermost decorator, if there is one, holds something rebuilt from an earlier serialization. -/
def isDeserialized : Value → Bool
  | decorated _ _ deserialized => deserialized
  | _ => false

/-- The string form of a value of which it is at hand or known to be missing. -/
def formText? (policy : Policy) (v : Value) : Option String :=
  match v.base with
  | null | decorated .. => none
  | scalar s => some (policy.knownTypes.textOf s)
  | enum _ name _ => some name
  | list .. | dict .. => v.typeName? policy.knownTypes
  | object typeName _ display =>
    match display with
    | none => some typeName
    | some text => text.ready?

/-- The scalar that stands for a value next to its notes. -/
def formLeaf? (policy : Policy) (v : Value) : Option Scalar :=
  match v.base with
  | scalar s => some s
  | _ => (v.formText? policy).map .string

variable (policy : Policy) (v : Value)

@[simp] theorem base_shell : v.shell.base = v.base.shell := by
  fun_induction base v with
  | case1 inner notes deserialized ih => exact ih
  | case2 value hplain =>
    cases value with
    | decorated inner notes deserialized => exact absurd rfl (hplain inner notes deserialized)
    | null | scalar | enum | list | dict | object => rfl

@[simp] theorem isNull_shell : v.shell.isNull = v.isNull := by
  cases v <;> rfl

@[simp] theorem isChain_shell : v.shell.isChain = v.isChain := by
  cases v with
  | decorated v notes deserialized => cases v <;> rfl
  | null | scalar | enum | list | dict | object => rfl

@[simp] theorem isDeserialized_shell : v.shell.isDeserialized = v.isDeserialized := by
  cases v <;> rfl

@[simp] theorem typeName?_shell (table : TypeTable) : v.shell.typeName? table = v.typeName? table := by
  rw [typeName?, typeName?, base_shell]
  cases v.base <;> rfl

@[simp] theorem formText?_shell : v.shell.formText? policy = v.formText? policy := by
  rw [formText?, formText?, base_shell, typeName?_shell]
  cases v.base <;> rfl

@[simp] theorem formLeaf?_shell : v.shell.formLeaf? policy = v.formLeaf? policy := by
  rw [formLeaf?, formLeaf?, base_shell, formText?_shell]
  cases v.base <;> rfl

@[simp] theorem hintsFor?_shell : policy.hintsFor? v.shell = policy.hintsFor? v := by
  rw [Policy.hintsFor?, Policy.hintsFor?, typeName?_shell]

@[simp] theorem depthFor_shell (depth : Nat) : policy.depthFor v.shell depth = policy.depthFor v depth := by
  rw [Policy.depthFor, Policy.depthFor, hintsFor?_shell]

@[simp] theorem prefersString_shell : Strategy.prefersString policy v.shell = Strategy.prefersString policy v := by
  rw [Strategy.prefersString, Strategy.prefersString, hintsFor?_shell]

end Value

/-! ## What stands in an element -/

/-- A value taken apart: what is left without anything inside, the items with the names that they are written under, the
properties of the base, and the notes. -/
structure Node (α β : Type) where
  shell : Value
  items : List (Option String × α) := []
  own : List β := []
  notes : List β := []

/-- Something that is written inside an element: a scalar in front of notes, something under a name or none with a depth
left, or a property with the depth left for its value. -/
inductive Child (α β : Type) where
  | leaf (scalar : Scalar)
  | value (name : Option String) (depth : Nat) (value : α)
  | property (depth : Nat) (property : β)

/-- What stands in an element with a type name: a text, or what is written inside. -/
inductive Body (α β : Type) where
  | text (typeName : Option String) (text : String)
  | inside (typeName : Option String) (children : List (Child α β))

/-- Parts that are all of one sort. -/
def Node.Each (P : α → Prop) (R : β → Prop) (n : Node α β) : Prop :=
  (∀ item ∈ n.items, P item.2) ∧ ∀ p ∈ n.own ++ n.notes, R p

def Child.Each (P : α → Prop) (R : β → Prop) : Child α β → Prop
  | leaf _ => True
  | value _ _ a => P a
  | property _ p => R p

def Body.children : Body α β → List (Child α β)
  | text .. => []
  | inside _ children => children

section

variable (f : α → γ) (g : β → δ)

def Node.map (n : Node α β) : Node γ δ :=
  { shell := n.shell, items := n.items.map (Prod.map id f), own := n.own.map g, notes := n.notes.map g }

def Child.map : Child α β → Child γ δ
  | leaf s => leaf s
  | value name depth a => value name depth (f a)
  | property depth p => property depth (g p)

def Body.map : Body α β → Body γ δ
  | text typeName t => text typeName t
  | inside typeName children => inside typeName (children.map (Child.map f g))

end

namespace Node

variable (policy : Policy) (label : β → String) (depth : Nat) (n : Node α β)

/-- The properties and notes to write: for a type with a selection the first of each name in it, and all otherwise. -/
def selection : List β :=
  match (policy.hintsFor? n.shell).map TypeHints.method with
  | some (.properties names) => names.filterMap fun name => (n.own ++ n.notes).find? fun p => label p == name
  | _ => n.own ++ n.notes

def selected : List (Child α β) := (n.selection policy label).map (.property (policy.depthFor n.shell depth - 1))

def noted : List (Child α β) := n.notes.map (.property (depth - 1))

def formBody : Body α β :=
  if n.notes.isEmpty then
    match n.shell.formText? policy with
    | some text => .text (n.shell.typeName? policy.knownTypes) text
    | none => .inside none []
  else
    .inside (n.shell.typeName? policy.knownTypes)
      ((n.shell.formLeaf? policy).toList.map .leaf ++ n.noted depth)

/-- The body of a container, which has its properties inside if it is a sidecar or rebuilt. -/
def containerBody (sidecar : Bool) : Body α β :=
  .inside (n.shell.typeName? policy.knownTypes) (n.items.map (fun item => .value item.1 depth item.2) ++
    if sidecar || n.shell.isDeserialized then n.selected policy label depth else n.noted depth)

def body : Body α β :=
  match n.shell.base with
  | .null | .scalar _ | .decorated .. => n.formBody policy depth
  | .enum _ _ underlying =>
    if depth = 0 then n.formBody policy depth
    else .text (some (policy.knownTypes.typeNameOf underlying)) (policy.knownTypes.textOf underlying)
  | .list kind _ elements _ =>
    if depth = 0 then n.formBody policy depth
    else n.containerBody policy label depth (Shape.list kind elements).hasSidecar
  | .dict .. => if depth = 0 then n.formBody policy depth else n.containerBody policy label depth false
  | .object .. =>
    if depth = 0 ∨ Strategy.prefersString policy n.shell then n.formBody policy depth
    else .inside (n.shell.typeName? policy.knownTypes) (n.selected policy label depth)

/-! ### Other parts in the same places -/

section

variable {policy label depth n} {f : α → γ} {g : β → δ} {label' : δ → String}

theorem map_noted : (n.map f g).noted depth = (n.noted depth).map (Child.map f g) := by
  simp only [noted, map, List.map_map]
  rfl

theorem map_selected (hlabel : ∀ p ∈ n.own ++ n.notes, label' (g p) = label p) :
    (n.map f g).selected policy label' depth = (n.selected policy label depth).map (Child.map f g) := by
  have hfind (name : String) : (n.own.map g ++ n.notes.map g).find? (fun p => label' p == name) =
      ((n.own ++ n.notes).find? fun p => label p == name).map g := by
    rw [← List.map_append, List.find?_map]
    congr 1
    exact List.find?_congr fun p hp => by rw [Function.comp, hlabel p hp]
  have hselection : (n.map f g).selection policy label' = (n.selection policy label).map g := by
    simp only [selection, map, hfind]
    split
    · rw [List.map_filterMap]
    · rw [List.map_append]
  simp only [selected, hselection, List.map_map]
  rfl

theorem map_formBody : (n.map f g).formBody policy depth = (n.formBody policy depth).map f g := by
  have hshell : (n.map f g).shell = n.shell := rfl
  have hempty : (n.map f g).notes.isEmpty = n.notes.isEmpty := List.isEmpty_map
  unfold formBody
  rw [hshell, hempty, map_noted]
  split
  · cases n.shell.formText? policy <;> rfl
  · rw [Body.map, List.map_append, List.map_map]
    rfl

theorem map_containerBody (hlabel : ∀ p ∈ n.own ++ n.notes, label' (g p) = label p) (sidecar : Bool) :
    (n.map f g).containerBody policy label' depth sidecar = (n.containerBody policy label depth sidecar).map f g := by
  have hshell : (n.map f g).shell = n.shell := rfl
  have hitems : (n.map f g).items.map (fun item => (.value item.1 depth item.2 : Child γ δ)) =
      (n.items.map fun item => Child.value item.1 depth item.2).map (Child.map f g) := by
    simp only [map, List.map_map]
    rfl
  unfold containerBody
  rw [hshell, hitems, map_selected hlabel, map_noted, Body.map, List.map_append]
  split <;> rfl

/-- The parts of a value go into its body as they are, whatever they are. -/
theorem body_map (hlabel : ∀ p ∈ n.own ++ n.notes, label' (g p) = label p) :
    (n.map f g).body policy label' depth = (n.body policy label depth).map f g := by
  have hshell : (n.map f g).shell = n.shell := rfl
  unfold body
  rw [hshell]
  cases n.shell.base with
  | null | scalar | decorated => exact map_formBody
  | enum =>
    rw [apply_ite (Body.map f g), ← map_formBody]
    rfl
  | list | dict => rw [apply_ite (Body.map f g), ← map_formBody, ← map_containerBody hlabel]
  | object => rw [apply_ite (Body.map f g), ← map_formBody, Body.map, map_selected hlabel]

end

/-! ### Parts of one sort -/

section

variable {policy label depth n} {P : α → Prop} {R : β → Prop}

theorem Each.selected (h : n.Each P R) : ∀ c ∈ n.selected policy label depth, c.Each P R := by
  intro c hc
  obtain ⟨p, hp, rfl⟩ := List.mem_map.1 hc
  refine h.2 p ?_
  unfold selection at hp
  split at hp
  · obtain ⟨name, -, hfind⟩ := List.mem_filterMap.1 hp
    exact List.mem_of_find?_eq_some hfind
  · exact hp

theorem Each.noted (h : n.Each P R) : ∀ c ∈ n.noted depth, c.Each P R := by
  intro c hc
  obtain ⟨p, hp, rfl⟩ := List.mem_map.1 hc
  exact h.2 p (List.mem_append_right _ hp)

theorem Each.formBody (h : n.Each P R) : ∀ c ∈ (n.formBody policy depth).children, c.Each P R := by
  unfold Node.formBody
  split
  · split <;> exact List.forall_mem_nil _
  · refine List.forall_mem_append.2 ⟨fun c hc => ?_, h.noted⟩
    obtain ⟨s, -, rfl⟩ := List.mem_map.1 hc
    trivial

theorem Each.containerBody (h : n.Each P R) (sidecar : Bool) :
    ∀ c ∈ (n.containerBody policy label depth sidecar).children, c.Each P R := by
  refine List.forall_mem_append.2 ⟨fun c hc => ?_, ?_⟩
  · obtain ⟨item, hitem, rfl⟩ := List.mem_map.1 hc
    exact h.1 item hitem
  · split
    · exact h.selected
    · exact h.noted

/-- What is written inside an element is what the value consists of. -/
theorem Each.body (h : n.Each P R) : ∀ c ∈ (n.body policy label depth).children, c.Each P R := by
  unfold Node.body
  cases n.shell.base with
  | null | scalar | decorated => exact h.formBody
  | enum =>
    dsimp only
    split
    · exact h.formBody
    · exact List.forall_mem_nil _
  | list | dict =>
    dsimp only
    split
    · exact h.formBody
    · exact h.containerBody _
  | object =>
    dsimp only
    split
    · exact h.formBody
    · exact h.selected

end

end Node

/-! ## Bodies of values -/

namespace Value

/-- A value taken apart, with the items of the first enumeration. -/
def node (policy : Policy) (v : Value) : Node Value (Property Value) :=
  { shell := v.shell, items := ((v.base.shape?).map (Shape.items policy fun _ => 0)).getD [],
    own := v.base.ownProperties, notes := v.notes }

def body (policy : Policy) (v : Value) (depth : Nat) : Body Value (Property Value) :=
  (v.node policy).body policy Property.name depth

variable {policy : Policy} {v : Value} {depth : Nat}

theorem shell_node : (v.node policy).shell = v.shell := rfl

theorem notes_node : (v.node policy).notes = v.notes := rfl

theorem base_shell_node : (v.node policy).shell.base = v.base.shell := v.base_shell

theorem selected_node : (v.node policy).selected policy Property.name depth =
    (policy.selection v).map (.property (policy.depthFor v depth - 1)) := by
  have hselection : (v.node policy).selection policy Property.name = policy.selection v := by
    unfold Node.selection Policy.selection
    rw [shell_node, hintsFor?_shell]
    rfl
  rw [Node.selected, hselection, shell_node, depthFor_shell]

/-- Without chains a value is undecorated or decorated once. -/
theorem eq_base_or_decorated (h : v.isChain = false) :
    (v.base = v ∧ v.notes = []) ∨ ∃ notes deserialized, v = .decorated v.base notes deserialized ∧ v.notes = notes := by
  cases v with
  | decorated v notes deserialized =>
    cases v with
    | decorated => cases h
    | null | scalar | enum | list | dict | object => exact .inr ⟨notes, deserialized, rfl, rfl⟩
  | null | scalar | enum | list | dict | object => exact .inl ⟨rfl, rfl⟩

theorem body_of_shape (hdepth : depth ≠ 0) {shape : Shape} (h : v.base.shape? = some shape) :
    v.body policy depth = (v.node policy).containerBody policy Property.name depth shape.hasSidecar := by
  unfold body Node.body
  rw [base_shell_node]
  cases hbase : v.base with
  | list kind typeName elements properties =>
    rw [hbase] at h
    obtain rfl := Option.some.inj h
    refine (if_neg hdepth).trans ?_
    cases kind <;> rfl
  | dict typeName entries =>
    rw [hbase] at h
    obtain rfl := Option.some.inj h
    exact if_neg hdepth
  | null | scalar | enum | object | decorated =>
    rw [hbase] at h
    cases h

theorem body_of_enum (hdepth : depth ≠ 0) {typeName name : String} {underlying : Scalar}
    (h : v.base = .enum typeName name underlying) : v.body policy depth =
      .text (some (policy.knownTypes.typeNameOf underlying)) (policy.knownTypes.textOf underlying) := by
  unfold body Node.body
  rw [base_shell_node, h]
  exact if_neg hdepth

theorem classify_of_shape (policy : Policy) (hchain : v.isChain = false) (hdepth : depth ≠ 0) {shape : Shape}
    (h : v.base.shape? = some shape) : ∃ decoration, classify policy v depth = .container shape decoration := by
  rcases eq_base_or_decorated hchain with ⟨hbase, -⟩ | ⟨notes, deserialized, hv, -⟩
  · rw [hbase] at h
    refine ⟨none, ?_⟩
    cases v with
    | list | dict =>
      obtain rfl := Option.some.inj h
      exact if_neg hdepth
    | null | scalar | enum | object | decorated => cases h
  · refine ⟨some ⟨notes, deserialized⟩, ?_⟩
    rw [hv]
    generalize v.base = base at h
    cases base with
    | list | dict =>
      obtain rfl := Option.some.inj h
      exact if_neg hdepth
    | null | scalar | enum | object | decorated => cases h

/-- Where there is depth left, what is written as its string form or property by property is no container and no named
constant. -/
theorem base_of_classify (hchain : v.isChain = false) (hdepth : depth ≠ 0)
    (h : classify policy v depth = .asString ∨ classify policy v depth = .complex) :
    v.base.shape? = none ∧ ∀ typeName name underlying, v.base ≠ .enum typeName name underlying := by
  refine ⟨?_, fun typeName name underlying hbase => ?_⟩
  · cases hshape : v.base.shape? with
    | none => rfl
    | some shape =>
      obtain ⟨decoration, hclass⟩ := classify_of_shape policy hchain hdepth hshape
      rw [hclass] at h
      rcases h with h | h <;> cases h
  · rw [classify_of_base_eq_enum hbase hdepth] at h
    rcases h with h | h <;> cases h

/-- What is written as its string form, and is no chain, has the body of one. -/
theorem body_of_asString (hchain : v.isChain = false) (h : classify policy v depth = .asString) :
    v.body policy depth = (v.node policy).formBody policy depth := by
  have hbases (hdepth : depth ≠ 0) := base_of_classify hchain hdepth (.inl h)
  unfold body Node.body
  rw [base_shell_node]
  cases hbase : v.base with
  | null | scalar | decorated => rfl
  | enum typeName name underlying =>
    exact if_pos (Decidable.byContradiction fun hdepth => (hbases hdepth).2 typeName name underlying hbase)
  | list | dict =>
    refine if_pos (Decidable.byContradiction fun hdepth => ?_)
    have hshape := (hbases hdepth).1
    rw [hbase] at hshape
    cases hshape
  | object typeName properties display =>
    refine if_pos (or_iff_not_imp_left.2 fun hdepth => ?_)
    rw [classify_of_base_eq_object hbase hdepth] at h
    rw [shell_node, prefersString_shell]
    simpa [Strategy.expansion, hchain, hbase] using h

/-- What is written property by property, and is no chain, has its selected properties inside. -/
theorem body_of_complex (hchain : v.isChain = false) (h : classify policy v depth = .complex) :
    v.body policy depth = .inside (v.typeName? policy.knownTypes)
      ((policy.selection v).map (.property (policy.depthFor v depth - 1))) := by
  have hdepth : depth ≠ 0 := by
    rintro rfl
    rw [classify_zero] at h
    cases hleaf : Strategy.leaf? policy.knownTypes v with
    | none =>
      rw [hleaf] at h
      cases h
    | some strategy =>
      rw [hleaf] at h
      obtain rfl : strategy = .complex := h
      unfold Strategy.leaf? at hleaf
      split at hleaf
      · cases hleaf
      · split at hleaf <;> cases hleaf
      · split at hleaf <;> cases hleaf
      · cases hleaf
  have hbases := base_of_classify hchain hdepth (.inr h)
  have hexpansion := expansion_of_classify_eq_complex h
  unfold body Node.body
  rw [base_shell_node]
  cases hbase : v.base with
  | enum typeName name underlying => exact absurd hbase (hbases.2 typeName name underlying)
  | list | dict =>
    have hshape := hbases.1
    rw [hbase] at hshape
    cases hshape
  | null | scalar => simp [Strategy.expansion, hchain, hbase] at hexpansion
  | decorated inner notes deserialized => exact absurd hbase (v.base_ne_decorated inner notes deserialized)
  | object typeName properties display =>
    have hprefers : ¬ Strategy.prefersString policy v := by
      simpa [Strategy.expansion, hchain, hbase] using hexpansion
    rw [selected_node, shell_node, prefersString_shell, typeName?_shell]
    exact if_neg (not_or.2 ⟨hdepth, hprefers⟩)

end Value

end GraphMarkup
