import GraphMarkup.Proofs.Walk.Nesting
import Mathlib.Algebra.GroupWithZero.Nat

/-!
# What is computed in a graph

* `Part` : what is computed only when it is asked for: the value of a property, a string form, or an enumerator;
* `Slot`, `Value.slots` : the places inside a value, each with what is computed there and the rows of values that can
  stand there;
* `Value.occurrences` : how often a part occurs in a value;
* `Value.occurrences_eq_base`, `Value.occurrences_eq_base_add_notes` : it occurs in what a nest of decorators ends in,
  and in the properties and notes.

One answer of a getter is what stands in its place, and the items of one enumeration in that of an enumerator, so that a
part may occur in every one of them and yet occur once.
-/

namespace GraphMarkup

/-- What is computed only when it is asked for, by its identity. -/
inductive Part where
  /-- The value of a property. -/
  | property (id : Nat)
  /-- The string form of an object. -/
  | display (id : Nat)
  /-- An enumerator of a container. -/
  | enumerator (id : Nat)
  deriving DecidableEq

/-- A place inside a value: what is computed there, if anything is, and the rows of values of which one stands there. -/
structure Slot where
  part : Option Part := none
  rows : List (List Value) := []

def Fetch.id? {α : Type} : Fetch α → Option Nat
  | deferred getter => some getter.id
  | ready _ | failed _ => none

def Sequence.part? {α : Type} : Sequence α → Option Part
  | ready _ => none
  | deferred enumerator => some (.enumerator enumerator.id)

/-- The items of every enumeration that there can be. -/
def Sequence.rows {α : Type} : Sequence α → List (List α)
  | ready items => [items]
  | deferred enumerator => enumerator.results.map Enumeration.results

theorem Sequence.mem_results_of_mem_rows {α : Type} {s : Sequence α} {row : List α} {a : α} (h : row ∈ s.rows)
    (ha : a ∈ row) : a ∈ s.results := by
  cases s with
  | ready items => exact List.mem_singleton.1 h ▸ ha
  | deferred enumerator =>
    obtain ⟨enumeration, henumeration, rfl⟩ := List.mem_map.1 h
    exact List.mem_flatMap.2 ⟨enumeration, henumeration, ha⟩

def Property.slot (p : Property Value) : Slot :=
  { part := p.value.id?.map .property, rows := p.value.results.map fun v => [v] }

def Shape.slot : Shape → Slot
  | .dictionary entries =>
    { part := entries.part?, rows := entries.rows.map fun row => row.flatMap fun entry => [entry.1, entry.2] }
  | .list _ elements => { part := elements.part?, rows := elements.rows }

namespace Value

/-- The places inside a value other than its properties and notes. -/
def ownSlots : Value → List Slot
  | list kind _ elements _ => [(Shape.list kind elements).slot]
  | dict _ entries => [(Shape.dictionary entries).slot]
  | object _ _ display => [{ part := (display.bind Fetch.id?).map .display }]
  | decorated inner _ _ => [{ rows := [[inner]] }]
  | null | scalar _ | enum .. => []

/-- The notes of the outermost decorator, or the properties of what is not decorated. -/
def outerProperties : Value → List (Property Value)
  | decorated _ notes _ => notes
  | value => value.ownProperties

def slots (v : Value) : List Slot := v.ownSlots ++ v.outerProperties.map Property.slot

theorem mem_children_of_mem_slots {v c : Value} {slot : Slot} {row : List Value} (hslot : slot ∈ v.slots)
    (hrow : row ∈ slot.rows) (hc : c ∈ row) : c ∈ v.children := by
  have hproperties {ps : List (Property Value)} (h : slot ∈ ps.map Property.slot) :
      c ∈ ps.flatMap fun p => p.value.results := by
    obtain ⟨p, hp, rfl⟩ := List.mem_map.1 h
    obtain ⟨v, hv, rfl⟩ := List.mem_map.1 hrow
    exact List.mem_flatMap.2 ⟨p, hp, List.mem_singleton.1 hc ▸ hv⟩
  rcases List.mem_append.1 hslot with hslot | hslot
  · cases v with
    | null | scalar | enum => cases hslot
    | list kind typeName elements properties =>
      obtain rfl := List.mem_singleton.1 hslot
      exact List.mem_append_left _ (Sequence.mem_results_of_mem_rows hrow hc)
    | dict typeName entries =>
      obtain rfl := List.mem_singleton.1 hslot
      obtain ⟨items, hitems, rfl⟩ := List.mem_map.1 hrow
      obtain ⟨entry, hentry, hc⟩ := List.mem_flatMap.1 hc
      exact List.mem_flatMap.2 ⟨entry, Sequence.mem_results_of_mem_rows hitems hentry, hc⟩
    | object typeName properties display =>
      obtain rfl := List.mem_singleton.1 hslot
      cases hrow
    | decorated inner notes deserialized =>
      obtain rfl := List.mem_singleton.1 hslot
      obtain rfl := List.mem_singleton.1 hrow
      exact List.mem_singleton.1 hc ▸ List.mem_cons_self ..
  · cases v with
    | null | scalar | enum | dict => cases hslot
    | list kind typeName elements properties => exact List.mem_append_right _ (hproperties hslot)
    | object typeName properties display => exact hproperties hslot
    | decorated inner notes deserialized => exact List.mem_cons_of_mem _ (hproperties hslot)

/-- How often a part occurs in a value. -/
def occurrences (part : Part) (v : Value) : Nat :=
  (v.slots.attach.map fun slot =>
    slot.1.part.toList.count part +
      greatest slot.1.rows.attach fun row => (row.1.attach.map fun c => occurrences part c.1).sum).sum
termination_by sizeOf v
decreasing_by exact sizeOf_lt_of_mem_children (mem_children_of_mem_slots slot.2 row.2 c.2)

end Value

def Slot.occurrences (part : Part) (slot : Slot) : Nat :=
  slot.part.toList.count part + greatest slot.rows fun row => (row.map (Value.occurrences part)).sum

def occurrencesIn (part : Part) (slots : List Slot) : Nat := (slots.map (Slot.occurrences part)).sum

section

variable (part : Part)

theorem occurrencesIn_singleton (slot : Slot) : occurrencesIn part [slot] = slot.occurrences part := rfl

theorem occurrencesIn_append (slots later : List Slot) :
    occurrencesIn part (slots ++ later) = occurrencesIn part slots + occurrencesIn part later := by
  rw [occurrencesIn, List.map_append, List.sum_append]
  rfl

theorem Slot.occurrences_single (v : Value) : Slot.occurrences part { rows := [[v]] } = v.occurrences part := by
  simp [occurrences, greatest]

theorem Property.occurrences_slot (p : Property Value) : p.slot.occurrences part =
    (p.value.id?.map Part.property).toList.count part + greatest p.value.results (Value.occurrences part) := by
  simp [slot, Slot.occurrences, greatest, Function.comp_def]

theorem Shape.occurrences_list (kind : ListKind) (elements : Sequence Value) :
    (Shape.list kind elements).slot.occurrences part =
      elements.part?.toList.count part +
        greatest elements.rows fun row => (row.map fun item => item.occurrences part).sum := rfl

theorem Shape.occurrences_dictionary (entries : Sequence (Value × Value)) :
    (Shape.dictionary entries).slot.occurrences part =
      entries.part?.toList.count part +
        greatest entries.rows fun row => (row.map fun entry => entry.1.occurrences part + entry.2.occurrences part).sum := by
  have hpairs (pairs : List (Value × Value)) :
      ((pairs.flatMap fun pair => [pair.1, pair.2]).map (Value.occurrences part)).sum =
        (pairs.map fun pair => pair.1.occurrences part + pair.2.occurrences part).sum := by
    induction pairs with
    | nil => rfl
    | cons pair pairs ih =>
      rw [List.flatMap_cons, List.map_append, List.sum_append, ih]
      simp
  simp only [slot, Slot.occurrences, greatest, List.map_map, Function.comp_def, hpairs]

namespace Value

theorem occurrences_eq (v : Value) : v.occurrences part = occurrencesIn part v.slots := by
  have hrow (row : List Value) :
      (row.map (Value.occurrences part)).sum = (row.attach.map fun c => Value.occurrences part c.1).sum := by
    rw [List.attach_map_val]
  have hslot (slot : Slot) : slot.occurrences part = slot.part.toList.count part +
      greatest slot.rows.attach fun row => (row.1.attach.map fun c => Value.occurrences part c.1).sum := by
    simp only [Slot.occurrences, greatest, hrow]
    rw [← List.attach_map_val (l := slot.rows)]
  rw [occurrences, occurrencesIn, ← List.attach_map_val (l := v.slots)]
  simp [hslot]

theorem occurrences_decorated (inner : Value) (notes : List (Property Value)) (deserialized : Bool) :
    (decorated inner notes deserialized).occurrences part =
      inner.occurrences part + occurrencesIn part (notes.map Property.slot) := by
  rw [occurrences_eq, slots, occurrencesIn_append]
  exact congrArg (· + _) (Slot.occurrences_single part inner)

theorem occurrences_undecorated {v : Value} (h : ∀ inner notes deserialized, v ≠ decorated inner notes deserialized) :
    v.occurrences part = occurrencesIn part v.ownSlots + occurrencesIn part (v.ownProperties.map Property.slot) := by
  rw [occurrences_eq, slots, occurrencesIn_append]
  cases v with
  | decorated inner notes deserialized => exact absurd rfl (h inner notes deserialized)
  | null | scalar | enum | list | dict | object => rfl

/-- A part occurs in what a nest of decorators ends in, and in the notes. -/
theorem occurrences_eq_base_add_notes (v : Value) :
    v.occurrences part = v.base.occurrences part + occurrencesIn part (v.notes.map Property.slot) := by
  induction v using base.induct with
  | case1 inner notes deserialized ih =>
    rw [occurrences_decorated, ih, base_decorated, Value.notes, List.map_append, occurrencesIn_append, Nat.add_assoc]
  | case2 v h =>
    cases v with
    | decorated inner notes deserialized => exact absurd rfl (h inner notes deserialized)
    | null | scalar | enum | list | dict | object => rfl

/-- A part occurs in what a nest of decorators ends in, next to the properties there, and in properties and notes. -/
theorem occurrences_eq_base (v : Value) :
    v.occurrences part =
      occurrencesIn part v.base.ownSlots + occurrencesIn part (v.properties.map Property.slot) := by
  rw [occurrences_eq_base_add_notes, occurrences_undecorated part v.base_ne_decorated, properties, List.map_append,
    occurrencesIn_append, Nat.add_assoc]

theorem occurrencesIn_notes_le (v : Value) :
    occurrencesIn part (v.notes.map Property.slot) ≤ occurrencesIn part (v.properties.map Property.slot) := by
  rw [properties, List.map_append, occurrencesIn_append]
  exact Nat.le_add_left ..

theorem occurrencesIn_properties_le (v : Value) :
    occurrencesIn part (v.properties.map Property.slot) ≤ v.occurrences part := by
  rw [occurrences_eq_base]
  exact Nat.le_add_left ..

end Value

end

theorem Value.ownSlots_of_shape? {v : Value} {shape : Shape} (h : v.shape? = some shape) :
    v.ownSlots = [shape.slot] := by
  cases v with
  | list | dict => exact Option.some.inj h ▸ rfl
  | null | scalar | enum | object | decorated => cases h

end GraphMarkup
