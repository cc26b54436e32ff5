import GraphMarkup.Proofs.Graph.Settled

/-!
# Graphs in which nothing is missing

* `Fetch.IsReady` : a part that is there;
* `Value.Whole` : a graph of such parts, without decorators, whose named constants stand for whole numbers;
* `Value.Whole.list`, `Value.Whole.dict`, `Value.Whole.object` : how such graphs are made of others;
* `Value.Whole.isSettled` : nothing is left to compute in them.
-/

namespace GraphMarkup

variable {α : Type}

def Fetch.IsReady (f : Fetch α) : Prop := ∃ a, f = .ready a

namespace Value

/-- A value that is no decorator, all parts of which are there, and that stands for a whole number if it is a named
constant. -/
def PartsWhole : Value → Prop
  | null | scalar _ => True
  | enum _ _ underlying => underlying.kind.isInteger
  | list _ _ elements properties => (∃ items, elements = .ready items) ∧ ∀ p ∈ properties, p.value.IsReady
  | dict _ entries => ∃ items, entries = .ready items
  | object _ properties display => (∀ p ∈ properties, p.value.IsReady) ∧ ∀ text ∈ display, text.IsReady
  | decorated .. => False

/-- A graph without decorators in which no part is missing or left to compute. -/
inductive Whole : Value → Prop
  | intro {v : Value} (parts : v.PartsWhole) (inside : ∀ c ∈ v.children, c.Whole) : Whole v

namespace Whole

variable {v : Value}

theorem parts (h : v.Whole) : v.PartsWhole := by
  cases h
  assumption

theorem hereditary : Value.Hereditary Whole := by
  intro v hv
  cases hv with
  | intro _ inside => exact inside

/-! ## Making whole graphs of others -/

theorem scalar (s : Scalar) : (Value.scalar s).Whole := .intro trivial (List.forall_mem_nil _)

theorem null : Value.null.Whole := .intro trivial (List.forall_mem_nil _)

theorem list {items : List Value} (h : ∀ item ∈ items, item.Whole) (kind : ListKind) (typeName : Option String) :
    (Value.list kind typeName (.ready items) []).Whole := by
  refine .intro ⟨⟨items, rfl⟩, List.forall_mem_nil _⟩ fun c hc => ?_
  exact h c (by simpa [children, Sequence.results] using hc)

theorem dict {entries : List (Value × Value)} (h : ∀ entry ∈ entries, entry.1.Whole ∧ entry.2.Whole)
    (typeName : Option String) : (Value.dict typeName (.ready entries)).Whole := by
  refine .intro ⟨entries, rfl⟩ fun c hc => ?_
  obtain ⟨entry, hentry, hc⟩ := List.mem_flatMap.1 hc
  obtain ⟨hkey, hvalue⟩ := h entry hentry
  have hboth : ∀ c ∈ [entry.1, entry.2], c.Whole := List.forall_mem_cons.2 ⟨hkey, List.forall_mem_singleton.2 hvalue⟩
  exact hboth c hc

theorem object {properties : List (Property Value)} (h : ∀ p ∈ properties, ∃ c : Value, p.value = .ready c ∧ c.Whole)
    (typeName : String) : (Value.object typeName properties none).Whole := by
  refine .intro ⟨fun p hp => ?_, nofun⟩ fun c hc => ?_
  · obtain ⟨c, hready, -⟩ := h p hp
    exact ⟨c, hready⟩
  · obtain ⟨p, hp, hc⟩ := List.mem_flatMap.1 hc
    obtain ⟨c', hready, hwhole⟩ := h p hp
    rw [hready] at hc
    rwa [List.mem_singleton.1 hc]

/-! ## What they look like -/

theorem base_eq (h : v.Whole) : v.base = v := by
  have hparts := h.parts
  cases v with
  | decorated => exact hparts.elim
  | null | scalar | enum | list | dict | object => rfl

theorem notes_eq (h : v.Whole) : v.notes = [] := by
  have hparts := h.parts
  cases v with
  | decorated => exact hparts.elim
  | null | scalar | enum | list | dict | object => rfl

/-- Every property is there, and its value is whole. -/
theorem property (h : v.Whole) {p : Property Value} (hp : p ∈ v.properties) :
    ∃ c : Value, p.value = .ready c ∧ c.Whole := by
  have hready : p.value.IsReady := by
    have hparts := h.parts
    rw [properties, h.base_eq, h.notes_eq, List.append_nil] at hp
    cases v with
    | list => exact hparts.2 p hp
    | object => exact hparts.1 p hp
    | null | scalar | enum | dict | decorated => cases hp
  obtain ⟨c, hc⟩ := hready
  exact ⟨c, hc, hereditary.property h hp (by rw [hc]; exact List.mem_singleton_self c)⟩

theorem isSettled (h : v.Whole) : v.IsSettled := by
  have hready {f : Fetch Value} (hf : f.IsReady) : f.AtHand := by
    obtain ⟨a, rfl⟩ := hf
    trivial
  induction h with
  | @intro v parts _ ih =>
    refine .intro ?_ ih
    cases v with
    | null | scalar | enum => trivial
    | list => exact ⟨parts.1, fun p hp => hready (parts.2 p hp)⟩
    | dict => exact parts
    | object typeName properties display =>
      refine ⟨fun p hp => hready (parts.1 p hp), fun text htext => ?_⟩
      obtain ⟨s, rfl⟩ := parts.2 text htext
      trivial
    | decorated => exact parts.elim

end Whole

end Value

end GraphMarkup
