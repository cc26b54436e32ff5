import GraphMarkup.Walk.Levels

/-!
# What an enumeration passes on

* `Step.items`, `Sequence.items`, `Sequence.first` : the items of a sequence up to the first fault, in an enumeration
  that comes after others, and in the first one;
* `Shape.items` : what a container holds, in order, with the names that it is written under;
* `Shape.mem_children_of_mem_items` : all of that is directly inside the container.
-/

namespace GraphMarkup

variable {α : Type}

def Step.items : List (Step α) → List α
  | [] => []
  | step :: steps =>
    match step.outcome with
    | .ok item => item :: items steps
    | .error _ => []

/-- The items that an enumeration passes on after so many reads of every part: all that are at hand, none if the
enumerator is refused, and those in front of the first step that fails. -/
def Sequence.items (reads : Nat → Nat) : Sequence α → List α
  | ready items => items
  | deferred enumerator =>
    match enumerator.answer (reads enumerator.id + 1) with
    | .ok enumeration => Step.items enumeration.steps
    | .error _ => []

section

variable {enumerator : Getter (Enumeration α)} {reads : Nat → Nat}

theorem Sequence.items_of_ok {enumeration : Enumeration α}
    (h : enumerator.answer (reads enumerator.id + 1) = .ok enumeration) :
    (deferred enumerator).items reads = Step.items enumeration.steps := by
  simp only [items, h]

theorem Sequence.items_of_error {reason : String} (h : enumerator.answer (reads enumerator.id + 1) = .error reason) :
    (deferred enumerator).items reads = [] := by
  simp only [items, h]

end

def Sequence.first (s : Sequence α) : List α := s.items fun _ => 0

theorem Step.mem_results_of_mem_items {steps : List (Step α)} {a : α} (h : a ∈ Step.items steps) (endStops : Bool) :
    a ∈ (Enumeration.mk steps endStops).results := by
  induction steps with
  | nil => cases h
  | cons step steps ih =>
    obtain ⟨outcome, stops⟩ := step
    cases outcome with
    | error reason => cases h
    | ok item =>
      rcases List.mem_cons.1 h with rfl | h
      · exact List.mem_cons_self ..
      · exact List.mem_cons_of_mem _ (ih h)

theorem Sequence.mem_results_of_mem_items {s : Sequence α} {reads : Nat → Nat} {a : α} (h : a ∈ s.items reads) :
    a ∈ s.results := by
  cases s with
  | ready items => exact h
  | deferred enumerator =>
    cases hanswer : enumerator.answer (reads enumerator.id + 1) with
    | ok enumeration =>
      rw [items_of_ok hanswer] at h
      exact List.mem_flatMap.2 ⟨enumeration, Getter.mem_results_of_answer hanswer,
        Step.mem_results_of_mem_items h enumeration.endStops⟩
    | error reason =>
      rw [items_of_error hanswer] at h
      cases h

/-- What a container holds: the keys and values of its entries in turn under their names, or its elements unnamed. -/
def Shape.items (policy : Policy) (reads : Nat → Nat) : Shape → List (Option String × Value)
  | .dictionary entries =>
    (entries.items reads).flatMap fun entry => [(some policy.names.key, entry.1), (some policy.names.value, entry.2)]
  | .list _ elements => (elements.items reads).flatMap fun item => [(none, item)]

theorem Shape.mem_children_of_mem_items {policy : Policy} {reads : Nat → Nat} {v : Value} {shape : Shape}
    (hshape : v.shape? = some shape) {item : Option String × Value} (h : item ∈ shape.items policy reads) :
    item.2 ∈ v.children := by
  cases v with
  | list kind typeName elements properties =>
    obtain rfl := Option.some.inj hshape
    obtain ⟨element, helement, hitem⟩ := List.mem_flatMap.1 h
    obtain rfl := List.mem_singleton.1 hitem
    exact List.mem_append_left _ (Sequence.mem_results_of_mem_items helement)
  | dict typeName entries =>
    obtain rfl := Option.some.inj hshape
    obtain ⟨entry, hentry, hitem⟩ := List.mem_flatMap.1 h
    refine List.mem_flatMap.2 ⟨entry, Sequence.mem_results_of_mem_items hentry, ?_⟩
    simp only [List.mem_cons, List.not_mem_nil, or_false] at hitem
    rcases hitem with rfl | rfl
    · exact List.mem_cons_self ..
    · exact List.mem_cons_of_mem _ (List.mem_singleton_self _)
  | null | scalar | enum | object | decorated => cases hshape

end GraphMarkup
