import GraphMarkup.Graph.Height

/-!
# Hereditary properties of values

* `Value.Hereditary` : what passes from a value to all values directly inside it;
* `Hereditary.base`, `Hereditary.property` : it passes to the base, and to the answers of properties and notes.
-/

namespace GraphMarkup

namespace Value

/-- What passes from a value to all values directly inside it. -/
def Hereditary (P : Value → Prop) : Prop := ∀ v, P v → ∀ c ∈ v.children, P c

namespace Hereditary

variable {P : Value → Prop} {v : Value}

theorem base (hP : Hereditary P) (h : P v) : P v.base := by
  fun_induction Value.base v with
  | case1 inner notes deserialized ih => exact ih (hP _ h inner (List.mem_cons_self ..))
  | case2 _ _ => exact h

theorem ownProperty (hP : Hereditary P) (h : P v) {p : Property Value} (hp : p ∈ v.ownProperties) {c : Value}
    (hc : c ∈ p.value.results) : P c := by
  have hmem : c ∈ v.ownProperties.flatMap fun p => p.value.results := List.mem_flatMap.2 ⟨p, hp, hc⟩
  apply hP v h
  cases v with
  | list => exact List.mem_append_right _ hmem
  | object => exact hmem
  | null | scalar | enum | dict | decorated => cases hp

theorem note (hP : Hereditary P) (h : P v) {p : Property Value} (hp : p ∈ v.notes) {c : Value}
    (hc : c ∈ p.value.results) : P c := by
  fun_induction Value.notes v with
  | case1 inner notes deserialized ih =>
    rcases List.mem_append.1 hp with hp | hp
    · exact ih (hP _ h inner (List.mem_cons_self ..)) hp
    · exact hP _ h c (List.mem_cons_of_mem _ (List.mem_flatMap.2 ⟨p, hp, hc⟩))
  | case2 _ _ => cases hp

theorem property (hP : Hereditary P) (h : P v) {p : Property Value} (hp : p ∈ v.properties) {c : Value}
    (hc : c ∈ p.value.results) : P c := by
  rcases List.mem_append.1 hp with hp | hp
  · exact hP.ownProperty (hP.base h) hp hc
  · exact hP.note h hp hc

end Hereditary

end Value

end GraphMarkup
