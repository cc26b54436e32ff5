import GraphMarkup.Graph.Value

/-!
# Heights of values

* `Value.children` : the values directly inside a value;
* `Value.height` : how deeply values are nested.

`height_lt_of_mem_children` says that the height goes down with every step into a value, and
`height_lt_of_mem_properties` that it does so from a value to every answer of one of its properties.
-/

namespace GraphMarkup

namespace Value

/-- The values directly inside a value, for every answer that its parts can give. -/
def children : Value → List Value
  | null | scalar _ | enum .. => []
  | list _ _ elements properties => elements.results ++ properties.flatMap fun p => p.value.results
  | dict _ entries => entries.results.flatMap fun entry => [entry.1, entry.2]
  | object _ properties _ => properties.flatMap fun p => p.value.results
  | decorated inner notes _ => inner :: notes.flatMap fun p => p.value.results

end Value

/-! ## Sizes of parts -/

theorem Getter.sizeOf_lt_of_mem_results {α : Type} [SizeOf α] {g : Getter α} {a : α} (h : a ∈ g.results) :
    sizeOf a < sizeOf g := by
  obtain ⟨answer, hmem, hok⟩ := List.mem_filterMap.1 h
  cases answer with
  | error _ => cases hok
  | ok b =>
    obtain rfl : b = a := Option.some.inj hok
    cases g with
    | mk id first later stopsOn =>
      rcases List.mem_cons.1 hmem with hfirst | hlater
      · simp only [] at hfirst
        subst hfirst
        simp only [mk.sizeOf_spec, Except.ok.sizeOf_spec]
        omega
      · have := List.sizeOf_lt_of_mem hlater
        simp only [Except.ok.sizeOf_spec] at this
        simp only [mk.sizeOf_spec]
        omega

theorem Fetch.sizeOf_lt_of_mem_results {α : Type} [SizeOf α] {f : Fetch α} {a : α} (h : a ∈ f.results) :
    sizeOf a < sizeOf f := by
  cases f with
  | ready value =>
    obtain rfl : a = value := by simpa [results] using h
    simp only [ready.sizeOf_spec]
    omega
  | failed reason => simp [results] at h
  | deferred getter =>
    have := Getter.sizeOf_lt_of_mem_results (h : a ∈ getter.results)
    simp only [deferred.sizeOf_spec]
    omega

theorem Enumeration.sizeOf_lt_of_mem_results {α : Type} [SizeOf α] {e : Enumeration α} {a : α} (h : a ∈ e.results) :
    sizeOf a < sizeOf e := by
  obtain ⟨step, hmem, hok⟩ := List.mem_filterMap.1 h
  have hsteps := List.sizeOf_lt_of_mem hmem
  obtain ⟨outcome, stops⟩ := step
  cases outcome with
  | error _ => cases hok
  | ok b =>
    obtain rfl : b = a := Option.some.inj hok
    cases e with
    | mk steps endStops =>
      simp only [Step.mk.sizeOf_spec, Except.ok.sizeOf_spec] at hsteps
      simp only [mk.sizeOf_spec]
      omega

theorem Sequence.sizeOf_lt_of_mem_results {α : Type} [SizeOf α] {s : Sequence α} {a : α} (h : a ∈ s.results) :
    sizeOf a < sizeOf s := by
  cases s with
  | ready items =>
    replace h : a ∈ items := h
    have := List.sizeOf_lt_of_mem h
    simp only [ready.sizeOf_spec]
    omega
  | deferred enumerator =>
    obtain ⟨enumeration, henumeration, ha⟩ := List.mem_flatMap.1 h
    have := Getter.sizeOf_lt_of_mem_results henumeration
    have := Enumeration.sizeOf_lt_of_mem_results ha
    simp only [deferred.sizeOf_spec]
    omega

theorem Property.sizeOf_lt_of_mem_results {α : Type} [SizeOf α] {ps : List (Property α)} {a : α}
    (h : a ∈ ps.flatMap fun p => p.value.results) : sizeOf a < sizeOf ps := by
  obtain ⟨p, hmem, hres⟩ := List.mem_flatMap.1 h
  have hps := List.sizeOf_lt_of_mem hmem
  have hp := Fetch.sizeOf_lt_of_mem_results hres
  cases p with
  | mk name declaredType value =>
    simp only [mk.sizeOf_spec] at hps
    simp only [] at hp
    omega

namespace Value

theorem sizeOf_lt_of_mem_children {v c : Value} (h : c ∈ v.children) : sizeOf c < sizeOf v := by
  cases v with
  | null | scalar _ | enum _ _ _ => simp [children] at h
  | list kind typeName elements properties =>
    simp only [list.sizeOf_spec]
    rcases List.mem_append.1 h with h | h
    · have := Sequence.sizeOf_lt_of_mem_results h
      omega
    · have := Property.sizeOf_lt_of_mem_results h
      omega
  | dict typeName entries =>
    obtain ⟨entry, hmem, hc⟩ := List.mem_flatMap.1 h
    have := Sequence.sizeOf_lt_of_mem_results hmem
    obtain ⟨key, value⟩ := entry
    simp only [Prod.mk.sizeOf_spec] at this
    simp only [dict.sizeOf_spec]
    simp only [List.mem_cons, List.not_mem_nil, or_false] at hc
    rcases hc with rfl | rfl <;> omega
  | object typeName properties display =>
    have := Property.sizeOf_lt_of_mem_results h
    simp only [object.sizeOf_spec]
    omega
  | decorated inner notes deserialized =>
    simp only [decorated.sizeOf_spec]
    rcases List.mem_cons.1 h with rfl | h
    · omega
    · have := Property.sizeOf_lt_of_mem_results h
      omega

/-- The number of levels of values in a value, itself included. -/
def height (v : Value) : Nat :=
  1 + (v.children.attach.map fun c => height c.1).foldr max 0
termination_by sizeOf v
decreasing_by exact sizeOf_lt_of_mem_children c.2

theorem le_foldr_max {n : Nat} {ns : List Nat} (h : n ∈ ns) : n ≤ ns.foldr max 0 := by
  induction ns with
  | nil => cases h
  | cons m ms ih =>
    rcases List.mem_cons.1 h with rfl | h
    · exact Nat.le_max_left ..
    · exact Nat.le_trans (ih h) (Nat.le_max_right ..)

theorem height_lt_of_mem_children {v c : Value} (h : c ∈ v.children) : c.height < v.height := by
  rw [height.eq_def v, Nat.add_comm]
  exact Nat.lt_succ_of_le (le_foldr_max (List.mem_map.2 ⟨⟨c, h⟩, List.mem_attach .., rfl⟩))

theorem height_pos (v : Value) : 0 < v.height := by
  rw [height]
  omega

theorem height_inner_lt (inner : Value) (notes : List (Property Value)) (deserialized : Bool) :
    inner.height < (decorated inner notes deserialized).height :=
  height_lt_of_mem_children (List.mem_cons_self ..)

theorem height_base_le (v : Value) : v.base.height ≤ v.height := by
  fun_induction base v with
  | case1 inner notes deserialized ih => exact Nat.le_of_lt (Nat.lt_of_le_of_lt ih (height_inner_lt ..))
  | case2 _ _ => exact Nat.le_refl _

theorem height_lt_of_mem_ownProperties {v c : Value} {p : Property Value} (hp : p ∈ v.ownProperties)
    (hc : c ∈ p.value.results) : c.height < v.height := by
  have hmem : c ∈ v.ownProperties.flatMap fun p => p.value.results := List.mem_flatMap.2 ⟨p, hp, hc⟩
  apply height_lt_of_mem_children
  cases v with
  | list => exact List.mem_append_right _ hmem
  | object => exact hmem
  | null | scalar | enum | dict | decorated => simp [ownProperties] at hp

theorem height_lt_of_mem_notes {v c : Value} {p : Property Value} (hp : p ∈ v.notes)
    (hc : c ∈ p.value.results) : c.height < v.height := by
  fun_induction notes v with
  | case1 inner notes deserialized ih =>
    rcases List.mem_append.1 hp with hp | hp
    · exact Nat.lt_trans (ih hp) (height_inner_lt ..)
    · exact height_lt_of_mem_children (List.mem_cons_of_mem _ (List.mem_flatMap.2 ⟨p, hp, hc⟩))
  | case2 _ _ => cases hp

theorem height_lt_of_mem_properties {v c : Value} {p : Property Value} (hp : p ∈ v.properties)
    (hc : c ∈ p.value.results) : c.height < v.height := by
  rcases List.mem_append.1 hp with hp | hp
  · exact Nat.lt_of_lt_of_le (height_lt_of_mem_ownProperties hp hc) (height_base_le v)
  · exact height_lt_of_mem_notes hp hc

end Value

end GraphMarkup
