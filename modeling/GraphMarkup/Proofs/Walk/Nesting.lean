import GraphMarkup.Walk.Levels

/-!
# Depth to spare

* `Value.nesting` : how many steps to a property are nested in a value, with one for the value;
* `nesting_le_of_mem_results`, `nesting_lt_of_mem_properties` : what is held is nested no deeper than what holds it, and
  what is read from a property at least one step less;
* `WrittenAlike.of_nesting_le` : enough depth for a value leaves enough for everything inside;
* `write_eq_of_nesting_le` : a walk does not depend on how much more depth there is than the value is nested.

Of two depths of which neither is used up, the hints of a type put the same in place of both or keep both, and a step to
a property takes one off both. So along a walk they are equal, or both still reach over what is to be written.
-/

namespace GraphMarkup

/-! ## Nesting -/

/-- The greatest of the numbers that are given to some things, and zero if there are none. -/
def greatest {α : Type} (as : List α) (number : α → Nat) : Nat := (as.map number).foldr max 0

theorem le_greatest {α : Type} {as : List α} {a : α} (number : α → Nat) (h : a ∈ as) : number a ≤ greatest as number :=
  Value.le_foldr_max (List.mem_map_of_mem h)

namespace Value

/-- How many steps to a property are nested in a value, for every answer that its parts can give: one for a value
without parts, and one more than its properties and notes for any other. What a container holds, and what a decorator is
around, is no step further. -/
def nesting : Value → Nat
  | null | scalar _ | enum .. => 1
  | list _ _ elements properties =>
    max 1 (max (greatest elements.results.attach fun c => nesting c.1)
      (1 + greatest (properties.flatMap fun p => p.value.results).attach fun c => nesting c.1))
  | dict _ entries =>
    max 1 (greatest (entries.results.flatMap fun entry => [entry.1, entry.2]).attach fun c => nesting c.1)
  | object _ properties _ => 1 + greatest (properties.flatMap fun p => p.value.results).attach fun c => nesting c.1
  | decorated inner notes _ =>
    max (nesting inner) (1 + greatest (notes.flatMap fun p => p.value.results).attach fun c => nesting c.1)
termination_by v => sizeOf v
decreasing_by
  · exact sizeOf_lt_of_mem_children (List.mem_append_left _ c.2)
  · exact sizeOf_lt_of_mem_children (List.mem_append_right _ c.2)
  · exact sizeOf_lt_of_mem_children c.2
  · exact sizeOf_lt_of_mem_children c.2
  · exact sizeOf_lt_of_mem_children (List.mem_cons_self ..)
  · exact sizeOf_lt_of_mem_children (List.mem_cons_of_mem _ c.2)

theorem nesting_le_greatest {cs : List Value} {c : Value} (h : c ∈ cs) :
    c.nesting ≤ greatest cs.attach fun c => c.1.nesting :=
  le_greatest (fun c : { c // c ∈ cs } => c.1.nesting) (List.mem_attach cs ⟨c, h⟩)

theorem nesting_le_greatest_of_mem {ps : List (Property Value)} {p : Property Value} {c : Value} (hp : p ∈ ps)
    (hc : c ∈ p.value.results) :
    c.nesting ≤ greatest (ps.flatMap fun p => p.value.results).attach fun c => c.1.nesting :=
  nesting_le_greatest (List.mem_flatMap.2 ⟨p, hp, hc⟩)

theorem nesting_inner_le (inner : Value) (notes : List (Property Value)) (deserialized : Bool) :
    inner.nesting ≤ (decorated inner notes deserialized).nesting := by
  rw [nesting.eq_def (decorated ..)]
  exact Nat.le_max_left ..

theorem nesting_base_le (v : Value) : v.base.nesting ≤ v.nesting := by
  fun_induction base v with
  | case1 inner notes deserialized ih => exact Nat.le_trans ih (nesting_inner_le ..)
  | case2 _ _ => exact Nat.le_refl _

theorem nesting_pos (v : Value) : 1 ≤ v.nesting := by
  cases v with
  | null | scalar | enum => simp [nesting]
  | list | dict | object | decorated =>
    rw [nesting]
    omega

/-- What a container holds is nested no deeper than the container. -/
theorem nesting_le_of_mem_results {v c : Value} {shape : Shape} (h : v.shape? = some shape) (hc : c ∈ shape.results) :
    c.nesting ≤ v.nesting := by
  cases v with
  | list kind typeName elements properties =>
    obtain rfl := Option.some.inj h
    have := nesting_le_greatest (show c ∈ elements.results from hc)
    rw [nesting.eq_def (list ..)]
    dsimp only
    omega
  | dict typeName entries =>
    obtain rfl := Option.some.inj h
    have := nesting_le_greatest (show c ∈ entries.results.flatMap fun entry => [entry.1, entry.2] from hc)
    rw [nesting.eq_def (dict ..)]
    dsimp only
    omega
  | null | scalar | enum | object | decorated => cases h

theorem nesting_lt_of_mem_ownProperties {v c : Value} {p : Property Value} (hp : p ∈ v.ownProperties)
    (hc : c ∈ p.value.results) : c.nesting < v.nesting := by
  cases v with
  | list kind typeName elements properties =>
    have := nesting_le_greatest_of_mem hp hc
    rw [nesting.eq_def (list ..)]
    dsimp only [ownProperties] at this ⊢
    omega
  | object typeName properties display =>
    have := nesting_le_greatest_of_mem hp hc
    rw [nesting.eq_def (object ..)]
    dsimp only [ownProperties] at this ⊢
    omega
  | null | scalar | enum | dict | decorated => cases hp

theorem nesting_lt_of_mem_notes {v c : Value} {p : Property Value} (hp : p ∈ v.notes) (hc : c ∈ p.value.results) :
    c.nesting < v.nesting := by
  fun_induction notes v with
  | case1 inner notes deserialized ih =>
    rcases List.mem_append.1 hp with hp | hp
    · exact Nat.lt_of_lt_of_le (ih hp) (nesting_inner_le ..)
    · have := nesting_le_greatest_of_mem hp hc
      rw [nesting.eq_def (decorated ..)]
      dsimp only
      omega
  | case2 _ _ => cases hp

/-- What is read from a property is nested at least one step less than what has the property. -/
theorem nesting_lt_of_mem_properties {v c : Value} {p : Property Value} (hp : p ∈ v.properties)
    (hc : c ∈ p.value.results) : c.nesting < v.nesting := by
  rcases List.mem_append.1 hp with hp | hp
  · exact Nat.lt_of_lt_of_le (nesting_lt_of_mem_ownProperties hp hc) v.nesting_base_le
  · exact nesting_lt_of_mem_notes hp hc

end Value

/-! ## Walks -/

section

variable {policy : Policy} {v : Value} {depth depth' : Nat}

/-- The depth of a type takes the place of any depth left, or of none. -/
theorem Policy.depthFor_eq_or (policy : Policy) (v : Value) (depth depth' : Nat) :
    policy.depthFor v depth = policy.depthFor v depth' ∨
      policy.depthFor v depth = depth ∧ policy.depthFor v depth' = depth' := by
  unfold Policy.depthFor
  split
  · split
    · exact .inl rfl
    · exact .inr ⟨rfl, rfl⟩
  · exact .inr ⟨rfl, rfl⟩

/-- If enough depth makes lower values be written alike, so it does for everything inside a value. -/
theorem WrittenAlike.of_nesting_le {inside : Inside} (h : v.nesting ≤ depth) (h' : v.nesting ≤ depth')
    (hinside : ∀ c : Value, c.height < v.height → ∀ n n', c.nesting ≤ n → c.nesting ≤ n' → ∀ name,
      inside c name n = inside c name n') :
    WrittenAlike policy inside inside depth depth' v := by
  -- What is nested less than the value is enough even when one level has been taken off.
  have hlower (c : Value) (hheight : c.height < v.height) (hc : c.nesting < v.nesting) (name : Option String) :
      inside c name (depth - 1) = inside c name (depth' - 1) := by
    have := c.nesting_pos
    exact hinside c hheight _ _ (by omega) (by omega) name
  refine ⟨fun shape hshape c hc => ?_, ?_, fun p hp c hc name => ?_, fun p hp c hc => ?_⟩
  · have hle := Nat.le_trans (Value.nesting_le_of_mem_results hshape hc) v.nesting_base_le
    exact hinside c (Nat.lt_of_lt_of_le (Shape.height_lt_of_mem_results hshape hc) v.height_base_le) _ _
      (Nat.le_trans hle h) (Nat.le_trans hle h')
  · rintro inner notes deserialized rfl name
    have hheight := Value.height_inner_lt inner notes deserialized
    have hinner := Value.nesting_inner_le inner notes deserialized
    have hbase := Nat.le_trans inner.nesting_base_le hinner
    exact ⟨hinside inner hheight _ _ (Nat.le_trans hinner h) (Nat.le_trans hinner h') name,
      hinside inner.base (Nat.lt_of_le_of_lt inner.height_base_le hheight) _ _ (Nat.le_trans hbase h)
        (Nat.le_trans hbase h') name⟩
  · rcases policy.depthFor_eq_or v depth depth' with heq | ⟨heq, heq'⟩
    · rw [heq]
    · rw [heq, heq']
      exact hlower c (Value.height_lt_of_mem_properties hp hc) (Value.nesting_lt_of_mem_properties hp hc) name
  · exact hlower c (Value.height_lt_of_mem_notes hp hc) (Value.nesting_lt_of_mem_notes hp hc)

end

/-- Under any hints and from any state, two depths that are no less than the nesting of a value write it in the same way:
with the same outcome, events, and run. -/
theorem write_eq_of_nesting_le (policy : Policy) {v : Value} {depth depth' : Nat} (h : v.nesting ≤ depth)
    (h' : v.nesting ≤ depth') (name : Option String) (w : Walker) :
    write policy v name depth w = write policy v name depth' w := by
  suffices hwrite : write policy v name depth = write policy v name depth' from congrFun hwrite w
  induction hn : v.height using Nat.strongRecOn generalizing v name depth depth' with
  | ind n ih =>
    subst hn
    have hclass : classify policy v depth = classify policy v depth' :=
      classify_eq_of_pos policy v (Nat.le_trans v.nesting_pos h) (Nat.le_trans v.nesting_pos h')
    rw [write_eq_writeNode]
    exact writeNode_congr hclass (.of_nesting_le h h' fun c hc n n' hle hle' name => ih c.height hc hle hle' name rfl)
      name

/-- An annotated series of cars, in which three steps lead to the size of a wheel: depths three and eight write it in the
same way, whatever the hints for wheels. -/
theorem write_eq_of_nesting_le_wheel :
    ∃ v : Value,
      v = .decorated (.list .enumerable none (.ready [.object "Car" [⟨"wheel", none, .deferred
        ⟨1, .ok (.object "Wheel" [⟨"size", none, .ready (.scalar (.string "17"))⟩] none), [.error "flat"], none⟩⟩] none])
        [⟨"count", none, .ready (.scalar (.string "1"))⟩]) [⟨"id", none, .ready (.scalar (.string "7"))⟩] false ∧
      v.nesting ≤ 3 ∧ v.nesting ≤ 8 ∧ ∀ hints w,
        write (({} : Policy).withHints "Wheel" hints) v (some "cars") 3 w =
          write (({} : Policy).withHints "Wheel" hints) v (some "cars") 8 w := by
  have hnesting : (Value.decorated (.list .enumerable none (.ready [.object "Car" [⟨"wheel", none, .deferred
      ⟨1, .ok (.object "Wheel" [⟨"size", none, .ready (.scalar (.string "17"))⟩] none), [.error "flat"], none⟩⟩] none])
      [⟨"count", none, .ready (.scalar (.string "1"))⟩]) [⟨"id", none, .ready (.scalar (.string "7"))⟩] false).nesting =
        3 := by
    decide +kernel
  have hle3 := Nat.le_of_eq hnesting
  have hle8 := Nat.le_trans hle3 (by decide : 3 ≤ 8)
  exact ⟨_, rfl, hle3, hle8, fun hints w => write_eq_of_nesting_le _ hle3 hle8 (some "cars") w⟩

end GraphMarkup
