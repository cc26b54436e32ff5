import GraphMarkup.Walk.Node

/-!
# Levels suffice

* `forEachItem_congr`, `writeProperties_congr` : the steps of a walk depend on how the values inside are written only at
  the values that enumerating and reading can give;
* `WrittenAlike`, `writeNode_congr` : two ways to write what is inside a value, at two depths, that make no difference;
* `writeNode_eq_of_lower` : writing a value depends on how others are written only at lower ones;
* `writeWithin_eq_write` : any number of levels from the height upwards writes a value in the same way;
* `write_eq_writeNode` : a value is written by writing the values inside it;
* `write_induct` : what holds of writing a value as soon as it does of writing what is inside holds of every value.
-/

namespace GraphMarkup

/-! ## What is read and enumerated -/

theorem Getter.mem_results_of_answer {α : Type} {g : Getter α} {read : Nat} {a : α} (h : g.answer read = .ok a) :
    a ∈ g.results := by
  refine List.mem_filterMap.2 ⟨.ok a, ?_, rfl⟩
  rw [← h, answer]
  cases hget : (g.first :: g.later)[read - 1]? with
  | some answer => exact List.mem_of_getElem? hget
  | none =>
    rw [Option.getD_none, List.getLastD_eq_getLast?]
    cases hlast : g.later.getLast? with
    | none => exact List.mem_cons_self ..
    | some answer => exact List.mem_cons_of_mem _ (List.mem_of_getLast? hlast)

theorem Fetch.mem_results_of_read {α : Type} {f : Fetch α} {request : Request} {run : Run} {a : α}
    (h : (f.read request run).1 = .ok a) : a ∈ f.results := by
  cases f with
  | ready value => exact List.mem_singleton.2 (Except.ok.inj h).symm
  | failed reason => cases h
  | deferred getter => exact Getter.mem_results_of_answer h

/-- After reading a part, only what to do with the values that it can give, or with a failure, matters. -/
theorem onRun_read_bind_congr {α β : Type} {f : Fetch α} {request : Request} {k k' : Except String α → WalkM β}
    (hok : ∀ a ∈ f.results, k (.ok a) = k' (.ok a)) (herror : ∀ reason, k (.error reason) = k' (.error reason)) :
    (WalkM.onRun (f.read request) >>= k) = (WalkM.onRun (f.read request) >>= k') := by
  funext w
  show k (f.read request w.run).1 _ = k' (f.read request w.run).1 _
  cases h : (f.read request w.run).1 with
  | ok a => rw [hok a (Fetch.mem_results_of_read h)]
  | error reason => rw [herror reason]

theorem forM_congr {α : Type} {as : List α} {f g : α → WalkM Unit} (h : ∀ a ∈ as, f a = g a) : as.forM f = as.forM g := by
  induction as with
  | nil => rfl
  | cons a as ih =>
    show (f a >>= fun _ => as.forM f) = (g a >>= fun _ => as.forM g)
    rw [h a (List.mem_cons_self ..), ih fun b hb => h b (List.mem_cons_of_mem _ hb)]

theorem forEachStep_congr {α : Type} {id index : Nat} {endStops : Bool} {steps : List (Step α)} {f g : α → WalkM Unit}
    (h : ∀ a ∈ (Enumeration.mk steps endStops).results, f a = g a) :
    forEachStep id endStops f index steps = forEachStep id endStops g index steps := by
  induction steps generalizing index with
  | nil => rfl
  | cons step steps ih =>
    obtain ⟨outcome, stops⟩ := step
    cases outcome with
    | error reason => rfl
    | ok item =>
      simp only [forEachStep]
      rw [h item (List.mem_cons_self ..), ih fun a ha => h a (List.mem_cons_of_mem _ ha)]

theorem forEachItem_congr {α : Type} {items : Sequence α} {f g : α → WalkM Unit}
    (h : ∀ a ∈ items.results, f a = g a) : forEachItem items f = forEachItem items g := by
  cases items with
  | ready items => exact forM_congr h
  | deferred enumerator =>
    refine onRun_read_bind_congr (fun enumeration henumeration => ?_) fun _ => rfl
    exact forEachStep_congr fun a ha => h a (List.mem_flatMap.2 ⟨enumeration, henumeration, ha⟩)

/-! ## The ways to write a value -/

section Congruence

variable {policy : Policy} {inside inside' : Inside} {depth depth' : Nat}

theorem writeProperty_congr {p : Property Value}
    (h : ∀ c ∈ p.value.results, ∀ name, inside c name depth = inside' c name depth') :
    writeProperty policy inside depth p = writeProperty policy inside' depth' p := by
  simp only [writeProperty]
  congr 1
  funext _
  refine onRun_read_bind_congr (fun c hc => ?_) fun _ => rfl
  simp only [h c hc]

theorem writeProperties_congr {ps : List (Property Value)}
    (h : ∀ p ∈ ps, ∀ c ∈ p.value.results, ∀ name, inside c name (depth - 1) = inside' c name (depth' - 1)) :
    writeProperties policy inside depth ps = writeProperties policy inside' depth' ps :=
  forM_congr fun p hp => writeProperty_congr (h p hp)

theorem Policy.mem_properties_of_mem_selection {v : Value} {p : Property Value} (h : p ∈ policy.selection v) :
    p ∈ v.properties := by
  unfold Policy.selection at h
  split at h
  · obtain ⟨name, _, hfind⟩ := List.mem_filterMap.1 h
    exact List.mem_of_find?_eq_some hfind
  · exact h

/-- The values that enumerating what a container holds can give. -/
def Shape.results : Shape → List Value
  | .dictionary entries => entries.results.flatMap fun entry => [entry.1, entry.2]
  | .list _ elements => elements.results

theorem writeItems_congr {shape : Shape}
    (h : ∀ c ∈ shape.results, ∀ name, inside c name depth = inside' c name depth') :
    writeItems policy inside depth shape = writeItems policy inside' depth' shape := by
  cases shape with
  | dictionary entries =>
    refine forEachItem_congr fun entry hentry => ?_
    have hmem : ∀ c ∈ [entry.1, entry.2], ∀ name, inside c name depth = inside' c name depth' :=
      fun c hc => h c (List.mem_flatMap.2 ⟨entry, hentry, hc⟩)
    rw [hmem entry.1 (by simp), hmem entry.2 (by simp)]
  | list kind elements =>
    refine forEachItem_congr fun item hitem => ?_
    rw [h item hitem]

theorem Shape.mem_children_of_mem_results {v c : Value} {shape : Shape} (h : v.shape? = some shape)
    (hc : c ∈ shape.results) : c ∈ v.children := by
  cases v with
  | list kind typeName elements properties =>
    obtain rfl := Option.some.inj h
    exact List.mem_append_left _ hc
  | dict typeName entries =>
    obtain rfl := Option.some.inj h
    exact hc
  | null | scalar | enum | object | decorated => cases h

theorem Shape.height_lt_of_mem_results {v c : Value} {shape : Shape} (h : v.shape? = some shape)
    (hc : c ∈ shape.results) : c.height < v.height :=
  Value.height_lt_of_mem_children (Shape.mem_children_of_mem_results h hc)

variable (policy inside inside' depth depth') in
/-- Two ways to write what is inside a value give the same at two depths left for the value: what it holds and what it
is wrapped around at those depths, its properties one level below those of its type, and its notes one level below. -/
structure WrittenAlike (v : Value) : Prop where
  item : ∀ shape, v.base.shape? = some shape → ∀ c ∈ shape.results, ∀ name,
    inside c name depth = inside' c name depth'
  wrapped : ∀ inner notes deserialized, v = .decorated inner notes deserialized → ∀ name,
    inside inner name depth = inside' inner name depth' ∧ inside v.base name depth = inside' v.base name depth'
  property : ∀ p ∈ v.properties, ∀ c ∈ p.value.results, ∀ name,
    inside c name (policy.depthFor v depth - 1) = inside' c name (policy.depthFor v depth' - 1)
  note : ∀ p ∈ v.notes, ∀ c ∈ p.value.results, ∀ name, inside c name (depth - 1) = inside' c name (depth' - 1)

namespace WrittenAlike

theorem selection {v : Value} (h : WrittenAlike policy inside inside' depth depth' v) :
    writeSelection policy inside v depth = writeSelection policy inside' v depth' :=
  writeProperties_congr fun p hp => h.property p (Policy.mem_properties_of_mem_selection hp)

theorem notes {v : Value} (h : WrittenAlike policy inside inside' depth depth' v) {ps : List (Property Value)}
    (hps : ∀ p ∈ ps, p ∈ v.notes) : writeProperties policy inside depth ps = writeProperties policy inside' depth' ps :=
  writeProperties_congr fun p hp => h.note p (hps p hp)

theorem container {v : Value} (h : WrittenAlike policy inside inside' depth depth' v) {shape : Shape}
    {decoration : Option Decoration} (hclass : classify policy v depth = .container shape decoration)
    (name : Option String) :
    writeContainer policy inside v shape decoration name depth =
      writeContainer policy inside' v shape decoration name depth' := by
  obtain ⟨hshape, hnotes⟩ := base_and_notes_of_container hclass
  simp only [writeContainer, writeItems_congr (h.item shape hshape), h.selection, hnotes, h.notes fun _ hp => hp]

theorem chain {inner : Value} {notes : List (Property Value)} {deserialized : Bool}
    (h : WrittenAlike policy inside inside' depth depth' (.decorated inner notes deserialized)) :
    writeChain policy inside (.decorated inner notes deserialized) inner notes depth =
      writeChain policy inside' (.decorated inner notes deserialized) inner notes depth' := by
  obtain ⟨hinner, hbase⟩ := h.wrapped inner notes deserialized rfl none
  simp only [Value.base_decorated] at hbase
  simp only [writeChain, Value.base_decorated, h.selection, h.notes fun _ hp => hp,
    h.notes fun _ hp => List.mem_append_right _ hp, hinner]
  generalize inner.base = base at hbase ⊢
  cases base with
  | object => rfl
  | null | scalar | enum | list | dict | decorated => simp only [hbase]

theorem complex {v : Value} (h : WrittenAlike policy inside inside' depth depth' v) (name : Option String) :
    writeComplex policy inside v name depth = writeComplex policy inside' v name depth' := by
  unfold writeComplex
  split
  · simp only [h.chain]
  · simp only [h.selection]

end WrittenAlike

/-- A value is written alike at two depths that call for the same way to write it if all inside it is. -/
theorem writeNode_congr {v : Value} (hclass : classify policy v depth = classify policy v depth')
    (h : WrittenAlike policy inside inside' depth depth' v) (name : Option String) :
    writeNode policy inside v name depth = writeNode policy inside' v name depth' := by
  simp only [writeNode, ← hclass]
  congr 1
  funext _
  congr 1
  funext _
  cases hstrategy : classify policy v depth with
  | null | scalar | enumLike => rfl
  | notedScalar notes scalar =>
    obtain ⟨deserialized, rfl⟩ := eq_of_classify_eq_notedScalar hstrategy
    simp only [writeNotedScalar, h.notes fun _ hp => List.mem_append_right _ hp]
  | container shape decoration => exact h.container hstrategy name
  | asString => simp only [writeAsString, h.notes fun _ hp => hp]
  | complex => exact h.complex name

/-- A value is written alike if all lower ones are. -/
theorem writeNode_eq_of_lower {v : Value} (h : ∀ c : Value, c.height < v.height → inside c = inside' c) :
    writeNode policy inside v = writeNode policy inside' v := by
  funext name depth
  refine writeNode_congr rfl ⟨fun shape hshape c hc name => ?_, ?_, fun p hp c hc name => ?_,
    fun p hp c hc name => ?_⟩ name
  · rw [h c (Nat.lt_of_lt_of_le (Shape.height_lt_of_mem_results hshape hc) v.height_base_le)]
  · rintro inner notes deserialized rfl name
    have hinner := Value.height_inner_lt inner notes deserialized
    rw [Value.base_decorated, h inner hinner, h _ (Nat.lt_of_le_of_lt inner.height_base_le hinner)]
    exact ⟨rfl, rfl⟩
  · rw [h c (Value.height_lt_of_mem_properties hp hc)]
  · rw [h c (Value.height_lt_of_mem_notes hp hc)]

end Congruence

/-! ## Any number of levels from the height upwards -/

theorem writeWithin_eq_of_height_le (policy : Policy) {v : Value} {n m : Nat} (hn : v.height ≤ n) (hm : v.height ≤ m) :
    writeWithin policy n v = writeWithin policy m v := by
  have hpos := v.height_pos
  induction n generalizing v m with
  | zero => omega
  | succ n ih =>
    cases m with
    | zero => omega
    | succ m =>
      refine writeNode_eq_of_lower fun c hc => ?_
      exact ih (by omega) (by omega) c.height_pos

theorem writeWithin_eq_write (policy : Policy) {v : Value} {n : Nat} (h : v.height ≤ n) :
    writeWithin policy n v = write policy v :=
  writeWithin_eq_of_height_le policy h (Nat.le_refl _)

/-- A value is written by writing the values inside it. -/
theorem write_eq_writeNode (policy : Policy) (v : Value) : write policy v = writeNode policy (write policy) v := by
  rw [← writeWithin_eq_write policy (Nat.le_succ v.height)]
  exact writeNode_eq_of_lower fun c hc => writeWithin_eq_write policy (Nat.le_of_lt hc)

/-- What holds of doing nothing, and of writing a value whenever it holds of writing what is inside, holds of writing
any value. -/
theorem write_induct {policy : Policy} {P : WalkM Unit → Prop} (idle : P (pure ()))
    (node : ∀ inside : Inside, (∀ c name depth, P (inside c name depth)) →
      ∀ v name depth, P (writeNode policy inside v name depth))
    (v : Value) (name : Option String) (depth : Nat) : P (write policy v name depth) := by
  induction hn : v.height using Nat.strongRecOn generalizing v name depth with
  | ind n ih =>
    -- Only lower values are written inside, so that anything will do for the others.
    let inside : Inside := fun c => if c.height < n then write policy c else fun _ _ => pure ()
    have hinside : writeNode policy (write policy) v = writeNode policy inside v :=
      writeNode_eq_of_lower fun c hc => (if_pos (hn ▸ hc)).symm
    rw [write_eq_writeNode, hinside]
    refine node inside (fun c name depth => ?_) v name depth
    by_cases hc : c.height < n
    · simp only [inside, if_pos hc]
      exact ih c.height hc c name depth rfl
    · simp only [inside, if_neg hc]
      exact idle

end GraphMarkup
