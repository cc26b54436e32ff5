import GraphMarkup.Proofs.Graph.AtHand
import GraphMarkup.Proofs.Graph.Hereditary
import GraphMarkup.Proofs.Graph.Items

/-!
# Graphs with nothing left to compute

* `Getter.Steady`, `Value.Steady` : getters that answer every read alike, and graphs of such getters;
* `Value.settled` : a graph with the first answer of every getter and what the first enumeration passes on in their place;
* `settledProperties_eq`, `base_settled`, `properties_settled`, `classify_settled`, ... : settling goes through every
  view of a value;
* `Value.IsSettled`, `isSettled_settled`, `settled_settled` : nothing is left to compute, however deep inside, and
  settling such a graph changes nothing;
* `Repeats` : a step over a run that gives the same in every run, in which a stop may be requested;
* `Value.Steady.stringForm?_settled` : a graph and what it settles to have the same string form.
-/

namespace GraphMarkup

variable {α β γ : Type}

/-! ## Getters that answer alike -/

/-- A getter that gives the answer of its first read to every read. -/
def Getter.Steady (g : Getter α) : Prop := ∀ read, g.answer read = g.first

theorem Getter.steady_of_once {g : Getter α} (h : g.later = []) : g.Steady := by
  intro read
  rw [Getter.answer, h]
  cases read - 1 <;> rfl

def Fetch.Steady : Fetch α → Prop
  | deferred getter => getter.Steady
  | _ => True

/-- Items of which every enumeration passes on the same. -/
def Sequence.Steady (s : Sequence α) : Prop := ∀ reads, s.items reads = s.first

theorem Sequence.steady_ready (items : List α) : (ready items).Steady := fun _ => rfl

theorem Getter.Steady.sequence {enumerator : Getter (Enumeration α)} (h : enumerator.Steady) :
    (Sequence.deferred enumerator).Steady := by
  intro reads
  simp only [Sequence.first, Sequence.items, show ∀ read, enumerator.answer read = enumerator.first from h]

namespace Value

/-- A value of which every property, note and string form gives the same to every read, and every enumeration passes on
the same items. -/
def PartsSteady : Value → Prop
  | null | scalar _ | enum .. => True
  | list _ _ elements properties => elements.Steady ∧ ∀ p ∈ properties, p.value.Steady
  | dict _ entries => entries.Steady
  | object _ properties display => (∀ p ∈ properties, p.value.Steady) ∧ ∀ text ∈ display, text.Steady
  | decorated _ notes _ => ∀ p ∈ notes, p.value.Steady

/-- A graph of which every part gives the same to every read. -/
inductive Steady : Value → Prop
  | intro {v : Value} (parts : v.PartsSteady) (inside : ∀ c ∈ v.children, c.Steady) : Steady v

end Value

/-! ## Settling -/

def Fetch.first : Fetch α → Except String α
  | ready value => .ok value
  | failed reason => .error reason
  | deferred getter => getter.first

def Fetch.ofAnswer : Except String α → Fetch α
  | .ok value => ready value
  | .error reason => failed reason

namespace Value

mutual

/-- A graph with the first answer of every getter in its place, and what the first enumeration passes on in the place of
every enumerator. -/
def settled : Value → Value
  | null => null
  | scalar s => scalar s
  | enum typeName name underlying => enum typeName name underlying
  | list kind typeName elements properties =>
    list kind typeName (.ready (settledElements elements)) (settledProperties properties)
  | dict typeName entries => dict typeName (.ready (settledEntries entries))
  | object typeName properties display =>
    object typeName (settledProperties properties) (display.map fun text => .ofAnswer text.first)
  | decorated inner notes deserialized => decorated inner.settled (settledProperties notes) deserialized

def settledElements : Sequence Value → List Value
  | .ready elements => settledValues elements
  | .deferred ⟨_, .ok ⟨steps, _⟩, _, _⟩ => settledSteps steps
  | .deferred ⟨_, .error _, _, _⟩ => []

def settledValues : List Value → List Value
  | [] => []
  | v :: vs => v.settled :: settledValues vs

def settledSteps : List (Step Value) → List Value
  | [] => []
  | ⟨.ok v, _⟩ :: steps => v.settled :: settledSteps steps
  | ⟨.error _, _⟩ :: _ => []

def settledEntries : Sequence (Value × Value) → List (Value × Value)
  | .ready entries => settledPairs entries
  | .deferred ⟨_, .ok ⟨steps, _⟩, _, _⟩ => settledPairSteps steps
  | .deferred ⟨_, .error _, _, _⟩ => []

def settledPairs : List (Value × Value) → List (Value × Value)
  | [] => []
  | (key, value) :: entries => (key.settled, value.settled) :: settledPairs entries

def settledPairSteps : List (Step (Value × Value)) → List (Value × Value)
  | [] => []
  | ⟨.ok (key, value), _⟩ :: steps => (key.settled, value.settled) :: settledPairSteps steps
  | ⟨.error _, _⟩ :: _ => []

def settledProperties : List (Property Value) → List (Property Value)
  | [] => []
  | ⟨name, declaredType, value⟩ :: ps => ⟨name, declaredType, settledPart value⟩ :: settledProperties ps

def settledPart : Fetch Value → Fetch Value
  | .ready v => .ready v.settled
  | .failed reason => .failed reason
  | .deferred ⟨_, .ok v, _, _⟩ => .ready v.settled
  | .deferred ⟨_, .error reason, _, _⟩ => .failed reason

end

def settledEntry (entry : Value × Value) : Value × Value := (entry.1.settled, entry.2.settled)

end Value

def Property.settled (p : Property Value) : Property Value :=
  { p with value := .ofAnswer (p.value.first.map Value.settled) }

def Shape.settled : Shape → Shape
  | .dictionary entries => .dictionary (.ready (entries.first.map Value.settledEntry))
  | .list kind elements => .list kind (.ready (elements.first.map Value.settled))

def Strategy.settled : Strategy → Strategy
  | .notedScalar notes s => .notedScalar (notes.map Property.settled) s
  | .container shape decoration =>
    .container shape.settled (decoration.map fun d => { d with notes := d.notes.map Property.settled })
  | strategy => strategy

namespace Value

/-! ### Settling one by one -/

theorem settledValues_eq (vs : List Value) : settledValues vs = vs.map settled := by
  induction vs with
  | nil => rfl
  | cons v vs ih => rw [settledValues, ih, List.map_cons]

theorem settledSteps_eq (steps : List (Step Value)) : settledSteps steps = (Step.items steps).map settled := by
  induction steps with
  | nil => rfl
  | cons step steps ih =>
    obtain ⟨outcome, stops⟩ := step
    cases outcome with
    | ok v => rw [settledSteps, ih, Step.items, List.map_cons]
    | error reason => rfl

theorem settledElements_eq (elements : Sequence Value) : settledElements elements = elements.first.map settled := by
  cases elements with
  | ready elements => exact settledValues_eq elements
  | deferred enumerator =>
    obtain ⟨id, first, later, stopsOn⟩ := enumerator
    cases first with
    | ok enumeration => exact settledSteps_eq enumeration.steps
    | error reason => rfl

theorem settledPairs_eq (entries : List (Value × Value)) : settledPairs entries = entries.map settledEntry := by
  induction entries with
  | nil => rfl
  | cons entry entries ih => rw [settledPairs, ih, List.map_cons, settledEntry]

theorem settledPairSteps_eq (steps : List (Step (Value × Value))) :
    settledPairSteps steps = (Step.items steps).map settledEntry := by
  induction steps with
  | nil => rfl
  | cons step steps ih =>
    obtain ⟨outcome, stops⟩ := step
    cases outcome with
    | ok entry => rw [settledPairSteps, ih, Step.items, List.map_cons, settledEntry]
    | error reason => rfl

theorem settledEntries_eq (entries : Sequence (Value × Value)) :
    settledEntries entries = entries.first.map settledEntry := by
  cases entries with
  | ready entries => exact settledPairs_eq entries
  | deferred enumerator =>
    obtain ⟨id, first, later, stopsOn⟩ := enumerator
    cases first with
    | ok enumeration => exact settledPairSteps_eq enumeration.steps
    | error reason => rfl

theorem settledPart_eq (part : Fetch Value) : settledPart part = .ofAnswer (part.first.map settled) := by
  cases part with
  | ready v => rfl
  | failed reason => rfl
  | deferred getter =>
    obtain ⟨id, first, later, stopsOn⟩ := getter
    cases first <;> rfl

theorem settledProperties_eq (ps : List (Property Value)) : settledProperties ps = ps.map Property.settled := by
  induction ps with
  | nil => rfl
  | cons p ps ih => rw [settledProperties, ih, settledPart_eq, List.map_cons, Property.settled]

@[simp] theorem settled_list (kind : ListKind) (typeName : Option String) (elements : Sequence Value)
    (properties : List (Property Value)) : (list kind typeName elements properties).settled =
      list kind typeName (.ready (elements.first.map settled)) (properties.map Property.settled) := by
  rw [settled, settledElements_eq, settledProperties_eq]

@[simp] theorem settled_dict (typeName : Option String) (entries : Sequence (Value × Value)) :
    (dict typeName entries).settled = dict typeName (.ready (entries.first.map settledEntry)) := by
  rw [settled, settledEntries_eq]

@[simp] theorem settled_object (typeName : String) (properties : List (Property Value))
    (display : Option (Fetch String)) : (object typeName properties display).settled =
      object typeName (properties.map Property.settled) (display.map fun text => .ofAnswer text.first) := by
  rw [settled, settledProperties_eq]

@[simp] theorem settled_decorated (inner : Value) (notes : List (Property Value)) (deserialized : Bool) :
    (decorated inner notes deserialized).settled =
      decorated inner.settled (notes.map Property.settled) deserialized := by
  rw [settled, settledProperties_eq]

/-! ### Views of what a value settles to -/

@[simp] theorem isNull_settled (v : Value) : v.settled.isNull = v.isNull := by
  cases v <;> rfl

@[simp] theorem isChain_settled (v : Value) : v.settled.isChain = v.isChain := by
  cases v with
  | decorated v notes deserialized => cases v <;> rfl
  | null | scalar | enum | list | dict | object => rfl

@[simp] theorem base_settled (v : Value) : v.settled.base = v.base.settled := by
  fun_induction base v with
  | case1 inner notes deserialized ih => rw [settled_decorated, base_decorated, ih]
  | case2 value hplain =>
    cases value with
    | decorated inner notes deserialized => exact absurd rfl (hplain inner notes deserialized)
    | null | scalar | enum | list | dict | object => rfl

@[simp] theorem notes_settled (v : Value) : v.settled.notes = v.notes.map Property.settled := by
  fun_induction notes v with
  | case1 inner notes deserialized ih => rw [settled_decorated, Value.notes, ih, List.map_append]
  | case2 value hplain =>
    cases value with
    | decorated inner notes deserialized => exact absurd rfl (hplain inner notes deserialized)
    | null | scalar | enum | list | dict | object => rfl

theorem ownProperties_settled (v : Value) : v.settled.ownProperties = v.ownProperties.map Property.settled := by
  cases v with
  | list => rw [settled_list, ownProperties, ownProperties]
  | object => rw [settled_object, ownProperties, ownProperties]
  | null | scalar | enum | dict | decorated => rfl

@[simp] theorem properties_settled (v : Value) : v.settled.properties = v.properties.map Property.settled := by
  rw [properties, properties, base_settled, ownProperties_settled, notes_settled, List.map_append]

@[simp] theorem typeName?_settled (table : TypeTable) (v : Value) : v.settled.typeName? table = v.typeName? table := by
  rw [typeName?, typeName?, base_settled]
  cases v.base <;> rfl

theorem shape?_settled (v : Value) : v.settled.shape? = v.shape?.map Shape.settled := by
  cases v with
  | list => rw [settled_list]; rfl
  | dict => rw [settled_dict]; rfl
  | null | scalar | enum | object | decorated => rfl

/-! ### Nothing is left to compute -/

/-- A value of which every property, note and string form is at hand or known to be missing, and all items are at hand. -/
def PartsSettled : Value → Prop
  | null | scalar _ | enum .. => True
  | list _ _ elements properties => (∃ items, elements = .ready items) ∧ ∀ p ∈ properties, p.value.AtHand
  | dict _ entries => ∃ items, entries = .ready items
  | object _ properties display => (∀ p ∈ properties, p.value.AtHand) ∧ ∀ text ∈ display, text.AtHand
  | decorated _ notes _ => ∀ p ∈ notes, p.value.AtHand

/-- A graph in which nothing is left to compute. -/
inductive IsSettled : Value → Prop
  | intro {v : Value} (parts : v.PartsSettled) (inside : ∀ c ∈ v.children, c.IsSettled) : IsSettled v

end Value

theorem Fetch.atHand_ofAnswer (answer : Except String α) : (Fetch.ofAnswer answer).AtHand := by
  cases answer <;> trivial

theorem Fetch.AtHand.steady {f : Fetch α} (h : f.AtHand) : f.Steady := by
  cases f with
  | ready value => trivial
  | failed reason => trivial
  | deferred getter => exact h.elim

theorem Fetch.AtHand.ofAnswer_first {f : Fetch α} (h : f.AtHand) : .ofAnswer f.first = f := by
  cases f with
  | ready value => rfl
  | failed reason => rfl
  | deferred getter => exact h.elim

theorem Fetch.mem_results_of_first {f : Fetch α} {a : α} (h : f.first = .ok a) : a ∈ f.results := by
  cases f with
  | ready value =>
    cases h
    exact List.mem_singleton_self a
  | failed reason => cases h
  | deferred getter => exact List.mem_filterMap.2 ⟨.ok a, h ▸ List.mem_cons_self .., rfl⟩

namespace Value

theorem atHand_of_mem_settled {ps : List (Property Value)} {p : Property Value} (h : p ∈ ps.map Property.settled) :
    p.value.AtHand := by
  obtain ⟨q, -, rfl⟩ := List.mem_map.1 h
  exact Fetch.atHand_ofAnswer _

theorem partsSettled_settled (v : Value) : v.settled.PartsSettled := by
  cases v with
  | null | scalar | enum => trivial
  | list =>
    rw [settled_list]
    exact ⟨⟨_, rfl⟩, fun _ => atHand_of_mem_settled⟩
  | dict =>
    rw [settled_dict]
    exact ⟨_, rfl⟩
  | object typeName properties display =>
    rw [settled_object]
    refine ⟨fun _ => atHand_of_mem_settled, fun text htext => ?_⟩
    obtain ⟨deferred, -, rfl⟩ := Option.map_eq_some_iff.1 htext
    exact Fetch.atHand_ofAnswer _
  | decorated =>
    rw [settled_decorated]
    exact fun _ => atHand_of_mem_settled

theorem exists_of_mem_settled_results {ps : List (Property Value)} {c : Value}
    (h : c ∈ (ps.map Property.settled).flatMap fun p => p.value.results) :
    ∃ d ∈ ps.flatMap fun p => p.value.results, d.settled = c := by
  obtain ⟨q, hq, hc⟩ := List.mem_flatMap.1 h
  obtain ⟨p, hp, rfl⟩ := List.mem_map.1 hq
  cases hfirst : p.value.first with
  | ok d =>
    rw [Property.settled, hfirst] at hc
    obtain rfl : c = d.settled := List.mem_singleton.1 hc
    exact ⟨d, List.mem_flatMap.2 ⟨p, hp, Fetch.mem_results_of_first hfirst⟩, rfl⟩
  | error reason =>
    rw [Property.settled, hfirst] at hc
    cases hc

/-- Everything inside what a value settles to is what something inside the value settles to. -/
theorem exists_of_mem_settled_children {v c : Value} (h : c ∈ v.settled.children) : ∃ d ∈ v.children, d.settled = c := by
  cases v with
  | null | scalar | enum => cases h
  | list kind typeName elements properties =>
    rw [settled_list] at h
    rcases List.mem_append.1 h with h | h
    · obtain ⟨d, hd, rfl⟩ := List.mem_map.1 h
      exact ⟨d, List.mem_append_left _ (Sequence.mem_results_of_mem_items hd), rfl⟩
    · obtain ⟨d, hd, rfl⟩ := exists_of_mem_settled_results h
      exact ⟨d, List.mem_append_right _ hd, rfl⟩
  | dict typeName entries =>
    rw [settled_dict] at h
    obtain ⟨entry, hentry, hc⟩ := List.mem_flatMap.1 h
    obtain ⟨⟨key, value⟩, hmem, rfl⟩ := List.mem_map.1 hentry
    have hresult := Sequence.mem_results_of_mem_items hmem
    simp only [settledEntry, List.mem_cons, List.not_mem_nil, or_false] at hc
    rcases hc with rfl | rfl
    · exact ⟨key, List.mem_flatMap.2 ⟨_, hresult, by simp⟩, rfl⟩
    · exact ⟨value, List.mem_flatMap.2 ⟨_, hresult, by simp⟩, rfl⟩
  | object =>
    rw [settled_object] at h
    exact exists_of_mem_settled_results h
  | decorated inner notes deserialized =>
    rw [settled_decorated] at h
    rcases List.mem_cons.1 h with rfl | h
    · exact ⟨inner, List.mem_cons_self .., rfl⟩
    · obtain ⟨d, hd, rfl⟩ := exists_of_mem_settled_results h
      exact ⟨d, List.mem_cons_of_mem _ hd, rfl⟩

/-- What a graph settles to leaves nothing to compute, however deep inside. -/
theorem isSettled_settled (v : Value) : v.settled.IsSettled := by
  induction hn : v.height using Nat.strongRecOn generalizing v with
  | ind n ih =>
    refine .intro v.partsSettled_settled fun c hc => ?_
    obtain ⟨d, hd, rfl⟩ := exists_of_mem_settled_children hc
    exact ih d.height (hn ▸ height_lt_of_mem_children hd) d rfl

/-! ### Settling what is settled -/

theorem map_property_settled_eq {ps : List (Property Value)} (h : ∀ p ∈ ps, p.value.AtHand)
    (hinside : ∀ c ∈ ps.flatMap fun p => p.value.results, c.settled = c) : ps.map Property.settled = ps := by
  have hsettled : ∀ p ∈ ps, p.settled = p := by
    intro p hp
    have hfirst : p.value.first.map settled = p.value.first := by
      cases hvalue : p.value.first with
      | ok v => exact congrArg Except.ok (hinside v (List.mem_flatMap.2 ⟨p, hp, Fetch.mem_results_of_first hvalue⟩))
      | error reason => rfl
    rw [Property.settled, hfirst, (h p hp).ofAnswer_first]
  exact (List.map_congr_left hsettled).trans (List.map_id ps)

/-- A graph in which nothing is left to compute settles to itself. -/
theorem IsSettled.settled_eq {v : Value} (h : v.IsSettled) : v.settled = v := by
  induction h with
  | @intro v parts _ ih =>
    cases v with
    | null | scalar | enum => rfl
    | list kind typeName elements properties =>
      obtain ⟨⟨items, rfl⟩, hproperties⟩ := parts
      have hitems : ∀ item ∈ items, item.settled = item := fun item hitem => ih item (List.mem_append_left _ hitem)
      rw [settled_list, map_property_settled_eq hproperties fun c hc => ih c (List.mem_append_right _ hc)]
      exact congrArg (fun items => list kind typeName (.ready items) properties)
        ((List.map_congr_left hitems).trans (List.map_id items))
    | dict typeName entries =>
      obtain ⟨entries, rfl⟩ := parts
      have hentries : ∀ entry ∈ entries, settledEntry entry = entry := by
        intro entry hentry
        have hpart (c : Value) (hc : c ∈ [entry.1, entry.2]) : c.settled = c :=
          ih c (List.mem_flatMap.2 ⟨entry, hentry, hc⟩)
        exact Prod.ext (hpart entry.1 (by simp)) (hpart entry.2 (by simp))
      rw [settled_dict]
      exact congrArg (fun entries => dict typeName (.ready entries))
        ((List.map_congr_left hentries).trans (List.map_id entries))
    | object typeName properties display =>
      obtain ⟨hproperties, hdisplay⟩ := parts
      rw [settled_object, map_property_settled_eq hproperties ih]
      cases display with
      | none => rfl
      | some text =>
        rw [Option.map_some, (hdisplay text rfl).ofAnswer_first]
    | decorated inner notes deserialized =>
      rw [settled_decorated, ih inner (List.mem_cons_self ..),
        map_property_settled_eq parts fun c hc => ih c (List.mem_cons_of_mem _ hc)]

/-- Settling twice is settling once. -/
theorem settled_settled (v : Value) : v.settled.settled = v.settled := v.isSettled_settled.settled_eq

theorem IsSettled.steady {v : Value} (h : v.IsSettled) : v.Steady := by
  induction h with
  | @intro v parts _ ih =>
    refine .intro ?_ ih
    cases v with
    | null | scalar | enum => trivial
    | list =>
      obtain ⟨⟨items, rfl⟩, hproperties⟩ := parts
      exact ⟨Sequence.steady_ready items, fun p hp => (hproperties p hp).steady⟩
    | dict =>
      obtain ⟨entries, rfl⟩ := parts
      exact Sequence.steady_ready entries
    | object => exact ⟨fun p hp => (parts.1 p hp).steady, fun text htext => (parts.2 text htext).steady⟩
    | decorated => exact fun p hp => (parts p hp).steady

end Value

theorem Value.typeName?_of_isNull {v : Value} (h : v.isNull) (table : TypeTable) : v.typeName? table = none := by
  cases v with
  | null => rfl
  | scalar | enum | list | dict | object | decorated => cases h

/-- A property that is null or cannot be read has no type name but the declared one, settled or not. -/
theorem Property.typeName?_settled {p : Property Value} (h : ∀ v, p.value.first = .ok v → v.isNull)
    (table : TypeTable) : p.settled.typeName? table = p.typeName? table := by
  obtain ⟨name, declaredType, value⟩ := p
  cases declaredType with
  | some typeName => rfl
  | none =>
    cases value with
    | ready v => exact v.typeName?_settled table
    | failed reason => rfl
    | deferred getter =>
      obtain ⟨id, first, later, stopsOn⟩ := getter
      cases first with
      | ok v =>
        show v.settled.typeName? table = none
        rw [Value.typeName?_settled, Value.typeName?_of_isNull (h v rfl)]
      | error reason => rfl

/-! ### How what a value settles to is written -/

section Policies

variable (policy : Policy) (v : Value)

@[simp] theorem hintsFor?_settled : policy.hintsFor? v.settled = policy.hintsFor? v := by
  rw [Policy.hintsFor?, Policy.hintsFor?, Value.typeName?_settled]

theorem leaf?_settled (table : TypeTable) :
    Strategy.leaf? table v.settled = (Strategy.leaf? table v).map Strategy.settled := by
  cases v with
  | scalar s =>
    rw [Value.settled, Strategy.leaf?]
    split <;> rfl
  | decorated v notes deserialized =>
    rw [Value.settled_decorated]
    cases v with
    | scalar s =>
      rw [Value.settled, Strategy.leaf?, Strategy.leaf?]
      split <;> rfl
    | null | enum | list | dict | object | decorated => rfl
  | null | enum | list | dict | object => rfl

theorem container?_settled : Strategy.container? v.settled = (Strategy.container? v).map Strategy.settled := by
  cases v with
  | decorated v notes deserialized =>
    rw [Value.settled_decorated, Strategy.container?, Strategy.container?, Value.shape?_settled]
    cases v.shape? <;> rfl
  | list => rw [Value.settled_list]; rfl
  | dict => rw [Value.settled_dict]; rfl
  | null | scalar | enum | object => rfl

theorem enumLike?_settled : Strategy.enumLike? v.settled = (Strategy.enumLike? v).map Strategy.settled := by
  rw [Strategy.enumLike?, Strategy.enumLike?, Value.base_settled]
  cases v.base <;> rfl

theorem expansion_settled : Strategy.expansion policy v.settled = (Strategy.expansion policy v).settled := by
  have hsame : Strategy.expansion policy v.settled = Strategy.expansion policy v := by
    rw [Strategy.expansion, Strategy.expansion, Value.isChain_settled, Value.base_settled, Strategy.prefersString,
      Strategy.prefersString, hintsFor?_settled]
    cases v.base <;> rfl
  rw [hsame]
  rcases Strategy.expansion_eq policy v with h | h
  · rw [h]
    rfl
  · rw [h]
    rfl

theorem classify_settled (depth : Nat) : classify policy v.settled depth = (classify policy v depth).settled := by
  unfold classify
  rw [leaf?_settled]
  cases Strategy.leaf? policy.knownTypes v with
  | some strategy => rfl
  | none =>
    simp only [Option.map_none]
    split
    · rfl
    · rw [container?_settled, enumLike?_settled, expansion_settled]
      cases Strategy.container? v with
      | some strategy => rfl
      | none => cases Strategy.enumLike? v <;> rfl

theorem find?_settled (ps : List (Property Value)) (name : String) :
    ((ps.map Property.settled).find? fun p => p.name == name) = (ps.find? fun p => p.name == name).map Property.settled := by
  rw [List.find?_map]
  rfl

theorem sourceProperty?_settled : sourceProperty? policy v.settled = (sourceProperty? policy v).map Property.settled := by
  rw [sourceProperty?, sourceProperty?, Policy.stringSource?, Policy.stringSource?, hintsFor?_settled,
    Value.properties_settled]
  cases (policy.hintsFor? v).bind TypeHints.stringSource with
  | none => rfl
  | some name => exact find?_settled v.properties name

end Policies

/-! ## Reading -/

/-- A step over a run that gives the same in every run, and in which a stop that has been requested stays so. -/
def Repeats (a : α) (step : StateM Run α) : Prop := ∀ run, (step run).1 = a ∧ (run.stopped → (step run).2.stopped)

theorem repeats_pure (a : α) : Repeats a (pure a) := fun _ => ⟨rfl, id⟩

theorem Repeats.bind {a : α} {b : β} {step : StateM Run α} {k : α → StateM Run β} (h : Repeats a step)
    (hk : Repeats b (k a)) : Repeats b (step >>= k) := by
  intro run
  obtain ⟨hanswer, hstopped⟩ := h run
  obtain ⟨hanswer', hstopped'⟩ := hk (step run).2
  show (k (step run).1 (step run).2).1 = b ∧ (run.stopped → (k (step run).1 (step run).2).2.stopped)
  rw [hanswer]
  exact ⟨hanswer', fun h => hstopped' (hstopped h)⟩

theorem Run.stopped_stopIf {run : Run} (h : run.stopped) (stops : Bool) : (run.stopIf stops).stopped := by
  cases stops with
  | true => rfl
  | false => exact h

theorem Fetch.stopped_read (f : Fetch α) (request : Request) {run : Run} (h : run.stopped) :
    (f.read request run).2.stopped := by
  cases f with
  | ready value => exact h
  | failed reason => exact h
  | deferred getter =>
    have hasked (answer : Except String α) :
        ((run.countRead getter.id).ask request (some getter.id) (failure? answer)).stopped := h
    exact Run.stopped_stopIf (hasked _) _

theorem Fetch.Steady.repeats {f : Fetch α} (h : f.Steady) (request : Request) : Repeats f.first (f.read request) := by
  refine fun run => ⟨?_, f.stopped_read request⟩
  cases f with
  | ready value => rfl
  | failed reason => rfl
  | deferred getter => exact h _

theorem Fetch.answers_ofAnswer (answer : Except String α) (request : Request) :
    Answers answer ((Fetch.ofAnswer answer).read request) := by
  cases answer with
  | ok value => exact fun _ => ⟨rfl, rfl⟩
  | error reason => exact fun _ => ⟨rfl, rfl⟩

namespace Value.Steady

variable {v : Value}

theorem parts (h : v.Steady) : v.PartsSteady := by
  cases h
  assumption

theorem hereditary : Value.Hereditary Value.Steady := by
  intro v hv
  cases hv with
  | intro _ inside => exact inside

theorem base (h : v.Steady) : v.base.Steady := hereditary.base h

theorem ownProperty (h : v.Steady) {p : Property Value} (hp : p ∈ v.ownProperties) : p.value.Steady := by
  have hparts := h.parts
  cases v with
  | list => exact hparts.2 p hp
  | object => exact hparts.1 p hp
  | null | scalar | enum | dict | decorated => cases hp

theorem note (h : v.Steady) {p : Property Value} (hp : p ∈ v.notes) : p.value.Steady := by
  fun_induction Value.notes v with
  | case1 inner notes deserialized ih =>
    rcases List.mem_append.1 hp with hp | hp
    · exact ih (hereditary _ h inner (List.mem_cons_self ..)) hp
    · exact h.parts p hp
  | case2 _ _ => cases hp

theorem property (h : v.Steady) {p : Property Value} (hp : p ∈ v.properties) : p.value.Steady := by
  rcases List.mem_append.1 hp with hp | hp
  · exact h.base.ownProperty hp
  · exact h.note hp

theorem displayText_settled (h : v.Steady) (policy : Policy) :
    ∃ answer, Repeats answer (displayText policy v) ∧ Answers answer (displayText policy v.settled) := by
  have hbase := h.base.parts
  unfold displayText
  rw [base_settled, typeName?_settled]
  cases hcase : v.base with
  | object typeName properties display =>
    rw [hcase] at hbase
    rw [settled_object]
    cases display with
    | none => exact ⟨_, repeats_pure _, answers_pure _⟩
    | some text =>
      have hread := (hbase.2 text rfl).repeats (.display typeName)
      exact ⟨_, hread.bind (repeats_pure _), (Fetch.answers_ofAnswer text.first _).bind (answers_pure _)⟩
  | null | scalar | enum | list | dict | decorated => exact ⟨_, repeats_pure _, answers_pure _⟩

/-- What a graph settles to has the same string form. -/
theorem stringForm?_settled (h : v.Steady) (policy : Policy) :
    ∃ answer, Repeats answer (stringForm? policy v) ∧ Answers answer (stringForm? policy v.settled) := by
  unfold stringForm?
  rw [sourceProperty?_settled]
  cases hsource : sourceProperty? policy v with
  | none => exact h.displayText_settled policy
  | some p =>
    have hmem : p ∈ v.properties := by
      obtain ⟨name, -, hfind⟩ := Option.bind_eq_some_iff.1 hsource
      exact List.mem_of_find?_eq_some hfind
    have hread := (h.property hmem).repeats (.source p.name)
    have hread' : Answers (p.value.first.map Value.settled) (p.settled.value.read (.source p.settled.name)) :=
      Fetch.answers_ofAnswer _ _
    cases hfirst : p.value.first with
    | ok source =>
      rw [hfirst] at hread hread'
      have hsteady := hereditary.property h hmem (Fetch.mem_results_of_first hfirst)
      obtain ⟨text, htext, htext'⟩ := hsteady.displayText_settled policy
      refine ⟨text, hread.bind ?_, hread'.bind ?_⟩
      · exact htext
      · exact htext'
    | error reason =>
      rw [hfirst] at hread hread'
      refine ⟨.error reason, hread.bind ?_, hread'.bind ?_⟩
      · exact repeats_pure _
      · exact answers_pure _

end Value.Steady

end GraphMarkup
