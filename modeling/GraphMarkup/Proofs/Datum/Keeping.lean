import GraphMarkup.Proofs.Datum.Pairing

/-!
# Data are kept

* `Datum.nodes` : a datum and everything inside it, in the order of the description;
* `Datum.fault?` : why a datum, for itself, has no value;
* `Datum.Becomes` : what value a datum is to become;
* `Datum.FaultOr` : what comes of data in that order, the first fault or something that a relation holds of;
* `Datum.toValue_faultOr` : the value of a datum is what it is to become, unless a fault is in it;
* `Datum.toValue_keeps` : a datum whose maps are in pairs has a value if and only if nothing in it has a fault, and the
  value keeps everything; otherwise the first fault is the error.
-/

namespace GraphMarkup

open MapCall (ofPairs)

namespace Datum

/-! ## What is inside a datum -/

mutual

/-- Everything inside a datum, in the order of the description. -/
def inside : Datum → List Datum
  | scalar _ | absent | unit | wideInteger _ | failure _ | bytes _ | emptyRecord _ | bareCase .. => []
  | present content | wrapper content | wrapperCase _ _ content => content :: content.inside
  | sequence items | tuple items | namedTuple _ items | tupleCase _ _ items => insideItems items
  | map calls => insideCalls calls
  | record _ fields | recordCase _ _ fields => insideFields fields

def insideItems : List Datum → List Datum
  | [] => []
  | item :: items => (item :: item.inside) ++ insideItems items

def insideFields : List (String × Option Datum) → List Datum
  | [] => []
  | (_, none) :: fields => insideFields fields
  | (_, some content) :: fields => (content :: content.inside) ++ insideFields fields

def insideCalls : List (MapCall Datum) → List Datum
  | [] => []
  | .key content :: calls | .value content :: calls => (content :: content.inside) ++ insideCalls calls

end

def nodes (d : Datum) : List Datum := d :: d.inside

/-- Why a datum has no value, whatever is around it. -/
def fault? : Datum → Option ConversionFault
  | wideInteger typeName => some (.unsupported typeName)
  | failure text => some (.other text)
  | _ => none

/-- All maps among data are in pairs. -/
def InPairs (ds : List Datum) : Prop := ∀ calls, .map calls ∈ ds → ∃ pairs, calls = ofPairs pairs

/-! ## What a datum becomes -/

def given (fields : List (String × Option Datum)) : List (String × Datum) :=
  fields.filterMap fun field => field.2.map (field.1, ·)

def propertiesOf (names : List String) (values : List Value) : List (Property Value) :=
  List.zipWith (fun name value => { name, value := .ready value }) names values

def positions (items : List Datum) : List String := (List.range items.length).map Nat.repr

/-- What value a datum is to become. -/
inductive Becomes : Datum → Value → Prop
  | scalar (s : Scalar) : Becomes (.scalar s) (.scalar s)
  | absent : Becomes .absent .null
  | present {content : Datum} {v : Value} (h : Becomes content v) : Becomes (.present content) v
  | unit : Becomes .unit .null
  | bytes (items : List UInt8) :
    Becomes (.bytes items) (.list .list none (.ready (items.map fun item => .scalar (.nat8 item))) [])
  | emptyRecord (typeName : String) : Becomes (.emptyRecord typeName) (.object typeName [] none)
  | wrapper {content : Datum} {v : Value} (h : Becomes content v) : Becomes (.wrapper content) v
  | sequence {items : List Datum} {values : List Value} (h : List.Forall₂ Becomes items values) :
    Becomes (.sequence items) (.list .list none (.ready values) [])
  | tuple {items : List Datum} {values : List Value} (h : List.Forall₂ Becomes items values) :
    Becomes (.tuple items) (.list .list none (.ready values) [])
  | namedTuple (typeName : String) {items : List Datum} {values : List Value} (h : List.Forall₂ Becomes items values) :
    Becomes (.namedTuple typeName items) (.list .list (some typeName) (.ready values) [])
  | map {pairs : List (Datum × Datum)} {entries : List (Value × Value)}
    (hkeys : List.Forall₂ Becomes (pairs.map Prod.fst) (entries.map Prod.fst))
    (hvalues : List.Forall₂ Becomes (pairs.map Prod.snd) (entries.map Prod.snd)) :
    Becomes (.map (ofPairs pairs)) (.dict none (.ready entries))
  | record (typeName : String) {fields : List (String × Option Datum)} {values : List Value}
    (h : List.Forall₂ Becomes ((given fields).map Prod.snd) values) :
    Becomes (.record typeName fields) (.object typeName (propertiesOf ((given fields).map Prod.fst) values) none)
  | bareCase (typeName caseName : String) (index : UInt32) :
    Becomes (.bareCase typeName caseName index) (.enum typeName caseName (.nat32 index))
  | wrapperCase (typeName caseName : String) {content : Datum} {v : Value} (h : Becomes content v) :
    Becomes (.wrapperCase typeName caseName content)
      (.object (typeName ++ "::" ++ caseName) (propertiesOf ["0"] [v]) none)
  | tupleCase (typeName caseName : String) {items : List Datum} {values : List Value}
    (h : List.Forall₂ Becomes items values) :
    Becomes (.tupleCase typeName caseName items)
      (.object (typeName ++ "::" ++ caseName) (propertiesOf (positions items) values) none)
  | recordCase (typeName caseName : String) {fields : List (String × Option Datum)} {values : List Value}
    (h : List.Forall₂ Becomes ((given fields).map Prod.snd) values) :
    Becomes (.recordCase typeName caseName fields)
      (.object (typeName ++ "::" ++ caseName) (propertiesOf ((given fields).map Prod.fst) values) none)

/-- Values numbered from zero have their positions for names. -/
theorem numbered_eq {items : List Datum} {values : List Value} (h : items.length = values.length) :
    numbered values = propertiesOf (positions items) values := by
  apply List.ext_getElem
  · simp [numbered, propertiesOf, positions, h]
  · intro i hi hi'
    simp [numbered, propertiesOf, positions]

/-! ## What comes of data in a row -/

section

variable {α β : Type} {ds ds' : List Datum} {d : Datum} {R : α → Prop} {S : β → Prop} {result : Except Error α}

/-- What comes of data: the first fault, or an answer that a relation holds of. -/
def FaultOr (ds : List Datum) (R : α → Prop) (result : Except Error α) : Prop :=
  match ds.findSome? fault? with
  | some fault => result = .error (.conversion fault)
  | none => ∃ a, result = .ok a ∧ R a

theorem FaultOr.of_fault {fault : ConversionFault} (h : FaultOr ds R result) (hfault : ds.findSome? fault? = some fault) :
    result = .error (.conversion fault) := by
  rwa [FaultOr, hfault] at h

theorem FaultOr.of_none (h : FaultOr ds R result) (hnone : ds.findSome? fault? = none) : ∃ a, result = .ok a ∧ R a := by
  rwa [FaultOr, hnone] at h

/-- The first fault is the only error. -/
theorem FaultOr.error_iff {e : Error} (h : FaultOr ds R result) :
    result = .error e ↔ ∃ fault, ds.findSome? fault? = some fault ∧ e = .conversion fault := by
  constructor
  · intro he
    cases hfault : ds.findSome? fault? with
    | some fault => exact ⟨fault, rfl, Except.error.inj (he.symm.trans (h.of_fault hfault))⟩
    | none =>
      obtain ⟨a, hresult, -⟩ := h.of_none hfault
      cases he.symm.trans hresult
  · rintro ⟨fault, hfault, rfl⟩
    exact h.of_fault hfault

/-- A datum in front that has no fault of its own. -/
theorem FaultOr.cons (hd : d.fault? = none) (h : FaultOr ds R result) : FaultOr (d :: ds) R result := by
  rwa [FaultOr, List.findSome?_cons, hd]

theorem FaultOr.imp {R' : α → Prop} (h : FaultOr ds R result) (hR : ∀ a, R a → R' a) : FaultOr ds R' result := by
  unfold FaultOr
  cases hfault : ds.findSome? fault? with
  | some fault => exact h.of_fault hfault
  | none =>
    obtain ⟨a, hresult, ha⟩ := h.of_none hfault
    exact ⟨a, hresult, hR a ha⟩

/-- Two steps, each about its own data, are about the data of both. -/
theorem FaultOr.bind {k : α → Except Error β} (h : FaultOr ds R result) (hk : ∀ a, R a → FaultOr ds' S (k a)) :
    FaultOr (ds ++ ds') S (result >>= k) := by
  rw [FaultOr, List.findSome?_append]
  cases hfault : ds.findSome? fault? with
  | some fault =>
    rw [h.of_fault hfault]
    rfl
  | none =>
    obtain ⟨a, rfl, ha⟩ := h.of_none hfault
    exact hk a ha

/-- A second step that always has an answer. -/
theorem FaultOr.andThen {k : α → Except Error β} (h : FaultOr ds R result) (hk : ∀ a, R a → ∃ b, k a = .ok b ∧ S b) :
    FaultOr ds S (result >>= k) := by
  have hboth : FaultOr (ds ++ []) S (result >>= k) := h.bind hk
  rwa [List.append_nil] at hboth

theorem FaultOr.map {f : α → β} (h : FaultOr ds R result) (hf : ∀ a, R a → S (f a)) :
    FaultOr ds S (result >>= fun a => pure (f a)) :=
  h.andThen fun a ha => ⟨f a, rfl, hf a ha⟩

end

/-! ## What comes of a datum -/

/-- Properties for the fields that have content. -/
def FieldsBecome (fields : List (String × Option Datum)) (ps : List (Property Value)) : Prop :=
  ∃ values, List.Forall₂ Becomes ((given fields).map Prod.snd) values ∧
    ps = propertiesOf ((given fields).map Prod.fst) values

/-- A map with entries for pairs after those that it has. -/
def PairsBecome (pairs : List (Datum × Datum)) (entries : Array (Value × Value)) (b : MapBuilder) : Prop :=
  ∃ more : List (Value × Value), b = ⟨entries ++ more, none⟩ ∧
    List.Forall₂ Becomes (pairs.map Prod.fst) (more.map Prod.fst) ∧
    List.Forall₂ Becomes (pairs.map Prod.snd) (more.map Prod.snd)

theorem InPairs.of_subset {ds ds' : List Datum} (h : InPairs ds') (hsubset : ds ⊆ ds') : InPairs ds :=
  fun calls hcalls => h calls (hsubset hcalls)

theorem InPairs.left {ds ds' : List Datum} (h : InPairs (ds ++ ds')) : InPairs ds :=
  h.of_subset (List.subset_append_left ds ds')

theorem InPairs.right {ds ds' : List Datum} (h : InPairs (ds ++ ds')) : InPairs ds' :=
  h.of_subset (List.subset_append_right ds ds')

theorem InPairs.tail {d : Datum} {ds : List Datum} (h : InPairs (d :: ds)) : InPairs ds :=
  h.of_subset (List.subset_cons_self d ds)

/-- The entries of a map in pairs, from a state in which no key is pending. -/
theorem addCalls_faultOr {pairs : List (Datum × Datum)}
    (h : ∀ call ∈ ofPairs pairs, FaultOr call.content.nodes call.content.Becomes call.content.toValue)
    (entries : Array (Value × Value)) :
    FaultOr (insideCalls (ofPairs pairs)) (PairsBecome pairs entries) (addCalls (ofPairs pairs) ⟨entries, none⟩) := by
  induction pairs generalizing entries with
  | nil => exact ⟨_, rfl, [], by simp, .nil, .nil⟩
  | cons pair pairs ih =>
    obtain ⟨hkey, hafter⟩ := List.forall_mem_cons.1 h
    obtain ⟨hvalue, hrest⟩ := List.forall_mem_cons.1 hafter
    refine FaultOr.bind hkey fun key hk => FaultOr.bind hvalue fun value hv =>
      (ih hrest (entries.push (key, value))).imp ?_
    rintro _ ⟨more, rfl, hkeys, hvalues⟩
    exact ⟨(key, value) :: more, by simp, .cons hk hkeys, .cons hv hvalues⟩

theorem map_faultOr {pairs : List (Datum × Datum)}
    (h : ∀ call ∈ ofPairs pairs, FaultOr call.content.nodes call.content.Becomes call.content.toValue) :
    FaultOr (insideCalls (ofPairs pairs)) (map (ofPairs pairs)).Becomes (map (ofPairs pairs)).toValue := by
  refine (addCalls_faultOr h #[]).andThen ?_
  rintro _ ⟨entries, rfl, hkeys, hvalues⟩
  refine ⟨.dict none (.ready entries), ?_, .map hkeys hvalues⟩
  simp [MapBuilder.finish]

mutual

/-- The value of a datum is what it is to become, unless a fault is in it. -/
theorem toValue_faultOr : ∀ (d : Datum), InPairs d.nodes → FaultOr d.nodes d.Becomes d.toValue
  | scalar s, _ => ⟨_, rfl, .scalar s⟩
  | absent, _ => ⟨_, rfl, .absent⟩
  | unit, _ => ⟨_, rfl, .unit⟩
  | wideInteger _, _ | failure _, _ => rfl
  | bytes items, _ => ⟨_, rfl, .bytes items⟩
  | emptyRecord typeName, _ => ⟨_, rfl, .emptyRecord typeName⟩
  | bareCase typeName caseName index, _ => ⟨_, rfl, .bareCase typeName caseName index⟩
  | present content, h => ((content.toValue_faultOr h.tail).imp fun _ => .present).cons rfl
  | wrapper content, h => ((content.toValue_faultOr h.tail).imp fun _ => .wrapper).cons rfl
  | wrapperCase typeName caseName content, h =>
    ((content.toValue_faultOr h.tail).map fun _ => .wrapperCase typeName caseName).cons rfl
  | sequence items, h => ((toValues_faultOr items h.tail).map fun _ => .sequence).cons rfl
  | tuple items, h => ((toValues_faultOr items h.tail).map fun _ => .tuple).cons rfl
  | namedTuple typeName items, h => ((toValues_faultOr items h.tail).map fun _ => .namedTuple typeName).cons rfl
  | tupleCase typeName caseName items, h => by
    refine ((toValues_faultOr items h.tail).map fun values hvalues => ?_).cons rfl
    rw [numbered_eq hvalues.length_eq]
    exact .tupleCase typeName caseName hvalues
  | record typeName fields, h => by
    refine ((toProperties_faultOr fields h.tail).map fun ps hps => ?_).cons rfl
    obtain ⟨values, hvalues, rfl⟩ := hps
    exact .record typeName hvalues
  | recordCase typeName caseName fields, h => by
    refine ((toProperties_faultOr fields h.tail).map fun ps hps => ?_).cons rfl
    obtain ⟨values, hvalues, rfl⟩ := hps
    exact .recordCase typeName caseName hvalues
  | map calls, h => by
    obtain ⟨pairs, rfl⟩ := h calls (List.mem_cons_self ..)
    exact (map_faultOr (contents_faultOr (ofPairs pairs) h.tail)).cons rfl

theorem toValues_faultOr : ∀ (items : List Datum), InPairs (insideItems items) →
    FaultOr (insideItems items) (List.Forall₂ Becomes items) (toValues items)
  | [], _ => ⟨[], rfl, .nil⟩
  | item :: items, h =>
    (item.toValue_faultOr h.left).bind fun _ hvalue =>
      (toValues_faultOr items h.right).map fun _ hvalues => .cons hvalue hvalues

theorem toProperties_faultOr : ∀ (fields : List (String × Option Datum)), InPairs (insideFields fields) →
    FaultOr (insideFields fields) (FieldsBecome fields) (toProperties fields)
  | [], _ => ⟨[], rfl, [], .nil, rfl⟩
  | (_, none) :: fields, h => toProperties_faultOr fields h
  | (name, some content) :: fields, h => by
    refine (content.toValue_faultOr h.left).bind fun v hv => (toProperties_faultOr fields h.right).map fun ps hps => ?_
    obtain ⟨values, hvalues, rfl⟩ := hps
    exact ⟨v :: values, .cons hv hvalues, rfl⟩

-- The recursion is on the parts of a map, which are in pairs only by the hypothesis on the whole map.
theorem contents_faultOr : ∀ (calls : List (MapCall Datum)), InPairs (insideCalls calls) →
    ∀ call ∈ calls, FaultOr call.content.nodes call.content.Becomes call.content.toValue
  | [], _ => List.forall_mem_nil _
  | .key content :: calls, h | .value content :: calls, h =>
    List.forall_mem_cons.2 ⟨content.toValue_faultOr h.left, contents_faultOr calls h.right⟩

end

/-- Conversion keeps everything and reports the first fault. A datum whose maps are in pairs fails if and only if there
is a fault in it, with the first one in the order of the description, and otherwise it becomes what it is to become. -/
theorem toValue_keeps {d : Datum} (h : InPairs d.nodes) :
    ((∃ e, d.toValue = .error e) ↔ ∃ node ∈ d.nodes, node.fault?.isSome) ∧
    (∀ e, d.toValue = .error e ↔ ∃ fault, d.nodes.findSome? fault? = some fault ∧ e = .conversion fault) ∧
    ((∀ node ∈ d.nodes, node.fault? = none) → ∃ v, d.toValue = .ok v ∧ d.Becomes v) := by
  have houtcome := d.toValue_faultOr h
  refine ⟨?_, fun e => houtcome.error_iff, fun hnone => houtcome.of_none (List.findSome?_eq_none_iff.2 hnone)⟩
  rw [← List.findSome?_isSome_iff, Option.isSome_iff_exists]
  constructor
  · rintro ⟨e, he⟩
    obtain ⟨fault, hfault, -⟩ := houtcome.error_iff.1 he
    exact ⟨fault, hfault⟩
  · rintro ⟨fault, hfault⟩
    exact ⟨.conversion fault, houtcome.error_iff.2 ⟨fault, hfault, rfl⟩⟩

/-- A map of shapes is kept. In a sequence with two faults after it, the first of them is reported. -/
theorem toValue_keeps_of_shapes :
    ∃ shapes : Datum,
      shapes = map [.key (scalar (.string "a")), .value (tupleCase "Shape" "Pair" [present (scalar (.int32 1)),
        recordCase "Shape" "Dot" [("x", some (bytes [7])), ("label", none), ("y", some unit)]])] ∧
      (∃ v, shapes.toValue = .ok v ∧ shapes.Becomes v) ∧
      (sequence [shapes, wideInteger "i128", failure "late"]).toValue = .error (.conversion (.unsupported "i128")) := by
  have hpairs : InPairs (sequence [map [.key (scalar (.string "a")), .value (tupleCase "Shape" "Pair"
      [present (scalar (.int32 1)), recordCase "Shape" "Dot" [("x", some (bytes [7])), ("label", none),
        ("y", some unit)]])], wideInteger "i128", failure "late"]).nodes := by
    intro calls hcalls
    refine ⟨[(scalar (.string "a"), tupleCase "Shape" "Pair" [present (scalar (.int32 1)),
      recordCase "Shape" "Dot" [("x", some (bytes [7])), ("label", none), ("y", some unit)]])], ?_⟩
    simpa [ofPairs, nodes, inside, insideCalls, insideItems, insideFields] using hcalls
  have hshapes := hpairs.tail.left
  refine ⟨_, rfl, (toValue_keeps hshapes).2.2 fun node hnode => ?_, ((toValue_keeps hpairs).2.1 _).2 ⟨_, rfl, rfl⟩⟩
  simp only [nodes, inside, insideCalls, insideItems, insideFields, List.append_nil, List.cons_append, List.nil_append,
    List.mem_cons, List.not_mem_nil, or_false] at hnode
  rcases hnode with rfl | rfl | rfl | rfl | rfl | rfl | rfl | rfl <;> rfl

end Datum

end GraphMarkup
