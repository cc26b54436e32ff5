import GraphMarkup.Walk.Run
import GraphMarkup.Graph.Height
import Mathlib.Data.List.Forall2

/-!
# Parts of two graphs that correspond

* `AnswerRel`, `Getter.Rel`, `Fetch.Rel`, `Step.Rel`, `Enumeration.Rel`, `Sequence.Rel`, `Property.Rel`, `EntryRel` :
  parts of the same make, with the values in them related one by one;
* `exists_of_mem_forall₂` : lists of related things;
* `Fetch.Rel.read` : parts that correspond give answers that correspond, and leave the same run behind;
* `Fetch.Rel.refl`, `Sequence.Rel.refl`, `Property.Rel.refl` : a part corresponds to itself if its values do;
* `Value.RelatesNodes`, `Value.RelatesNodes.refl` : a relation that goes through every kind of value is reflexive.
-/

namespace GraphMarkup

variable {α β : Type}

/-! ## Correspondence -/

/-- Answers that correspond: related values, or the same reason why there is none. -/
inductive AnswerRel (R : α → β → Prop) : Except String α → Except String β → Prop
  | ok {a : α} {b : β} (h : R a b) : AnswerRel R (.ok a) (.ok b)
  | error (reason : String) : AnswerRel R (.error reason) (.error reason)

/-- Getters of one identity whose answers correspond. -/
inductive Getter.Rel (R : α → β → Prop) : Getter α → Getter β → Prop
  | intro (id : Nat) (stopsOn : Option Nat) {first : Except String α} {first' : Except String β}
    {later : List (Except String α)} {later' : List (Except String β)} (hfirst : AnswerRel R first first')
    (hlater : List.Forall₂ (AnswerRel R) later later') :
    Getter.Rel R ⟨id, first, later, stopsOn⟩ ⟨id, first', later', stopsOn⟩

/-- Fetches of the same make. -/
inductive Fetch.Rel (R : α → β → Prop) : Fetch α → Fetch β → Prop
  | ready {a : α} {b : β} (h : R a b) : Fetch.Rel R (.ready a) (.ready b)
  | failed (reason : String) : Fetch.Rel R (.failed reason) (.failed reason)
  | deferred {g : Getter α} {g' : Getter β} (h : g.Rel R g') : Fetch.Rel R (.deferred g) (.deferred g')

/-- Steps whose outcomes correspond. -/
inductive Step.Rel (R : α → β → Prop) : Step α → Step β → Prop
  | intro (stops : Bool) {outcome : Except String α} {outcome' : Except String β} (h : AnswerRel R outcome outcome') :
    Step.Rel R ⟨outcome, stops⟩ ⟨outcome', stops⟩

/-- Enumerations with the same number of steps, whose outcomes correspond. -/
inductive Enumeration.Rel (R : α → β → Prop) : Enumeration α → Enumeration β → Prop
  | intro (endStops : Bool) {steps : List (Step α)} {steps' : List (Step β)} (h : List.Forall₂ (Step.Rel R) steps steps') :
    Enumeration.Rel R ⟨steps, endStops⟩ ⟨steps', endStops⟩

/-- Sequences of the same make and length. -/
inductive Sequence.Rel (R : α → β → Prop) : Sequence α → Sequence β → Prop
  | ready {as : List α} {bs : List β} (h : List.Forall₂ R as bs) : Sequence.Rel R (.ready as) (.ready bs)
  | deferred {e : Getter (Enumeration α)} {e' : Getter (Enumeration β)} (h : e.Rel (Enumeration.Rel R) e') :
    Sequence.Rel R (.deferred e) (.deferred e')

/-- Properties of one name and declared type whose values correspond. -/
inductive Property.Rel (R : α → β → Prop) : Property α → Property β → Prop
  | intro (name : String) (declaredType : Option String) {value : Fetch α} {value' : Fetch β}
    (h : value.Rel R value') : Property.Rel R ⟨name, declaredType, value⟩ ⟨name, declaredType, value'⟩

/-- Entries with related keys and related values. -/
inductive EntryRel (R : α → β → Prop) : α × α → β × β → Prop
  | intro {key value : α} {key' value' : β} (hkey : R key key') (hvalue : R value value') :
    EntryRel R (key, value) (key', value')

variable {R : α → β → Prop}

/-- Whatever is in the second of two related lists is related to something in the first. -/
theorem exists_of_mem_forall₂ {as : List α} {bs : List β} (h : List.Forall₂ R as bs) {b : β} (hb : b ∈ bs) :
    ∃ a ∈ as, R a b := by
  induction h with
  | nil => cases hb
  | cons hfirst _ ih =>
    rcases List.mem_cons.1 hb with rfl | hb
    · exact ⟨_, List.mem_cons_self .., hfirst⟩
    · obtain ⟨a, ha, hab⟩ := ih hb
      exact ⟨a, List.mem_cons_of_mem _ ha, hab⟩

/-! ## Reading -/

theorem AnswerRel.failure?_eq {a : Except String α} {b : Except String β} (h : AnswerRel R a b) :
    failure? a = failure? b := by
  cases h <;> rfl

theorem getLastD_rel {as : List α} {bs : List β} (h : List.Forall₂ R as bs) {a : α} {b : β} (hab : R a b) :
    R (as.getLastD a) (bs.getLastD b) := by
  induction h generalizing a b with
  | nil => exact hab
  | cons hfirst _ ih =>
    rw [List.getLastD_cons, List.getLastD_cons]
    exact ih hfirst

theorem getElem?_getD_rel {as : List α} {bs : List β} (h : List.Forall₂ R as bs) (i : Nat) {a : α} {b : β}
    (hab : R a b) : R (as[i]?.getD a) (bs[i]?.getD b) := by
  induction h generalizing i with
  | nil => exact hab
  | cons hfirst _ ih =>
    cases i with
    | zero => exact hfirst
    | succ i => exact ih i

theorem Getter.Rel.answer {g : Getter α} {g' : Getter β} (h : g.Rel R g') (read : Nat) :
    AnswerRel R (g.answer read) (g'.answer read) := by
  cases h with
  | intro id stopsOn hfirst hlater =>
    exact getElem?_getD_rel (.cons hfirst hlater) (read - 1) (getLastD_rel hlater hfirst)

/-- Parts that correspond give answers that correspond, and leave the same run behind. -/
theorem Fetch.Rel.read {f : Fetch α} {f' : Fetch β} (h : f.Rel R f') (request : Request) (run : Run) :
    AnswerRel R (f.read request run).1 (f'.read request run).1 ∧
      (f.read request run).2 = (f'.read request run).2 := by
  cases h with
  | ready h => exact ⟨.ok h, rfl⟩
  | failed reason => exact ⟨.error reason, rfl⟩
  | @deferred g g' h =>
    have hanswer := h.answer (run.reads g.id + 1)
    have hid : g.id = g'.id := by cases h; rfl
    have hstops : g.stopsOn = g'.stopsOn := by cases h; rfl
    have hfailure := hanswer.failure?_eq
    refine ⟨?_, ?_⟩
    · show AnswerRel R (g.answer (run.reads g.id + 1)) (g'.answer (run.reads g'.id + 1))
      rwa [← hid]
    · simp only [Fetch.read, ← hid, ← hstops, hfailure]

/-- What is made of corresponding answers in the same way ends alike. -/
theorem Fetch.Rel.read_bind {γ : Type} {f : Fetch α} {f' : Fetch β} (h : f.Rel R f') (request : Request)
    {k : Except String α → StateM Run γ} {k' : Except String β → StateM Run γ}
    (hk : ∀ answer answer', AnswerRel R answer answer' → k answer = k' answer') :
    (f.read request >>= k) = (f'.read request >>= k') := by
  funext run
  obtain ⟨hanswer, hrun⟩ := h.read request run
  show k (f.read request run).1 (f.read request run).2 = k' (f'.read request run).1 (f'.read request run).2
  rw [hk _ _ hanswer, hrun]

/-! ## Properties by name -/

section

variable {ps : List (Property α)} {ps' : List (Property β)}

theorem Property.Rel.name_eq {p : Property α} {p' : Property β} (h : p.Rel R p') : p.name = p'.name := by
  cases h
  rfl

theorem find?_rel (h : List.Forall₂ (Property.Rel R) ps ps') (name : String) :
    Option.Rel (Property.Rel R) (ps.find? fun p => p.name == name) (ps'.find? fun p => p.name == name) := by
  induction h with
  | nil => exact .none
  | @cons p p' _ _ hp _ ih =>
    rw [List.find?_cons, List.find?_cons, ← hp.name_eq]
    cases p.name == name with
    | true => exact .some hp
    | false => exact ih

end

/-! ## Parts that correspond to themselves -/

section Refl

variable {R : α → α → Prop}

theorem AnswerRel.refl {answer : Except String α} (h : ∀ a, answer = .ok a → R a a) : AnswerRel R answer answer := by
  cases answer with
  | ok a => exact .ok (h a rfl)
  | error reason => exact .error reason

theorem Getter.Rel.refl {g : Getter α} (h : ∀ a ∈ g.results, R a a) : g.Rel R g := by
  have hmem : ∀ answer ∈ g.first :: g.later, AnswerRel R answer answer := by
    intro answer hanswer
    refine AnswerRel.refl fun a ha => h a (List.mem_filterMap.2 ⟨answer, hanswer, ?_⟩)
    rw [ha]
    rfl
  obtain ⟨id, first, later, stopsOn⟩ := g
  exact .intro id stopsOn (hmem first (List.mem_cons_self ..))
    (List.forall₂_same.2 fun answer hanswer => hmem answer (List.mem_cons_of_mem _ hanswer))

theorem Fetch.Rel.refl {f : Fetch α} (h : ∀ a ∈ f.results, R a a) : f.Rel R f := by
  cases f with
  | ready a => exact .ready (h a (List.mem_singleton_self a))
  | failed reason => exact .failed reason
  | deferred g => exact .deferred (Getter.Rel.refl h)

theorem Enumeration.Rel.refl {e : Enumeration α} (h : ∀ a ∈ e.results, R a a) : e.Rel R e := by
  refine .intro e.endStops (List.forall₂_same.2 fun step hstep => ?_)
  obtain ⟨outcome, stops⟩ := step
  refine .intro stops (AnswerRel.refl fun a ha => h a (List.mem_filterMap.2 ⟨_, hstep, ?_⟩))
  rw [ha]
  rfl

theorem Sequence.Rel.refl {s : Sequence α} (h : ∀ a ∈ s.results, R a a) : s.Rel R s := by
  cases s with
  | ready items => exact .ready (List.forall₂_same.2 h)
  | deferred enumerator =>
    refine .deferred (Getter.Rel.refl fun enumeration henumeration => Enumeration.Rel.refl fun a ha => ?_)
    exact h a (List.mem_flatMap.2 ⟨enumeration, henumeration, ha⟩)

theorem Property.Rel.refl {p : Property α} (h : ∀ a ∈ p.value.results, R a a) : p.Rel R p :=
  .intro p.name p.declaredType (Fetch.Rel.refl h)

end Refl

/-! ## Values that are related to themselves -/

/-- A relation in which a value is to itself as soon as its parts are. -/
structure Value.RelatesNodes (R : Value → Value → Prop) : Prop where
  null : R .null .null
  scalar : ∀ scalar, R (.scalar scalar) (.scalar scalar)
  enum : ∀ typeName name underlying, R (.enum typeName name underlying) (.enum typeName name underlying)
  list : ∀ kind typeName {elements : Sequence Value} {properties : List (Property Value)}, elements.Rel R elements →
    List.Forall₂ (Property.Rel R) properties properties →
      R (.list kind typeName elements properties) (.list kind typeName elements properties)
  dict : ∀ typeName {entries : Sequence (Value × Value)}, entries.Rel (EntryRel R) entries →
    R (.dict typeName entries) (.dict typeName entries)
  object : ∀ typeName display {properties : List (Property Value)}, List.Forall₂ (Property.Rel R) properties properties →
    R (.object typeName properties display) (.object typeName properties display)
  decorated : ∀ deserialized {inner : Value} {notes : List (Property Value)}, R inner inner →
    List.Forall₂ (Property.Rel R) notes notes →
      R (.decorated inner notes deserialized) (.decorated inner notes deserialized)

namespace Value.RelatesNodes

variable {R : Value → Value → Prop}

theorem properties_refl {ps : List (Property Value)} (h : ∀ c ∈ ps.flatMap fun p => p.value.results, R c c) :
    List.Forall₂ (Property.Rel R) ps ps :=
  List.forall₂_same.2 fun p hp => Property.Rel.refl fun c hc => h c (List.mem_flatMap.2 ⟨p, hp, hc⟩)

theorem refl (h : RelatesNodes R) (v : Value) : R v v := by
  induction hn : v.height using Nat.strongRecOn generalizing v with
  | ind n ih =>
    have hchild : ∀ c ∈ v.children, R c c := fun c hc => ih c.height (hn ▸ height_lt_of_mem_children hc) c rfl
    cases v with
    | null => exact h.null
    | scalar scalar => exact h.scalar scalar
    | enum typeName name underlying => exact h.enum typeName name underlying
    | list kind typeName elements properties =>
      exact h.list kind typeName (Sequence.Rel.refl fun c hc => hchild c (List.mem_append_left _ hc))
        (properties_refl fun c hc => hchild c (List.mem_append_right _ hc))
    | dict typeName entries =>
      refine h.dict typeName (Sequence.Rel.refl fun entry hentry => ?_)
      have hmem : ∀ c ∈ [entry.1, entry.2], R c c := fun c hc => hchild c (List.mem_flatMap.2 ⟨entry, hentry, hc⟩)
      exact .intro (hmem entry.1 (by simp)) (hmem entry.2 (by simp))
    | object typeName properties display => exact h.object typeName display (properties_refl hchild)
    | decorated inner notes deserialized =>
      exact h.decorated deserialized (hchild inner (List.mem_cons_self ..))
        (properties_refl fun c hc => hchild c (List.mem_cons_of_mem _ hc))

end Value.RelatesNodes

end GraphMarkup
