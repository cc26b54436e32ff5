import GraphMarkup.Walk.Levels

/-!
# Graphs at hand

* `Fetch.AtHand`, `Sequence.AtHand` : parts that nothing has to be computed for;
* `Value.AtHand` : a graph of such parts, without decorators;
* `Answers` : a step over a run that gives the same in every run, and requests no stop;
* `Value.AtHand.answers_stringForm?` : string forms of graphs at hand.
-/

namespace GraphMarkup

variable {α β : Type}

def Fetch.AtHand : Fetch α → Prop
  | deferred _ => False
  | _ => True

/-- Items that are at hand, or behind an enumerator that is refused every time and requests no stop. -/
def Sequence.AtHand : Sequence α → Prop
  | ready _ => True
  | deferred enumerator => enumerator.results = [] ∧ enumerator.stopsOn = none

namespace Value

/-- A value that is no decorator, with no part behind a getter or an enumerator. -/
def PartsAtHand : Value → Prop
  | null | scalar _ | enum .. => True
  | list _ _ elements properties => elements.AtHand ∧ ∀ p ∈ properties, p.value.AtHand
  | dict _ entries => entries.AtHand
  | object _ properties display => (∀ p ∈ properties, p.value.AtHand) ∧ ∀ text ∈ display, text.AtHand
  | decorated .. => False

/-- A graph without decorators in which everything is at hand or known to be missing. -/
inductive AtHand : Value → Prop
  | intro {v : Value} (parts : v.PartsAtHand) (inside : ∀ c ∈ v.children, c.AtHand) : AtHand v

namespace AtHand

variable {v c : Value}

theorem parts (h : v.AtHand) : v.PartsAtHand := by
  cases h
  assumption

theorem inside (h : v.AtHand) (hc : c ∈ v.children) : c.AtHand := by
  cases h with
  | intro _ inside => exact inside c hc

theorem base_eq (h : v.AtHand) : v.base = v := by
  have hparts := h.parts
  cases v with
  | decorated => exact hparts.elim
  | null | scalar | enum | list | dict | object => rfl

theorem notes_eq (h : v.AtHand) : v.notes = [] := by
  have hparts := h.parts
  cases v with
  | decorated => exact hparts.elim
  | null | scalar | enum | list | dict | object => rfl

theorem ownProperty (h : v.AtHand) {p : Property Value} (hp : p ∈ v.ownProperties) :
    p.value.AtHand ∧ ∀ c ∈ p.value.results, c ∈ v.children := by
  have hparts := h.parts
  have hmem {ps : List (Property Value)} (hp : p ∈ ps) (c : Value) (hc : c ∈ p.value.results) :
      c ∈ ps.flatMap fun p => p.value.results := List.mem_flatMap.2 ⟨p, hp, hc⟩
  cases v with
  | list kind typeName elements properties =>
    exact ⟨hparts.2 p hp, fun c hc => List.mem_append_right _ (hmem hp c hc)⟩
  | object typeName properties display => exact ⟨hparts.1 p hp, hmem hp⟩
  | null | scalar | enum | dict | decorated => cases hp

/-- Properties of a graph at hand are at hand, and their values are directly inside it. -/
theorem property (h : v.AtHand) {p : Property Value} (hp : p ∈ v.properties) :
    p.value.AtHand ∧ ∀ c ∈ p.value.results, c ∈ v.children := by
  rw [properties, h.base_eq, h.notes_eq, List.append_nil] at hp
  exact h.ownProperty hp

end AtHand

end Value

/-! ## Reading -/

/-- A step over a run that gives the same in every run, and requests no stop. -/
def Answers (a : α) (step : StateM Run α) : Prop := ∀ run, (step run).1 = a ∧ (step run).2.stopped = run.stopped

theorem answers_pure (a : α) : Answers a (pure a) := fun _ => ⟨rfl, rfl⟩

theorem Answers.bind {a : α} {b : β} {step : StateM Run α} {k : α → StateM Run β} (h : Answers a step)
    (hk : Answers b (k a)) : Answers b (step >>= k) := by
  intro run
  obtain ⟨hanswer, hstopped⟩ := h run
  obtain ⟨hanswer', hstopped'⟩ := hk (step run).2
  show (k (step run).1 (step run).2).1 = b ∧ (k (step run).1 (step run).2).2.stopped = run.stopped
  rw [hanswer]
  exact ⟨hanswer', hstopped'.trans hstopped⟩

/-- A part at hand gives one answer. -/
theorem Fetch.AtHand.answers {f : Fetch α} (h : f.AtHand) (request : Request) :
    ∃ answer, Answers answer (f.read request) ∧ ∀ a, answer = .ok a → a ∈ f.results := by
  cases f with
  | ready a =>
    refine ⟨.ok a, fun _ => ⟨rfl, rfl⟩, fun b hb => ?_⟩
    cases hb
    exact List.mem_singleton_self a
  | failed reason => exact ⟨.error reason, fun _ => ⟨rfl, rfl⟩, fun _ h => nomatch h⟩
  | deferred getter => exact h.elim

/-- An enumerator that is known to be missing is refused by every read. -/
theorem Sequence.AtHand.refused {enumerator : Getter (Enumeration α)} (h : (deferred enumerator).AtHand) (run : Run) :
    ∃ reason run', (Fetch.deferred enumerator).read .enumerator run = (.error reason, run') ∧
      run'.stopped = run.stopped := by
  obtain ⟨hresults, hstops⟩ := h
  cases hread : (Fetch.deferred enumerator).read .enumerator run with
  | mk answer run' =>
    cases answer with
    | ok enumeration =>
      have hmem : enumeration ∈ enumerator.results := Fetch.mem_results_of_read (congrArg Prod.fst hread)
      rw [hresults] at hmem
      cases hmem
    | error reason =>
      refine ⟨reason, run', rfl, ?_⟩
      rw [← show _ = run' from congrArg Prod.snd hread]
      simp only [Fetch.read, hstops]
      rfl

namespace Value.AtHand

variable {v : Value}

theorem answers_displayText (h : v.AtHand) (policy : Policy) :
    ∃ answer, Answers answer (displayText policy v) := by
  have hparts := h.parts
  unfold displayText
  rw [h.base_eq]
  cases v with
  | object typeName properties display =>
    cases display with
    | none => exact ⟨_, answers_pure _⟩
    | some text =>
      obtain ⟨answer, hanswer, -⟩ := (hparts.2 text rfl).answers (.display typeName)
      exact ⟨_, hanswer.bind (answers_pure _)⟩
  | null | scalar | enum | list | dict | decorated => exact ⟨_, answers_pure _⟩

theorem answers_stringForm? (h : v.AtHand) (policy : Policy) :
    ∃ answer, Answers answer (stringForm? policy v) := by
  unfold stringForm?
  cases hsource : sourceProperty? policy v with
  | none => exact h.answers_displayText policy
  | some p =>
    have hmem : p ∈ v.properties := by
      obtain ⟨name, -, hfind⟩ := Option.bind_eq_some_iff.1 hsource
      exact List.mem_of_find?_eq_some hfind
    obtain ⟨hp, hinside⟩ := h.property hmem
    obtain ⟨answer, hanswer, hresult⟩ := hp.answers (.source p.name)
    cases answer with
    | ok source =>
      obtain ⟨text, htext⟩ := (h.inside (hinside source (hresult source rfl))).answers_displayText policy
      exact ⟨text, hanswer.bind htext⟩
    | error reason => exact ⟨_, hanswer.bind (answers_pure _)⟩

end Value.AtHand

end GraphMarkup
