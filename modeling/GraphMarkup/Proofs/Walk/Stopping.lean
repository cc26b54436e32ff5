import GraphMarkup.Proofs.Walk.Still
import GraphMarkup.Walk.Levels

/-!
# Walks that are stopped

* `Entry.looks`, `Heedful` : the entries at which a walk looks at the graph, and entries in which it does not do so once
  a stop has been requested;
* `Run.Adds`, `Walker.Adds` : a run or a walk that has gone on, heeding stops;
* `HeedsAt`, `Heeds`, `HeedsOpen` : a step that heeds stops from one state, from every state, and as long as no stop has
  been requested before it;
* `write_heeds` : writing a value heeds stops, unless properties stand for string forms.

Whatever looks at the graph comes after a poll, with nothing in between that could request a stop. What follows such a
look in the same element is markup, or polls again.
-/

namespace GraphMarkup

variable {α β : Type}

/-! ## Looking at the graph -/

/-- Whether a walk looks at the graph: it visits a node, or asks for a property, a string form or an enumerator. An
enumerator that there is may go on to be asked for its steps. -/
def Entry.looks : Entry → Bool
  | visited | asked (.property _) .. | asked (.source _) .. | asked (.display _) .. | asked .enumerator .. => true
  | _ => false

/-- Entries in which nothing is looked at once a stop has been requested, before them or among them. -/
def Heedful (stopped : Prop) (entries : List Entry) : Prop :=
  ∀ before entry after, entries = before ++ entry :: after → entry.looks → ¬ stopped ∧ .stopRequested ∉ before

section

variable {stopped : Prop} {entries later : List Entry}

theorem heedful_of_not_looks (h : ∀ entry ∈ entries, entry.looks = false) : Heedful stopped entries := by
  intro before entry after hsplit hlooks
  have hmem : entry ∈ entries := by simp [hsplit]
  rw [h entry hmem] at hlooks
  cases hlooks

theorem heedful_singleton {entry : Entry} (h : entry.looks → ¬ stopped) : Heedful stopped [entry] := by
  intro before entry' after hsplit hlooks
  cases before with
  | nil =>
    obtain ⟨rfl, -⟩ := List.cons_eq_cons.1 hsplit
    exact ⟨h hlooks, List.not_mem_nil⟩
  | cons _ before => simp at hsplit

theorem Heedful.append (h : Heedful stopped entries) (h' : Heedful (stopped ∨ .stopRequested ∈ entries) later) :
    Heedful stopped (entries ++ later) := by
  intro before entry after hsplit hlooks
  rcases List.append_eq_append_iff.1 hsplit with ⟨middle, rfl, hlater⟩ | ⟨middle, hentries, hrest⟩
  · obtain ⟨hstopped, hmiddle⟩ := h' middle entry after hlater hlooks
    refine ⟨fun hs => hstopped (.inl hs), fun hmem => ?_⟩
    rcases List.mem_append.1 hmem with hmem | hmem
    · exact hstopped (.inr hmem)
    · exact hmiddle hmem
  · cases middle with
    | nil =>
      -- The look is the first of the later entries.
      obtain ⟨hstopped, -⟩ := h' [] entry after (by simpa using hrest.symm) hlooks
      rw [List.append_nil] at hentries
      exact ⟨fun hs => hstopped (.inl hs), fun hmem => hstopped (.inr (hentries ▸ hmem))⟩
    | cons first middle =>
      obtain ⟨rfl, -⟩ := List.cons_eq_cons.1 hrest
      exact h before entry middle hentries hlooks

end

/-! ## Runs that go on -/

/-- A run that has gone on with entries that heed stops. A stop is requested if it was before or by one of them. -/
structure Run.Adds (entries : List Entry) (run run' : Run) : Prop where
  journal : run'.journal.toList = run.journal.toList ++ entries
  stopped : run'.stopped ↔ run.stopped ∨ .stopRequested ∈ entries
  heedful : Heedful run.stopped entries

namespace Run.Adds

variable {entries later : List Entry} {run run' run'' : Run}

theorem refl (run : Run) : Adds [] run run :=
  ⟨by simp, by simp, heedful_of_not_looks (List.forall_mem_nil _)⟩

theorem trans (h : Adds entries run run') (h' : Adds later run' run'') : Adds (entries ++ later) run run'' := by
  refine ⟨?_, ?_, h.heedful.append ?_⟩
  · rw [h'.journal, h.journal, List.append_assoc]
  · rw [h'.stopped, h.stopped, List.mem_append, or_assoc]
  · rw [← h.stopped]
    exact h'.heedful

theorem note {entry : Entry} (hlooks : entry.looks → ¬ run.stopped) (hstop : entry ≠ .stopRequested) :
    Adds [entry] run (run.note entry) :=
  ⟨by simp [Run.note], by simp [Run.note, hstop.symm], heedful_singleton hlooks⟩

/-- An answer that may request a stop. -/
theorem stopIf (stops : Bool) (run : Run) : ∃ entries, Adds entries run (run.stopIf stops) ∧ .visited ∉ entries := by
  cases stops with
  | false => exact ⟨[], refl run, List.not_mem_nil⟩
  | true =>
    refine ⟨[.stopRequested], ⟨?_, ?_, heedful_singleton fun h => nomatch h⟩, by simp⟩
    · simp [Run.stopIf, Run.requestStop, Run.note]
    · simp [Run.stopIf, Run.requestStop, Run.note]

theorem ask_stopIf (request : Request) (part : Option Nat) (failure : Option String) (stops : Bool)
    (hlooks : (Entry.asked request part failure).looks → ¬ run.stopped) :
    ∃ entries, Adds entries run ((run.ask request part failure).stopIf stops) ∧ .visited ∉ entries := by
  have hask : Adds [.asked request part failure] run (run.ask request part failure) := note hlooks (by simp)
  obtain ⟨entries, hstop, hvisited⟩ := stopIf stops (run.ask request part failure)
  exact ⟨_, hask.trans hstop, by simpa using hvisited⟩

/-- Reading a part looks at the graph once, and may request a stop. -/
theorem read {f : Fetch α} (request : Request) (h : ¬ run.stopped) :
    ∃ entries, Adds entries run (f.read request run).2 ∧ .visited ∉ entries := by
  cases f with
  | ready value => exact ⟨[_], note (fun _ => h) (by simp), by simp⟩
  | failed reason => exact ⟨[_], note (fun _ => h) (by simp), by simp⟩
  | deferred getter =>
    have hopen : ¬ (run.countRead getter.id).stopped := h
    obtain ⟨entries, hadds, hvisited⟩ := ask_stopIf request (some getter.id)
      (failure? (getter.answer (run.reads getter.id + 1))) (getter.stopsOn == some (run.reads getter.id + 1))
      fun _ => hopen
    exact ⟨entries, ⟨hadds.journal, hadds.stopped, hadds.heedful⟩, hvisited⟩

end Run.Adds

/-! ## Walks that go on -/

/-- A walk that has gone on with entries that heed stops, and counts the nodes that it visits. -/
structure Walker.Adds (entries : List Entry) (w w' : Walker) : Prop where
  run : w.run.Adds entries w'.run
  visited : w'.visited = w.visited + entries.count .visited

/-- A step that heeds stops from a state on, and is cancelled only if a stop has been requested. -/
def HeedsAt (step : WalkM α) (w : Walker) : Prop :=
  (∃ entries, w.Adds entries (endState (step w))) ∧ ∀ w', step w = .error .cancelled w' → w'.run.stopped

/-- A step that heeds stops, also those that have been requested before it. -/
abbrev Heeds (step : WalkM α) : Prop := ∀ w, HeedsAt step w

/-- A step that heeds stops if none has been requested before it. -/
abbrev HeedsOpen (step : WalkM α) : Prop := ∀ w : Walker, ¬ w.run.stopped → HeedsAt step w

theorem Walker.Adds.trans {entries later : List Entry} {w w' w'' : Walker} (h : w.Adds entries w')
    (h' : w'.Adds later w'') : w.Adds (entries ++ later) w'' :=
  ⟨h.run.trans h'.run, by rw [h'.visited, h.visited, List.count_append, Nat.add_assoc]⟩

namespace HeedsAt

variable {step : WalkM α} {k : α → WalkM β} {w : Walker}

theorem bind (h : HeedsAt step w) (hk : ∀ a w', step w = .ok a w' → HeedsAt (k a) w') : HeedsAt (step >>= k) w := by
  obtain ⟨⟨entries, hadds⟩, hcancelled⟩ := h
  cases hstep : step w with
  | error e w' =>
    rw [hstep] at hadds
    simp only [HeedsAt, bind_of_error hstep]
    exact ⟨⟨entries, hadds⟩, fun w'' h => by cases h; exact hcancelled w' hstep⟩
  | ok a w' =>
    rw [hstep] at hadds
    obtain ⟨⟨later, hlater⟩, hcancelled'⟩ := hk a w' hstep
    simp only [HeedsAt, bind_of_ok hstep]
    exact ⟨⟨_, hadds.trans hlater⟩, hcancelled'⟩

theorem get {k : Walker → WalkM β} (h : HeedsAt (k w) w) : HeedsAt (MonadState.get >>= k) w := h

/-- A change of the state that leaves the run and the number of nodes alone. -/
theorem modify {f : Walker → Walker} {k : Unit → WalkM β} (hrun : (f w).run = w.run)
    (hvisited : (f w).visited = w.visited) (h : HeedsAt (k ()) (f w)) : HeedsAt (modify f >>= k) w := by
  obtain ⟨⟨entries, hadds⟩, hcancelled⟩ := h
  exact ⟨⟨entries, hrun ▸ hadds.run, hvisited ▸ hadds.visited⟩, hcancelled⟩

/-- A step over the run, of which the walk keeps no count. -/
theorem onRun {step : StateM Run α} (h : ∃ entries, w.run.Adds entries (step w.run).2 ∧ .visited ∉ entries) :
    HeedsAt (WalkM.onRun step) w := by
  obtain ⟨entries, hadds, hvisited⟩ := h
  refine ⟨⟨entries, hadds, ?_⟩, fun w' h => nomatch h⟩
  rw [List.count_eq_zero_of_not_mem hvisited]
  rfl

end HeedsAt

theorem Still.heeds {step : WalkM α} (h : Still step) : Heeds step := by
  refine fun w => ⟨⟨[], ?_, ?_⟩, fun w' hw => absurd hw (h.not_cancelled w w')⟩
  · rw [h.run w]
    exact Run.Adds.refl w.run
  · rw [h.visited w]
    rfl

theorem Heeds.bind {step : WalkM α} {k : α → WalkM β} (h : Heeds step) (hk : ∀ a, Heeds (k a)) : Heeds (step >>= k) :=
  fun w => (h w).bind fun a w' _ => hk a w'

theorem Heeds.open {step : WalkM α} (h : Heeds step) : HeedsOpen step := fun w _ => h w

namespace HeedsOpen

variable {step : WalkM α} {k : α → WalkM β}

theorem bind (h : HeedsOpen step) (hk : ∀ a, Heeds (k a)) : HeedsOpen (step >>= k) :=
  fun w hw => (h w hw).bind fun a w' _ => hk a w'

/-- Markup in front of a step requests no stop. -/
theorem after_still (h : Still step) (hk : ∀ a, HeedsOpen (k a)) : HeedsOpen (step >>= k) := by
  refine fun w hw => (h.heeds w).bind fun a w' hstep => hk a w' ?_
  have hrun := h.run w
  rw [hstep] at hrun
  rwa [show w'.run = w.run from hrun]

theorem around {inside : WalkM Unit} (h : HeedsOpen inside) (policy : Policy) (name typeName : Option String) :
    HeedsOpen (writeAround policy name typeName inside) :=
  after_still (still_openNode policy name) fun _ => after_still (still_writeType policy typeName) fun _ =>
    h.bind fun _ => (still_put _).heeds

end HeedsOpen

/-! ## Polls and nodes -/

theorem heeds_note (entry : Entry) (hlooks : entry.looks = false) (hstop : entry ≠ .stopRequested) :
    Heeds (WalkM.note entry) := by
  have hvisited : entry ≠ .visited := fun h => by simp [h, Entry.looks] at hlooks
  refine fun w => HeedsAt.onRun ⟨[entry], Run.Adds.note (fun h => ?_) hstop, by simpa using hvisited.symm⟩
  rw [hlooks] at h
  cases h

/-- After a poll no stop has been requested, or the walk is cancelled. -/
theorem heeds_after_poll {k : Unit → WalkM α} (h : HeedsOpen (k ())) : Heeds (WalkM.poll >>= k) := by
  intro w
  by_cases hstopped : w.run.stopped
  · have hpoll := WalkM.poll_of_stopped hstopped
    obtain ⟨hadds, -⟩ := heeds_note (.stopObserved w.visited) rfl (by simp) w
    simp only [HeedsAt, bind_of_error hpoll]
    exact ⟨hadds, fun w' hw => by cases hw; exact hstopped⟩
  · simp only [HeedsAt, bind_of_ok (WalkM.poll_of_running hstopped)]
    exact h w hstopped

theorem HeedsOpen.after_visit {k : Unit → WalkM α} (h : HeedsOpen (k ())) : HeedsOpen (WalkM.visit >>= k) := by
  intro w hw
  have hvisit : WalkM.visit w = .ok () { w with run := w.run.note .visited, visited := w.visited + 1 } := rfl
  refine HeedsAt.bind ⟨⟨[.visited], ?_⟩, fun w' h => nomatch h⟩ fun _ w' hstep => ?_
  · rw [hvisit]
    exact ⟨Run.Adds.note (fun _ => hw) (by simp), rfl⟩
  · rw [hvisit] at hstep
    cases hstep
    exact h _ hw

theorem heedsOpen_read {f : Fetch α} (request : Request) : HeedsOpen (WalkM.onRun (f.read request)) :=
  fun _ hw => HeedsAt.onRun (Run.Adds.read request hw)

/-! ## Loops -/

section Loops

variable {body : α → WalkM Unit}

theorem heeds_forM (h : ∀ a, Heeds (body a)) (as : List α) : Heeds (as.forM body) := by
  induction as with
  | nil => exact (Still.pure ()).heeds
  | cons a as ih => exact (h a).bind fun _ => ih

/-- An enumerator may be asked for a step after a stop, so that no poll stands in front of it. -/
theorem heeds_forEachStep (h : ∀ a, Heeds (body a)) (id : Nat) (endStops : Bool) (index : Nat) (steps : List (Step α)) :
    Heeds (forEachStep id endStops body index steps) := by
  induction steps generalizing index with
  | nil => exact fun w => HeedsAt.onRun (Run.Adds.stopIf endStops w.run)
  | cons step steps ih =>
    refine Heeds.bind (fun w => HeedsAt.onRun (Run.Adds.ask_stopIf _ _ _ _ fun hlooks => nomatch hlooks)) fun _ => ?_
    cases step.outcome with
    | ok item => exact (h item).bind fun _ => ih (index + 1)
    | error reason => exact heeds_note _ rfl (by simp)

theorem heedsOpen_forEachItem (h : ∀ a, Heeds (body a)) (items : Sequence α) : HeedsOpen (forEachItem items body) := by
  cases items with
  | ready items => exact (heeds_forM h items).open
  | deferred enumerator =>
    refine (heedsOpen_read .enumerator).bind fun answer => ?_
    cases answer with
    | ok enumeration => exact heeds_forEachStep h enumerator.id enumeration.endStops 0 enumeration.steps
    | error reason => exact heeds_note _ rfl (by simp)

end Loops

/-! ## String forms -/

/-- A policy under which no property stands for a string form. -/
def Policy.Unsourced (policy : Policy) : Prop :=
  ∀ typeName hints, policy.typeHints? typeName = some hints → hints.stringSource = none

section StringForms

variable {policy : Policy}

theorem Policy.unsourced_of_no_hints (h : policy.hints = []) : policy.Unsourced := by
  intro typeName hints hhints
  simp [Policy.typeHints?, h] at hhints

theorem Policy.Unsourced.stringSource?_eq_none (h : policy.Unsourced) (value : Value) :
    policy.stringSource? value = none := by
  unfold Policy.stringSource? Policy.hintsFor?
  cases htype : value.typeName? policy.knownTypes with
  | none => rfl
  | some typeName =>
    rw [Option.bind_some]
    cases hhints : policy.typeHints? typeName with
    | none => rfl
    | some hints => exact h typeName hints hhints

theorem heedsOpen_displayText (policy : Policy) (value : Value) : HeedsOpen (WalkM.onRun (displayText policy value)) := by
  intro w hw
  have hquiet : ∃ entries, w.run.Adds entries w.run ∧ .visited ∉ entries := ⟨[], Run.Adds.refl _, List.not_mem_nil⟩
  refine HeedsAt.onRun ?_
  cases hbase : value.base with
  | object typeName properties display =>
    simp only [displayText, hbase]
    cases display with
    | none => exact hquiet
    | some text =>
      have hread : ∃ entries, w.run.Adds entries (text.read (.display typeName) w.run).2 ∧ .visited ∉ entries :=
        Run.Adds.read _ hw
      exact hread
  | null | scalar | enum | list | dict | decorated =>
    simp only [displayText, hbase]
    exact hquiet

theorem Policy.Unsourced.stringForm?_eq (h : policy.Unsourced) (value : Value) :
    stringForm? policy value = displayText policy value := by
  rw [stringForm?, sourceProperty?, h.stringSource?_eq_none value]
  rfl

theorem heedsOpen_stringForm (h : policy.Unsourced) (value : Value) : HeedsOpen (stringForm policy value) := by
  rw [stringForm, h.stringForm?_eq value]
  refine (heedsOpen_displayText policy value).bind fun text => ?_
  cases text with
  | ok text => exact (Still.pure text).heeds
  | error reason => exact (heeds_note _ rfl (by simp)).bind fun _ => (Still.pure none).heeds

theorem heedsOpen_stringLeaf (h : policy.Unsourced) (value : Value) : HeedsOpen (stringLeaf policy value) := by
  unfold stringLeaf
  split
  · exact (Still.pure _).heeds.open
  · exact (heedsOpen_stringForm h value).bind fun _ => (Still.pure _).heeds

end StringForms

/-! ## The ways to write a value -/

section Parts

variable {policy : Policy} {inside : Inside}

theorem heeds_property (h : ∀ c name depth, Heeds (inside c name depth)) (depth : Nat) (p : Property Value) :
    Heeds (writeProperty policy inside depth p) := by
  refine heeds_after_poll ((heedsOpen_read _).bind fun answer => ?_)
  cases answer with
  | ok value =>
    by_cases hnull : value.isNull
    · simp only [if_pos hnull]
      exact (still_writeEmptyProperty policy p).heeds
    · simp only [if_neg hnull]
      exact h value (some p.name) depth
  | error reason => exact (heeds_note _ rfl (by simp)).bind fun _ => (still_writeEmptyProperty policy p).heeds

theorem heeds_properties (h : ∀ c name depth, Heeds (inside c name depth)) (depth : Nat) (ps : List (Property Value)) :
    Heeds (writeProperties policy inside depth ps) :=
  heeds_forM (heeds_property h (depth - 1)) ps

theorem heedsOpen_items (h : ∀ c name depth, Heeds (inside c name depth)) (depth : Nat) (shape : Shape) :
    HeedsOpen (writeItems policy inside depth shape) := by
  cases shape with
  | dictionary entries =>
    exact heedsOpen_forEachItem (fun entry => (h entry.1 _ depth).bind fun _ => h entry.2 _ depth) entries
  | list kind elements => exact heedsOpen_forEachItem (fun item => h item none depth) elements

theorem heedsOpen_container (h : ∀ c name depth, Heeds (inside c name depth)) (value : Value) (shape : Shape)
    (decoration : Option Decoration) (name : Option String) (depth : Nat) :
    HeedsOpen (writeContainer policy inside value shape decoration name depth) := by
  rw [writeContainer_eq]
  refine HeedsOpen.around ((heedsOpen_items h depth shape).bind fun _ => ?_) policy name _
  split
  · exact heeds_properties h _ _
  · exact heeds_properties h depth _

theorem heedsOpen_notedScalar (h : ∀ c name depth, Heeds (inside c name depth)) (notes : List (Property Value))
    (scalar : Scalar) (name : Option String) (depth : Nat) :
    HeedsOpen (writeNotedScalar policy inside notes scalar name depth) := by
  unfold writeNotedScalar
  split
  · exact (still_writeScalar policy name scalar).heeds.open
  · refine HeedsOpen.after_still (still_openNode policy name) fun _ =>
      HeedsOpen.after_still (still_writeType policy _) fun _ =>
        HeedsOpen.after_still (still_writeScalar policy none scalar) fun _ => ?_
    exact (heeds_properties h depth notes).open.bind fun _ => (still_put _).heeds

theorem heedsOpen_asString (hpolicy : policy.Unsourced) (h : ∀ c name depth, Heeds (inside c name depth))
    (value : Value) (name : Option String) (depth : Nat) :
    HeedsOpen (writeAsString policy inside value name depth) := by
  by_cases hempty : value.notes.isEmpty
  · simp only [writeAsString, if_pos hempty]
    refine (heedsOpen_stringForm hpolicy value).bind fun text => Still.heeds ?_
    cases text with
    | some text => exact (still_put _).around policy name _
    | none => exact still_writeNull policy name
  · rw [writeAsString_eq policy inside hempty]
    refine HeedsOpen.around ((heedsOpen_stringLeaf hpolicy value).bind fun leaf => ?_) policy name _
    exact (still_writeLeaf policy leaf).heeds.bind fun _ => heeds_properties h depth value.notes

theorem heeds_chain (h : ∀ c name depth, Heeds (inside c name depth)) (value inner : Value)
    (notes : List (Property Value)) (depth : Nat) : Heeds (writeChain policy inside value inner notes depth) := by
  have hpromoted : Heeds (writePromoted policy inside value depth) := by
    unfold writePromoted
    split
    · exact heeds_properties h _ _
    · exact (h _ none depth).bind fun _ => heeds_properties h depth value.notes
  refine fun w => HeedsAt.get ?_
  by_cases hdue : w.promotionDue
  · rw [if_pos hdue]
    exact HeedsAt.modify rfl rfl (hpromoted { w with promotionDue := false })
  · rw [if_neg hdue]
    exact ((h inner none depth).bind fun _ => heeds_properties h depth notes) w

theorem heeds_parts (h : ∀ c name depth, Heeds (inside c name depth)) (value : Value) (depth : Nat) :
    Heeds (writeParts policy inside value depth) := by
  unfold writeParts
  split
  · exact heeds_chain h _ _ _ depth
  · exact heeds_properties h _ _

/-- Writing a value heeds stops if writing what is inside does. -/
theorem heeds_node (hpolicy : policy.Unsourced) (h : ∀ c name depth, Heeds (inside c name depth)) (value : Value)
    (name : Option String) (depth : Nat) : Heeds (writeNode policy inside value name depth) := by
  refine heeds_after_poll (HeedsOpen.after_visit ?_)
  cases classify policy value depth with
  | null => exact (still_writeNull policy name).heeds.open
  | scalar scalar => exact (still_writeScalar policy name scalar).heeds.open
  | notedScalar notes scalar => exact heedsOpen_notedScalar h notes scalar name depth
  | container shape decoration => exact heedsOpen_container h value shape decoration name depth
  | enumLike _ underlying => exact (still_writeScalar policy name underlying).heeds.open
  | asString => exact heedsOpen_asString hpolicy h value name depth
  | complex =>
    simp only [writeComplex_eq]
    exact (heeds_parts h value depth).open.around policy name _

end Parts

/-- Writing a value heeds stops. -/
theorem write_heeds {policy : Policy} (h : policy.Unsourced) (value : Value) (name : Option String) (depth : Nat) :
    Heeds (write policy value name depth) :=
  write_induct (P := Heeds) (Still.pure ()).heeds (fun _ hinside v name depth => heeds_node h hinside v name depth)
    value name depth

end GraphMarkup
