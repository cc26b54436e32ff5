import GraphMarkup.Proofs.Walk.Account
import GraphMarkup.Proofs.Walk.Notes
import GraphMarkup.Proofs.Walk.Stopping

/-!
# What a walk asks for, and how often

* `Entry.part?`, `asks` : the part that an entry asks for, and how often some entries ask for it;
* `Asks` : a step that asks for every part within a bound, with a rule for each way to go on;
* `write_asks` : without hints, writing a value asks for a part no more often than it occurs there;
* `stepsOf`, `Account.inTurn` : an enumerator that is created once is asked for its steps in turn;
* `write_reads_once` : where every part occurs once it is asked for at most once, and so is every step of an enumerator.

The same notes and properties can be reached in several ways, but one way to write a value takes one of them.
-/

namespace GraphMarkup

variable {α β : Type}

/-! ## Asking for parts -/

/-- The part that a request asks for, or the enumerator that it asks to create. -/
def Request.part? (request : Request) (id : Option Nat) : Option Part :=
  match request with
  | property _ | source _ => id.map .property
  | display _ => id.map .display
  | enumerator => id.map .enumerator
  | step _ => none

def Entry.part? : Entry → Option Part
  | asked request id _ => request.part? id
  | _ => none

/-- How often some entries ask for a part. -/
def asks (part : Part) (entries : List Entry) : Nat := (entries.filterMap Entry.part?).count part

theorem asks_append (part : Part) (entries later : List Entry) :
    asks part (entries ++ later) = asks part entries + asks part later := by
  rw [asks, List.filterMap_append, List.count_append]
  rfl

theorem asks_singleton (part : Part) (entry : Entry) : asks part [entry] = entry.part?.toList.count part := by
  cases h : entry.part? <;> simp [asks, h]

theorem asks_answered (part : Part) (request : Request) (id : Option Nat) (failure : Option String) (stops : Bool) :
    asks part (answered request id failure stops) = (request.part? id).toList.count part := by
  have hentry : asks part [.asked request id failure] = (request.part? id).toList.count part := asks_singleton ..
  cases stops with
  | false => exact hentry
  | true => exact (asks_append part [_] [.stopRequested]).trans hentry

/-- A step that asks for every part within a bound. -/
def Asks (bound : Part → Nat) (step : WalkM α) : Prop :=
  AddsTo (fun entries => ∀ part, asks part entries ≤ bound part) step

section

variable {bound bound' : Part → Nat} {step : WalkM α} {k : α → WalkM β}

theorem Still.asks (h : Still step) : Asks bound step := AddsTo.still h fun _ => Nat.zero_le _

namespace Asks

theorem mono (h : Asks bound step) (hle : ∀ part, bound part ≤ bound' part) : Asks bound' step :=
  AddsTo.mono h fun _ hentries part => Nat.le_trans (hentries part) (hle part)

theorem bind (h : Asks bound step) (hk : ∀ a, Asks bound' (k a)) :
    Asks (fun part => bound part + bound' part) (step >>= k) := by
  refine AddsTo.bind h (fun entries hentries part => Nat.le_add_right_of_le (hentries part))
    fun entries hentries a => AddsTo.mono (hk a) fun later hlater part => ?_
  rw [asks_append]
  exact Nat.add_le_add (hentries part) (hlater part)

/-- A step in front that asks for nothing. -/
theorem after (h : ∀ bound, Asks bound step) (hk : ∀ a, Asks bound (k a)) : Asks bound (step >>= k) :=
  ((h fun _ => 0).bind hk).mono fun _ => Nat.le_of_eq (Nat.zero_add _)

theorem note {entry : Entry} (h : entry.part? = none) : Asks bound (WalkM.note entry) :=
  AddsTo.note fun part => by simp [GraphMarkup.asks, h]

theorem poll : Asks bound WalkM.poll := AddsTo.poll (fun _ => Nat.zero_le _) fun _ _ => Nat.zero_le _

theorem visit : Asks bound WalkM.visit := AddsTo.visit fun _ => Nat.zero_le _

theorem then_still (h : Asks bound step) (hk : ∀ a, Still (k a)) : Asks bound (step >>= k) := AddsTo.then_still h hk

theorem around {inside : WalkM Unit} (h : Asks bound inside) (policy : Policy) (name typeName : Option String) :
    Asks bound (writeAround policy name typeName inside) :=
  AddsTo.around h (fun _ => Nat.zero_le _) policy name typeName

/-- A request, and what is done about its answer. -/
theorem after_request (request : Request) (id : Option Nat) {step : StateM Run α} (h : ∀ run, ∃ failure stops,
    (step run).2.journal.toList = run.journal.toList ++ answered request id failure stops ∧
    Asks bound (k (step run).1)) :
    Asks (fun part => (request.part? id).toList.count part + bound part) (WalkM.onRun step >>= k) := by
  refine AddsTo.after_onRun fun run => ?_
  obtain ⟨failure, stops, hjournal, hk⟩ := h run
  refine ⟨_, hjournal, AddsTo.mono hk fun later hlater part => ?_⟩
  rw [asks_append, asks_answered]
  exact Nat.add_le_add_left (hlater part) _

/-- What is read is one of the values that reading can give, or cannot be had. -/
theorem after_read (request : Request) {f : Fetch α} {k : Except String α → WalkM β}
    (hok : ∀ a ∈ f.results, Asks bound (k (.ok a))) (herror : ∀ reason, Asks bound (k (.error reason))) :
    Asks (fun part => (request.part? f.id?).toList.count part + bound part)
      (WalkM.onRun (f.read request) >>= k) := by
  refine after_request request f.id? fun run => ?_
  obtain ⟨stops, hjournal⟩ := f.journal_read request run
  refine ⟨_, stops, hjournal, ?_⟩
  cases hanswer : (f.read request run).1 with
  | ok a => exact hok a (Fetch.mem_results_of_read hanswer)
  | error reason => exact herror reason

end Asks

end

/-! ## Loops -/

section Loops

variable {body : α → WalkM Unit} {bound : α → Part → Nat}

theorem asks_forM {as : List α} (h : ∀ a ∈ as, Asks (bound a) (body a)) :
    Asks (fun part => (as.map fun a => bound a part).sum) (as.forM body) := by
  induction as with
  | nil => exact (Still.pure ()).asks
  | cons a as ih =>
    obtain ⟨ha, has⟩ := List.forall_mem_cons.1 h
    exact ha.bind fun _ => ih has

theorem asks_forEachStep {endStops : Bool} {steps : List (Step α)}
    (h : ∀ a ∈ (Enumeration.mk steps endStops).results, Asks (bound a) (body a)) (id index : Nat) :
    Asks (fun part => ((Enumeration.mk steps endStops).results.map fun a => bound a part).sum)
      (forEachStep id endStops body index steps) := by
  induction steps generalizing index with
  | nil =>
    refine AddsTo.onRun fun run => ⟨_, journal_stopIf endStops run, fun part => Nat.le_of_eq ?_⟩
    cases endStops <;> rfl
  | cons step steps ih =>
    obtain ⟨outcome, stops⟩ := step
    refine (Asks.after_request (.step index) (some id)
      fun run => ⟨_, stops, journal_ask_stopIf _ _ _ stops run, ?_⟩).mono fun _ => Nat.le_of_eq (Nat.zero_add _)
    cases outcome with
    | error reason => exact Asks.note rfl
    | ok item =>
      obtain ⟨hitem, hitems⟩ := List.forall_mem_cons.1 h
      exact hitem.bind fun _ => ih hitems (index + 1)

/-- The items of one enumeration are asked for at most once each, and an enumerator is created once. -/
theorem asks_forEachItem {items : Sequence α} (h : ∀ a ∈ items.results, Asks (bound a) (body a)) :
    Asks (fun part => items.part?.toList.count part + greatest items.rows fun row => (row.map fun a => bound a part).sum)
      (forEachItem items body) := by
  cases items with
  | ready items =>
    refine (asks_forM h).mono fun part => Nat.le_add_left_of_le ?_
    exact le_greatest (fun row : List α => (row.map fun a => bound a part).sum) (List.mem_singleton_self items)
  | deferred enumerator =>
    refine Asks.after_read .enumerator (fun enumeration henumeration => ?_) fun reason => Asks.note rfl
    refine Asks.mono (asks_forEachStep (fun a ha => h a ?_) enumerator.id 0) fun part => ?_
    · exact List.mem_flatMap.2 ⟨enumeration, henumeration, ha⟩
    · exact le_greatest (fun row : List α => (row.map fun a => bound a part).sum) (List.mem_map_of_mem henumeration)

end Loops

/-! ## String forms -/

section StringForms

variable {policy : Policy}

/-- The string form of a value asks for that of an object at most, which is a place in the object. -/
theorem asks_displayText (value : Value) {α : Type} {k : Except String (Option String) → WalkM α}
    (hk : ∀ answer (bound : Part → Nat), Asks bound (k answer)) :
    Asks (occurrencesIn · value.base.ownSlots) (WalkM.onRun (displayText policy value) >>= k) := by
  cases hbase : value.base with
  | object typeName properties display =>
    cases display with
    | none =>
      refine AddsTo.after_onRun fun run => ⟨[], ?_, hk _ _⟩
      simp only [displayText, hbase]
      exact (List.append_nil _).symm
    | some text =>
      have hread : displayText policy value = (do return (← text.read (.display typeName)).map some) := by
        simp only [displayText, hbase]
        rfl
      rw [hread]
      refine Asks.mono (Asks.after_request (.display typeName) text.id? fun run => ?_) fun part => Nat.le_refl _
      obtain ⟨stops, hjournal⟩ := text.journal_read (.display typeName) run
      exact ⟨_, stops, hjournal, hk _ _⟩
  | null | scalar | enum | list | dict | decorated =>
    refine AddsTo.after_onRun fun run => ⟨[], ?_, hk _ _⟩
    simp only [displayText, hbase]
    exact (List.append_nil _).symm

theorem asks_stringForm (hhints : policy.hints = []) (value : Value) :
    Asks (occurrencesIn · value.base.ownSlots) (stringForm policy value) := by
  rw [stringForm, (Policy.unsourced_of_no_hints hhints).stringForm?_eq value]
  refine asks_displayText value fun answer bound => ?_
  cases answer with
  | ok text => exact (Still.pure text).asks
  | error reason => exact Asks.after (fun _ => Asks.note rfl) fun _ => (Still.pure none).asks

theorem asks_stringLeaf (hhints : policy.hints = []) (value : Value) :
    Asks (occurrencesIn · value.base.ownSlots) (stringLeaf policy value) := by
  unfold stringLeaf
  split
  · exact (Still.pure _).asks
  · exact (asks_stringForm hhints value).then_still fun _ => Still.pure _

end StringForms

/-! ## The ways to write a value -/

section Parts

variable {policy : Policy} {inside : Inside} {v : Value}

theorem asks_property {p : Property Value}
    (h : ∀ c ∈ p.value.results, ∀ name depth, Asks (c.occurrences ·) (inside c name depth)) (depth : Nat) :
    Asks (p.slot.occurrences ·) (writeProperty policy inside depth p) := by
  simp only [p.occurrences_slot]
  refine Asks.after (fun _ => Asks.poll) fun _ => Asks.after_read (.property p.name) (fun c hc => ?_) fun reason => ?_
  · by_cases hnull : c.isNull
    · simp only [if_pos hnull]
      exact (still_writeEmptyProperty policy p).asks
    · simp only [if_neg hnull]
      exact (h c hc (some p.name) depth).mono fun part => le_greatest (Value.occurrences part) hc
  · exact Asks.after (fun _ => Asks.note rfl) fun _ => (still_writeEmptyProperty policy p).asks

theorem asks_properties {ps : List (Property Value)}
    (h : ∀ p ∈ ps, ∀ c ∈ p.value.results, ∀ name depth, Asks (c.occurrences ·) (inside c name depth)) (depth : Nat) :
    Asks (fun part => occurrencesIn part (ps.map Property.slot)) (writeProperties policy inside depth ps) := by
  refine (asks_forM fun p hp => asks_property (h p hp) (depth - 1)).mono fun part => ?_
  rw [occurrencesIn, List.map_map]
  exact Nat.le_refl _

theorem asks_items {shape : Shape}
    (h : ∀ c ∈ shape.results, ∀ name depth, Asks (c.occurrences ·) (inside c name depth)) (depth : Nat) :
    Asks (shape.slot.occurrences ·) (writeItems policy inside depth shape) := by
  cases shape with
  | dictionary entries =>
    refine (asks_forEachItem fun entry hentry => ?_).mono
      fun part => Nat.le_of_eq (Shape.occurrences_dictionary part entries).symm
    have hmem : ∀ c ∈ [entry.1, entry.2], c ∈ (Shape.dictionary entries).results :=
      fun c hc => List.mem_flatMap.2 ⟨entry, hentry, hc⟩
    exact (h entry.1 (hmem _ (by simp)) _ depth).bind fun _ => h entry.2 (hmem _ (by simp)) _ depth
  | list kind elements =>
    exact (asks_forEachItem fun item hitem => h item hitem none depth).mono
      fun part => Nat.le_of_eq (Shape.occurrences_list part kind elements).symm

variable (hhints : policy.hints = [])
  (h : ∀ c : Value, c.height < v.height → ∀ name depth, Asks (c.occurrences ·) (inside c name depth))

include h

theorem asks_notes (depth : Nat) :
    Asks (fun part => occurrencesIn part (v.notes.map Property.slot)) (writeProperties policy inside depth v.notes) :=
  asks_properties (fun _ hp c hc => h c (Value.height_lt_of_mem_notes hp hc)) depth

include hhints

theorem asks_selection (depth : Nat) :
    Asks (fun part => occurrencesIn part (v.properties.map Property.slot)) (writeSelection policy inside v depth) := by
  rw [writeSelection, Policy.selection_of_no_hints hhints]
  exact asks_properties (fun _ hp c hc => h c (Value.height_lt_of_mem_properties hp hc)) _

theorem asks_container {shape : Shape} {decoration : Option Decoration} {depth : Nat}
    (hclass : classify policy v depth = .container shape decoration) (name : Option String) :
    Asks (v.occurrences ·) (writeContainer policy inside v shape decoration name depth) := by
  obtain ⟨hshape, hnotes⟩ := base_and_notes_of_container hclass
  have hitems : Asks (occurrencesIn · v.base.ownSlots) (writeItems policy inside depth shape) := by
    rw [Value.ownSlots_of_shape? hshape]
    exact (asks_items (fun c hc => h c (Nat.lt_of_lt_of_le (Shape.height_lt_of_mem_results hshape hc) v.height_base_le))
      depth).mono fun part => Nat.le_of_eq (occurrencesIn_singleton part shape.slot).symm
  have hnoted : Asks (fun part => occurrencesIn part (v.properties.map Property.slot))
      (writeProperties policy inside depth v.notes) :=
    (asks_notes h depth).mono fun part => Value.occurrencesIn_notes_le part v
  rw [writeContainer_eq, hnotes]
  refine Asks.around (Asks.mono (hitems.bind fun _ => ?_)
    fun part => Nat.le_of_eq (Value.occurrences_eq_base part v).symm) policy name _
  split
  · exact asks_selection hhints h depth
  · exact hnoted

omit hhints in
theorem asks_notedScalar {notes : List (Property Value)} (hnotes : notes = v.notes) (scalar : Scalar)
    (name : Option String) (depth : Nat) :
    Asks (fun part => occurrencesIn part (v.notes.map Property.slot))
      (writeNotedScalar policy inside notes scalar name depth) := by
  subst hnotes
  unfold writeNotedScalar
  split
  · exact (still_writeScalar policy name scalar).asks
  · exact Asks.after (fun _ => (still_openNode policy name).asks) fun _ =>
      Asks.after (fun _ => (still_writeType policy _).asks) fun _ =>
        Asks.after (fun _ => (still_writeScalar policy none scalar).asks) fun _ =>
          (asks_notes h depth).then_still fun _ => still_put _

theorem asks_asString (name : Option String) (depth : Nat) :
    Asks (v.occurrences ·) (writeAsString policy inside v name depth) := by
  have hform : ∀ part, occurrencesIn part v.base.ownSlots + occurrencesIn part (v.notes.map Property.slot) ≤
      v.occurrences part := by
    intro part
    rw [Value.occurrences_eq_base]
    exact Nat.add_le_add_left (Value.occurrencesIn_notes_le part v) _
  by_cases hempty : v.notes.isEmpty
  · simp only [writeAsString, if_pos hempty]
    refine Asks.mono ((asks_stringForm hhints v).then_still fun text => ?_)
      fun part => Nat.le_trans (Nat.le_add_right ..) (hform part)
    cases text with
    | some text => exact (still_put _).around policy name _
    | none => exact still_writeNull policy name
  · rw [writeAsString_eq policy inside hempty]
    refine Asks.around (Asks.mono ((asks_stringLeaf hhints v).bind fun leaf => ?_) hform) policy name _
    exact Asks.after (fun _ => (still_writeLeaf policy leaf).asks) fun _ => asks_notes h depth

theorem asks_promoted (hbase : v.base.height < v.height) (depth : Nat) :
    Asks (v.occurrences ·) (writePromoted policy inside v depth) := by
  have hplain : Asks (v.occurrences ·) (do inside v.base none depth; writeProperties policy inside depth v.notes) :=
    ((h v.base hbase none depth).bind fun _ => asks_notes h depth).mono
      fun part => Nat.le_of_eq (Value.occurrences_eq_base_add_notes part v).symm
  unfold writePromoted
  cases hobject : v.base with
  | object => exact (asks_selection hhints h depth).mono fun part => Value.occurrencesIn_properties_le part v
  | null | scalar | enum | list | dict | decorated =>
    rw [hobject] at hplain
    exact hplain

theorem asks_parts (depth : Nat) : Asks (v.occurrences ·) (writeParts policy inside v depth) := by
  unfold writeParts
  split
  · next inner notes deserialized outerNotes outerDeserialized =>
    have hinner := Value.height_inner_lt (.decorated inner notes deserialized) outerNotes outerDeserialized
    have hnotes : ∀ p ∈ outerNotes, ∀ c ∈ p.value.results, ∀ name depth,
        Asks (c.occurrences ·) (inside c name depth) :=
      fun p hp c hc => h c (Value.height_lt_of_mem_notes (List.mem_append_right _ hp) hc)
    refine addsTo_promote (asks_promoted hhints h
      (Nat.lt_of_le_of_lt (Value.height_base_le (.decorated inner notes deserialized)) hinner) depth) ?_
    exact ((h _ hinner none depth).bind fun _ => asks_properties hnotes depth).mono
      fun part => Nat.le_of_eq (Value.occurrences_decorated part ..).symm
  · exact (asks_selection hhints h depth).mono fun part => Value.occurrencesIn_properties_le part v

/-- Writing a value asks for a part no more often than it occurs there, if that is so for lower values. -/
theorem asks_node (name : Option String) (depth : Nat) :
    Asks (v.occurrences ·) (writeNode policy inside v name depth) := by
  refine Asks.after (fun _ => Asks.poll) fun _ => Asks.after (fun _ => Asks.visit) fun _ => ?_
  cases hclass : classify policy v depth with
  | null => exact (still_writeNull policy name).asks
  | scalar scalar => exact (still_writeScalar policy name scalar).asks
  | notedScalar notes scalar =>
    obtain ⟨deserialized, rfl⟩ := eq_of_classify_eq_notedScalar hclass
    exact (asks_notedScalar h rfl scalar name depth).mono fun part =>
      Nat.le_trans (Value.occurrencesIn_notes_le part _) (Value.occurrencesIn_properties_le part _)
  | container shape decoration => exact asks_container hhints h hclass name
  | enumLike _ underlying => exact (still_writeScalar policy name underlying).asks
  | asString => exact asks_asString hhints h name depth
  | complex =>
    simp only [writeComplex_eq]
    exact (asks_parts hhints h depth).around policy name _

end Parts

/-- Without hints, writing a value asks for a part no more often than it occurs there. -/
theorem write_asks {policy : Policy} (hhints : policy.hints = []) (v : Value) (name : Option String) (depth : Nat) :
    Asks (v.occurrences ·) (write policy v name depth) := by
  induction hn : v.height using Nat.strongRecOn generalizing v name depth with
  | ind n ih =>
    rw [write_eq_writeNode]
    exact asks_node hhints (fun c hc name depth => ih c.height (hn ▸ hc) c name depth rfl) name depth

/-! ## Steps in turn -/

def Entry.stepOf? (id : Nat) : Entry → Option Nat
  | asked (.step index) (some other) _ => if other = id then some index else none
  | _ => none

def stepsOf (id : Nat) (entries : List Entry) : List Nat := entries.filterMap (Entry.stepOf? id)

/-- Entries that ask an enumerator for no step unless they create it, and for its steps in turn if they do so once. -/
structure InTurn (id : Nat) (entries : List Entry) : Prop where
  absent : asks (.enumerator id) entries = 0 → stepsOf id entries = []
  once : asks (.enumerator id) entries ≤ 1 → ∃ n, stepsOf id entries = List.range n

section Steps

variable {id other : Nat} {entries later : List Entry}

theorem stepsOf_append (id : Nat) (entries later : List Entry) :
    stepsOf id (entries ++ later) = stepsOf id entries ++ stepsOf id later := List.filterMap_append

theorem InTurn.of_no_steps (h : stepsOf id entries = []) : InTurn id entries := ⟨fun _ => h, fun _ => ⟨0, h⟩⟩

theorem InTurn.append (h : InTurn id entries) (h' : InTurn id later) : InTurn id (entries ++ later) := by
  refine ⟨fun hzero => ?_, fun hone => ?_⟩
  · rw [asks_append] at hzero
    rw [stepsOf_append, h.absent (by omega), h'.absent (by omega), List.append_nil]
  · rw [asks_append] at hone
    -- One of the two does not create the enumerator.
    rw [stepsOf_append]
    by_cases hzero : asks (.enumerator id) entries = 0
    · rw [h.absent hzero, List.nil_append]
      exact h'.once (by omega)
    · rw [h'.absent (by omega), List.append_nil]
      exact h.once (by omega)

theorem stepsOf_reply {request : Request} (h : ∀ index, request ≠ .step index) (part : Option Nat)
    (failure : Option String) (stops : Bool) : stepsOf id (reply request part failure stops) = [] := by
  cases request with
  | step index => exact absurd rfl (h index)
  | property | source | display | enumerator => cases failure <;> cases stops <;> rfl

theorem stepsOf_reply_step (id other index : Nat) (failure : Option String) (stops : Bool) :
    stepsOf id (reply (.step index) (some other) failure stops) = if other = id then [index] else [] := by
  by_cases hid : other = id <;> cases failure <;> cases stops <;>
    simp [stepsOf, reply, answered, Entry.stepOf?, hid]

/-- The steps of an enumerator that is not created in between. -/
theorem stepsOf_stepReplies {items : List (Bool × List Entry)} (h : ∀ item ∈ items, InTurn id item.2) (index : Nat)
    (hzero : asks (.enumerator id) (stepReplies id index items) = 0) :
    stepsOf id (stepReplies id index items) = List.range' index items.length := by
  induction items generalizing index with
  | nil => rfl
  | cons item items ih =>
    obtain ⟨hitem, hitems⟩ := List.forall_mem_cons.1 h
    rw [stepReplies, asks_append, asks_append] at hzero
    rw [stepReplies, stepsOf_append, stepsOf_append, stepsOf_reply_step, if_pos rfl, hitem.absent (by omega),
      ih hitems (index + 1) (by omega), List.nil_append]
    rfl

/-- Another enumerator, in whose items this one may be created. -/
theorem inTurn_stepReplies_of_ne (hid : other ≠ id) {items : List (Bool × List Entry)}
    (h : ∀ item ∈ items, InTurn id item.2) (index : Nat) : InTurn id (stepReplies other index items) := by
  induction items generalizing index with
  | nil => exact .of_no_steps rfl
  | cons item items ih =>
    obtain ⟨hitem, hitems⟩ := List.forall_mem_cons.1 h
    have hstep := stepsOf_reply_step id other index none item.1
    rw [if_neg hid] at hstep
    exact (InTurn.of_no_steps hstep).append (hitem.append (ih hitems (index + 1)))

/-- An enumerator that is created once is asked for its steps in turn, and for none that it is not created for. -/
theorem Account.inTurn (h : Account entries) (id : Nat) : InTurn id entries := by
  induction h with
  | nil | visited | stopObserved => exact .of_no_steps rfl
  | append _ _ ih ih' => exact ih.append ih'
  | reply request h part failure stops => exact .of_no_steps (stepsOf_reply h part failure stops)
  | @enumeration other created items _ broken stops ih =>
    have hcreate : stepsOf id (answered .enumerator (some other) none created) = [] := by cases created <;> rfl
    by_cases hid : other = id
    · subst hid
      have hasks : asks (.enumerator other) (answered .enumerator (some other) none created) = 1 := by
        simp [asks_answered, Request.part?]
      refine ⟨fun hzero => ?_, fun hone => ?_⟩
      · rw [asks_append] at hzero
        omega
      · rw [asks_append, asks_append] at hone
        rw [stepsOf_append, stepsOf_append, hcreate, stepsOf_stepReplies ih 0 (by omega), ← List.range_eq_range']
        cases broken with
        | none => exact ⟨items.length, by cases stops <;> exact List.append_nil _⟩
        | some reason =>
          refine ⟨items.length + 1, ?_⟩
          rw [lastReply, stepsOf_reply_step, if_pos rfl, List.range_succ]
          rfl
    · refine (InTurn.of_no_steps hcreate).append ((inTurn_stepReplies_of_ne hid ih 0).append (.of_no_steps ?_))
      cases broken with
      | none => cases stops <;> rfl
      | some reason => rw [lastReply, stepsOf_reply_step, if_neg hid]

end Steps

/-! ## Whole values -/

/-- Nothing is read twice: if every part occurs at most once in a value then writing it without hints reads every
property and every string form at most once, creates every enumerator at most once, and asks an enumerator for its steps
in turn, whether the walk comes to an end or is cancelled. -/
theorem write_reads_once {policy : Policy} (hhints : policy.hints = []) {v : Value}
    (honce : ∀ part, v.occurrences part ≤ 1) (name : Option String) (depth : Nat) (w : Walker) :
    ∃ entries,
      (endState (write policy v name depth w)).run.journal.toList = w.run.journal.toList ++ entries ∧
      (∀ part, asks part entries ≤ 1) ∧
      ∀ id, ∃ n, stepsOf id entries = List.range n := by
  obtain ⟨entries, hjournal, hasks, haccount⟩ :=
    (write_asks hhints v name depth).and (write_accounts policy v name depth) w
  have hparts : ∀ part, asks part entries ≤ 1 := fun part => Nat.le_trans (hasks part) (honce part)
  exact ⟨entries, hjournal, hparts, fun id => (haccount.inTurn id).once (hparts (.enumerator id))⟩

/-- A car with a label, in a list whose enumerator breaks off: its wheel is behind a getter that fails at first, its string
form is behind another, and so is its owner, which is a note. -/
theorem write_reads_once_garage :
    ({} : Policy).hints = [] ∧
      ∃ v : Value,
        v = .list .list none (.stepped 1 [⟨.ok (.decorated (.object "Car" [⟨"wheel", none, .deferred ⟨2, .error "flat",
          [.ok (.object "Wheel" [] (some (.deferred ⟨3, .ok "round", [], none⟩)))], none⟩⟩]
          (some (.deferred ⟨4, .ok "car", [], none⟩))) [⟨"owner", none, .deferred ⟨5, .ok .null, [], some 1⟩⟩] false),
          false⟩, ⟨.error "stuck", false⟩]) [] ∧
        (∀ part, v.occurrences part ≤ 1) ∧
        ∃ entries,
          (endState (write {} v none 2 {})).run.journal.toList = ({} : Walker).run.journal.toList ++ entries ∧
          (∀ part, asks part entries ≤ 1) ∧
          ∀ id, ∃ n, stepsOf id entries = List.range n := by
  let v : Value := .list .list none (.stepped 1 [⟨.ok (.decorated (.object "Car" [⟨"wheel", none, .deferred ⟨2, .error
    "flat", [.ok (.object "Wheel" [] (some (.deferred ⟨3, .ok "round", [], none⟩)))], none⟩⟩]
    (some (.deferred ⟨4, .ok "car", [], none⟩))) [⟨"owner", none, .deferred ⟨5, .ok .null, [], some 1⟩⟩] false),
    false⟩, ⟨.error "stuck", false⟩]) []
  have hcount (part : Part) : v.occurrences part =
      [Part.enumerator 1, .display 4, .property 2, .display 3, .property 5].count part := by
    simp [v, Value.occurrences_eq, occurrencesIn, Slot.occurrences, greatest, Value.slots, Value.ownSlots,
      Value.outerProperties, Value.ownProperties, Shape.slot, Property.slot, Sequence.stepped, Sequence.part?,
      Sequence.rows, Enumeration.results, Fetch.id?, Fetch.results, Getter.results, List.filterMap_cons,
      Except.toOption, List.count_cons]
    omega
  have honce : ∀ part, v.occurrences part ≤ 1 := fun part => by
    rw [hcount]
    exact List.nodup_iff_count.1 (by decide) part
  exact ⟨rfl, v, rfl, honce, write_reads_once rfl honce none 2 {}⟩

end GraphMarkup
