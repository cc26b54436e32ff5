import GraphMarkup.Proofs.Graph.Occurrences
import GraphMarkup.Proofs.Walk.Pervading

/-!
# What a walk leaves in the journal

* `AddsTo` : a step that adds entries with a property to the journal, with a rule for each way to go on;
* `Entry.fault?` : the fault that a failing answer is;
* `reply`, `enumeration` : what a request leaves, and what an enumerator that can be created does;
* `Account` : what walks leave, in which every failing answer is mended next, and nothing is asked of an enumerator
  after a failing step;
* `Account.warnings_eq` : the warnings are those of the faults, one for each and in their order;
* `pervades_accounts`, `write_reports_faults` : writing a value leaves an account.

A walk can be cancelled anywhere, but never between a failing answer and what is noted of it.
-/

namespace GraphMarkup

variable {α β : Type}

/-! ## Steps that add to the journal -/

/-- A step that adds entries with a property to the journal, whether it ends in an error or not. -/
def AddsTo (P : List Entry → Prop) (step : WalkM α) : Prop :=
  ∀ w, ∃ entries, (endState (step w)).run.journal.toList = w.run.journal.toList ++ entries ∧ P entries

namespace AddsTo

variable {P Q : List Entry → Prop} {step : WalkM α} {k : α → WalkM β}

theorem mono (h : AddsTo P step) (hPQ : ∀ entries, P entries → Q entries) : AddsTo Q step := by
  intro w
  obtain ⟨entries, hjournal, hentries⟩ := h w
  exact ⟨entries, hjournal, hPQ entries hentries⟩

/-- What a step adds is determined by the journals before and after it. -/
theorem and (h : AddsTo P step) (h' : AddsTo Q step) : AddsTo (fun entries => P entries ∧ Q entries) step := by
  intro w
  obtain ⟨entries, hjournal, hentries⟩ := h w
  obtain ⟨entries', hjournal', hentries'⟩ := h' w
  obtain rfl := List.append_cancel_left (hjournal.symm.trans hjournal')
  exact ⟨entries, hjournal, hentries, hentries'⟩

theorem still (h : Still step) (hnil : P []) : AddsTo P step := by
  refine fun w => ⟨[], ?_, hnil⟩
  rw [h.run w, List.append_nil]

/-- Two steps in a row, of which the first may end in an error. -/
theorem bind (h : AddsTo P step) (hcut : ∀ entries, P entries → Q entries)
    (hk : ∀ entries, P entries → ∀ a, AddsTo (fun later => Q (entries ++ later)) (k a)) : AddsTo Q (step >>= k) := by
  intro w
  obtain ⟨entries, hjournal, hentries⟩ := h w
  cases hstep : step w with
  | error e w' =>
    rw [hstep] at hjournal
    rw [bind_of_error hstep]
    exact ⟨entries, hjournal, hcut entries hentries⟩
  | ok a w' =>
    rw [hstep] at hjournal
    have hw' : w'.run.journal.toList = w.run.journal.toList ++ entries := hjournal
    obtain ⟨later, hlater, hboth⟩ := hk entries hentries a w'
    rw [bind_of_ok hstep]
    exact ⟨entries ++ later, by rw [hlater, hw', List.append_assoc], hboth⟩

/-- A step over the run cannot end in an error, so that what it adds need not have the property by itself. -/
theorem after_onRun {step : StateM Run α} (h : ∀ run, ∃ entries,
    (step run).2.journal.toList = run.journal.toList ++ entries ∧
    AddsTo (fun later => P (entries ++ later)) (k (step run).1)) : AddsTo P (WalkM.onRun step >>= k) := by
  intro w
  obtain ⟨entries, hjournal, hrest⟩ := h w.run
  obtain ⟨later, hlater, hboth⟩ := hrest { w with run := (step w.run).2 }
  refine ⟨entries ++ later, ?_, hboth⟩
  rw [WalkM.onRun_bind, hlater, hjournal, List.append_assoc]

theorem onRun {step : StateM Run α} (h : ∀ run, ∃ entries,
    (step run).2.journal.toList = run.journal.toList ++ entries ∧ P entries) : AddsTo P (WalkM.onRun step) :=
  fun w => h w.run

theorem note {entry : Entry} (h : P [entry]) : AddsTo P (WalkM.note entry) :=
  onRun fun _ => ⟨[entry], Array.toList_push, h⟩

theorem after_note {entry : Entry} {k : Unit → WalkM α} (h : AddsTo (fun later => P (entry :: later)) (k ())) :
    AddsTo P (WalkM.note entry >>= k) :=
  after_onRun fun _ => ⟨[entry], Array.toList_push, h⟩

theorem get {k : Walker → WalkM α} (h : ∀ w, AddsTo P (k w)) : AddsTo P (MonadState.get >>= k) := fun w => h w w

/-- A change of the state that leaves the run alone. -/
theorem modify {f : Walker → Walker} {k : Unit → WalkM α} (hrun : ∀ w, (f w).run = w.run) (h : AddsTo P (k ())) :
    AddsTo P (modify f >>= k) := by
  intro w
  obtain ⟨entries, hjournal, hentries⟩ := h (f w)
  exact ⟨entries, hrun w ▸ hjournal, hentries⟩

/-- Markup in front of a step may be refused, and then nothing has been added. -/
theorem after_still (h : Still step) (hnil : P []) (hk : ∀ a, AddsTo P (k a)) : AddsTo P (step >>= k) := by
  have hfirst : AddsTo (· = []) step := still h rfl
  refine hfirst.bind (by rintro _ rfl; exact hnil) fun entries hentries a => ?_
  subst hentries
  exact hk a

theorem then_still (h : AddsTo P step) (hk : ∀ a, Still (k a)) : AddsTo P (step >>= k) :=
  h.bind (fun _ hentries => hentries) fun entries hentries a => still (hk a) (by rwa [List.append_nil])

theorem around {inside : WalkM Unit} (h : AddsTo P inside) (hnil : P []) (policy : Policy)
    (name typeName : Option String) : AddsTo P (writeAround policy name typeName inside) :=
  after_still (still_openNode policy name) hnil fun _ => after_still (still_writeType policy typeName) hnil fun _ =>
    h.then_still fun _ => still_put _

theorem poll (hnil : P []) (hobserved : ∀ visited, P [.stopObserved visited]) : AddsTo P WalkM.poll := by
  intro w
  by_cases hstopped : w.run.stopped
  · rw [WalkM.poll_of_stopped hstopped]
    exact ⟨[.stopObserved w.visited], Array.toList_push, hobserved w.visited⟩
  · rw [WalkM.poll_of_running hstopped]
    exact ⟨[], (List.append_nil _).symm, hnil⟩

theorem visit (h : P [.visited]) : AddsTo P WalkM.visit := modify (fun _ => rfl) (note h)

section

variable (hnil : P []) (happend : ∀ entries later, P entries → P later → P (entries ++ later))

include happend

/-- Two steps in a row, if the property goes to entries joined. -/
theorem join (h : AddsTo P step) (hk : ∀ a, AddsTo P (k a)) : AddsTo P (step >>= k) :=
  h.bind (fun _ hentries => hentries) fun entries hentries a => (hk a).mono fun later => happend entries later hentries

include hnil

theorem forM {body : α → WalkM Unit} (h : ∀ a, AddsTo P (body a)) (as : List α) : AddsTo P (as.forM body) := by
  induction as with
  | nil => exact still (Still.pure ()) hnil
  | cons a as ih => exact join happend (h a) fun _ => ih

end

end AddsTo

/-- What is written differently if a promotion is due. -/
theorem addsTo_promote {P : List Entry → Prop} {step step' : WalkM Unit} (h : AddsTo P step) (h' : AddsTo P step') :
    AddsTo P (do
      if (← get).promotionDue then
        modify fun w => { w with promotionDue := false }
        step
      else
        step') := by
  refine AddsTo.get fun w => ?_
  by_cases hdue : w.promotionDue
  · rw [if_pos hdue]
    exact AddsTo.modify (fun _ => rfl) h
  · rwa [if_neg hdue]

/-! ## Requests and their answers -/

def answered (request : Request) (part : Option Nat) (failure : Option String) (stops : Bool) : List Entry :=
  .asked request part failure :: if stops then [.stopRequested] else []

theorem journal_stopIf (stops : Bool) (run : Run) :
    (run.stopIf stops).journal.toList = run.journal.toList ++ if stops then [.stopRequested] else [] := by
  cases stops <;> simp [Run.stopIf, Run.requestStop, Run.note]

theorem journal_ask_stopIf (request : Request) (part : Option Nat) (failure : Option String) (stops : Bool) (run : Run) :
    ((run.ask request part failure).stopIf stops).journal.toList =
      run.journal.toList ++ answered request part failure stops := by
  rw [journal_stopIf]
  simp [answered, Run.ask, Run.note]

/-- A read leaves its request and its answer. -/
theorem Fetch.journal_read (f : Fetch α) (request : Request) (run : Run) : ∃ stops,
    (f.read request run).2.journal.toList =
      run.journal.toList ++ answered request f.id? (failure? (f.read request run).1) stops := by
  cases f with
  | ready value => exact ⟨false, journal_ask_stopIf request none none false run⟩
  | failed reason => exact ⟨false, journal_ask_stopIf request none (some reason) false run⟩
  | deferred getter => exact ⟨_, journal_ask_stopIf request (some getter.id) _ _ (run.countRead getter.id)⟩

namespace Entry

def fault? : Entry → Option Fault
  | asked request _ (some reason) => some (request.fault reason)
  | _ => none

end Entry

/-- A request with its answer, and what is mended if there is none. -/
def reply (request : Request) (part : Option Nat) (failure : Option String) (stops : Bool) : List Entry :=
  answered request part failure stops ++ (failure.map fun reason => Entry.mended (request.fault reason)).toList

/-- What an enumerator leaves that gives items: each of its steps, with what is made of the item that it gives. -/
def stepReplies (id : Nat) : Nat → List (Bool × List Entry) → List Entry
  | _, [] => []
  | index, (stops, made) :: items =>
    reply (.step index) (some id) none stops ++ (made ++ stepReplies id (index + 1) items)

/-- What an enumerator leaves in the end: a failing step, if there is one, and a stop if one is requested. -/
def lastReply (id index : Nat) (broken : Option String) (stops : Bool) : List Entry :=
  match broken with
  | some reason => reply (.step index) (some id) (some reason) stops
  | none => if stops then [.stopRequested] else []

/-- What walks leave in the journal: visits, polls that end them, and requests with their answers, of which those that
fail are mended next. An enumerator is asked for its steps in turn, and for none after one that fails. -/
inductive Account : List Entry → Prop
  | nil : Account []
  | append {entries later : List Entry} (h : Account entries) (h' : Account later) : Account (entries ++ later)
  | visited : Account [.visited]
  | stopObserved (nodes : Nat) : Account [.stopObserved nodes]
  | reply (request : Request) (h : ∀ index, request ≠ .step index) (part : Option Nat) (failure : Option String)
    (stops : Bool) : Account (reply request part failure stops)
  | enumeration (id : Nat) (created : Bool) {items : List (Bool × List Entry)} (h : ∀ item ∈ items, Account item.2)
    (broken : Option String) (stops : Bool) :
    Account (answered .enumerator (some id) none created ++
      (stepReplies id 0 items ++ lastReply id items.length broken stops))

/-! ## Warnings -/

theorem warnings_reply (request : Request) (part : Option Nat) (failure : Option String) (stops : Bool) :
    (reply request part failure stops).filterMap Entry.warning? =
      ((reply request part failure stops).filterMap Entry.fault?).map Fault.message := by
  cases failure <;> cases stops <;> rfl

theorem warnings_stepReplies (id : Nat) {items : List (Bool × List Entry)}
    (h : ∀ item ∈ items, item.2.filterMap Entry.warning? = (item.2.filterMap Entry.fault?).map Fault.message)
    (index : Nat) :
    (stepReplies id index items).filterMap Entry.warning? =
      ((stepReplies id index items).filterMap Entry.fault?).map Fault.message := by
  induction items generalizing index with
  | nil => rfl
  | cons item items ih =>
    obtain ⟨hitem, hitems⟩ := List.forall_mem_cons.1 h
    simp only [stepReplies, List.filterMap_append, List.map_append, warnings_reply, hitem, ih hitems]

/-- The warnings in an account are those of the faults, one for each and in their order. -/
theorem Account.warnings_eq {entries : List Entry} (h : Account entries) :
    entries.filterMap Entry.warning? = (entries.filterMap Entry.fault?).map Fault.message := by
  induction h with
  | nil | visited | stopObserved => rfl
  | append _ _ ih ih' => rw [List.filterMap_append, List.filterMap_append, List.map_append, ih, ih']
  | reply request _ part failure stops => exact warnings_reply request part failure stops
  | enumeration id created _ broken stops ih =>
    have hcreated : (answered .enumerator (some id) none created).filterMap Entry.warning? =
        ((answered .enumerator (some id) none created).filterMap Entry.fault?).map Fault.message := by
      cases created <;> rfl
    have hbroken (index : Nat) : (lastReply id index broken stops).filterMap Entry.warning? =
        ((lastReply id index broken stops).filterMap Entry.fault?).map Fault.message := by
      cases broken with
      | none => cases stops <;> rfl
      | some reason => exact warnings_reply _ _ _ _
    simp only [List.filterMap_append, List.map_append, warnings_stepReplies id ih, hcreated, hbroken]

/-! ## Steps that leave accounts -/

/-- A step that leaves an account. -/
abbrev Accounts (step : WalkM α) : Prop := AddsTo Account step

theorem Still.accounts {step : WalkM α} (h : Still step) : Accounts step := AddsTo.still h .nil

theorem Accounts.bind {step : WalkM α} {k : α → WalkM β} (h : Accounts step) (hk : ∀ a, Accounts (k a)) :
    Accounts (step >>= k) :=
  AddsTo.join (fun _ _ hentries hlater => hentries.append hlater) h hk

/-- A part is read, and what is noted next of an answer that fails is that it is mended. -/
theorem accounts_read (request : Request) (h : ∀ index, request ≠ .step index) {f : Fetch α}
    {k : Except String α → WalkM β} (hok : ∀ a, Accounts (k (.ok a)))
    (herror : ∀ reason, ∃ k', Accounts k' ∧
      k (.error reason) = do WalkM.note (.mended (request.fault reason)); k') :
    Accounts (WalkM.onRun (f.read request) >>= k) := by
  refine AddsTo.after_onRun fun run => ?_
  obtain ⟨stops, hjournal⟩ := f.journal_read request run
  refine ⟨_, hjournal, ?_⟩
  have hreply := Account.reply request h f.id?
  cases (f.read request run).1 with
  | ok a =>
    refine (hok a).mono fun later hlater => ?_
    simpa [reply, failure?] using (hreply none stops).append hlater
  | error reason =>
    obtain ⟨k', hk', hnoted⟩ := herror reason
    rw [hnoted]
    refine AddsTo.after_note (AddsTo.mono hk' fun later hlater => ?_)
    simpa [reply, failure?] using (hreply (some reason) stops).append hlater

/-! ## Loops -/

section Loops

variable {body : α → WalkM Unit}

/-- An enumerator is asked for its steps in turn, up to one that fails, and items leave accounts in between. -/
theorem addsTo_forEachStep (h : ∀ a, Accounts (body a)) (id : Nat) (endStops : Bool) (index : Nat)
    (steps : List (Step α)) :
    AddsTo (fun entries => ∃ items broken stops, (∀ item ∈ items, Account item.2) ∧
      entries = stepReplies id index items ++ lastReply id (index + items.length) broken stops)
      (forEachStep id endStops body index steps) := by
  induction steps generalizing index with
  | nil =>
    exact .onRun fun run => ⟨_, journal_stopIf endStops run, [], none, endStops, List.forall_mem_nil _, rfl⟩
  | cons step steps ih =>
    obtain ⟨outcome, stops⟩ := step
    refine AddsTo.after_onRun fun run => ⟨_, journal_ask_stopIf _ _ _ stops run, ?_⟩
    cases outcome with
    | error reason =>
      exact .note ⟨[], some reason, stops, List.forall_mem_nil _, by simp [stepReplies, lastReply, reply, failure?,
        Request.fault]⟩
    | ok item =>
      refine AddsTo.bind (h item) (fun made hmade => ?_) fun made hmade _ => (ih (index + 1)).mono ?_
      · -- The walk may be cancelled while it makes something of the item.
        exact ⟨[(stops, made)], none, false, by simpa using hmade, by simp [stepReplies, lastReply, reply, failure?]⟩
      · rintro _ ⟨items, broken, last, hitems, rfl⟩
        refine ⟨(stops, made) :: items, broken, last, List.forall_mem_cons.2 ⟨hmade, hitems⟩, ?_⟩
        simp [stepReplies, reply, failure?, Nat.add_assoc, Nat.add_comm 1]

theorem accounts_forEachItem (h : ∀ a, Accounts (body a)) (items : Sequence α) : Accounts (forEachItem items body) := by
  cases items with
  | ready items => exact AddsTo.forM .nil (fun _ _ hentries hlater => hentries.append hlater) h items
  | deferred enumerator =>
    refine AddsTo.after_onRun fun run => ?_
    obtain ⟨created, hjournal⟩ := (Fetch.deferred enumerator).journal_read .enumerator run
    refine ⟨_, hjournal, ?_⟩
    cases ((Fetch.deferred enumerator).read .enumerator run).1 with
    | error reason => exact .note (.reply .enumerator (fun _ h => nomatch h) (some enumerator.id) (some reason) created)
    | ok enumeration =>
      refine (addsTo_forEachStep h enumerator.id enumeration.endStops 0 enumeration.steps).mono ?_
      rintro _ ⟨items, broken, stops, hitems, rfl⟩
      rw [Nat.zero_add]
      exact .enumeration enumerator.id created hitems broken stops

end Loops

/-! ## String forms -/

/-- A step over the run that asks for a string form, and leaves an account once a fault in it is mended. -/
def AsksForm (step : StateM Run (Except String α)) : Prop :=
  ∀ run, ∃ entries, (step run).2.journal.toList = run.journal.toList ++ entries ∧
    Account (entries ++ ((failure? (step run).1).map fun reason => Entry.mended (.stringForm reason)).toList)

theorem asksForm_ok (a : α) : AsksForm (return .ok a) := fun _ => ⟨[], (List.append_nil _).symm, .nil⟩

/-- A part is read for the string form: if it is there the rest asks for the form, and if not there is none. -/
theorem AsksForm.after_read (request : Request) (hrequest : ∀ index, request ≠ .step index)
    (hfault : ∀ reason, request.fault reason = .stringForm reason) (f : Fetch β)
    {k : Except String β → StateM Run (Except String α)} (hok : ∀ b, AsksForm (k (.ok b)))
    (herror : ∀ reason, k (.error reason) = return .error reason) : AsksForm (f.read request >>= k) := by
  intro run
  obtain ⟨stops, hjournal⟩ := f.journal_read request run
  have hreply := Account.reply request hrequest f.id?
  have hbind : (f.read request >>= k) run = k (f.read request run).1 (f.read request run).2 := rfl
  rw [hbind]
  cases hanswer : (f.read request run).1 with
  | error reason =>
    rw [hanswer] at hjournal
    rw [herror reason]
    have hmended := hreply (some reason) stops
    rw [reply, Option.map_some, hfault reason] at hmended
    exact ⟨_, hjournal, hmended⟩
  | ok b =>
    rw [hanswer] at hjournal
    obtain ⟨entries, hlater, haccount⟩ := hok b (f.read request run).2
    refine ⟨answered request f.id? none stops ++ entries, ?_, ?_⟩
    · rw [hlater, hjournal, List.append_assoc]
      rfl
    · simpa [reply] using (hreply none stops).append haccount

theorem asksForm_displayText (policy : Policy) (value : Value) : AsksForm (displayText policy value) := by
  cases hbase : value.base with
  | object typeName properties display =>
    simp only [displayText, hbase]
    cases display with
    | none => exact asksForm_ok (some typeName)
    | some text =>
      exact AsksForm.after_read (.display typeName) (fun _ h => nomatch h) (fun _ => rfl) text
        (fun b => asksForm_ok (some b)) fun _ => rfl
  | null | scalar | enum | list | dict | decorated =>
    simp only [displayText, hbase]
    exact asksForm_ok _

theorem asksForm_stringForm? (policy : Policy) (value : Value) : AsksForm (stringForm? policy value) := by
  unfold stringForm?
  cases sourceProperty? policy value with
  | none => exact asksForm_displayText policy value
  | some p =>
    exact AsksForm.after_read (.source p.name) (fun _ h => nomatch h) (fun _ => rfl) p.value
      (asksForm_displayText policy) fun _ => rfl

theorem accounts_stringForm (policy : Policy) (value : Value) : Accounts (stringForm policy value) := by
  refine AddsTo.after_onRun fun run => ?_
  obtain ⟨entries, hjournal, haccount⟩ := asksForm_stringForm? policy value run
  refine ⟨entries, hjournal, ?_⟩
  cases hanswer : (stringForm? policy value run).1 with
  | ok text =>
    rw [hanswer] at haccount
    exact .still (Still.pure text) haccount
  | error reason =>
    rw [hanswer] at haccount
    exact .after_note (.still (Still.pure none) haccount)

/-! ## Whole values -/

theorem pervades_accounts (policy : Policy) : Pervades policy (fun _ => True) fun step => Accounts step where
  hereditary _ _ _ _ := trivial
  still h := h.accounts
  bind h hk := h.bind hk
  poll := .poll .nil .stopObserved
  visit := .visit .visited
  promote h h' := addsTo_promote h h'
  form _ := accounts_stringForm policy _
  property {_ p _} _ _ hok herror := accounts_read (.property p.name) (fun _ h => nomatch h) hok herror
  elements _ h := accounts_forEachItem h _
  entries _ h := accounts_forEachItem h _

theorem write_accounts (policy : Policy) (value : Value) (name : Option String) (depth : Nat) :
    Accounts (write policy value name depth) :=
  (pervades_accounts policy).write trivial name depth

/-- Nothing degrades in silence and nothing is reported twice: what writing a value adds to the journal is an account,
whether the walk comes to an end or is cancelled, and its warnings are those of the faults in it, one for each and in
their order. -/
theorem write_reports_faults (policy : Policy) (value : Value) (name : Option String) (depth : Nat) (w : Walker) :
    ∃ entries,
      (endState (write policy value name depth w)).run.journal.toList = w.run.journal.toList ++ entries ∧
      Account entries ∧
      entries.filterMap Entry.warning? = (entries.filterMap Entry.fault?).map Fault.message := by
  obtain ⟨entries, hjournal, haccount⟩ := write_accounts policy value name depth w
  exact ⟨entries, hjournal, haccount, haccount.warnings_eq⟩

end GraphMarkup
