import GraphMarkup.Proofs.Markup.Fault
import GraphMarkup.Proofs.Session.Calls
import GraphMarkup.Proofs.Walk.Stopping

/-!
# Cancelled items

* `AddsNotes` : a step of a session after the walk, which adds to the journal without looking at the graph;
* `serialize_adds` : what an item adds to the journal heeds stops;
* `serialize_cancelled` : an item is cancelled by its walk alone, before anything reaches the writer;
* `serialize_heeds_stop` : once a stop has been requested nothing more of the graph is looked at, and a cancelled item
  leaves the writer alone and poisons the session.
-/

namespace GraphMarkup

namespace Session

variable {ω α β : Type}

/-! ## After the walk -/

/-- A step of a session that adds to the journal without looking at the graph. -/
def AddsNotes (step : SessionM ω α) : Prop :=
  ∀ s : Session ω, ∃ entries, s.run.Adds entries (endState (step s)).run ∧ .visited ∉ entries

namespace AddsNotes

theorem bind {step : SessionM ω α} {k : α → SessionM ω β} (h : AddsNotes step) (hk : ∀ a, AddsNotes (k a)) :
    AddsNotes (step >>= k) := by
  intro s
  obtain ⟨entries, hadds, hvisited⟩ := h s
  cases hstep : step s with
  | ok a s' =>
    rw [hstep] at hadds
    obtain ⟨later, hlater, hvisited'⟩ := hk a s'
    rw [bind_of_ok hstep]
    exact ⟨_, hadds.trans hlater, by simp [hvisited, hvisited']⟩
  | error e s' =>
    rw [hstep] at hadds
    rw [bind_of_error hstep]
    exact ⟨entries, hadds, hvisited⟩

theorem get {k : Session ω → SessionM ω β} (hk : ∀ s, AddsNotes (k s)) : AddsNotes (MonadState.get >>= k) :=
  fun s => hk s s

/-- A step that does not touch the run. -/
theorem of_run_eq {step : SessionM ω α} (h : ∀ s, (endState (step s)).run = s.run) : AddsNotes step := by
  refine fun s => ⟨[], ?_, List.not_mem_nil⟩
  rw [h s]
  exact Run.Adds.refl s.run

theorem onWriter (step : EStateM Error ω Unit) : AddsNotes (onWriter step) := by
  refine of_run_eq fun s => ?_
  unfold Session.onWriter
  split <;> rfl

end AddsNotes

/-- What a session itself notes is no look at the graph. -/
theorem note_adds (entry : Entry) (hlooks : entry.looks = false) (hstop : entry ≠ .stopRequested) (s : Session ω) :
    ∃ entries, s.run.Adds entries (s.note entry).run ∧ .visited ∉ entries := by
  have hvisited : entry ≠ .visited := fun h => by simp [h, Entry.looks] at hlooks
  refine ⟨[entry], Run.Adds.note (fun h => ?_) hstop, by simpa using hvisited.symm⟩
  rw [hlooks] at h
  cases h

theorem afterFailure_adds (e : Error) (s : Session ω) :
    ∃ entries, s.run.Adds entries (afterFailure e s).run ∧ .visited ∉ entries := by
  unfold afterFailure
  split
  · exact note_adds (.itemFailed (s.items + 1) e) rfl (by simp) s
  · exact ⟨[], Run.Adds.refl s.run, List.not_mem_nil⟩

theorem onWriter_own {step : EStateM Error ω Unit} (h : OwnFaults step) : OwnFaults (Session.onWriter step) := by
  intro s e s' hs
  unfold Session.onWriter at hs
  split at hs
  · cases hs
  · next hstep =>
    cases hs
    exact h _ _ _ hstep

variable [Writer ω]

theorem openRoot_addsNotes : AddsNotes (openRoot : SessionM ω Unit) := by
  have hphase : AddsNotes (modify fun s => { s with phase := .inDocument } : SessionM ω Unit) :=
    AddsNotes.of_run_eq fun _ => rfl
  refine AddsNotes.get fun s => ?_
  by_cases hlayout : s.layout = .document
  · rw [if_pos hlayout]
    exact (AddsNotes.onWriter _).bind fun _ => hphase
  · rw [if_neg hlayout]
    exact hphase

theorem putItem_addsNotes (e : Element) (nodes : Nat) : AddsNotes (putItem e nodes : SessionM ω Unit) := by
  have hrest : AddsNotes (do
      Session.onWriter (Writer.replay e.events)
      modify fun s => { s with items := s.items + 1 }
      modify fun s => s.note (.itemWritten s.items nodes e.events.length) : SessionM ω Unit) :=
    (AddsNotes.onWriter _).bind fun _ => (AddsNotes.of_run_eq fun _ => rfl).bind fun _ s =>
      note_adds (.itemWritten s.items nodes e.events.length) rfl (by simp) s
  refine AddsNotes.get fun s => ?_
  by_cases hphase : s.phase = .atRoot
  · rw [if_pos hphase]
    exact openRoot_addsNotes.bind fun _ => hrest
  · rw [if_neg hphase]
    exact hrest

/-! ## The walk and what follows it -/

section Items

variable {s : Session ω} {value : Value}

/-- What an item adds to the journal heeds stops, and every node that its walk counts is there. -/
theorem serialize_adds (h : s.policy.Unsourced) (value : Value) :
    ∃ entries, s.run.Adds entries (endState (serialize value s)).run ∧
      (s.phase ≠ .poisoned → entries.count .visited =
        (endState (write s.policy value none s.policy.depth { run := s.run })).visited) := by
  by_cases hphase : s.phase = .poisoned
  · rw [serialize_of_poisoned hphase]
    exact ⟨[], Run.Adds.refl s.run, fun h => absurd hphase h⟩
  obtain ⟨⟨entries, hwalk⟩, -⟩ := write_heeds h value none s.policy.depth { run := s.run }
  have hrecords := write_records_grow s.policy value none s.policy.depth
  have hcount {w : Walker} {later : List Entry} (hwalk : ({ run := s.run } : Walker).Adds entries w)
      (hvisited : .visited ∉ later) : (entries ++ later).count .visited = w.visited := by
    rw [hwalk.visited, List.count_append, List.count_eq_zero_of_not_mem hvisited]
    exact (Nat.zero_add _).symm
  cases hgrow : grow s.policy value none s.policy.depth { run := s.run } with
  | error e w =>
    obtain ⟨r, hwrite⟩ := hrecords.of_error hgrow {}
    replace hwrite : write s.policy value none s.policy.depth { run := s.run } = .error e (w.on r) := hwrite
    rw [hwrite] at hwalk ⊢
    obtain ⟨later, hlater, hvisited⟩ := afterFailure_adds .cancelled { s with run := w.run }
    rw [serialize_of_grow_error hphase hgrow]
    exact ⟨_, hwalk.run.trans hlater, fun _ => hcount hwalk hvisited⟩
  | ok e w =>
    have hwrite : write s.policy value none s.policy.depth { run := s.run } =
      .ok () (w.on (({} : Recorder).append e.events)) := hrecords.of_ok hgrow {}
    rw [hwrite] at hwalk ⊢
    obtain ⟨later, hlater, hvisited⟩ := putItem_addsNotes e w.visited { s with run := w.run }
    rw [serialize_of_grow_ok hphase hgrow]
    cases hput : putItem e w.visited { s with run := w.run } with
    | ok _ s' =>
      rw [hput] at hlater
      exact ⟨_, hwalk.run.trans hlater, fun _ => hcount hwalk hvisited⟩
    | error error s' =>
      rw [hput] at hlater
      obtain ⟨last, hlast, hvisited'⟩ := afterFailure_adds error s'
      refine ⟨_, hwalk.run.trans (hlater.trans hlast), fun _ => hcount hwalk ?_⟩
      simp [hvisited, hvisited']

/-! ## Cancelled items -/

variable [Writer.Own ω]

theorem openRoot_own : OwnFaults (openRoot : SessionM ω Unit) :=
  OwnFaults.get fun _ => OwnFaults.ite ((onWriter_own (Writer.Own.put _)).bind fun _ => OwnFaults.modify _)
    (OwnFaults.modify _)

/-- Once the walk over an item is complete, only the writer can refuse it. -/
theorem putItem_own (e : Element) (nodes : Nat) : OwnFaults (putItem e nodes : SessionM ω Unit) := by
  have hrest : OwnFaults (do
      Session.onWriter (Writer.replay e.events)
      modify fun s => { s with items := s.items + 1 }
      modify fun s => s.note (.itemWritten s.items nodes e.events.length) : SessionM ω Unit) :=
    (onWriter_own (Writer.replay_own _)).bind fun _ => (OwnFaults.modify _).bind fun _ => OwnFaults.modify _
  exact OwnFaults.get fun _ => OwnFaults.ite (openRoot_own.bind fun _ => hrest) hrest

/-- An item is cancelled by its walk alone, after a stop and before anything reaches the writer, whatever that is. -/
theorem serialize_cancelled (h : s.policy.Unsourced) {s' : Session ω}
    (hcancelled : serialize value s = .error .cancelled s') :
    s'.run.stopped ∧ s'.phase = .poisoned ∧
      ∀ writer : ω, serialize value { s with writer } = .error .cancelled { s' with writer } := by
  by_cases hphase : s.phase = .poisoned
  · rw [serialize_of_poisoned hphase] at hcancelled
    cases hcancelled
  cases hgrow : grow s.policy value none s.policy.depth { run := s.run } with
  | error e w =>
    have hserialize (writer : ω) : serialize value { s with writer } =
        .error .cancelled (afterFailure .cancelled { s with run := w.run, writer }) :=
      serialize_of_grow_error hphase hgrow
    obtain ⟨r, hwrite⟩ := (write_records_grow s.policy value none s.policy.depth).of_error hgrow {}
    obtain rfl := (grow_yields_proper s.policy value none s.policy.depth).of_error hgrow
    have hstopped : w.run.stopped := (write_heeds h value none s.policy.depth { run := s.run }).2 (w.on r) hwrite
    rw [serialize_of_grow_error hphase hgrow] at hcancelled
    cases hcancelled
    exact ⟨hstopped, rfl, hserialize⟩
  | ok e w =>
    rw [serialize_of_grow_ok hphase hgrow] at hcancelled
    cases hput : putItem e w.visited { s with run := w.run } with
    | ok _ s₁ =>
      rw [hput] at hcancelled
      cases hcancelled
    | error error s₁ =>
      obtain ⟨fault, rfl⟩ := putItem_own e w.visited _ _ _ hput
      rw [hput] at hcancelled
      cases hcancelled

/-- Once a stop has been requested, before an item or anywhere in its walk, nothing more of the graph is looked at: no
node is visited or counted, no property or string form is read, and no enumerator is created. If the item is cancelled,
the writer has not been called, and the session refuses everything that follows. -/
theorem serialize_heeds_stop (h : s.policy.Unsourced) (value : Value) :
    (∃ entries, (endState (serialize value s)).run.journal.toList = s.run.journal.toList ++ entries ∧
      Heedful s.run.stopped entries ∧ (s.phase ≠ .poisoned → entries.count .visited =
        (endState (write s.policy value none s.policy.depth { run := s.run })).visited)) ∧
    ∀ s' : Session ω, serialize value s = .error .cancelled s' → s'.run.stopped ∧
      (∀ writer : ω, serialize value { s with writer } = .error .cancelled { s' with writer }) ∧
      ∀ calls, (∀ outcome ∈ s'.outcomes calls, outcome = .error .sessionPoisoned) ∧
        (s'.after calls).writer = s.writer ∧
        finish (s'.after calls) = .error .sessionPoisoned (s'.after calls) := by
  obtain ⟨entries, hadds, hcount⟩ := serialize_adds h value
  refine ⟨⟨entries, hadds.journal, hadds.heedful, hcount⟩, fun s' hcancelled => ?_⟩
  obtain ⟨hstopped, hphase, hwriters⟩ := serialize_cancelled h hcancelled
  have hwriter : s'.writer = s.writer := by
    have hsame := hcancelled.symm.trans (hwriters s.writer)
    injection hsame with _ hsame
    rw [hsame]
  refine ⟨hstopped, hwriters, fun calls => ?_⟩
  obtain ⟨hphase', hwriter'⟩ := after_of_poisoned hphase calls
  exact ⟨outcomes_of_poisoned hphase calls, hwriter'.trans hwriter, finish_of_poisoned hphase'⟩

end Items

/-- The first property of an object requests a stop while it is read, and the second is never read. -/
theorem serialize_heeds_stop_of_getter :
    ∃ s₀, create ({} : Recorder) {} .document = .ok s₀ ∧ s₀.policy.Unsourced ∧
      ∃ s', serialize (.object "T" [⟨"p", none, .deferred { id := 0, first := .ok .null, stopsOn := some 1 }⟩,
          ⟨"q", none, .deferred { id := 1, first := .ok .null }⟩] none) s₀ = .error .cancelled s' ∧
        s'.run.journal.toList = s₀.run.journal.toList ++ [.visited, .asked (.property "p") (some 0) none,
          .stopRequested, .stopObserved 1, .itemFailed 1 .cancelled] ∧
        (∀ calls, (s'.after calls).writer = s₀.writer) ∧
        finish s' = .error .sessionPoisoned s' := by
  have hunsourced : ({} : Policy).Unsourced := fun typeName hints h => nomatch h
  refine ⟨_, rfl, hunsourced, ?_⟩
  generalize hs₀ : note (.sessionStarted _ _ _) _ = s₀
  have hpolicy : s₀.policy.Unsourced := by
    rw [← hs₀]
    exact hunsourced
  have hheeds := serialize_heeds_stop hpolicy (.object "T"
    [⟨"p", none, .deferred { id := 0, first := .ok .null, stopsOn := some 1 }⟩,
      ⟨"q", none, .deferred { id := 1, first := .ok .null }⟩] none)
  have hcancelled : (match serialize (.object "T"
      [⟨"p", none, .deferred { id := 0, first := .ok .null, stopsOn := some 1 }⟩,
        ⟨"q", none, .deferred { id := 1, first := .ok .null }⟩] none) s₀ with
      | .error e s' => decide (e = .cancelled ∧ s'.run.journal.toList = s₀.run.journal.toList ++ [.visited,
          .asked (.property "p") (some 0) none, .stopRequested, .stopObserved 1, .itemFailed 1 .cancelled])
      | .ok .. => false) = true := by
    rw [← hs₀]
    decide +kernel
  cases hserialize : serialize (.object "T"
      [⟨"p", none, .deferred { id := 0, first := .ok .null, stopsOn := some 1 }⟩,
        ⟨"q", none, .deferred { id := 1, first := .ok .null }⟩] none) s₀ with
  | ok _ s' =>
    rw [hserialize] at hcancelled
    cases hcancelled
  | error e s' =>
    rw [hserialize] at hcancelled
    obtain ⟨rfl, hjournal⟩ := of_decide_eq_true hcancelled
    obtain ⟨-, -, hrefused⟩ := hheeds.2 s' hserialize
    exact ⟨s', rfl, hjournal, fun calls => (hrefused calls).2.1, (hrefused []).2.2⟩

end Session

end GraphMarkup
