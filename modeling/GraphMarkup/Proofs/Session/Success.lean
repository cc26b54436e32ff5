import GraphMarkup.Proofs.Session.Contents
import GraphMarkup.Proofs.Walk.Cancelled

/-!
# When a document can be written

* `recordedBy` : the events that walks over values record, one walk after another;
* `Walks.recordedBy_append` : walks that give elements record their events;
* `walks_or_cancelled` : the walks over values give elements, all of them or those in front of one that is cancelled;
* `Session.Contains.cancelled_after` : a stop in the walk over an item is still there when the session ends;
* `toXml_ok_iff_writable` : unless a stop is requested, a document is written exactly if the policy is valid and the
  character data of all events is such as XML can carry.

Nothing of the session decides this: neither what the writer makes of the order of the events, nor the local faults of
the graph, which the walks mend.
-/

namespace GraphMarkup

open Element (eventsOf)

variable {policy : Policy} {values : List Value} {value : Value} {es : List Element} {e : Element} {run run' : Run}
  {w : Walker}

/-! ## What the walks record -/

/-- The events that the walks over values record, one walk after another, each into a recorder of its own. -/
def recordedBy (policy : Policy) : List Value → Run → List Event
  | [], _ => []
  | value :: values, run =>
    let w := endState (write policy value none policy.depth { run })
    w.recorder.events.toList ++ recordedBy policy values w.run

theorem endState_write_of_grow_ok (hgrow : grow policy value none policy.depth { run } = .ok e w) :
    endState (write policy value none policy.depth { run }) = w.on (({} : Recorder).append e.events) := by
  have hwrite := (write_records_grow policy value none policy.depth).of_ok hgrow {}
  exact congrArg endState hwrite

/-- Walks that give elements record the events of these. -/
theorem Walks.recordedBy_append (h : Walks policy run values es run') (later : List Value) :
    recordedBy policy (values ++ later) run = eventsOf es ++ recordedBy policy later run' := by
  induction h with
  | nil run => rfl
  | @cons run run' value values e es w hgrow _ ih =>
    have hevents : (({} : Recorder).append e.events).events.toList = e.events := by
      rw [Recorder.events_append]
      exact congrArg Array.toList Array.empty_append
    rw [List.cons_append, recordedBy, endState_write_of_grow_ok hgrow]
    show (({} : Recorder).append e.events).events.toList ++ recordedBy policy (values ++ later) w.run = _
    rw [hevents, ih, eventsOf, List.append_assoc]

theorem Walks.recordedBy_eq (h : Walks policy run values es run') : recordedBy policy values run = eventsOf es := by
  have happend := h.recordedBy_append []
  rwa [List.append_nil, recordedBy, List.append_nil] at happend

/-- The walks over values all give elements, or one is cancelled and those in front of it give elements. -/
theorem walks_or_cancelled (policy : Policy) (values : List Value) (run : Run) :
    (∃ es run', Walks policy run values es run') ∨
      ∃ before value after es run' w, values = before ++ value :: after ∧ Walks policy run before es run' ∧
        grow policy value none policy.depth { run := run' } = .error .cancelled w := by
  induction values generalizing run with
  | nil => exact .inl ⟨[], run, .nil run⟩
  | cons value values ih =>
    cases hgrow : grow policy value none policy.depth { run } with
    | error error w =>
      obtain rfl := (grow_yields_proper policy value none policy.depth).of_error hgrow
      exact .inr ⟨[], value, values, [], run, w, rfl, .nil run, hgrow⟩
    | ok e w =>
      rcases ih w.run with ⟨es, run', hwalks⟩ | ⟨before, value', after, es, run', w', rfl, hwalks, hcancelled⟩
      · exact .inl ⟨e :: es, run', .cons hgrow hwalks⟩
      · exact .inr ⟨value :: before, value', after, e :: es, run', w', rfl, .cons hgrow hwalks, hcancelled⟩

/-! ## Cancelled walks -/

theorem stopped_of_grow_cancelled (hgrow : grow policy value none policy.depth { run } = .error .cancelled w) :
    w.run.stopped := by
  obtain ⟨r, hwrite⟩ := (write_records_grow policy value none policy.depth).of_error hgrow {}
  exact write_needs_stop policy value none policy.depth { run } (w.on r) hwrite

namespace Session

theorem afterFailure_stopped {ω : Type} (error : Error) (s : Session ω) :
    (afterFailure error s).run.stopped = s.run.stopped := by
  unfold afterFailure
  split <;> rfl

namespace Contains

variable {s : Session (XmlWriter String)}

/-- An item whose walk is cancelled leaves the request for a stop behind. -/
theorem cancelled (h : s.Contains policy es run)
    (hgrow : grow policy value none policy.depth { run } = .error .cancelled w) :
    ∃ s', serialize value s = .error .cancelled s' ∧ s'.run.stopped := by
  obtain ⟨journal, hgrow'⟩ := h.grow_eq value
  rw [hgrow] at hgrow'
  refine ⟨_, serialize_of_grow_error h.not_poisoned hgrow', ?_⟩
  rw [afterFailure_stopped]
  have hstopped : w.run.stopped := stopped_of_grow_cancelled hgrow
  exact hstopped

/-- So do items in a row of which one is cancelled, unless there is a forbidden character in those in front of it. -/
theorem cancelled_after {before after : List Value} {es' : List Element} (hvalid : policy.validate = .ok ())
    (h : s.Contains policy es run) (hwalks : Walks policy run before es' run')
    (hgrow : grow policy value none policy.depth { run := run' } = .error .cancelled w) :
    (∃ s', (before ++ value :: after).forM serialize s = .error .cancelled s' ∧ s'.run.stopped) ∨
      ∃ c s', firstForbidden? (eventsOf es') = some c ∧
        (before ++ value :: after).forM serialize s = .error (.writer (.forbiddenChar c)) s' := by
  have hsplit : (before ++ value :: after).forM serialize =
      (before.forM serialize >>= fun _ => (value :: after).forM serialize : SessionM (XmlWriter String) Unit) :=
    List.forM_append
  rw [hsplit]
  rcases h.items hvalid hwalks with ⟨-, s₁, hforM, h₁⟩ | ⟨c, s₁, hsome, hforM⟩
  · obtain ⟨s₂, hserialize, hstopped⟩ := h₁.cancelled hgrow
    exact .inl ⟨s₂, (bind_of_ok hforM).trans (bind_of_error hserialize), hstopped⟩
  · exact .inr ⟨c, s₁, hsome, bind_of_error hforM⟩

end Contains

end Session

/-! ## Documents -/

theorem toXml_of_invalid {error : Error} (hinvalid : policy.validate = .error error) (values : List Value) :
    toXml policy values = (.error error, {}) := by
  rw [toXml, Session.create, hinvalid]

theorem ElementNames.exists_fault_of_invalid {names : ElementNames} {error : Error} (h : names.validate = .error error) :
    ∃ fault, error = .configuration fault := by
  unfold ElementNames.validate at h
  split at h
  · cases h
    exact ⟨_, rfl⟩
  · split at h
    · cases h
      exact ⟨_, rfl⟩
    · cases h

/-- Only the configuration can be wrong with a policy. -/
theorem Policy.exists_fault_of_invalid {error : Error} (h : policy.validate = .error error) :
    ∃ fault, error = .configuration fault := by
  unfold Policy.validate Policy.validateDepth at h
  split at h
  · cases h
    exact ⟨_, rfl⟩
  · exact ElementNames.exists_fault_of_invalid h

/-- A document either is written or fails for the first forbidden character that the walks record. -/
theorem toXml_cases (hvalid : policy.validate = .ok ()) (values : List Value)
    (hrunning : (toXml policy values).2.stopped = false) :
    (firstForbidden? (recordedBy policy values {}) = none ∧ ∃ xml, (toXml policy values).1 = .ok xml) ∨
      ∃ c, firstForbidden? (recordedBy policy values {}) = some c ∧
        (toXml policy values).1 = .error (.writer (.forbiddenChar c)) := by
  rcases walks_or_cancelled policy values {} with
    ⟨es, run', hwalks⟩ | ⟨before, value, after, es, run', w, rfl, hwalks, hcancelled⟩
  · rw [hwalks.recordedBy_eq]
    rcases toXml_of_walks hvalid hwalks with ⟨hnone, xml, hxml, -⟩ | ⟨c, hsome, hxml⟩
    · exact .inl ⟨hnone, xml, hxml⟩
    · exact .inr ⟨c, hsome, hxml⟩
  · obtain ⟨s, hs, -, herror⟩ := toXml_of_valid hvalid (before ++ value :: after)
    rcases hs.cancelled_after hvalid hwalks hcancelled with ⟨s', hforM, hstopped⟩ | ⟨c, s', hsome, hforM⟩
    · rw [herror _ s' hforM] at hrunning
      cases hrunning.symm.trans hstopped
    · refine .inr ⟨c, ?_, by rw [herror _ s' hforM]⟩
      rw [hwalks.recordedBy_append, firstForbidden?_append, hsome, Option.some_or]

/-- When a document is written. Unless a stop is requested, this depends on the policy and the characters that the walks
record, and nothing else: getters may answer as they like. The error is that of the policy, or names the first forbidden
character. -/
theorem toXml_ok_iff_writable (policy : Policy) (values : List Value)
    (hrunning : (toXml policy values).2.stopped = false) :
    ((∃ xml, (toXml policy values).1 = .ok xml) ↔
      policy.validate = .ok () ∧ ∀ event ∈ recordedBy policy values {}, event.IsWritable) ∧
    ∀ error, (toXml policy values).1 = .error error →
      (policy.validate = .error error ∧ ∃ fault, error = .configuration fault) ∨
        (policy.validate = .ok () ∧ ∃ c, firstForbidden? (recordedBy policy values {}) = some c ∧
          error = .writer (.forbiddenChar c)) := by
  rw [← firstForbidden?_eq_none_iff]
  cases hvalidate : policy.validate with
  | error e =>
    rw [toXml_of_invalid hvalidate]
    refine ⟨⟨nofun, nofun⟩, ?_⟩
    rintro _ ⟨⟩
    exact .inl ⟨rfl, Policy.exists_fault_of_invalid hvalidate⟩
  | ok _ =>
    rcases toXml_cases hvalidate values hrunning with ⟨hnone, xml, hxml⟩ | ⟨c, hsome, hxml⟩
    · rw [hxml]
      exact ⟨⟨fun _ => ⟨rfl, hnone⟩, fun _ => ⟨xml, rfl⟩⟩, nofun⟩
    · rw [hxml, hsome]
      refine ⟨⟨nofun, nofun⟩, ?_⟩
      rintro _ ⟨⟩
      exact .inr ⟨rfl, c, rfl, rfl⟩

/-- A car written twice, whose owner cannot be read at first, and has a name that XML cannot carry afterwards. -/
theorem toXml_ok_iff_writable_of_second_read :
    ∃ car : Value,
      car = .object "Car" [⟨"owner", none,
        .deferred ⟨1, .error "gone", [.ok (.scalar (.string "A\x01B"))], none⟩⟩] none ∧
      (toXml {} [car, car]).2.stopped = false ∧
      ((∃ xml, (toXml {} [car, car]).1 = .ok xml) ↔
        ({} : Policy).validate = .ok () ∧ ∀ event ∈ recordedBy {} [car, car] {}, event.IsWritable) ∧
      ∀ error, (toXml {} [car, car]).1 = .error error →
        (({} : Policy).validate = .error error ∧ ∃ fault, error = .configuration fault) ∨
          (({} : Policy).validate = .ok () ∧ ∃ c, firstForbidden? (recordedBy {} [car, car] {}) = some c ∧
            error = .writer (.forbiddenChar c)) := by
  let car : Value := .object "Car" [⟨"owner", none,
    .deferred ⟨1, .error "gone", [.ok (.scalar (.string "A\x01B"))], none⟩⟩] none
  have hrunning : (toXml {} [car, car]).2.stopped = false := by decide +kernel
  exact ⟨car, rfl, hrunning, toXml_ok_iff_writable {} [car, car] hrunning⟩

end GraphMarkup
