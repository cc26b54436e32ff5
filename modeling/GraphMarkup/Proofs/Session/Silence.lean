import GraphMarkup.Proofs.Walk.Silence
import GraphMarkup.Session

/-!
# Sessions over whole graphs

* `Run.Silent` : a run without warnings, of which no graph has noticed anything;
* `Session.KeepsSilent` : a step of a session after which such a run is one still;
* `Session.KeepsSilent.serialize` : writing a whole graph as an item is such a step, whether it succeeds or not;
* `toXml_silent` : so is the run in which whole graphs are written as a document.

What a session notes by itself is neither a warning nor a request.
-/

namespace GraphMarkup

/-- A run without warnings, of which no graph has noticed anything. -/
def Run.Silent (run : Run) : Prop := ∀ entry ∈ run.journal.toList, entry.Silent

theorem Run.silent_new : ({} : Run).Silent := List.forall_mem_nil _

theorem Run.Silent.note {run : Run} (h : run.Silent) {entry : Entry} (hentry : entry.Silent) : (run.note entry).Silent := by
  have hjournal : (run.note entry).journal.toList = run.journal.toList ++ [entry] := Array.toList_push
  rw [Run.Silent, hjournal]
  exact List.forall_mem_append.2 ⟨h, List.forall_mem_singleton.2 hentry⟩

namespace Session

variable {ω α β : Type}

def KeepsSilent (step : SessionM ω α) : Prop := ∀ s : Session ω, s.run.Silent → (endState (step s)).run.Silent

namespace KeepsSilent

theorem bind {step : SessionM ω α} {k : α → SessionM ω β} (h : KeepsSilent step) (hk : ∀ a, KeepsSilent (k a)) :
    KeepsSilent (step >>= k) := by
  intro s hs
  have hfirst := h s hs
  cases hstep : step s with
  | ok a s' =>
    rw [hstep] at hfirst
    rw [bind_of_ok hstep]
    exact hk a s' hfirst
  | error e s' =>
    rw [hstep] at hfirst
    rwa [bind_of_error hstep]

theorem get {k : Session ω → SessionM ω β} (hk : ∀ s, KeepsSilent (k s)) : KeepsSilent (MonadState.get >>= k) :=
  fun s => hk s s

theorem branch {condition : Prop} [Decidable condition] {step step' : SessionM ω α} (h : KeepsSilent step)
    (h' : KeepsSilent step') : KeepsSilent (if condition then step else step') := by
  split
  · exact h
  · exact h'

theorem onWriter (step : EStateM Error ω Unit) : KeepsSilent (Session.onWriter step) := by
  intro s hs
  unfold Session.onWriter
  split <;> exact hs

theorem walk {value : Value} (h : value.Whole) : KeepsSilent (Session.walk value : SessionM ω (Recorder × Nat)) := by
  intro s hs
  obtain ⟨entries, hjournal, hentries⟩ := write_hushed s.policy h none s.policy.depth { run := s.run }
  have hwritten : (endState (write s.policy value none s.policy.depth { run := s.run })).run.Silent := by
    rw [Run.Silent, hjournal]
    exact List.forall_mem_append.2 ⟨hs, hentries⟩
  unfold Session.walk
  cases hwrite : write s.policy value none s.policy.depth { run := s.run } with
  | ok _ w => rwa [hwrite] at hwritten
  | error e w => rwa [hwrite] at hwritten

variable [Writer ω]

theorem openRoot : KeepsSilent (Session.openRoot : SessionM ω Unit) := by
  have hphase : KeepsSilent (modify fun s => { s with phase := .inDocument } : SessionM ω Unit) := fun _ hs => hs
  exact get fun _ => branch ((onWriter _).bind fun _ => hphase) hphase

/-- An item leaves a silent run silent, even if it fails. -/
theorem serialize {value : Value} (h : value.Whole) : KeepsSilent (Session.serialize value : SessionM ω Unit) := by
  have hitem : KeepsSilent (writeItem value : SessionM ω Unit) := by
    refine (walk h).bind fun (recorder, nodes) => get fun _ => ?_
    have hrest : KeepsSilent (do
        Session.onWriter (Writer.replay recorder.events.toList)
        modify fun s => { s with items := s.items + 1 }
        modify fun s => s.note (.itemWritten s.items nodes recorder.events.size) : SessionM ω Unit) :=
      (onWriter _).bind fun _ _ hs => hs.note ⟨rfl, rfl⟩
    exact branch (openRoot.bind fun _ => hrest) hrest
  intro s hs
  unfold Session.serialize
  split
  · exact hs
  · have hwritten := hitem s hs
    cases hresult : writeItem value s with
    | ok _ s' => rwa [hresult] at hwritten
    | error e s' =>
      rw [hresult] at hwritten
      show (afterFailure e s').run.Silent
      unfold afterFailure
      split
      · exact hwritten.note ⟨rfl, rfl⟩
      · exact hwritten

theorem items {values : List Value} (h : ∀ value ∈ values, value.Whole) :
    KeepsSilent (values.forM Session.serialize : SessionM ω Unit) := by
  induction values with
  | nil => exact fun _ hs => hs
  | cons value values ih =>
    obtain ⟨hvalue, hvalues⟩ := List.forall_mem_cons.1 h
    exact (serialize hvalue).bind fun _ => ih hvalues

theorem finish : KeepsSilent (Session.finish : SessionM ω Unit) := by
  have hflush : KeepsSilent (do
      Session.onWriter Writer.flush
      modify fun s => s.note (.sessionDone s.items) : SessionM ω Unit) :=
    (onWriter _).bind fun _ _ hs => hs.note ⟨rfl, rfl⟩
  have hend : KeepsSilent (do
      if (← MonadState.get).layout = .document then Session.onWriter (Writer.put .closeElement)
      Session.onWriter Writer.flush
      modify fun s => s.note (.sessionDone s.items) : SessionM ω Unit) :=
    get fun _ => branch ((onWriter _).bind fun _ => hflush) hflush
  refine get fun s => ?_
  cases s.phase with
  | poisoned => exact fun _ hs => hs
  | atRoot => exact openRoot.bind fun _ => hend
  | inDocument => exact hend

end KeepsSilent

end Session

/-- Writing whole graphs as a document leaves no warning, whatever comes of it, and no graph notices anything. -/
theorem toXml_silent (policy : Policy) {values : List Value} (h : ∀ value ∈ values, value.Whole) :
    (toXml policy values).2.Silent := by
  cases hcreate : Session.create ({ out := "" } : XmlWriter String) policy .document with
  | error e =>
    simp only [toXml, hcreate]
    exact Run.silent_new
  | ok session =>
    have hsession : session.run.Silent := by
      unfold Session.create at hcreate
      cases hvalid : policy.validate with
      | error e =>
        rw [hvalid] at hcreate
        cases hcreate
      | ok _ =>
        rw [hvalid] at hcreate
        cases hcreate
        exact Run.silent_new.note ⟨rfl, rfl⟩
    have hend : (endState (Session.serializeAll values session)).run.Silent :=
      ((Session.KeepsSilent.items h).bind fun _ => Session.KeepsSilent.finish) session hsession
    cases hresult : Session.serializeAll values session with
    | ok _ s =>
      simp only [toXml, hcreate, hresult]
      rwa [hresult] at hend
    | error e s =>
      simp only [toXml, hcreate, hresult]
      rwa [hresult] at hend

end GraphMarkup
