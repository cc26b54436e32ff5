import GraphMarkup.Proofs.Markup.Preamble
import GraphMarkup.Proofs.Session.Calls

/-!
# Sessions behind other text

* `Session.behind` : a session over a writer with text in front of what it has written;
* `Session.follows_serialize`, `Session.follows_finish` : without indentation, what is in front makes no difference to
  an item, nor to the end of the session;
* `Session.follows_serializeAll` : so it makes none to a whole session.
-/

namespace GraphMarkup

namespace Session

def behind (front : String) (s : Session (XmlWriter String)) : Session (XmlWriter String) :=
  { s with writer := s.writer.behind front }

abbrev Compact (s : Session (XmlWriter String)) : Prop := s.writer.Compact

/-- A step of a session to which what is in front of its text makes no difference. -/
abbrev FollowsBehind {α : Type} (front : String) (step : SessionM (XmlWriter String) α) : Prop :=
  Follows Compact (behind front) step

variable (front : String)

theorem follows_onWriter {step : EStateM Error (XmlWriter String) Unit}
    (h : Follows XmlWriter.Compact (XmlWriter.behind front) step) : FollowsBehind front (onWriter step) := by
  intro s hs
  obtain ⟨hmap, hkept⟩ := h s.writer hs
  cases hstep : step s.writer with
  | ok _ writer =>
    rw [hstep] at hmap hkept
    rw [onWriter_of_ok hstep, onWriter_of_ok (s := s.behind front) hmap]
    exact ⟨rfl, hkept⟩
  | error e writer =>
    rw [hstep] at hmap hkept
    rw [onWriter_of_error hstep, onWriter_of_error (s := s.behind front) hmap]
    exact ⟨rfl, hkept⟩

theorem follows_openRoot : FollowsBehind front openRoot := by
  have hphase : FollowsBehind front (modify fun s => { s with phase := .inDocument }) :=
    .modify (fun _ => rfl) fun _ hs => hs
  refine .get (fun _ => rfl) fun s => .ite (.bind ?_ fun _ => hphase) hphase
  exact follows_onWriter front (XmlWriter.follows_put front _)

theorem follows_walk (value : Value) : FollowsBehind front (walk value) := by
  intro s hs
  cases hwrite : write s.policy value none s.policy.depth { run := s.run } with
  | ok _ w =>
    simp only [walk, behind, hwrite]
    exact ⟨rfl, hs⟩
  | error e w =>
    simp only [walk, behind, hwrite]
    exact ⟨rfl, hs⟩

theorem follows_writeItem (value : Value) : FollowsBehind front (writeItem value) := by
  refine (follows_walk front value).bind fun (recorder, nodes) => .get (fun _ => rfl) fun s => ?_
  have hrest : FollowsBehind front (do
      onWriter (Writer.replay recorder.events.toList)
      modify fun s => { s with items := s.items + 1 }
      modify fun s => s.note (.itemWritten s.items nodes recorder.events.size)) :=
    (follows_onWriter front (XmlWriter.follows_replay front _)).bind fun _ =>
      Follows.bind (.modify (fun _ => rfl) fun _ hs => hs) fun _ => .modify (fun _ => rfl) fun _ hs => hs
  exact .ite ((follows_openRoot front).bind fun _ => hrest) hrest

/-- What is in front makes no difference to an item, whether it fails or not. -/
theorem follows_serialize (value : Value) : FollowsBehind front (serialize value) := by
  intro s hs
  by_cases hphase : s.phase = .poisoned
  · rw [serialize_of_poisoned hphase, serialize_of_poisoned (s := s.behind front) hphase]
    exact ⟨rfl, hs⟩
  · obtain ⟨hmap, hkept⟩ := follows_writeItem front value s hs
    have hafter (e : Error) (s : Session (XmlWriter String)) :
        afterFailure e (s.behind front) = (afterFailure e s).behind front ∧ (afterFailure e s).writer = s.writer := by
      unfold afterFailure
      split <;> exact ⟨rfl, rfl⟩
    unfold serialize
    rw [if_neg hphase, if_neg (show ¬ (s.behind front).phase = .poisoned from hphase), hmap]
    cases hitem : writeItem value s with
    | ok _ s' =>
      rw [hitem] at hkept
      exact ⟨rfl, hkept⟩
    | error e s' =>
      rw [hitem] at hkept
      obtain ⟨hbehind, hwriter⟩ := hafter e s'
      refine ⟨congrArg (EStateM.Result.error e) hbehind, ?_⟩
      show (afterFailure e s').writer.Compact
      rwa [hwriter]

/-- What is in front makes no difference to the end of a session. -/
theorem follows_finish : FollowsBehind front finish := by
  have hflush : FollowsBehind front (do
      onWriter Writer.flush
      modify fun s => s.note (.sessionDone s.items)) :=
    (follows_onWriter front (XmlWriter.follows_flush front)).bind fun _ => .modify (fun _ => rfl) fun _ hs => hs
  have hclose : FollowsBehind front (onWriter (Writer.put .closeElement)) :=
    follows_onWriter front (XmlWriter.follows_put front _)
  have hend : FollowsBehind front (do
      if (← get).layout = .document then onWriter (Writer.put .closeElement)
      onWriter Writer.flush
      modify fun s => s.note (.sessionDone s.items)) :=
    .get (fun _ => rfl) fun _ => .ite (hclose.bind fun _ => hflush) hflush
  refine .get (fun _ => rfl) fun s => ?_
  cases s.phase with
  | poisoned => exact fun _ hs => ⟨rfl, hs⟩
  | atRoot => exact (follows_openRoot front).bind fun _ => hend
  | inDocument => exact hend

theorem follows_serializeAll (values : List Value) : FollowsBehind front (serializeAll values) :=
  (Follows.forM (follows_serialize front) values).bind fun _ => follows_finish front

end Session

end GraphMarkup
