import GraphMarkup.Proofs.Walk.Outcome
import GraphMarkup.Session

/-!
# Calls on a session

* `Call`, `Session.after`, `Session.outcomes` : calls made one after another, also after one that has failed;
* `Session.itemElement?`, `Session.written` : the element of an item, and those of the items that calls write;
* `walk_of_grow_ok`, `walk_of_grow_error` : the walk over an item;
* `after_of_poisoned`, `outcomes_of_poisoned` : a poisoned session refuses everything;
* `exists_grow_of_serialize` : an item that is serialized successfully has been walked to its end.
-/

namespace GraphMarkup

/-- What a session can be asked before its end. -/
inductive Call where
  | serialize (value : Value)
  | requestStop

namespace Session

variable {ω : Type}

/-- The element of an item, unless the session has been poisoned or the walk over the item is cancelled. -/
def itemElement? (s : Session ω) (value : Value) : Option Element :=
  if s.phase = .poisoned then none
  else
    match grow s.policy value none s.policy.depth { run := s.run } with
    | .ok e _ => some e
    | .error .. => none

/-! ## Steps of a session -/

section Steps

variable {step : EStateM Error ω Unit} {s : Session ω} {writer : ω}

theorem onWriter_of_ok (h : step s.writer = .ok () writer) : onWriter step s = .ok () { s with writer } := by
  simp only [onWriter, h]

theorem onWriter_of_error {e : Error} (h : step s.writer = .error e writer) :
    onWriter step s = .error e { s with writer } := by
  simp only [onWriter, h]

end Steps

/-! ## The walk over an item -/

section Walk

variable {s : Session ω} {value : Value} {w : Walker}

theorem itemElement?_of_grow_ok (hphase : s.phase ≠ .poisoned) {e : Element}
    (h : grow s.policy value none s.policy.depth { run := s.run } = .ok e w) : s.itemElement? value = some e := by
  rw [itemElement?, if_neg hphase, h]

theorem walk_of_grow_ok {e : Element} (h : grow s.policy value none s.policy.depth { run := s.run } = .ok e w) :
    walk value s = .ok (({} : Recorder).append e.events, w.visited) { s with run := w.run } := by
  have hwrite : write s.policy value none s.policy.depth { run := s.run } =
      .ok () (w.on (({} : Recorder).append e.events)) :=
    (write_records_grow s.policy value none s.policy.depth).of_ok h {}
  simp only [walk, hwrite]
  rfl

theorem walk_of_grow_error {e : Error} (h : grow s.policy value none s.policy.depth { run := s.run } = .error e w) :
    walk value s = .error .cancelled { s with run := w.run } := by
  obtain ⟨r, hwrite⟩ := (write_records_grow s.policy value none s.policy.depth).of_error h {}
  replace hwrite : write s.policy value none s.policy.depth { run := s.run } = .error e (w.on r) := hwrite
  obtain rfl := (grow_yields_proper s.policy value none s.policy.depth).of_error h
  simp only [walk, hwrite]
  rfl

end Walk

variable [Writer ω]

def next (s : Session ω) : Call → Session ω
  | .serialize value => endState (serialize value s)
  | .requestStop => s.requestStop

def after (s : Session ω) (calls : List Call) : Session ω := calls.foldl next s

def outcomes : Session ω → List Call → List (Except Error Unit)
  | _, [] => []
  | s, .serialize value :: calls =>
    (match serialize value s with
    | .ok _ _ => .ok ()
    | .error e _ => .error e) :: outcomes (s.next (.serialize value)) calls
  | s, .requestStop :: calls => outcomes s.requestStop calls

def written : Session ω → List Call → List Element
  | _, [] => []
  | s, .serialize value :: calls => (s.itemElement? value).toList ++ written (s.next (.serialize value)) calls
  | s, .requestStop :: calls => written s.requestStop calls

/-! ## Items -/

/-- Writes the element of an item, in whose walk a number of nodes was visited. -/
def putItem (e : Element) (nodes : Nat) : SessionM ω Unit := do
  if (← get).phase = .atRoot then openRoot
  onWriter (Writer.replay e.events)
  modify fun s => { s with items := s.items + 1 }
  modify fun s => s.note (.itemWritten s.items nodes e.events.length)

section Items

variable {s s' : Session ω} {value : Value} {w : Walker}

/-- The root of a document is opened where the writer takes its start. -/
theorem openRoot_of_put (hlayout : s.layout = .document) {writer : ω}
    (hput : Writer.put (.openElement s.policy.names.root) s.writer = .ok () writer) :
    openRoot s = .ok () { s with writer, phase := .inDocument } := by
  rw [openRoot, get_bind, if_pos hlayout]
  exact bind_of_ok (onWriter_of_ok hput)

theorem putItem_of_atRoot (h : s.phase = .atRoot) (hopen : openRoot s = .ok () s') (h' : s'.phase = .inDocument)
    (e : Element) (nodes : Nat) : putItem e nodes s = putItem e nodes s' := by
  have hroot : ¬ s'.phase = .atRoot := by simp [h']
  unfold putItem
  rw [get_bind, get_bind, if_pos h, if_neg hroot]
  exact bind_of_ok hopen

theorem putItem_of_inDocument (h : s.phase = .inDocument) (e : Element) (nodes : Nat) :
    putItem e nodes s =
      match Writer.replay e.events s.writer with
      | .ok _ writer => .ok ()
          { s with writer, items := s.items + 1, run := s.run.note (.itemWritten (s.items + 1) nodes e.events.length) }
      | .error error writer => .error error { s with writer } := by
  have hroot : ¬ s.phase = .atRoot := by simp [h]
  rw [putItem, get_bind, if_neg hroot]
  cases hreplay : Writer.replay e.events s.writer with
  | ok _ writer => exact bind_of_ok (onWriter_of_ok hreplay)
  | error error writer => exact bind_of_error (onWriter_of_error hreplay)

theorem writeItem_of_grow_ok {e : Element} (h : grow s.policy value none s.policy.depth { run := s.run } = .ok e w) :
    writeItem value s = putItem e w.visited { s with run := w.run } := by
  have hevents : (({} : Recorder).append e.events).events = e.events.toArray := by
    rw [Recorder.events_append]
    exact Array.empty_append
  rw [writeItem, bind_of_ok (walk_of_grow_ok h)]
  simp only [hevents]
  rfl

theorem serialize_of_grow_ok (hphase : s.phase ≠ .poisoned) {e : Element}
    (h : grow s.policy value none s.policy.depth { run := s.run } = .ok e w) :
    serialize value s =
      match putItem e w.visited { s with run := w.run } with
      | .ok _ s' => .ok () s'
      | .error e s' => .error e (afterFailure e s') := by
  have hitem := writeItem_of_grow_ok h
  unfold serialize
  rw [if_neg hphase]
  cases hput : putItem e w.visited { s with run := w.run } with
  | ok _ s' => simp only [hitem, hput]
  | error e s' => simp only [hitem, hput]

theorem serialize_of_grow_error (hphase : s.phase ≠ .poisoned) {e : Error}
    (h : grow s.policy value none s.policy.depth { run := s.run } = .error e w) :
    serialize value s = .error .cancelled (afterFailure .cancelled { s with run := w.run }) := by
  have hitem : writeItem value s = .error .cancelled { s with run := w.run } := by
    rw [writeItem, bind_of_error (walk_of_grow_error h)]
  simp only [serialize, if_neg hphase, hitem]

end Items

/-! ## The end of a session -/

/-- A session that ends before its first item opens the root first. -/
theorem finish_of_atRoot {s s' : Session ω} (h : s.phase = .atRoot) (hopen : openRoot s = .ok () s')
    (h' : s'.phase = .inDocument) : finish s = finish s' := by
  unfold finish
  rw [get_bind, get_bind, h, h']
  exact bind_of_ok hopen

/-! ## Poisoned sessions -/

section Poisoned

variable {s : Session ω}

theorem serialize_of_poisoned (h : s.phase = .poisoned) (value : Value) :
    serialize value s = .error .sessionPoisoned s := if_pos h

theorem finish_of_poisoned (h : s.phase = .poisoned) : finish s = .error .sessionPoisoned s := by
  rw [finish, get_bind, h]
  rfl

theorem next_of_poisoned (h : s.phase = .poisoned) (call : Call) :
    (s.next call).phase = .poisoned ∧ (s.next call).writer = s.writer := by
  cases call with
  | serialize value =>
    simp only [next, serialize_of_poisoned h]
    exact ⟨h, rfl⟩
  | requestStop => exact ⟨h, rfl⟩

theorem after_of_poisoned (h : s.phase = .poisoned) (calls : List Call) :
    (s.after calls).phase = .poisoned ∧ (s.after calls).writer = s.writer := by
  induction calls generalizing s with
  | nil => exact ⟨h, rfl⟩
  | cons call calls ih =>
    obtain ⟨hphase, hwriter⟩ := next_of_poisoned h call
    obtain ⟨hphase', hwriter'⟩ := ih hphase
    exact ⟨hphase', hwriter'.trans hwriter⟩

theorem outcomes_of_poisoned (h : s.phase = .poisoned) (calls : List Call) :
    ∀ outcome ∈ s.outcomes calls, outcome = .error .sessionPoisoned := by
  induction calls generalizing s with
  | nil => exact List.forall_mem_nil _
  | cons call calls ih =>
    obtain ⟨hphase, -⟩ := next_of_poisoned h call
    cases call with
    | serialize value =>
      simp only [outcomes, serialize_of_poisoned h]
      exact List.forall_mem_cons.2 ⟨rfl, ih hphase⟩
    | requestStop => exact ih hphase

end Poisoned

/-! ## Items that succeed -/

section Success

variable {s s' : Session ω} {value : Value}

/-- An item that is serialized successfully has been walked to its end. -/
theorem exists_grow_of_serialize (h : serialize value s = .ok () s') : s.phase ≠ .poisoned ∧
    ∃ e w, grow s.policy value none s.policy.depth { run := s.run } = .ok e w := by
  have hphase : s.phase ≠ .poisoned := by
    intro hpoisoned
    rw [serialize_of_poisoned hpoisoned] at h
    cases h
  cases hgrow : grow s.policy value none s.policy.depth { run := s.run } with
  | ok e w => exact ⟨hphase, e, w, rfl⟩
  | error e w =>
    rw [serialize_of_grow_error hphase hgrow] at h
    cases h

end Success

end Session

end GraphMarkup
