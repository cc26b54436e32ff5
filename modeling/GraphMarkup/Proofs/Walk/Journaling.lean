import GraphMarkup.Proofs.Walk.Closure

/-!
# The journal is written and never read

* `Run.journaled`, `Walker.journaled` : a run and a walk with another journal;
* `Run.IgnoresJournal`, `IgnoresJournal` : steps that do the same over any journal, to which they may add;
* `closed_ignoresJournal` : this goes through walks;
* `grow_ignoresJournal` : so the element of a value does not depend on the journal.
-/

namespace GraphMarkup

variable {α β : Type}

/-! ## Steps over a run -/

namespace Run

def journaled (journal : Array Entry) (run : Run) : Run := { run with journal }

def IgnoresJournal (step : StateM Run α) : Prop :=
  ∀ (run : Run) (journal : Array Entry), ∃ journal',
    step (run.journaled journal) = ((step run).1, (step run).2.journaled journal')

namespace IgnoresJournal

protected theorem pure (a : α) : IgnoresJournal (pure a) := fun _ journal => ⟨journal, rfl⟩

theorem bind {step : StateM Run α} {k : α → StateM Run β} (h : IgnoresJournal step) (hk : ∀ a, IgnoresJournal (k a)) :
    IgnoresJournal (step >>= k) := by
  intro run journal
  obtain ⟨journal₁, hstep⟩ := h run journal
  obtain ⟨journal₂, hrest⟩ := hk (step run).1 (step run).2 journal₁
  refine ⟨journal₂, ?_⟩
  show k (step (run.journaled journal)).1 (step (run.journaled journal)).2 = _
  rw [hstep]
  exact hrest

end IgnoresJournal

theorem ignoresJournal_note (entry : Entry) : IgnoresJournal (modify (note entry)) :=
  fun _ journal => ⟨journal.push entry, rfl⟩

theorem ignoresJournal_stopIf (stops : Bool) : IgnoresJournal (modify (stopIf stops)) := by
  intro run journal
  cases stops with
  | false => exact ⟨journal, rfl⟩
  | true => exact ⟨journal.push .stopRequested, rfl⟩

theorem ignoresJournal_ask (request : Request) (part : Option Nat) (failure : Option String) (stops : Bool) :
    IgnoresJournal (modify fun run => (ask request part failure run).stopIf stops) :=
  fun run journal => ignoresJournal_stopIf stops (ask request part failure run) (journal.push (.asked request part failure))

theorem ignoresJournal_read (f : Fetch α) (request : Request) : IgnoresJournal (f.read request) := by
  intro run journal
  cases f with
  | ready value => exact ⟨_, rfl⟩
  | failed reason => exact ⟨_, rfl⟩
  | deferred getter =>
    -- The count of the read comes first, and leaves the journal alone.
    obtain ⟨journal', hask⟩ := ignoresJournal_ask request (some getter.id)
      (failure? (getter.answer (run.reads getter.id + 1))) (getter.stopsOn == some (run.reads getter.id + 1))
      (run.countRead getter.id) journal
    have hrun := congrArg Prod.snd hask
    exact ⟨journal', Prod.ext rfl hrun⟩

theorem ignoresJournal_displayText (policy : Policy) (value : Value) : IgnoresJournal (displayText policy value) := by
  unfold displayText
  split
  · exact .pure _
  · exact .pure _
  · exact .pure _
  · refine IgnoresJournal.bind ?_ fun _ => .pure _
    unfold readDisplay
    split
    · exact .pure _
    · exact ignoresJournal_read _ _
  · exact .pure _
  · exact .pure _
  · exact .pure _

theorem ignoresJournal_stringForm? (policy : Policy) (value : Value) : IgnoresJournal (stringForm? policy value) := by
  unfold stringForm?
  split
  · exact ignoresJournal_displayText policy value
  · refine (ignoresJournal_read _ _).bind fun answer => ?_
    cases answer with
    | ok source => exact ignoresJournal_displayText policy source
    | error reason => exact .pure _

end Run

/-! ## Steps of a walk -/

def Walker.journaled (journal : Array Entry) (w : Walker) : Walker := { w with run := w.run.journaled journal }

def IgnoresJournal (step : WalkM α) : Prop :=
  ∀ (w : Walker) (journal : Array Entry), ∃ journal', step (w.journaled journal) = mapState (·.journaled journal') (step w)

namespace IgnoresJournal

protected theorem pure (a : α) : IgnoresJournal (pure a) := fun _ journal => ⟨journal, rfl⟩

protected theorem throw (e : Error) : IgnoresJournal (throw e : WalkM α) := fun _ journal => ⟨journal, rfl⟩

theorem bind {step : WalkM α} {k : α → WalkM β} (h : IgnoresJournal step) (hk : ∀ a, IgnoresJournal (k a)) :
    IgnoresJournal (step >>= k) := by
  intro w journal
  obtain ⟨journal₁, hstep⟩ := h w journal
  cases hw : step w with
  | ok a w₁ =>
    rw [hw] at hstep
    rw [bind_of_ok hw, bind_of_ok hstep]
    exact hk a w₁ journal₁
  | error e w₁ =>
    rw [hw] at hstep
    rw [bind_of_error hw, bind_of_error hstep]
    exact ⟨journal₁, rfl⟩

/-- Going on in one of two ways, by a flag that is not in the journal. -/
theorem branch {flag : Walker → Bool} (hflag : ∀ w journal, flag (w.journaled journal) = flag w) {yes no : WalkM α}
    (hyes : IgnoresJournal yes) (hno : IgnoresJournal no) :
    IgnoresJournal (get >>= fun w => if flag w then yes else no) := by
  intro w journal
  rw [get_bind, get_bind, hflag]
  by_cases hw : flag w
  · rw [if_pos hw]
    exact hyes w journal
  · rw [if_neg hw]
    exact hno w journal

theorem modify {f : Walker → Walker} (hf : ∀ w journal, f (w.journaled journal) = (f w).journaled journal) :
    IgnoresJournal (modify f) :=
  fun w journal => ⟨journal, congrArg (EStateM.Result.ok ()) (hf w journal)⟩

theorem onRun {step : StateM Run α} (h : Run.IgnoresJournal step) : IgnoresJournal (WalkM.onRun step) := by
  intro w journal
  obtain ⟨journal', hstep⟩ := h w.run journal
  refine ⟨journal', ?_⟩
  show EStateM.Result.ok (step (w.run.journaled journal)).1
    { w.journaled journal with run := (step (w.run.journaled journal)).2 } = _
  rw [hstep]
  rfl

end IgnoresJournal

theorem ignoresJournal_note (entry : Entry) : IgnoresJournal (WalkM.note entry) :=
  .onRun (Run.ignoresJournal_note entry)

theorem ignoresJournal_poll : IgnoresJournal WalkM.poll := by
  intro w journal
  by_cases hstopped : w.run.stopped
  · have hstopped' : (w.journaled journal).run.stopped := hstopped
    rw [WalkM.poll_of_stopped hstopped, WalkM.poll_of_stopped hstopped']
    exact ⟨_, rfl⟩
  · have hrunning : ¬ (w.journaled journal).run.stopped := hstopped
    rw [WalkM.poll_of_running hstopped, WalkM.poll_of_running hrunning]
    exact ⟨journal, rfl⟩

theorem ignoresJournal_visit : IgnoresJournal WalkM.visit :=
  (IgnoresJournal.modify fun _ _ => rfl).bind fun _ => ignoresJournal_note .visited

/-! ## Elements -/

theorem ignoresJournal_start (policy : Policy) (name typeName : Option String) :
    IgnoresJournal (growStart policy name typeName) := by
  unfold growStart
  cases name with
  | some name => exact .pure _
  | none =>
    have htag := (IgnoresJournal.modify (f := fun w => { w with itemTagDue := false }) fun _ _ => rfl).bind fun _ =>
      .pure ({ tag := policy.names.object, attributes := typeAttributes policy typeName } : Element)
    exact IgnoresJournal.branch (fun _ _ => rfl) htag (.pure _)

/-- Doing the same over any journal goes through walks. -/
theorem closed_ignoresJournal (policy : Policy) :
    Closed policy IgnoresJournal (fun _ => IgnoresJournal) IgnoresJournal where
  pure := .pure
  bind h hk := h.bind hk
  note := ignoresJournal_note
  ask request part failure stops := .onRun (Run.ignoresJournal_ask request part failure stops)
  stopIf stops := .onRun (Run.ignoresJournal_stopIf stops)
  read f request := .onRun (Run.ignoresJournal_read f request)
  form policy value := .onRun (Run.ignoresJournal_stringForm? policy value)
  poll := ignoresJournal_poll
  visit := ignoresJournal_visit
  one_after h hk := h.bind hk
  row_after h hk := h.bind hk
  cancelled _ := .throw .cancelled
  absent _ := .pure _
  text name typeName _ := (ignoresJournal_start policy name typeName).bind fun _ => .pure _
  around h name typeName := (ignoresJournal_start policy name typeName).bind fun _ => h.bind fun _ => .pure _
  nothing := .pure _
  one h := h.bind fun _ => .pure _
  join h h' := h.bind fun _ => h'.bind fun _ => .pure _
  promote h h' := .branch (fun _ _ => rfl) ((IgnoresJournal.modify fun _ _ => rfl).bind fun _ => h) h'

/-- The element of a value, and how far the walk over it gets, do not depend on the journal. -/
theorem grow_ignoresJournal (policy : Policy) (value : Value) (name : Option String) (depth : Nat) :
    IgnoresJournal (grow policy value name depth) :=
  (closed_ignoresJournal policy).grow value name depth

end GraphMarkup
