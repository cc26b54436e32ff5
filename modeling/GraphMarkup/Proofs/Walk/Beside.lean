import GraphMarkup.Proofs.Markup.Trees
import GraphMarkup.Proofs.Walk.Cancelled
import GraphMarkup.Proofs.Walk.Notes

/-!
# String forms beside notes

* `WrittenFrom` : the element that a step records from a state of a walk;
* `Policy.textBeside` : the text of the leaf that stands for a string form in front of notes;
* `Policy.OwnLeaf`, `Policy.KeepsForm` : when the leaf is a scalar itself, and when it has the text of the string form;
* `stringForm_decorated`, `exists_form_and_leaf` : string forms with notes and without come from the same reads;
* `FormBeside`, `formBeside_of_grow` : the element of a decorated value beside that of the value alone, both written as
  string forms;
* `write_form_beside_notes` : decorating a value that is written as its string form puts the form into a leaf, and that
  leaf is written as the table says for strings;
* `string_entry_tells_notes` : a table may have the leaf differ from the string form.
-/

namespace GraphMarkup

variable {policy : Policy} {v : Value} {notes : List (Property Value)} {depth : Nat} {name : Option String}
  {w : Walker}

/-! ## The element of a step -/

/-- An element is known from its events. -/
theorem Element.events_injective : Function.Injective Element.events := by
  intro e e' h
  have he := TreeBuilder.replay_events e {}
  rw [h, TreeBuilder.replay_events e' {}] at he
  injection he with _ hbuilt
  injection hbuilt with _ hroots
  injection hroots with hsame
  exact hsame.symm

/-- The element whose events a step records from a state. -/
def WrittenFrom (w : Walker) (step : WalkM Unit) (e : Element) : Prop :=
  ∃ w', step w = .ok () w' ∧ w'.recorder = w.recorder.append e.events

/-- The element that a value is written as is the one that is grown for it. -/
theorem writtenFrom_iff_grow (policy : Policy) (v : Value) (name : Option String) (depth : Nat) (w : Walker)
    (e : Element) : WrittenFrom w (write policy v name depth) e ↔ ∃ w', grow policy v name depth w = .ok e w' := by
  have hrecords := write_records_grow policy v name depth
  constructor
  · rintro ⟨w', hwrite, hrecorder⟩
    cases hgrow : grow policy v name depth w with
    | error fault w₁ =>
      obtain ⟨r, hfault⟩ := hrecords.of_error hgrow w.recorder
      cases hwrite.symm.trans hfault
    | ok e₁ w₁ =>
      injection hwrite.symm.trans (hrecords.of_ok hgrow w.recorder) with _ hend
      rw [hend] at hrecorder
      have hevents : (w.recorder.append e₁.events).events = (w.recorder.append e.events).events :=
        congrArg Recorder.events hrecorder
      rw [Recorder.events_append, Recorder.events_append] at hevents
      have hsame : e₁.events = e.events := List.toArray_inj (Array.append_inj_right hevents rfl)
      exact ⟨w₁, by rw [Element.events_injective hsame]⟩
  · rintro ⟨w', hgrow⟩
    exact ⟨_, hrecords.of_ok hgrow w.recorder, rfl⟩

/-- What a run that is evaluated shows of the element. -/
theorem exists_writtenFrom {α : Type} (view : Element → α) {a : α}
    (h : ((grow policy v name depth).run' w).map view = some a) :
    ∃ e, WrittenFrom w (write policy v name depth) e ∧ view e = a := by
  obtain ⟨e, hresult, hview⟩ := Option.map_eq_some_iff.1 h
  obtain ⟨e', w', hgrow⟩ := exists_ok_of_run' (Option.isSome_of_eq_some hresult)
  obtain rfl : e = e' := Option.some.inj (hresult.symm.trans (run'_of_ok hgrow))
  exact ⟨e, (writtenFrom_iff_grow policy v name depth w e).2 ⟨w', hgrow⟩, hview⟩

/-! ## String forms with notes and without -/

/-- The text of the leaf that stands for the string form of a value in front of notes. A scalar that no property stands
for is its own leaf. The string form of anything else is written as a string, as the table has it. -/
def Policy.textBeside (policy : Policy) (v : Value) (form : String) : String :=
  match v.base, policy.stringSource? v with
  | .scalar _, none => form
  | _, _ => policy.knownTypes.textOf (.string form)

/-- Whether a value is a scalar that no property stands for. -/
def Policy.OwnLeaf (policy : Policy) (v : Value) : Prop :=
  (∃ scalar, v.base = .scalar scalar) ∧ policy.stringSource? v = none

/-- The leaf for a string form is the string form: for a scalar that no property stands for, and for a string that the
table leaves as it is. -/
def Policy.KeepsForm (policy : Policy) (v : Value) (form : String) : Prop :=
  policy.OwnLeaf v ∨ policy.knownTypes.textOf (.string form) = form

theorem Policy.textBeside_of_not_ownLeaf (h : ¬ policy.OwnLeaf v) (form : String) :
    policy.textBeside v form = policy.knownTypes.textOf (.string form) := by
  unfold Policy.textBeside
  split
  · next scalar hscalar hsource => exact absurd ⟨⟨scalar, hscalar⟩, hsource⟩ h
  · rfl

theorem Policy.textBeside_of_ownLeaf (h : policy.OwnLeaf v) (form : String) : policy.textBeside v form = form := by
  obtain ⟨⟨scalar, hscalar⟩, hsource⟩ := h
  simp only [Policy.textBeside, hscalar, hsource]

theorem Policy.textBeside_eq_iff (policy : Policy) (v : Value) (form : String) :
    policy.textBeside v form = form ↔ policy.KeepsForm v form := by
  by_cases h : policy.OwnLeaf v
  · exact iff_of_true (textBeside_of_ownLeaf h form) (.inl h)
  · rw [textBeside_of_not_ownLeaf h]
    exact ⟨.inr, fun hkeeps => hkeeps.resolve_left h⟩

/-- The leaf for anything but such a scalar is its string form. -/
theorem stringLeaf_of_not_ownLeaf (h : ¬ policy.OwnLeaf v) :
    stringLeaf policy v = (do return (← stringForm policy v).map .string) := by
  unfold stringLeaf
  split
  · next scalar hscalar hsource => exact absurd ⟨⟨scalar, hscalar⟩, hsource⟩ h
  · rfl

/-- A value that is its own base has no notes. -/
theorem Value.notes_eq_nil_of_base (hbase : v.base = v) : v.notes = [] := by
  cases v with
  | decorated inner notes deserialized => exact absurd hbase (Value.base_ne_decorated _ inner notes deserialized)
  | null | scalar | enum | list | dict | object => rfl

/-- A value that is written as its string form is so under a decorator too. -/
theorem classify_decorated_of_asString (hbase : v.base = v) (h : classify policy v depth = .asString)
    (notes : List (Property Value)) (deserialized : Bool) :
    classify policy (.decorated v notes deserialized) depth = .asString := by
  have hleaf : Strategy.leaf? policy.knownTypes (.decorated v notes deserialized) = none := by
    cases v with
    | scalar scalar =>
      by_cases hknown : policy.knownTypes.knows scalar
      · simp only [classify, Strategy.leaf?, if_pos hknown] at h
        cases h
      · simp only [Strategy.leaf?, if_neg hknown]
    | null | enum | list | dict | object | decorated => rfl
  by_cases hdepth : depth = 0
  · simp only [classify, hleaf, if_pos hdepth]
  · cases v with
    | null => cases h
    | scalar scalar => simp only [classify, hleaf, if_neg hdepth]; rfl
    | enum typeName constant underlying => cases h.symm.trans (classify_of_base_eq_enum rfl hdepth)
    | list kind typeName elements properties =>
      simp only [classify, Strategy.leaf?, if_neg hdepth, Strategy.container?, Value.shape?] at h
      cases h
    | dict typeName entries =>
      simp only [classify, Strategy.leaf?, if_neg hdepth, Strategy.container?, Value.shape?] at h
      cases h
    | object typeName properties display =>
      rw [classify_of_base_eq_object rfl hdepth] at h ⊢
      exact h
    | decorated inner notes deserialized => exact absurd hbase (Value.base_ne_decorated _ inner notes deserialized)

/-- Notes do not change the property that stands for the string form, unless one of them has its name. -/
theorem sourceProperty?_decorated (hsource : ∀ p ∈ notes, policy.stringSource? v ≠ some p.name)
    (deserialized : Bool) :
    sourceProperty? policy (.decorated v notes deserialized) = sourceProperty? policy v := by
  have hsame : policy.stringSource? (.decorated v notes deserialized) = policy.stringSource? v := rfl
  unfold sourceProperty?
  rw [hsame]
  cases hname : policy.stringSource? v with
  | none => rfl
  | some name =>
    have hnotes : notes.find? (fun p => p.name == name) = none := by
      refine List.find?_eq_none.2 fun p hp hp' => hsource p hp ?_
      rw [hname, beq_iff_eq.1 hp']
    have hproperties : (Value.decorated v notes deserialized).properties = v.properties ++ notes := by
      simp only [Value.properties, Value.notes, Value.base_decorated, List.append_assoc]
    simp only [Option.bind_some, hproperties, List.find?_append, hnotes, Option.or_none]

theorem stringForm_decorated (hsource : ∀ p ∈ notes, policy.stringSource? v ≠ some p.name) (deserialized : Bool) :
    stringForm policy (.decorated v notes deserialized) = stringForm policy v := by
  have hform : stringForm? policy (.decorated v notes deserialized) = stringForm? policy v := by
    unfold stringForm?
    rw [sourceProperty?_decorated hsource]
    rfl
  unfold stringForm
  rw [hform]

/-- What the string form of a value is depends on the run alone, and changes nothing but the run. -/
theorem exists_stringForm (policy : Policy) (v : Value) (run : Run) :
    ∃ form run', ∀ w : Walker, w.run = run → stringForm policy v w = .ok form { w with run := run' } := by
  obtain ⟨⟨result, run'⟩, hresult⟩ : ∃ answer, stringForm? policy v run = answer := ⟨_, rfl⟩
  cases result with
  | ok form =>
    refine ⟨form, run', fun w hw => ?_⟩
    have hread : WalkM.onRun (stringForm? policy v) w = .ok (.ok form) { w with run := run' } := by
      rw [WalkM.onRun, hw, hresult]
    exact bind_of_ok hread
  | error reason =>
    refine ⟨none, run'.note (.mended (.stringForm reason)), fun w hw => ?_⟩
    have hread : WalkM.onRun (stringForm? policy v) w = .ok (.error reason) { w with run := run' } := by
      rw [WalkM.onRun, hw, hresult]
    exact bind_of_ok hread

/-- The string form of a value and the leaf for it in front of notes come from the same reads. -/
theorem exists_form_and_leaf (hsource : ∀ p ∈ notes, policy.stringSource? v ≠ some p.name)
    (deserialized : Bool) (run : Run) :
    ∃ form leaf run', (∀ w : Walker, w.run = run → stringForm policy v w = .ok form { w with run := run' }) ∧
      (∀ w : Walker, w.run = run →
        stringLeaf policy (.decorated v notes deserialized) w = .ok leaf { w with run := run' }) ∧
      leaf.map policy.knownTypes.textOf = form.map (policy.textBeside v) := by
  obtain ⟨form, run', hform⟩ := exists_stringForm policy v run
  by_cases hown : policy.OwnLeaf v
  · obtain ⟨⟨scalar, hscalar⟩, hnone⟩ := hown
    have hsome : stringForm policy v = pure (some (policy.knownTypes.textOf scalar)) := by
      unfold stringForm stringForm? sourceProperty? displayText
      rw [hnone, hscalar]
      rfl
    have hleaf : stringLeaf policy (.decorated v notes deserialized) = pure (some scalar) := by
      have hsame : policy.stringSource? (.decorated v notes deserialized) = none := hnone
      unfold stringLeaf
      rw [Value.base_decorated, hscalar, hsame]
    refine ⟨some (policy.knownTypes.textOf scalar), some scalar, run, fun w hw => ?_, fun w hw => ?_, ?_⟩
    · rw [hsome, ← hw]
      rfl
    · rw [hleaf, ← hw]
      rfl
    · rw [Option.map_some, Option.map_some, Policy.textBeside_of_ownLeaf ⟨⟨scalar, hscalar⟩, hnone⟩]
  · have hother : ¬ policy.OwnLeaf (.decorated v notes deserialized) := hown
    refine ⟨form, form.map .string, run', hform, fun w hw => ?_, ?_⟩
    · rw [stringLeaf_of_not_ownLeaf hother, stringForm_decorated hsource]
      exact bind_of_ok (hform w hw)
    · cases form with
      | some form => rw [Option.map_some, Option.map_some, Option.map_some, Policy.textBeside_of_not_ownLeaf hown]
      | none => rfl

/-! ## Elements with notes and without -/

/-- The element of a value under a decorator with notes, beside the element of the value alone. If the one has a text,
the other has an unnamed leaf in front of those of the notes, whose text is the same if and only if the leaf keeps the
string form. Without a text there is no such leaf, and no child but those of the notes. -/
structure FormBeside (policy : Policy) (v : Value) (notes : List (Property Value)) (alone noted : Element) : Prop where
  leaf : ∀ form, alone.text = some form → ∃ leaf rest, noted.children = leaf :: rest ∧ leaf.Labelled policy none ∧
    leaf.text = some (policy.textBeside v form) ∧ (leaf.text = some form ↔ policy.KeepsForm v form) ∧
    List.Forall₂ (Property.IsWritten policy) notes rest
  bare : alone.text = none → List.Forall₂ (Property.IsWritten policy) notes noted.children

/-- The state of a walk that has begun with a value. -/
def Walker.entered (w : Walker) : Walker := { w with run := w.run.note .visited, visited := w.visited + 1 }

/-- The element of a value that is written as its string form, once the value has been visited. -/
theorem exists_growString (hclass : classify policy v depth = .asString) {e : Element} {w' : Walker}
    (h : grow policy v name depth w = .ok e w') :
    ∃ levels, v.height ≤ levels + 1 ∧
      growString policy (growWithin policy levels) v name depth w.entered = .ok e w' := by
  unfold grow at h
  cases hheight : v.height with
  | zero => exact absurd hheight (Nat.pos_iff_ne_zero.1 v.height_pos)
  | succ levels =>
    rw [hheight, growWithin, growNode] at h
    simp only [hclass] at h
    by_cases hstopped : w.run.stopped
    · rw [bind_of_error (WalkM.poll_of_stopped hstopped)] at h
      cases h
    · rw [bind_of_ok (WalkM.poll_of_running hstopped)] at h
      exact ⟨levels, Nat.le_refl _, h⟩

/-- The element of a value alone has its string form as text, if there is one. -/
theorem text_of_growString {inside : InsideElement} (hnotes : v.notes = []) {form : Option String} {w₁ w' : Walker}
    (hform : stringForm policy v w = .ok form w₁) {e : Element}
    (h : growString policy inside v name depth w = .ok e w') : e.text = form := by
  have hempty : v.notes.isEmpty := List.isEmpty_iff.2 hnotes
  rw [growString, if_pos hempty, bind_of_ok hform] at h
  cases form with
  | none =>
    exact (Yields.of_ok ((yields_start policy name none).bind (Q := fun e => e.text = none)
      fun _ hstart => Yields.pure hstart.2.1) h)
  | some form =>
    obtain ⟨start, w₂, -, hend⟩ := exists_of_bind_ok h
    cases hend
    rfl

/-- What stands inside an element is grown after its start, which leaves the run alone. -/
theorem exists_of_growAround {inside : WalkM (List Element)} {typeName : Option String} {e : Element} {w' : Walker}
    (h : growAround policy name typeName inside w = .ok e w') :
    ∃ w₁, w₁.run = w.run ∧ inside w₁ = .ok e.children w' := by
  obtain ⟨start, w₁, hstart, hrest⟩ := exists_of_bind_ok h
  obtain ⟨children, w₂, hinside, hend⟩ := exists_of_bind_ok hrest
  cases hend
  exact ⟨w₁, run_of_growStart hstart, hinside⟩

theorem exists_of_growLeaf {scalar : Scalar} {front : List Element} {w' : Walker}
    (h : growLeaf policy (some scalar) w = .ok front w') :
    ∃ e, front = [e] ∧ e.Labelled policy none ∧ e.text = some (policy.knownTypes.textOf scalar) := by
  obtain ⟨e, w₁, hscalar, hend⟩ := exists_of_bind_ok h
  cases hend
  refine ⟨e, rfl, (labelled_text policy none _ _).of_ok hscalar, ?_⟩
  obtain ⟨start, w₂, -, hend⟩ := exists_of_bind_ok hscalar
  cases hend
  rfl

/-- In front of the notes stands the leaf, if there is one. -/
theorem exists_of_growString {levels : Nat} (hlevels : v.height ≤ levels + 1) (hnotes : v.notes ≠ [])
    {leaf : Option Scalar} {run : Run}
    (hleaf : ∀ w₁ : Walker, w₁.run = w.run → stringLeaf policy v w₁ = .ok leaf { w₁ with run })
    {e : Element} {w' : Walker} (h : growString policy (growWithin policy levels) v name depth w = .ok e w') :
    ∃ front rest w₁ w₂, growLeaf policy leaf w₁ = .ok front w₂ ∧ e.children = front ++ rest ∧
      List.Forall₂ (Property.IsWritten policy) v.notes rest := by
  have hempty : ¬ v.notes.isEmpty := fun hempty => hnotes (List.isEmpty_iff.1 hempty)
  rw [growString, if_neg hempty] at h
  obtain ⟨w₁, hrun, hinside⟩ := exists_of_growAround h
  rw [bind_of_ok (hleaf w₁ hrun)] at hinside
  obtain ⟨front, w₂, hfront, hinside⟩ := exists_of_bind_ok hinside
  obtain ⟨rest, w₃, hrest, hend⟩ := exists_of_bind_ok hinside
  injection hend with hchildren
  exact ⟨front, rest, _, w₂, hfront, hchildren.symm, (written_notes policy hlevels depth).of_ok hrest⟩

/-- The elements of a value with notes and without, both grown from one state. -/
theorem formBeside_of_grow (hbase : v.base = v) (hclass : classify policy v depth = .asString) (hnotes : notes ≠ [])
    (hsource : ∀ p ∈ notes, policy.stringSource? v ≠ some p.name) {deserialized : Bool} {e e' : Element}
    {w₁ w' : Walker} (halone : grow policy v name depth w = .ok e w₁)
    (hnoted : grow policy (.decorated v notes deserialized) name depth w = .ok e' w') :
    FormBeside policy v notes e e' := by
  have hown : v.notes = [] := Value.notes_eq_nil_of_base hbase
  have hall : (Value.decorated v notes deserialized).notes = notes := by rw [Value.notes, hown, List.nil_append]
  -- Both walks come to the string form with the same run, so that it is the same for both.
  obtain ⟨form, leaf, run, hform, hleaf, hsame⟩ := exists_form_and_leaf hsource deserialized w.entered.run
  obtain ⟨levels, -, halone⟩ := exists_growString hclass halone
  obtain ⟨levels', hlevels', hnoted⟩ :=
    exists_growString (classify_decorated_of_asString hbase hclass notes deserialized) hnoted
  have htext : e.text = form := text_of_growString hown (hform _ rfl) halone
  obtain ⟨front, rest, w₂, w₃, hfront, hchildren, hwritten⟩ :=
    exists_of_growString hlevels' (by rwa [hall]) hleaf hnoted
  rw [hall] at hwritten
  cases leaf with
  | none =>
    cases hfront
    obtain rfl : form = none := Option.map_eq_none_iff.1 hsame.symm
    refine ⟨fun form hsome => ?_, fun _ => ?_⟩
    · cases htext.symm.trans hsome
    · rwa [hchildren]
  | some scalar =>
    obtain ⟨first, rfl, hlabelled, hfirst⟩ := exists_of_growLeaf hfront
    obtain ⟨text, rfl, hscalar⟩ := Option.map_eq_some_iff.1 hsame.symm
    refine ⟨fun form hsome => ?_, fun hnone => ?_⟩
    · obtain rfl : text = form := Option.some.inj (htext.symm.trans hsome)
      have hbeside : first.text = some (policy.textBeside v text) := by rw [hfirst, hscalar]
      refine ⟨first, rest, hchildren, hlabelled, hbeside, ?_, hwritten⟩
      rw [hbeside, Option.some_inj]
      exact policy.textBeside_eq_iff v text
    · cases htext.symm.trans hnone

/-- A value that is its own base, without decorators, and is written as its string form, is put under a decorator with
notes. The element then has a leaf for the string form in front of those of the notes, unless a stop is requested
meanwhile. The leaf has the text of the value alone exactly if it keeps the string form. -/
theorem write_form_beside_notes (hbase : v.base = v) (hclass : classify policy v depth = .asString)
    (hnotes : notes ≠ []) (hsource : ∀ p ∈ notes, policy.stringSource? v ≠ some p.name) (deserialized : Bool)
    (name : Option String) {e : Element} (h : WrittenFrom w (write policy v name depth) e) :
    (∃ e', WrittenFrom w (write policy (.decorated v notes deserialized) name depth) e' ∧
      FormBeside policy v notes e e') ∨
    ∃ w', write policy (.decorated v notes deserialized) name depth w = .error .cancelled w' ∧ w'.run.stopped := by
  obtain ⟨w₁, halone⟩ := (writtenFrom_iff_grow policy v name depth w e).1 h
  cases hnoted : grow policy (.decorated v notes deserialized) name depth w with
  | ok e' w' =>
    have hwritten := (writtenFrom_iff_grow policy _ name depth w e').2 ⟨w', hnoted⟩
    exact .inl ⟨e', hwritten, formBeside_of_grow hbase hclass hnotes hsource halone hnoted⟩
  | error fault w' =>
    obtain rfl := (grow_yields_proper policy _ name depth).of_error hnoted
    obtain ⟨r, hwrite⟩ := (write_records_grow policy _ name depth).of_error hnoted w.recorder
    exact .inr ⟨_, hwrite, write_needs_stop policy _ name depth w _ hwrite⟩

/-- A widget that stands for its number, with a tag. -/
theorem write_form_beside_notes_of_widget :
    ∃ e e',
      WrittenFrom {} (write { hints := [("Widget", { method := .string, stringSource := some "Id" })] }
        (.object "Widget" [⟨"Id", none, .ready (.scalar (.int32 7))⟩] none) none 1) e ∧ e.text = some "7" ∧
      WrittenFrom {} (write { hints := [("Widget", { method := .string, stringSource := some "Id" })] }
        (.decorated (.object "Widget" [⟨"Id", none, .ready (.scalar (.int32 7))⟩] none)
          [⟨"Tag", none, .failed "lost"⟩] false) none 1) e' ∧
      FormBeside { hints := [("Widget", { method := .string, stringSource := some "Id" })] }
        (.object "Widget" [⟨"Id", none, .ready (.scalar (.int32 7))⟩] none) [⟨"Tag", none, .failed "lost"⟩] e e' := by
  have hruns : ((grow { hints := [("Widget", { method := .string, stringSource := some "Id" })] }
      (.object "Widget" [⟨"Id", none, .ready (.scalar (.int32 7))⟩] none) none 1).run' {}).map Element.text =
        some (some "7") := by
    decide +kernel
  obtain ⟨e, hwritten, htext⟩ := exists_writtenFrom Element.text hruns
  have hends : ((write { hints := [("Widget", { method := .string, stringSource := some "Id" })] }
      (.decorated (.object "Widget" [⟨"Id", none, .ready (.scalar (.int32 7))⟩] none)
        [⟨"Tag", none, .failed "lost"⟩] false) none 1).run' {}).isSome := by
    decide +kernel
  obtain ⟨⟨⟩, w', hends⟩ := exists_ok_of_run' hends
  have hsource : ∀ p ∈ [(⟨"Tag", none, .failed "lost"⟩ : Property Value)],
      Policy.stringSource? { hints := [("Widget", { method := .string, stringSource := some "Id" })] }
        (.object "Widget" [⟨"Id", none, .ready (.scalar (.int32 7))⟩] none) ≠ some p.name := by
    intro p hp hname
    obtain rfl := List.mem_singleton.1 hp
    exact absurd (Option.some.inj hname) (by decide)
  rcases write_form_beside_notes rfl rfl (List.cons_ne_nil _ []) hsource false none hwritten with
    ⟨e', hwritten', hform⟩ | ⟨_, hcancelled, -⟩
  · exact ⟨e, e', hwritten, htext, hwritten', hform⟩
  · cases hends.symm.trans hcancelled

/-- A table with an entry of its own for strings has the leaf of a widget differ from its string form. -/
theorem string_entry_tells_notes :
    classify
        { knownTypes := TypeTable.plain.register .string ⟨"String", fun scalar => "[" ++ scalar.text ++ "]"⟩
          hints := [("Widget", { method := .string })] }
        (.object "Widget" [] (some (.ready "w#1"))) 1 = .asString ∧
      ∃ e e',
        WrittenFrom {}
          (write { knownTypes := TypeTable.plain.register .string ⟨"String", fun scalar => "[" ++ scalar.text ++ "]"⟩
                   hints := [("Widget", { method := .string })] }
            (.object "Widget" [] (some (.ready "w#1"))) none 1) e ∧
        e.text = some "w#1" ∧
        WrittenFrom {}
          (write { knownTypes := TypeTable.plain.register .string ⟨"String", fun scalar => "[" ++ scalar.text ++ "]"⟩
                   hints := [("Widget", { method := .string })] }
            (.decorated (.object "Widget" [] (some (.ready "w#1"))) [⟨"Tag", none, .ready (.scalar (.int32 1))⟩] false)
            none 1) e' ∧
        e'.children.map Element.text = [some "[w#1]", some "1"] ∧
        ¬ ∃ leaf rest, e'.children = leaf :: rest ∧ leaf.text = some "w#1" := by
  have halone : ((grow
      { knownTypes := TypeTable.plain.register .string ⟨"String", fun scalar => "[" ++ scalar.text ++ "]"⟩
        hints := [("Widget", { method := .string })] }
      (.object "Widget" [] (some (.ready "w#1"))) none 1).run' {}).map Element.text = some (some "w#1") := by
    decide +kernel
  have hnoted : ((grow
      { knownTypes := TypeTable.plain.register .string ⟨"String", fun scalar => "[" ++ scalar.text ++ "]"⟩
        hints := [("Widget", { method := .string })] }
      (.decorated (.object "Widget" [] (some (.ready "w#1"))) [⟨"Tag", none, .ready (.scalar (.int32 1))⟩] false)
      none 1).run' {}).map (fun e => e.children.map Element.text) = some [some "[w#1]", some "1"] := by
    decide +kernel
  obtain ⟨e, hwritten, htext⟩ := exists_writtenFrom Element.text halone
  obtain ⟨e', hwritten', hchildren⟩ := exists_writtenFrom (fun e => e.children.map Element.text) hnoted
  refine ⟨rfl, e, e', hwritten, htext, hwritten', hchildren, ?_⟩
  rintro ⟨leaf, rest, hfirst, hleaf⟩
  simp only [hfirst, List.map_cons, hleaf, List.cons.injEq, Option.some_inj] at hchildren
  exact absurd hchildren.1 (by decide)

end GraphMarkup
