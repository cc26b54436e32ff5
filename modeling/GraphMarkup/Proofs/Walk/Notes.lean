import GraphMarkup.Proofs.Graph.Related
import GraphMarkup.Proofs.Walk.Label
import GraphMarkup.Proofs.Walk.Stopping
import Mathlib.Data.List.Forall2

/-!
# Notes of decorators

* `WrittenBy`, `Property.IsWritten` : the element that a step records, and that of a property, under its name;
* `OfBase` : an element that stands for the base of a value, or for a part of it;
* `NotesIn` : the children of the element of a nest of decorators, with one element for each note;
* `write_keeps_notes` : without hints, writing a nest of decorators loses none of its notes, unless its base is a named
  constant or a stop is requested;
* `decorated_enum_drops_notes` : a decorated constant with depth left is written without its notes.
-/

namespace GraphMarkup

variable {α : Type} {policy : Policy} {levels : Nat} {v : Value}

/-! ## What is written for what -/

/-- An element whose events a step records, from some state on. -/
def WrittenBy (step : WalkM Unit) (e : Element) : Prop :=
  ∃ w w' : Walker, step w = .ok () w' ∧ w'.recorder = w.recorder.append e.events

/-- The element of a property: what writing the property records, under its name. -/
structure Property.IsWritten (policy : Policy) (p : Property Value) (e : Element) : Prop where
  written : ∃ depth, WrittenBy (writeProperty policy (write policy) depth p) e
  labelled : e.Labelled policy (some p.name)

/-- An element in front of the notes of a value: that of a property of the base, of a value directly inside it, of the
base itself, or of a scalar that is the base or its string form. -/
inductive OfBase (policy : Policy) (base : Value) : Element → Prop
  | property {p : Property Value} {e : Element} (hp : p ∈ base.ownProperties) (h : p.IsWritten policy e) :
    OfBase policy base e
  | inside {c : Value} {e : Element} (hc : c ∈ base.children) (name : Option String) (depth : Nat)
    (h : WrittenBy (write policy c name depth) e) : OfBase policy base e
  | whole {e : Element} (depth : Nat) (h : WrittenBy (write policy base none depth) e) : OfBase policy base e
  | leaf {e : Element} (scalar : Scalar) (h : WrittenBy (writeScalar policy none scalar) e) : OfBase policy base e

/-- Children of the element of a nest of decorators that hold every note once, in order. Either all notes follow what
stands for the base, or those of the outermost decorator follow the unnamed element of what is inside it, which holds
the others. -/
inductive NotesIn (policy : Policy) : Value → List Element → Prop
  | direct {v : Value} (front : List Element) {rest : List Element} (hfront : ∀ e ∈ front, OfBase policy v.base e)
    (hnotes : List.Forall₂ (Property.IsWritten policy) v.notes rest) : NotesIn policy v (front ++ rest)
  | nested {inner : Value} {notes : List (Property Value)} {deserialized : Bool} {first : Element}
    {rest : List Element} (hfirst : ∃ depth, WrittenBy (write policy inner none depth) first)
    (hlabel : first.Labelled policy none) (hinner : NotesIn policy inner first.children)
    (hnotes : List.Forall₂ (Property.IsWritten policy) notes rest) :
    NotesIn policy (.decorated inner notes deserialized) (first :: rest)

namespace NotesIn

theorem of_no_notes (h : v.notes = []) : NotesIn policy v [] :=
  .direct [] (List.forall_mem_nil _) (by rw [h]; exact .nil)

/-- Properties of the base count as what stands for it. -/
theorem of_properties (items : List Element) {es : List Element} (hitems : ∀ e ∈ items, OfBase policy v.base e)
    (hes : List.Forall₂ (Property.IsWritten policy) v.properties es) : NotesIn policy v (items ++ es) := by
  -- The properties are those of the base and then the notes, so that the elements split at the same place.
  have hown := List.forall₂_take v.base.ownProperties.length hes
  have hnotes := List.forall₂_drop v.base.ownProperties.length hes
  rw [Value.properties, List.take_left] at hown
  rw [Value.properties, List.drop_left] at hnotes
  rw [← List.take_append_drop v.base.ownProperties.length es, ← List.append_assoc]
  refine .direct _ (List.forall_mem_append.2 ⟨hitems, fun e he => ?_⟩) hnotes
  obtain ⟨p, hp, hwritten⟩ := exists_of_mem_forall₂ hown he
  exact .property hp hwritten

end NotesIn

/-! ## Steps that write what they give -/

section Steps

/-- A step that gives an element gives one that is written by the step which records it. -/
theorem Yields.written {P : Element → Prop} {step : WalkM Unit} {give : WalkM Element} (h : Yields P give)
    (hrecords : RecordsElement step give) : Yields (WrittenBy step) give := by
  intro w
  cases hgive : give w with
  | ok e w' => exact ⟨w.on {}, _, hrecords.of_ok hgive {}, rfl⟩
  | error e w' => exact h.of_error hgive

theorem yields_gather_forall₂ {R : α → Element → Prop} {body : α → WalkM Element} {as : List α}
    (h : ∀ a ∈ as, Yields (R a) (body a)) : Yields (List.Forall₂ R as) (gather (fun a => return [← body a]) as) := by
  induction as with
  | nil => exact Yields.pure .nil
  | cons a as ih =>
    have hfirst : Yields (fun es => ∃ e, es = [e] ∧ R a e) (do return [← body a]) :=
      (h a (List.mem_cons_self ..)).bind fun e he => Yields.pure ⟨e, rfl, he⟩
    refine hfirst.bind fun es hes => (ih fun b hb => h b (List.mem_cons_of_mem _ hb)).bind fun _ hrest => ?_
    obtain ⟨e, rfl, he⟩ := hes
    exact Yields.pure (.cons he hrest)

end Steps

/-! ## Parts of an element -/

section Parts

theorem written_inside (policy : Policy) {c : Value} (hc : c.height ≤ levels) (name : Option String) (depth : Nat) :
    Yields (WrittenBy (write policy c name depth)) (growWithin policy levels c name depth) := by
  refine ((closed_yields policy).within levels c name depth).written ?_
  rw [← writeWithin_eq_write policy hc]
  exact records_within policy levels c name depth

theorem written_leaf (policy : Policy) (base : Value) (scalar : Scalar) :
    Yields (OfBase policy base) (growScalar policy none scalar) :=
  (((closed_yields policy).scalar none scalar).written (records_scalar policy none scalar)).mono fun _ h => .leaf scalar h

theorem written_property {p : Property Value} (hp : ∀ c ∈ p.value.results, c.height ≤ levels) (depth : Nat) :
    Yields (Property.IsWritten policy p) (growProperty policy (growWithin policy levels) depth p) := by
  have hwritten : Yields (WrittenBy (writeProperty policy (write policy) depth p))
      (growProperty policy (growWithin policy levels) depth p) := by
    have hsame : writeProperty policy (writeWithin policy levels) depth p = writeProperty policy (write policy) depth p :=
      writeProperty_congr fun c hc name => by rw [writeWithin_eq_write policy (hp c hc)]
    refine ((closed_yields policy).property ((closed_yields policy).within levels) depth p).written ?_
    rw [← hsame]
    exact records_property (records_within policy levels) depth p
  have hlabelled := (closed_labelled policy).property ((closed_labelled policy).within levels) depth p
  exact (hwritten.and hlabelled).mono fun _ ⟨hwritten, hlabelled⟩ => ⟨⟨depth, hwritten⟩, hlabelled⟩

theorem written_properties {ps : List (Property Value)} (hps : ∀ p ∈ ps, ∀ c ∈ p.value.results, c.height ≤ levels)
    (depth : Nat) :
    Yields (List.Forall₂ (Property.IsWritten policy) ps) (growProperties policy (growWithin policy levels) depth ps) :=
  yields_gather_forall₂ fun p hp => written_property (hps p hp) (depth - 1)

theorem written_items (policy : Policy) {base : Value} {shape : Shape} (hshape : base.shape? = some shape)
    (hbase : base.height ≤ levels + 1) (depth : Nat) :
    Yields (fun es => ∀ e ∈ es, OfBase policy base e) (growItems policy (growWithin policy levels) depth shape) := by
  have hinside {c : Value} (hc : c ∈ base.children) (name : Option String) :
      Yields (OfBase policy base) (growWithin policy levels c name depth) :=
    (written_inside policy (Nat.le_of_lt_succ (Nat.lt_of_lt_of_le (Value.height_lt_of_mem_children hc) hbase)) name
      depth).mono fun _ h => .inside hc name depth h
  cases base with
  | list kind typeName elements properties =>
    obtain rfl := Option.some.inj hshape
    exact yields_gatherItems fun item hitem => (hinside (List.mem_append_left _ hitem) none).one
  | dict typeName entries =>
    obtain rfl := Option.some.inj hshape
    refine yields_gatherItems fun entry hentry => ?_
    have hmem : ∀ c ∈ [entry.1, entry.2], c ∈ (Value.dict typeName entries).children :=
      fun c hc => List.mem_flatMap.2 ⟨entry, hentry, hc⟩
    exact (hinside (hmem entry.1 (by simp)) _).bind fun _ hkey => (hinside (hmem entry.2 (by simp)) _).bind
      fun _ hvalue => Yields.pure (List.forall_mem_cons.2 ⟨hkey, List.forall_mem_singleton.2 hvalue⟩)
  | null | scalar | enum | object | decorated => cases hshape

theorem Policy.hintsFor?_of_no_hints (h : policy.hints = []) (value : Value) : policy.hintsFor? value = none := by
  unfold Policy.hintsFor?
  cases value.typeName? policy.knownTypes <;> simp [Policy.typeHints?, h]

theorem Policy.selection_of_no_hints (h : policy.hints = []) (value : Value) :
    policy.selection value = value.properties := by
  rw [Policy.selection, hintsFor?_of_no_hints h]
  rfl

/-! ## The ways to write a nest of decorators -/

theorem height_le_of_property (hlevels : v.height ≤ levels + 1) {p : Property Value} (hp : p ∈ v.properties)
    {c : Value} (hc : c ∈ p.value.results) : c.height ≤ levels :=
  Nat.le_of_lt_succ (Nat.lt_of_lt_of_le (Value.height_lt_of_mem_properties hp hc) hlevels)

theorem written_notes (policy : Policy) (hlevels : v.height ≤ levels + 1) (depth : Nat) :
    Yields (List.Forall₂ (Property.IsWritten policy) v.notes)
      (growProperties policy (growWithin policy levels) depth v.notes) :=
  written_properties (fun _ hp _ hc => height_le_of_property hlevels (List.mem_append_right _ hp) hc) depth

theorem written_selection (hhints : policy.hints = []) (hlevels : v.height ≤ levels + 1) (depth : Nat) :
    Yields (List.Forall₂ (Property.IsWritten policy) v.properties)
      (growSelection policy (growWithin policy levels) v depth) := by
  rw [growSelection, Policy.selection_of_no_hints hhints]
  exact written_properties (fun _ hp _ hc => height_le_of_property hlevels hp hc) _

theorem notesIn_contents (hhints : policy.hints = []) (hlevels : v.height ≤ levels + 1) {shape : Shape}
    {decoration : Option Decoration} {depth : Nat} (hclass : classify policy v depth = .container shape decoration) :
    Yields (NotesIn policy v) (growContents policy (growWithin policy levels) v shape decoration depth) := by
  obtain ⟨hshape, hnotes⟩ := base_and_notes_of_container hclass
  have hitems := written_items policy hshape (Nat.le_trans v.height_base_le hlevels) depth
  unfold growContents
  refine hitems.bind fun items hitems => ?_
  split
  · exact (written_selection hhints hlevels depth).bind fun _ hes => Yields.pure (.of_properties _ hitems hes)
  · rw [hnotes]
    exact (written_notes policy hlevels depth).bind fun _ hes => Yields.pure (.direct _ hitems hes)

/-- What stands inside a chain of decorators. -/
theorem notesIn_chain (hhints : policy.hints = []) {inner : Value} {notes : List (Property Value)} {deserialized : Bool}
    (hlevels : (Value.decorated inner notes deserialized).height ≤ levels + 1) {depth : Nat}
    (hinner : Yields (fun e => NotesIn policy inner e.children) (growWithin policy levels inner none depth)) :
    Yields (NotesIn policy (.decorated inner notes deserialized))
      (growChain policy (growWithin policy levels) (.decorated inner notes deserialized) inner notes depth) := by
  have hheight : inner.height ≤ levels :=
    Nat.le_of_lt_succ (Nat.lt_of_lt_of_le (Value.height_inner_lt ..) hlevels)
  refine Yields.get fun w => ?_
  by_cases hdue : w.promotionDue
  · rw [if_pos hdue]
    refine Yields.after (fun _ => trivial) fun _ => ?_
    have hselection := written_selection hhints hlevels depth
    have hnotes := written_notes policy hlevels depth
    have hwhole (depth : Nat) := written_inside policy (Nat.le_trans inner.height_base_le hheight) none depth
    unfold growPromoted
    rw [Value.base_decorated]
    split
    · exact hselection.mono fun es hes => NotesIn.of_properties [] (List.forall_mem_nil _) hes
    · exact (hwhole depth).bind fun e he => hnotes.bind fun es hes => Yields.pure
        (NotesIn.direct [e] (List.forall_mem_singleton.2 (.whole depth he)) hes)
  · rw [if_neg hdue]
    have hfirst := ((written_inside policy hheight none depth).and ((closed_labelled policy).within levels inner none depth)).and
      hinner
    have hdirect : Yields (List.Forall₂ (Property.IsWritten policy) notes)
        (growProperties policy (growWithin policy levels) depth notes) :=
      written_properties (fun p hp _ hc => height_le_of_property hlevels
        (List.mem_append_right _ (List.mem_append_right _ hp)) hc) depth
    exact hfirst.bind fun e ⟨⟨hwritten, hlabel⟩, hinner⟩ => hdirect.bind fun es hes =>
      Yields.pure (.nested ⟨depth, hwritten⟩ hlabel hinner hes)

/-- A nest of decorators is written with all its notes if that is so for what is directly inside it. -/
theorem notesIn_node (hhints : policy.hints = []) (hlevels : v.height ≤ levels + 1) {depth : Nat}
    (hbase : depth = 0 ∨ ∀ typeName name underlying, v.base ≠ .enum typeName name underlying)
    (hinner : ∀ inner : Value, inner.height ≤ levels → inner.base = v.base →
      Yields (fun e => NotesIn policy inner e.children) (growWithin policy levels inner none depth))
    (name : Option String) :
    Yields (fun e => NotesIn policy v e.children) (growNode policy (growWithin policy levels) v name depth) := by
  have hchildless {give : WalkM Element} (hnotes : v.notes = []) (h : Yields (fun e : Element => e.children = []) give) :
      Yields (fun e : Element => NotesIn policy v e.children) give := by
    refine h.mono fun e he => ?_
    rw [he]
    exact .of_no_notes hnotes
  refine yields_poll.after fun _ => yields_visit.after fun _ => ?_
  cases hclass : classify policy v depth with
  | null =>
    obtain rfl : v = .null := eq_of_classify_eq_null hclass
    exact hchildless rfl (yields_null_childless policy name)
  | scalar scalar =>
    obtain rfl : v = .scalar scalar := eq_of_classify_eq_scalar hclass
    exact hchildless rfl (yields_text_childless policy name _ _)
  | notedScalar notes scalar =>
    obtain ⟨deserialized, rfl⟩ := eq_of_classify_eq_notedScalar hclass
    by_cases hempty : notes.isEmpty
    · simp only [if_pos hempty]
      exact hchildless (List.isEmpty_iff.1 hempty) (yields_text_childless policy name _ _)
    · simp only [if_neg hempty]
      refine Yields.children ?_ policy name _
      exact (written_leaf policy _ scalar).bind fun e he => (written_notes policy hlevels depth).bind fun es hes =>
        Yields.pure (NotesIn.direct [e] (List.forall_mem_singleton.2 he) hes)
  | container shape decoration => exact (notesIn_contents hhints hlevels hclass).children policy name _
  | enumLike constant underlying =>
    -- Here the notes would be lost.
    obtain ⟨hdepth, typeName, henum⟩ := eq_of_classify_eq_enumLike hclass
    exact absurd henum (hbase.resolve_left hdepth typeName constant underlying)
  | asString =>
    by_cases hempty : v.notes.isEmpty
    · simp only [growString, if_pos hempty]
      refine (closedSteps_yields.stringForm policy v).after fun text => hchildless (List.isEmpty_iff.1 hempty) ?_
      cases text with
      | some text => exact yields_text_childless policy name _ text
      | none => exact yields_null_childless policy name
    · have hleaf (leaf : Option Scalar) : Yields (fun es => ∀ e ∈ es, OfBase policy v.base e) (growLeaf policy leaf) := by
        cases leaf with
        | some leaf => exact (written_leaf policy v.base leaf).one
        | none => exact yields_nothing
      simp only [growString, if_neg hempty]
      refine Yields.children ((closedSteps_yields.stringLeaf policy v).after fun leaf => ?_) policy name _
      exact (hleaf leaf).bind fun front hfront => (written_notes policy hlevels depth).bind fun es hes =>
        Yields.pure (.direct _ hfront hes)
  | complex =>
    refine Yields.children ?_ policy name _
    have hselection := (written_selection hhints hlevels depth).mono fun es hes =>
      NotesIn.of_properties [] (List.forall_mem_nil _) hes
    unfold growParts
    split
    · next inner notes deserialized outerNotes outerDeserialized =>
      refine notesIn_chain hhints hlevels (hinner _ ?_ rfl)
      exact Nat.le_of_lt_succ (Nat.lt_of_lt_of_le (Value.height_inner_lt ..) hlevels)
    · exact hselection

end Parts

/-! ## Whole values -/

theorem notesIn_within (hhints : policy.hints = []) {depth : Nat} (hlevels : v.height ≤ levels)
    (hbase : depth = 0 ∨ ∀ typeName name underlying, v.base ≠ .enum typeName name underlying) (name : Option String) :
    Yields (fun e => NotesIn policy v e.children) (growWithin policy levels v name depth) := by
  induction levels generalizing v name with
  | zero => exact absurd v.height_pos (Nat.not_lt.2 hlevels)
  | succ levels ih => exact notesIn_node hhints hlevels hbase (fun inner hheight hsame =>
      ih hheight (by rwa [hsame]) none) name

/-- Without hints no note is lost: a nest of decorators, reached at any depth and from any state of a walk, is written
as one element that holds every note of every decorator once and in order, unless a stop is requested meanwhile. The
base may be anything but a named constant, and with no depth left also that. -/
theorem write_keeps_notes (hhints : policy.hints = []) (v : Value) {depth : Nat}
    (hbase : depth = 0 ∨ ∀ typeName name underlying, v.base ≠ .enum typeName name underlying) (name : Option String)
    (w : Walker) :
    (∃ (e : Element) (w' : Walker), write policy v name depth w = .ok () w' ∧
      w'.recorder = w.recorder.append e.events ∧ NotesIn policy v e.children) ∨
    ∃ w', write policy v name depth w = .error .cancelled w' ∧ w'.run.stopped := by
  have hunsourced : policy.Unsourced := by
    intro typeName hints h
    rw [Policy.typeHints?, hhints] at h
    cases h
  have hrecords := write_records_grow policy v name depth
  cases hgrow : grow policy v name depth w with
  | ok e w' =>
    have hnotes : NotesIn policy v e.children := (notesIn_within hhints (Nat.le_refl _) hbase name).of_ok hgrow
    exact .inl ⟨e, _, hrecords.of_ok hgrow w.recorder, rfl, hnotes⟩
  | error e w' =>
    obtain rfl := (grow_yields_proper policy v name depth).of_error hgrow
    obtain ⟨r, hwrite⟩ := hrecords.of_error hgrow w.recorder
    exact .inr ⟨_, hwrite, (write_heeds hunsourced v name depth w).2 _ hwrite⟩

/-- Two decorators around a dictionary, the outer one with a note that cannot be read. -/
theorem write_keeps_notes_of_chain :
    ∃ (e : Element) (w' : Walker),
      write {} (.decorated (.decorated (.dict none (.ready [(.scalar (.string "k"), .null)]))
          [⟨"Origin", none, .ready (.scalar (.int32 2))⟩] false) [⟨"Owner", none, .failed "lost"⟩] true) none 1 {} =
        .ok () w' ∧
      w'.recorder = ({} : Recorder).append e.events ∧
      NotesIn {} (.decorated (.decorated (.dict none (.ready [(.scalar (.string "k"), .null)]))
        [⟨"Origin", none, .ready (.scalar (.int32 2))⟩] false) [⟨"Owner", none, .failed "lost"⟩] true) e.children := by
  have hkeeps := @write_keeps_notes {} rfl (.decorated (.decorated (.dict none
    (.ready [(.scalar (.string "k"), .null)])) [⟨"Origin", none, .ready (.scalar (.int32 2))⟩] false)
    [⟨"Owner", none, .failed "lost"⟩] true) 1 (.inr fun _ _ _ h => nomatch h) none {}
  have hruns : ((write {} (.decorated (.decorated (.dict none (.ready [(.scalar (.string "k"), .null)]))
      [⟨"Origin", none, .ready (.scalar (.int32 2))⟩] false) [⟨"Owner", none, .failed "lost"⟩] true) none 1).run'
      {}).isSome := by
    decide +kernel
  obtain ⟨⟨⟩, w', hwrite⟩ := exists_ok_of_run' hruns
  rcases hkeeps with hwritten | ⟨_, hcancelled, -⟩
  · exact hwritten
  · cases hwrite.symm.trans hcancelled

/-- With depth left, a named constant is written without children under any decorators. -/
theorem yields_enum_childless {typeName constant : String} {underlying : Scalar}
    (hbase : v.base = .enum typeName constant underlying) {depth : Nat} (hdepth : depth ≠ 0) (name : Option String) :
    Yields (fun e => e.children = []) (grow policy v name depth) := by
  unfold grow
  cases hheight : v.height with
  | zero => exact absurd hheight (Nat.pos_iff_ne_zero.1 v.height_pos)
  | succ levels =>
    refine yields_poll.after fun _ => yields_visit.after fun _ => ?_
    simp only [classify_of_base_eq_enum hbase hdepth]
    exact yields_text_childless policy name _ _

/-- A decorated constant with depth left loses its note. -/
theorem decorated_enum_drops_notes :
    ∃ (e : Element) (w' : Walker),
      write {} (.decorated (.enum "Color" "Red" (.int32 1)) [⟨"Origin", none, .ready (.scalar (.int32 2))⟩] false) none 1
        {} = .ok () w' ∧
      w'.recorder = ({} : Recorder).append e.events ∧ e.children = [] ∧
      ¬ NotesIn {} (.decorated (.enum "Color" "Red" (.int32 1)) [⟨"Origin", none, .ready (.scalar (.int32 2))⟩] false)
        e.children := by
  have hruns : ((grow {} (.decorated (.enum "Color" "Red" (.int32 1))
      [⟨"Origin", none, .ready (.scalar (.int32 2))⟩] false) none 1).run' {}).isSome := by
    decide +kernel
  obtain ⟨e, w', hgrow⟩ := exists_ok_of_run' hruns
  have hchildren : e.children = [] := (yields_enum_childless rfl Nat.one_ne_zero none).of_ok hgrow
  refine ⟨e, _, (write_records_grow _ _ none 1).of_ok hgrow {}, rfl, hchildren, fun hnotes => ?_⟩
  generalize e.children = children at hnotes hchildren
  cases hnotes with
  | direct _ hfront hnotes =>
    obtain ⟨-, rfl⟩ := List.append_eq_nil_iff.1 hchildren
    cases hnotes
  | nested => cases hchildren

end GraphMarkup
