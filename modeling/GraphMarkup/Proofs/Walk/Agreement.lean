import GraphMarkup.Proofs.Graph.Related
import GraphMarkup.Proofs.Walk.Still

/-!
# Two walks in step

* `Agree` : two steps that do the same, unless there is an excuse and both promote a chain of decorators;
* `Agree.bind`, `Agree.read` : how agreement composes, also over parts of two graphs that correspond;
* `Shape.Rel`, `Strategy.Rel` : ways to write that correspond;
* `agree_property`, `agree_items`, ... : the parts of an element agree if what stands inside them does.

What is said here holds for any relation between the values of two graphs under which they have the same type name and
are null together.
-/

namespace GraphMarkup

variable {α β γ : Type} {excused : Prop}

/-- Two steps that do the same. With an excuse they may also differ, but then both promote a chain of decorators. A
promotion that is no longer due does not become due again. -/
def Agree (excused : Prop) (step step' : WalkM α) : Prop :=
  ∀ w : Walker,
    (step w = step' w ∧ (w.promotionDue = false → (endState (step w)).promotionDue = false)) ∨
      (excused ∧ w.promotionDue = true ∧ (endState (step w)).promotionDue = false ∧
        (endState (step' w)).promotionDue = false)

/-! ## Steps that have nothing to do with promotions -/

/-- A step that leaves a promotion due, or not. -/
def KeepsPromotion (step : WalkM α) : Prop := ∀ w, (endState (step w)).promotionDue = w.promotionDue

theorem KeepsPromotion.bind {step : WalkM α} {k : α → WalkM β} (h : KeepsPromotion step)
    (hk : ∀ a, KeepsPromotion (k a)) : KeepsPromotion (step >>= k) :=
  view_endState_bind Walker.promotionDue h hk

theorem KeepsPromotion.get {k : Walker → WalkM β} (hk : ∀ w, KeepsPromotion (k w)) :
    KeepsPromotion (MonadState.get >>= k) := fun w => hk w w

theorem keepsPromotion_pure (a : α) : KeepsPromotion (pure a) := fun _ => rfl

theorem keepsPromotion_onRun (step : StateM Run α) : KeepsPromotion (WalkM.onRun step) := fun _ => rfl

theorem keepsPromotion_note (entry : Entry) : KeepsPromotion (WalkM.note entry) := keepsPromotion_onRun _

theorem keepsPromotion_poll : KeepsPromotion WalkM.poll := by
  refine KeepsPromotion.get fun w => ?_
  by_cases hstopped : w.run.stopped
  · rw [if_pos hstopped]
    exact (keepsPromotion_note _).bind fun _ _ => rfl
  · rw [if_neg hstopped]
    exact keepsPromotion_pure ()

theorem keepsPromotion_visit : KeepsPromotion WalkM.visit := fun _ => rfl

theorem closedSteps_keepsPromotion : ClosedSteps fun step => KeepsPromotion step where
  pure := keepsPromotion_pure
  bind h hk := h.bind hk
  note := keepsPromotion_note
  ask _ _ _ _ := keepsPromotion_onRun _
  stopIf _ := keepsPromotion_onRun _
  read _ _ := keepsPromotion_onRun _
  form _ _ := keepsPromotion_onRun _
  poll := keepsPromotion_poll
  visit := keepsPromotion_visit

/-! ## How agreement composes -/

namespace Agree

theorem refl {step : WalkM α} (h : KeepsPromotion step) : Agree excused step step :=
  fun w => .inl ⟨rfl, fun hdue => (h w).trans hdue⟩

/-- Where no promotion is due, steps that agree do the same. -/
theorem eq_of_not_due {step step' : WalkM α} (h : Agree excused step step') {w : Walker} (hdue : w.promotionDue = false) :
    step w = step' w ∧ (endState (step w)).promotionDue = false ∧ (endState (step' w)).promotionDue = false := by
  rcases h w with ⟨heq, hkeeps⟩ | ⟨-, hdue', -⟩
  · exact ⟨heq, hkeeps hdue, heq ▸ hkeeps hdue⟩
  · rw [hdue] at hdue'
    cases hdue'

theorem bind {step step' : WalkM α} {k k' : α → WalkM β} (h : Agree excused step step')
    (hk : ∀ a, Agree excused (k a) (k' a)) : Agree excused (step >>= k) (step' >>= k') := by
  -- Once a promotion is no longer due, it stays so to the end of either walk.
  have hrest : ∀ {first : WalkM α} {rest : α → WalkM β} {w : Walker}, (∀ a w', w'.promotionDue = false →
      (endState (rest a w')).promotionDue = false) → (endState (first w)).promotionDue = false →
      (endState ((first >>= rest) w)).promotionDue = false := by
    intro first rest w hrest hfirst
    cases hw : first w with
    | ok a w' =>
      rw [hw] at hfirst
      rw [bind_of_ok hw]
      exact hrest a w' hfirst
    | error e w' =>
      rw [hw] at hfirst
      rw [bind_of_error hw]
      exact hfirst
  intro w
  rcases h w with ⟨heq, hkeeps⟩ | ⟨hexcused, hdue, hend, hend'⟩
  · cases hw : step w with
    | error e w' =>
      rw [hw] at hkeeps
      rw [bind_of_error hw, bind_of_error (heq ▸ hw)]
      exact .inl ⟨rfl, hkeeps⟩
    | ok a w' =>
      rw [hw] at hkeeps
      rw [bind_of_ok hw, bind_of_ok (heq ▸ hw)]
      rcases hk a w' with ⟨heq', hkeeps'⟩ | ⟨hexcused, hdue', hends⟩
      · exact .inl ⟨heq', fun hdue => hkeeps' (hkeeps hdue)⟩
      · refine .inr ⟨hexcused, ?_, hends⟩
        by_contra hdue
        have hdue'' := hkeeps (Bool.eq_false_iff.2 hdue)
        rw [endState, hdue'] at hdue''
        cases hdue''
  · refine .inr ⟨hexcused, hdue, hrest (fun a w' hw' => ?_) hend, hrest (fun a w' hw' => ?_) hend'⟩
    · exact ((hk a).eq_of_not_due hw').2.1
    · exact ((hk a).eq_of_not_due hw').2.2

/-- A step on both sides that leaves promotions alone. -/
theorem after {step : WalkM α} {k k' : α → WalkM β} (h : KeepsPromotion step)
    (hk : ∀ a, Agree excused (k a) (k' a)) : Agree excused (step >>= k) (step >>= k') := (refl h).bind hk

theorem still {step : WalkM α} (h : Still step) : Agree excused step step := refl h.promotionDue

theorem after_still {step : WalkM α} {k k' : α → WalkM β} (h : Still step) (hk : ∀ a, Agree excused (k a) (k' a)) :
    Agree excused (step >>= k) (step >>= k') := (still h).bind hk

/-- Reading parts that correspond, and going on with the answers. -/
theorem read {R : α → β → Prop} {f : Fetch α} {f' : Fetch β} (h : f.Rel R f') (request : Request)
    {k : Except String α → WalkM γ} {k' : Except String β → WalkM γ}
    (hk : ∀ a b, AnswerRel R a b → Agree excused (k a) (k' b)) :
    Agree excused (WalkM.onRun (f.read request) >>= k) (WalkM.onRun (f'.read request) >>= k') := by
  intro w
  obtain ⟨hanswer, hrun⟩ := h.read request w.run
  rw [WalkM.onRun_bind, WalkM.onRun_bind, hrun]
  exact hk _ _ hanswer _

end Agree

/-! ## Loops -/

section Loops

variable {R : α → β → Prop} {body : α → WalkM Unit} {body' : β → WalkM Unit}

theorem agree_forM (h : ∀ a b, R a b → Agree excused (body a) (body' b)) {as : List α} {bs : List β}
    (hs : List.Forall₂ R as bs) : Agree excused (as.forM body) (bs.forM body') := by
  induction hs with
  | nil => exact Agree.refl (keepsPromotion_pure ())
  | cons hab _ ih => exact (h _ _ hab).bind fun _ => ih

theorem agree_forEachStep (h : ∀ a b, R a b → Agree excused (body a) (body' b)) (id : Nat) (endStops : Bool)
    (index : Nat) {steps : List (Step α)} {steps' : List (Step β)} (hs : List.Forall₂ (Step.Rel R) steps steps') :
    Agree excused (forEachStep id endStops body index steps) (forEachStep id endStops body' index steps') := by
  induction hs generalizing index with
  | nil => exact Agree.refl (keepsPromotion_onRun _)
  | cons hstep _ ih =>
    cases hstep with
    | intro stops hanswer =>
      cases hanswer with
      | ok hab => exact Agree.after (keepsPromotion_onRun _) fun _ => (h _ _ hab).bind fun _ => ih (index + 1)
      | error reason => exact Agree.after (keepsPromotion_onRun _) fun _ => Agree.refl (keepsPromotion_note _)

theorem agree_forEachItem (h : ∀ a b, R a b → Agree excused (body a) (body' b)) {items : Sequence α}
    {items' : Sequence β} (hs : items.Rel R items') :
    Agree excused (forEachItem items body) (forEachItem items' body') := by
  cases hs with
  | ready hs => exact agree_forM h hs
  | @deferred e e' he =>
    have hid : e.id = e'.id := by cases he; rfl
    refine Agree.read (.deferred he) .enumerator fun answer answer' hanswer => ?_
    cases hanswer with
    | ok henumeration =>
      cases henumeration with
      | intro endStops hs => exact hid ▸ agree_forEachStep h e.id endStops 0 hs
    | error reason => exact Agree.refl (keepsPromotion_note _)

end Loops

/-! ## Ways to write that correspond -/

/-- Shapes of the same sort that hold related values. -/
inductive Shape.Rel (R : Value → Value → Prop) : Shape → Shape → Prop
  | dictionary {entries entries' : Sequence (Value × Value)} (h : entries.Rel (EntryRel R) entries') :
    Shape.Rel R (.dictionary entries) (.dictionary entries')
  | list (kind : ListKind) {elements elements' : Sequence Value} (h : elements.Rel R elements') :
    Shape.Rel R (.list kind elements) (.list kind elements')

/-- Decorations with notes that correspond. -/
inductive Decoration.Rel (R : Value → Value → Prop) : Decoration → Decoration → Prop
  | intro (deserialized : Bool) {notes notes' : List (Property Value)} (h : List.Forall₂ (Property.Rel R) notes notes') :
    Decoration.Rel R ⟨notes, deserialized⟩ ⟨notes', deserialized⟩

/-- Strategies of the same sort whose parts correspond. -/
inductive Strategy.Rel (R : Value → Value → Prop) : Strategy → Strategy → Prop
  | null : Strategy.Rel R .null .null
  | scalar (scalar : Scalar) : Strategy.Rel R (.scalar scalar) (.scalar scalar)
  | notedScalar (scalar : Scalar) {notes notes' : List (Property Value)}
    (h : List.Forall₂ (Property.Rel R) notes notes') :
    Strategy.Rel R (.notedScalar notes scalar) (.notedScalar notes' scalar)
  | container {shape shape' : Shape} {decoration decoration' : Option Decoration} (hshape : shape.Rel R shape')
    (hdecoration : Option.Rel (Decoration.Rel R) decoration decoration') :
    Strategy.Rel R (.container shape decoration) (.container shape' decoration')
  | enumLike (name : String) (underlying : Scalar) :
    Strategy.Rel R (.enumLike name underlying) (.enumLike name underlying)
  | asString : Strategy.Rel R .asString .asString
  | complex : Strategy.Rel R .complex .complex

/-! ## Parts of an element -/

/-- A relation between values under which they have the same type name and are null together. -/
structure KeepsMake (R : Value → Value → Prop) : Prop where
  isNull : ∀ {v v' : Value}, R v v' → v.isNull = v'.isNull
  typeName? : ∀ {v v' : Value}, R v v' → ∀ table : TypeTable, v.typeName? table = v'.typeName? table

section Parts

variable {R : Value → Value → Prop} {policy : Policy} {inside inside' : Inside} {depth : Nat}

/-- Two ways to write values that agree on related ones. -/
abbrev AgreeInside (excused : Prop) (R : Value → Value → Prop) (inside inside' : Inside) : Prop :=
  ∀ v v', R v v' → ∀ name depth, Agree excused (inside v name depth) (inside' v' name depth)

theorem Property.Rel.typeName?_eq (hR : KeepsMake R) {p p' : Property Value} (h : p.Rel R p') (table : TypeTable) :
    p.typeName? table = p'.typeName? table := by
  cases h with
  | intro name declaredType h =>
    cases declaredType with
    | some typeName => rfl
    | none =>
      cases h with
      | ready h => exact hR.typeName? h table
      | failed reason => rfl
      | deferred h => rfl

theorem agree_property (hR : KeepsMake R) (h : AgreeInside excused R inside inside') {p p' : Property Value}
    (hp : p.Rel R p') :
    Agree excused (writeProperty policy inside depth p) (writeProperty policy inside' depth p') := by
  have hempty : writeEmptyProperty policy p = writeEmptyProperty policy p' := by
    unfold writeEmptyProperty
    rw [hp.name_eq, hp.typeName?_eq hR]
  have hempty' : Agree excused (writeEmptyProperty policy p) (writeEmptyProperty policy p') := by
    rw [← hempty]
    exact Agree.still (still_writeEmptyProperty policy p)
  unfold writeProperty
  rw [← hp.name_eq]
  refine Agree.after keepsPromotion_poll fun _ => Agree.read (by cases hp; assumption) _ fun a b hab => ?_
  cases hab with
  | error reason => exact Agree.after (keepsPromotion_note _) fun _ => hempty'
  | ok hvalue =>
    simp only [← hR.isNull hvalue]
    split
    · exact hempty'
    · exact h _ _ hvalue _ depth

theorem agree_properties (hR : KeepsMake R) (h : AgreeInside excused R inside inside') {ps ps' : List (Property Value)}
    (hps : List.Forall₂ (Property.Rel R) ps ps') :
    Agree excused (writeProperties policy inside depth ps) (writeProperties policy inside' depth ps') :=
  agree_forM (fun _ _ hp => agree_property hR h hp) hps

theorem Policy.hintsFor?_eq (hR : KeepsMake R) {v v' : Value} (hv : R v v') : policy.hintsFor? v = policy.hintsFor? v' := by
  unfold Policy.hintsFor?
  rw [hR.typeName? hv]

theorem selection_rel (hR : KeepsMake R) {v v' : Value} (hv : R v v')
    (hps : List.Forall₂ (Property.Rel R) v.properties v'.properties) :
    List.Forall₂ (Property.Rel R) (policy.selection v) (policy.selection v') := by
  unfold Policy.selection
  rw [← Policy.hintsFor?_eq hR hv]
  split
  · next names _ =>
    refine List.rel_filterMap (R := Eq) (fun name name' hname => ?_) (List.forall₂_refl names)
    rw [← hname]
    exact find?_rel hps name
  · exact hps

theorem agree_selection (hR : KeepsMake R) (h : AgreeInside excused R inside inside') {v v' : Value} (hv : R v v')
    (hselection : List.Forall₂ (Property.Rel R) (policy.selection v) (policy.selection v')) :
    Agree excused (writeSelection policy inside v depth) (writeSelection policy inside' v' depth) := by
  unfold writeSelection Policy.depthFor
  rw [← Policy.hintsFor?_eq hR hv]
  exact agree_properties hR h hselection

theorem agree_items (h : AgreeInside excused R inside inside') {shape shape' : Shape} (hshape : shape.Rel R shape') :
    Agree excused (writeItems policy inside depth shape) (writeItems policy inside' depth shape') := by
  cases hshape with
  | dictionary hentries =>
    refine agree_forEachItem (fun entry entry' hentry => ?_) hentries
    cases hentry with
    | intro hkey hvalue => exact (h _ _ hkey _ depth).bind fun _ => h _ _ hvalue _ depth
  | list kind helements => exact agree_forEachItem (fun item item' hitem => h item item' hitem none depth) helements

end Parts

/-! ## The ways to write a value -/

theorem isEmpty_eq {R : α → β → Prop} {as : List α} {bs : List β} (h : List.Forall₂ R as bs) :
    as.isEmpty = bs.isEmpty := by
  cases h <;> rfl

section Node

variable {R : Value → Value → Prop} {policy : Policy} {inside inside' : Inside} {name typeName : Option String}
  {depth : Nat} {v v' : Value}

theorem agree_around {step step' : WalkM Unit} (h : Agree excused step step') :
    Agree excused (writeAround policy name typeName step) (writeAround policy name typeName step') :=
  Agree.after_still (still_openNode policy name) fun _ => Agree.after_still (still_writeType policy typeName) fun _ =>
    h.bind fun _ => Agree.still (still_put _)

theorem agree_notedScalar (hR : KeepsMake R) (h : AgreeInside excused R inside inside')
    {notes notes' : List (Property Value)} (hnotes : List.Forall₂ (Property.Rel R) notes notes') (scalar : Scalar) :
    Agree excused (writeNotedScalar policy inside notes scalar name depth)
      (writeNotedScalar policy inside' notes' scalar name depth) := by
  unfold writeNotedScalar
  rw [← isEmpty_eq hnotes]
  split
  · exact Agree.still (still_writeScalar policy name scalar)
  · refine Agree.after_still (still_openNode policy name) fun _ =>
      Agree.after_still (still_writeType policy _) fun _ =>
        Agree.after_still (still_writeScalar policy none scalar) fun _ => ?_
    exact (agree_properties hR h hnotes).bind fun _ => Agree.still (still_put _)

theorem agree_container (hR : KeepsMake R) (h : AgreeInside excused R inside inside') (hv : R v v')
    {shape shape' : Shape} {decoration decoration' : Option Decoration} (hshape : shape.Rel R shape')
    (hdecoration : Option.Rel (Decoration.Rel R) decoration decoration')
    (hps : List.Forall₂ (Property.Rel R) v.properties v'.properties) :
    Agree excused (writeContainer policy inside v shape decoration name depth)
      (writeContainer policy inside' v' shape' decoration' name depth) := by
  have hsidecar : shape.hasSidecar = shape'.hasSidecar := by
    cases hshape with
    | dictionary => rfl
    | list kind => cases kind <;> rfl
  have hdeserialized : decoration.any Decoration.deserialized = decoration'.any Decoration.deserialized := by
    cases hdecoration with
    | none => rfl
    | some hdecoration =>
      cases hdecoration
      rfl
  have hnotes : List.Forall₂ (Property.Rel R) ((decoration.map Decoration.notes).getD [])
      ((decoration'.map Decoration.notes).getD []) := by
    cases hdecoration with
    | none => exact .nil
    | some hdecoration =>
      cases hdecoration with
      | intro _ hnotes => exact hnotes
  rw [writeContainer_eq, writeContainer_eq, ← hR.typeName? hv, ← hsidecar, ← hdeserialized]
  refine agree_around ((agree_items h hshape).bind fun _ => ?_)
  split
  · exact agree_selection hR h hv (selection_rel hR hv hps)
  · exact agree_properties hR h hnotes

theorem agree_asString (hR : KeepsMake R) (h : AgreeInside excused R inside inside') (hv : R v v')
    (hform : stringForm policy v = stringForm policy v') (hleaf : stringLeaf policy v = stringLeaf policy v')
    (hnotes : List.Forall₂ (Property.Rel R) v.notes v'.notes) :
    Agree excused (writeAsString policy inside v name depth) (writeAsString policy inside' v' name depth) := by
  have htype := hR.typeName? hv policy.knownTypes
  by_cases hempty : v.notes.isEmpty
  · have hempty' : v'.notes.isEmpty := (isEmpty_eq hnotes).symm.trans hempty
    simp only [writeAsString, if_pos hempty, if_pos hempty', ← hform, writeTypeOf, ← htype]
    refine Agree.after (closedSteps_keepsPromotion.stringForm policy v) fun text => Agree.still ?_
    cases text with
    | some text => exact (still_put _).around policy name _
    | none => exact still_writeNull policy name
  · have hempty' : ¬ v'.notes.isEmpty := by rwa [← isEmpty_eq hnotes]
    rw [writeAsString_eq policy inside hempty, writeAsString_eq policy inside' hempty', ← htype, ← hleaf]
    exact agree_around (Agree.after (closedSteps_keepsPromotion.stringLeaf policy v) fun leaf =>
      Agree.after_still (still_writeLeaf policy leaf) fun _ => agree_properties hR h hnotes)

end Node

end GraphMarkup
