import GraphMarkup.Proofs.Walk.Agreement
import GraphMarkup.Proofs.Walk.Recording
import GraphMarkup.Walk.Levels

/-!
# Values of one outline

* `Value.Outline` : values of the same make with related values inside them, whose objects may have any properties;
* `KeepsBase`, `KeepsOutline` : relations under which the bases of values, or values themselves, have one outline;
* `Value.Parallel`, `KeepsBase.classify` : values with as many decorators around them, which are written in the same way;
* `stringForm_eq`, `stringLeaf_eq` : their string forms are the same if no property stands for them, or related ones do;
* `KeepsBase.agree_parts`, `KeepsBase.agree_node` : they are written alike if that is so where a value is written property
  by property;
* `OutlineWalks`, `OutlineWalks.agree_write` : whole values of one outline are written by walks that agree.

Which properties of two objects correspond is all that a relation has to say beyond this.
-/

namespace GraphMarkup

def Value.IsObjectOf (typeName : String) : Value → Prop
  | object typeName' _ _ => typeName' = typeName
  | _ => False

/-- The hints for an object are those of its type, under any decorators. -/
theorem Value.IsObjectOf.hintsFor?_eq {typeName : String} {v : Value} (h : v.base.IsObjectOf typeName)
    (policy : Policy) : policy.hintsFor? v = policy.typeHints? typeName := by
  unfold Policy.hintsFor? Value.typeName?
  cases hbase : v.base with
  | object typeName' properties display =>
    rw [hbase] at h
    obtain rfl : typeName' = typeName := h
    rfl
  | null | scalar | enum | list | dict | decorated =>
    rw [hbase] at h
    exact h.elim

/-- Values of the same make with related values inside them. The own properties of objects may be anything. -/
inductive Value.Outline (R : Value → Value → Prop) : Value → Value → Prop
  | null : Value.Outline R .null .null
  | scalar (scalar : Scalar) : Value.Outline R (.scalar scalar) (.scalar scalar)
  | enum (typeName name : String) (underlying : Scalar) :
    Value.Outline R (.enum typeName name underlying) (.enum typeName name underlying)
  | list (kind : ListKind) (typeName : Option String) {elements elements' : Sequence Value}
    {properties properties' : List (Property Value)} (helements : elements.Rel R elements')
    (hproperties : List.Forall₂ (Property.Rel R) properties properties') :
    Value.Outline R (.list kind typeName elements properties) (.list kind typeName elements' properties')
  | dict (typeName : Option String) {entries entries' : Sequence (Value × Value)}
    (hentries : entries.Rel (EntryRel R) entries') :
    Value.Outline R (.dict typeName entries) (.dict typeName entries')
  | object (typeName : String) (display : Option (Fetch String)) (properties properties' : List (Property Value)) :
    Value.Outline R (.object typeName properties display) (.object typeName properties' display)
  | decorated (deserialized : Bool) {inner inner' : Value} {notes notes' : List (Property Value)}
    (hinner : R inner inner') (hnotes : List.Forall₂ (Property.Rel R) notes notes') :
    Value.Outline R (.decorated inner notes deserialized) (.decorated inner' notes' deserialized)

/-- What is no object has corresponding properties of its own. -/
theorem Value.Outline.ownProperties {R : Value → Value → Prop} {v v' : Value} (h : v.Outline R v')
    (hobject : ∀ typeName properties display, v ≠ .object typeName properties display) :
    List.Forall₂ (Property.Rel R) v.ownProperties v'.ownProperties := by
  cases h with
  | list _ _ _ hproperties => exact hproperties
  | object => exact absurd rfl (hobject _ _ _)
  | null | scalar | enum | dict | decorated => exact .nil

/-- A relation under which values are around bases of one outline, with notes that correspond. -/
structure KeepsBase (R : Value → Value → Prop) : Prop where
  isNull : ∀ ⦃v v' : Value⦄, R v v' → v.isNull = v'.isNull
  isChain : ∀ ⦃v v' : Value⦄, R v v' → v.isChain = v'.isChain
  base : ∀ ⦃v v' : Value⦄, R v v' → R v.base v'.base
  outline : ∀ ⦃v v' : Value⦄, R v v' → v.base.Outline R v'.base
  notes : ∀ ⦃v v' : Value⦄, R v v' → List.Forall₂ (Property.Rel R) v.notes v'.notes

/-- A relation under which values have one outline. -/
def KeepsOutline (R : Value → Value → Prop) : Prop := ∀ ⦃v v' : Value⦄, R v v' → v.Outline R v'

/-- Values of one outline, which are around values of one outline if they are decorated. -/
structure Value.Parallel (R : Value → Value → Prop) (v v' : Value) : Prop where
  outline : v.Outline R v'
  inner : ∀ ⦃inner inner' : Value⦄ ⦃notes notes' : List (Property Value)⦄ ⦃deserialized deserialized' : Bool⦄,
    v = .decorated inner notes deserialized → v' = .decorated inner' notes' deserialized' → inner.Outline R inner'

namespace KeepsOutline

variable {R : Value → Value → Prop} {v v' : Value} (hR : KeepsOutline R)
include hR

theorem base (h : R v v') : R v.base v'.base := by
  fun_induction Value.base v generalizing v' with
  | case1 inner notes deserialized ih =>
    cases hR h with
    | decorated _ hinner _ =>
      have hbase := ih hinner
      exact hbase
  | case2 v hv =>
    cases hR h with
    | decorated => exact absurd rfl (hv _ _ _)
    | null | scalar | enum | list | dict | object => exact h

theorem notes (h : R v v') : List.Forall₂ (Property.Rel R) v.notes v'.notes := by
  fun_induction Value.notes v generalizing v' with
  | case1 inner notes deserialized ih =>
    cases hR h with
    | decorated _ hinner hnotes => exact List.rel_append (ih hinner) hnotes
  | case2 v hv =>
    cases hR h with
    | decorated => exact absurd rfl (hv _ _ _)
    | null | scalar | enum | list | dict | object => exact .nil

theorem keepsBase : KeepsBase R where
  isNull _ _ h := by cases hR h <;> rfl
  isChain _ _ h := by
    cases hR h with
    | decorated _ hinner _ => cases hR hinner <;> rfl
    | null | scalar | enum | list | dict | object => rfl
  base _ _ h := hR.base h
  outline _ _ h := hR (hR.base h)
  notes _ _ h := hR.notes h

theorem parallel (h : R v v') : v.Parallel R v' where
  outline := hR h
  inner := by
    rintro inner inner' notes notes' deserialized deserialized' rfl rfl
    cases hR h with
    | decorated _ hinner _ => exact hR hinner

end KeepsOutline

/-! ## The ways to write values of one outline -/

section Strategies

variable {R : Value → Value → Prop} {v v' : Value}

theorem Value.Outline.shape? (h : v.Outline R v') : Option.Rel (Shape.Rel R) v.shape? v'.shape? := by
  cases h with
  | list kind _ helements _ => exact .some (.list kind helements)
  | dict _ hentries => exact .some (.dictionary hentries)
  | null | scalar | enum | object | decorated => exact .none

theorem Value.Parallel.leaf? (h : v.Parallel R v') (table : TypeTable) :
    Option.Rel (Strategy.Rel R) (Strategy.leaf? table v) (Strategy.leaf? table v') := by
  obtain ⟨houtline, hinner⟩ := h
  cases houtline with
  | null => exact .some .null
  | scalar scalar =>
    simp only [Strategy.leaf?]
    split
    · exact .some (.scalar scalar)
    · exact .none
  | decorated deserialized _ hnotes =>
    cases hinner rfl rfl with
    | scalar scalar =>
      simp only [Strategy.leaf?]
      split
      · exact .some (.notedScalar scalar hnotes)
      · exact .none
    | null | enum | list | dict | object | decorated => exact .none
  | enum | list | dict | object => exact .none

theorem Value.Parallel.container? (h : v.Parallel R v') :
    Option.Rel (Strategy.Rel R) (Strategy.container? v) (Strategy.container? v') := by
  obtain ⟨houtline, hinner⟩ := h
  cases houtline with
  | @decorated deserialized inner inner' _ _ _ hnotes =>
    have hshape := (hinner rfl rfl).shape?
    simp only [Strategy.container?]
    generalize inner.shape? = shape, inner'.shape? = shape' at hshape ⊢
    cases hshape with
    | none => exact .none
    | some hshape => exact .some (.container hshape (.some (.intro deserialized hnotes)))
  | list kind typeName helements hproperties => exact .some (.container (.list kind helements) .none)
  | dict typeName hentries => exact .some (.container (.dictionary hentries) .none)
  | null | scalar | enum | object => exact .none

end Strategies

namespace KeepsBase

variable {R : Value → Value → Prop} {v v' : Value} {policy : Policy} (hR : KeepsBase R)
include hR

theorem keepsMake : KeepsMake R where
  isNull h := hR.isNull h
  typeName? {v v'} h table := by
    have hbase := hR.outline h
    unfold Value.typeName?
    generalize v.base = base, v'.base = base' at hbase ⊢
    cases hbase <;> rfl

theorem enumLike?_eq (h : R v v') : Strategy.enumLike? v = Strategy.enumLike? v' := by
  have hbase := hR.outline h
  unfold Strategy.enumLike?
  generalize v.base = base, v'.base = base' at hbase ⊢
  cases hbase <;> rfl

theorem expansion_eq (h : R v v') (policy : Policy) :
    Strategy.expansion policy v = Strategy.expansion policy v' := by
  have hprefers : Strategy.prefersString policy v = Strategy.prefersString policy v' := by
    unfold Strategy.prefersString
    rw [Policy.hintsFor?_eq hR.keepsMake h]
  have hbase := hR.outline h
  unfold Strategy.expansion
  rw [hR.isChain h, hprefers]
  generalize v.base = base, v'.base = base' at hbase ⊢
  cases hbase <;> rfl

/-- Values of one outline are written in the same way. -/
theorem classify (h : R v v') (hparallel : v.Parallel R v') (policy : Policy) (depth : Nat) :
    Strategy.Rel R (GraphMarkup.classify policy v depth) (GraphMarkup.classify policy v' depth) := by
  have hleaf := hparallel.leaf? policy.knownTypes
  unfold GraphMarkup.classify
  generalize Strategy.leaf? policy.knownTypes v = leaf, Strategy.leaf? policy.knownTypes v' = leaf' at hleaf ⊢
  cases hleaf with
  | some hleaf => exact hleaf
  | none =>
    by_cases hdepth : depth = 0
    · simp only [if_pos hdepth]
      exact .asString
    · have hcontainer := hparallel.container?
      simp only [if_neg hdepth]
      generalize Strategy.container? v = container, Strategy.container? v' = container' at hcontainer ⊢
      cases hcontainer with
      | some hcontainer => exact hcontainer
      | none =>
        rw [← hR.enumLike?_eq h, ← hR.expansion_eq h policy]
        cases henum : Strategy.enumLike? v with
        | some strategy =>
          unfold Strategy.enumLike? at henum
          split at henum
          · cases henum
            exact .enumLike _ _
          · cases henum
        | none =>
          rcases Strategy.expansion_eq policy v with hstrategy | hstrategy
          · simp only [hstrategy]
            exact .complex
          · simp only [hstrategy]
            exact .asString

/-! ## String forms of values of one outline -/

theorem displayText_eq (h : R v v') (policy : Policy) : displayText policy v = displayText policy v' := by
  have hbase := hR.outline h
  have htype := hR.keepsMake.typeName? h policy.knownTypes
  unfold displayText
  rw [htype]
  generalize v.base = base, v'.base = base' at hbase ⊢
  cases hbase <;> rfl

theorem stringSource?_eq (h : R v v') : policy.stringSource? v = policy.stringSource? v' := by
  unfold Policy.stringSource?
  rw [Policy.hintsFor?_eq hR.keepsMake h]

/-- Where a property is to stand for the string form, related ones do if the properties of the values correspond. -/
theorem sourceProperty?_rel (h : R v v') (hps : policy.stringSource? v ≠ none →
      List.Forall₂ (Property.Rel R) v.properties v'.properties) :
    Option.Rel (Property.Rel R) (sourceProperty? policy v) (sourceProperty? policy v') := by
  unfold sourceProperty?
  rw [← hR.stringSource?_eq h]
  cases hname : policy.stringSource? v with
  | none => exact .none
  | some name => exact find?_rel (hps (hname ▸ Option.some_ne_none name)) name

theorem stringForm_eq (h : R v v')
    (hsource : Option.Rel (Property.Rel R) (sourceProperty? policy v) (sourceProperty? policy v')) :
    stringForm policy v = stringForm policy v' := by
  suffices hform : stringForm? policy v = stringForm? policy v' by rw [stringForm, stringForm, hform]
  unfold stringForm?
  generalize sourceProperty? policy v = source, sourceProperty? policy v' = source' at hsource ⊢
  cases hsource with
  | none => exact hR.displayText_eq h policy
  | some hp =>
    cases hp with
    | intro name declaredType hvalue =>
      refine hvalue.read_bind (.source name) fun answer answer' hanswer => ?_
      cases hanswer with
      | ok hvalue => exact hR.displayText_eq hvalue policy
      | error reason => rfl

theorem stringLeaf_eq (h : R v v')
    (hsource : Option.Rel (Property.Rel R) (sourceProperty? policy v) (sourceProperty? policy v')) :
    stringLeaf policy v = stringLeaf policy v' := by
  have hbase := hR.outline h
  unfold stringLeaf
  rw [hR.stringForm_eq h hsource, hR.stringSource?_eq h]
  generalize v.base = base, v'.base = base' at hbase ⊢
  cases hbase <;> rfl

end KeepsBase

/-! ## Walks -/

/-- A relation under which values have one outline, the properties that stand for their string forms correspond, and
walks agree on values that are written property by property if they agree on what is inside. -/
structure OutlineWalks (policy : Policy) (excused : Prop) (R : Value → Value → Prop) : Prop where
  outline : KeepsOutline R
  source : ∀ ⦃v v' : Value⦄, R v v' →
    Option.Rel (Property.Rel R) (sourceProperty? policy v) (sourceProperty? policy v')
  parts : ∀ ⦃inside inside' : Inside⦄, AgreeInside excused R inside inside' → ∀ ⦃v v' : Value⦄, R v v' →
    ∀ ⦃depth : Nat⦄, classify policy v depth = .complex →
      Agree excused (writeParts policy inside v depth) (writeParts policy inside' v' depth)

section Walks

variable {excused : Prop} {R : Value → Value → Prop} {policy : Policy} {inside inside' : Inside} {v v' : Value}
  {depth : Nat}

/-- The promoted form of a chain is written alike if its own properties are. -/
theorem agree_promoted (hR : KeepsBase R) (hinside : AgreeInside excused R inside inside') (h : R v v')
    (hselection : Agree excused (writeSelection policy inside v depth) (writeSelection policy inside' v' depth)) :
    Agree excused (writePromoted policy inside v depth) (writePromoted policy inside' v' depth) := by
  have hnotes : Agree excused (writeProperties policy inside depth v.notes) (writeProperties policy inside' depth v'.notes) :=
    agree_properties hR.keepsMake hinside (hR.notes h)
  have hwhole := hinside v.base v'.base (hR.base h) none depth
  have hbase := hR.outline h
  unfold writePromoted
  generalize v.base = base, v'.base = base' at hwhole hbase ⊢
  cases hbase with
  | object => exact hselection
  | null | scalar | enum | list | dict | decorated => exact hwhole.bind fun _ => hnotes

/-- A chain of decorators is written alike if its promoted form is, or else both sides keep from promoting another. -/
theorem agree_chain (hR : KeepsBase R) (hinside : AgreeInside excused R inside inside') {inner inner' : Value}
    {notes notes' : List (Property Value)} (hinner : R inner inner')
    (hnotes : List.Forall₂ (Property.Rel R) notes notes')
    (hpromoted : Agree excused (writePromoted policy inside v depth) (writePromoted policy inside' v' depth) ∨
      excused ∧ ∀ w : Walker, w.promotionDue = false →
        (endState (writePromoted policy inside v depth w)).promotionDue = false ∧
          (endState (writePromoted policy inside' v' depth w)).promotionDue = false) :
    Agree excused (writeChain policy inside v inner notes depth) (writeChain policy inside' v' inner' notes' depth) := by
  intro w
  rw [writeChain, writeChain, get_bind, get_bind]
  by_cases hdue : w.promotionDue
  · rw [if_pos hdue, if_pos hdue, modify_bind, modify_bind]
    have hspent : ({ w with promotionDue := false } : Walker).promotionDue = false := rfl
    rcases hpromoted with hpromoted | ⟨hexcused, hends⟩
    · obtain ⟨hsame, hend, -⟩ := hpromoted.eq_of_not_due hspent
      exact .inl ⟨hsame, fun _ => hend⟩
    · exact .inr ⟨hexcused, hdue, hends _ hspent⟩
  · rw [if_neg hdue, if_neg hdue]
    exact ((hinside _ _ hinner none depth).bind fun _ => agree_properties hR.keepsMake hinside hnotes) w

/-- What stands inside the elements agrees if it does for a chain that is promoted, and otherwise for the selections. -/
theorem KeepsBase.agree_parts (hR : KeepsBase R) (hinside : AgreeInside excused R inside inside')
    (hparallel : v.Parallel R v')
    (hselection : ¬ v.isChain →
      Agree excused (writeSelection policy inside v depth) (writeSelection policy inside' v' depth))
    (hpromoted : v.isChain →
      Agree excused (writePromoted policy inside v depth) (writePromoted policy inside' v' depth) ∨
        excused ∧ ∀ w : Walker, w.promotionDue = false →
          (endState (writePromoted policy inside v depth w)).promotionDue = false ∧
            (endState (writePromoted policy inside' v' depth w)).promotionDue = false) :
    Agree excused (writeParts policy inside v depth) (writeParts policy inside' v' depth) := by
  obtain ⟨houtline, hwrapped⟩ := hparallel
  cases houtline with
  | decorated deserialized hinner hnotes =>
    cases hwrapped rfl rfl with
    | decorated => exact agree_chain hR hinside hinner hnotes (hpromoted rfl)
    | null | scalar | enum | list | dict | object => exact hselection Bool.false_ne_true
  | null | scalar | enum | list | dict | object => exact hselection Bool.false_ne_true

/-- Values of one outline are written alike if that is so for the values inside them, and for their parts if they are
written property by property. -/
theorem KeepsBase.agree_node (hR : KeepsBase R) (hinside : AgreeInside excused R inside inside') (h : R v v')
    (hparallel : v.Parallel R v')
    (hsource : Option.Rel (Property.Rel R) (sourceProperty? policy v) (sourceProperty? policy v'))
    (hparts : GraphMarkup.classify policy v depth = .complex →
      Agree excused (writeParts policy inside v depth) (writeParts policy inside' v' depth)) (name : Option String) :
    Agree excused (writeNode policy inside v name depth) (writeNode policy inside' v' name depth) := by
  have hmake := hR.keepsMake
  refine Agree.after keepsPromotion_poll fun _ => Agree.after keepsPromotion_visit fun _ => ?_
  have hstrategy := hR.classify h hparallel policy depth
  generalize hclass : GraphMarkup.classify policy v depth = strategy, GraphMarkup.classify policy v' depth = strategy'
    at hstrategy ⊢
  cases hstrategy with
  | null => exact Agree.still (still_writeNull policy name)
  | scalar scalar => exact Agree.still (still_writeScalar policy name scalar)
  | notedScalar scalar hnotes => exact agree_notedScalar hmake hinside hnotes scalar
  | container hshape hdecoration =>
    -- The base is a container, and so no object.
    have hbase := (base_and_notes_of_container hclass).1
    have hown := (hR.outline h).ownProperties fun typeName properties display hobject => by
      rw [hobject] at hbase
      cases hbase
    exact agree_container hmake hinside h hshape hdecoration (List.rel_append hown (hR.notes h))
  | enumLike _ underlying => exact Agree.still (still_writeScalar policy name underlying)
  | asString =>
    exact agree_asString hmake hinside h (hR.stringForm_eq h hsource) (hR.stringLeaf_eq h hsource) (hR.notes h)
  | complex =>
    show Agree excused (writeComplex policy inside v name depth) (writeComplex policy inside' v' name depth)
    rw [writeComplex_eq, writeComplex_eq, ← hmake.typeName? h]
    exact agree_around (hparts hclass)

/-- Related values are written alike if that follows from how the values inside them are written. -/
theorem agree_write_of_node (hnode : ∀ inside inside' : Inside, AgreeInside excused R inside inside' →
      AgreeInside excused R (writeNode policy inside) (writeNode policy inside')) :
    AgreeInside excused R (write policy) (write policy) := by
  have hwithin (levels : Nat) : AgreeInside excused R (writeWithin policy levels) (writeWithin policy levels) := by
    induction levels with
    | zero => exact fun _ _ _ _ _ => Agree.refl fun _ => rfl
    | succ levels ih => exact hnode _ _ ih
  intro v v' h name depth
  have hagree := hwithin (max v.height v'.height) v v' h name depth
  rwa [writeWithin_eq_write policy (Nat.le_max_left ..), writeWithin_eq_write policy (Nat.le_max_right ..)] at hagree

/-- Related values are written alike. -/
theorem OutlineWalks.agree_write (hR : OutlineWalks policy excused R) (h : R v v') (name : Option String) (depth : Nat) :
    Agree excused (write policy v name depth) (write policy v' name depth) := by
  refine agree_write_of_node (fun inside inside' hinside v v' h name depth => ?_) v v' h name depth
  exact hR.outline.keepsBase.agree_node hinside h (hR.outline.parallel h) (hR.source h)
    (fun hclass => hR.parts hinside h hclass) name

end Walks

end GraphMarkup
