import GraphMarkup.Proofs.Walk.Outline

/-!
# Types that are written as their string form

* `Value.Alike` : two values that differ only in the own properties of objects of one type;
* `Policy.Seals`, `Policy.Seals.outlineWalks` : hints that ask for the string form of the type, under which walks over
  alike values agree;
* `write_eq_of_alike` : if the hints of the type ask for its string form, then alike values are written by the same
  steps, but if objects of the type may stand under chains of decorators, only by a walk that promotes no chain at all;
* `promoted_chain_shows_properties` : a walk that promotes a chain around such an object reads and writes the own
  properties of the object.
-/

namespace GraphMarkup

/-- Values that differ only in the own properties of objects of the type `sealed`. Such objects may stand under any
decorators, but under a chain of them only if `chained` says so. -/
inductive Value.Alike (sealed : String) (chained : Prop) : Value → Value → Prop
  | null : Value.Alike sealed chained .null .null
  | scalar (scalar : Scalar) : Value.Alike sealed chained (.scalar scalar) (.scalar scalar)
  | enum (typeName name : String) (underlying : Scalar) :
    Value.Alike sealed chained (.enum typeName name underlying) (.enum typeName name underlying)
  | list (kind : ListKind) (typeName : Option String) {elements elements' : Sequence Value}
    {properties properties' : List (Property Value)} (helements : elements.Rel (Value.Alike sealed chained) elements')
    (hproperties : List.Forall₂ (Property.Rel (Value.Alike sealed chained)) properties properties') :
    Value.Alike sealed chained (.list kind typeName elements properties) (.list kind typeName elements' properties')
  | dict (typeName : Option String) {entries entries' : Sequence (Value × Value)}
    (hentries : entries.Rel (EntryRel (Value.Alike sealed chained)) entries') :
    Value.Alike sealed chained (.dict typeName entries) (.dict typeName entries')
  | object (typeName : String) (display : Option (Fetch String)) {properties properties' : List (Property Value)}
    (hproperties : List.Forall₂ (Property.Rel (Value.Alike sealed chained)) properties properties') :
    Value.Alike sealed chained (.object typeName properties display) (.object typeName properties' display)
  /-- The own properties of an object of the type may be anything. -/
  | sealed (display : Option (Fetch String)) (properties properties' : List (Property Value)) :
    Value.Alike sealed chained (.object sealed properties display) (.object sealed properties' display)
  | decorated (deserialized : Bool) {inner inner' : Value} {notes notes' : List (Property Value)}
    (hinner : Value.Alike sealed chained inner inner')
    (hnotes : List.Forall₂ (Property.Rel (Value.Alike sealed chained)) notes notes')
    (hchain : (Value.decorated inner notes deserialized).isChain → inner.base.IsObjectOf sealed → chained) :
    Value.Alike sealed chained (.decorated inner notes deserialized) (.decorated inner' notes' deserialized)

namespace Value.Alike

variable {sealed : String} {chained : Prop} {v v' : Value} {policy : Policy}

/-- Every value is alike to itself. -/
theorem refl (h : chained) (v : Value) : Alike sealed chained v v := by
  have hnodes : RelatesNodes (Alike sealed chained) :=
    { null := .null
      scalar := .scalar
      enum := .enum
      list := fun kind typeName _ _ => .list kind typeName
      dict := fun typeName _ => .dict typeName
      object := fun typeName display _ => .object typeName display
      decorated := fun deserialized _ _ hinner hnotes => .decorated deserialized hinner hnotes fun _ _ => h }
  exact hnodes.refl v

/-! ## What alike values have in common -/

theorem outline : KeepsOutline (Alike sealed chained) := by
  intro v v' h
  cases h with
  | null => exact .null
  | scalar scalar => exact .scalar scalar
  | enum typeName name underlying => exact .enum typeName name underlying
  | list kind typeName helements hproperties => exact .list kind typeName helements hproperties
  | dict typeName hentries => exact .dict typeName hentries
  | object typeName display => exact .object typeName display _ _
  | sealed display properties properties' => exact .object sealed display properties properties'
  | decorated deserialized hinner hnotes => exact .decorated deserialized hinner hnotes

theorem ownProperties (h : Alike sealed chained v v') (hopen : ¬ v.IsObjectOf sealed) :
    List.Forall₂ (Property.Rel (Alike sealed chained)) v.ownProperties v'.ownProperties := by
  cases h with
  | list _ _ _ hproperties => exact hproperties
  | object _ _ hproperties => exact hproperties
  | sealed => exact absurd rfl hopen
  | null | scalar | enum | dict | decorated => exact .nil

theorem properties (h : Alike sealed chained v v') (hopen : ¬ v.base.IsObjectOf sealed) :
    List.Forall₂ (Property.Rel (Alike sealed chained)) v.properties v'.properties :=
  List.rel_append ((outline.base h).ownProperties hopen) (outline.notes h)

/-- An object of the type under a chain of decorators is where there may be one. -/
theorem chained_of_isChain (h : Alike sealed chained v v') (hchain : v.isChain) (hsealed : v.base.IsObjectOf sealed) :
    chained := by
  cases h with
  | decorated _ _ _ hchained => exact hchained hchain hsealed
  | null | scalar | enum | list | dict | object | sealed => cases hchain

end Value.Alike

/-! ## Walks over alike values -/

section Walks

open Value (Alike)

variable {sealed : String} {chained : Prop} {v v' : Value} {policy : Policy} {inside inside' : Inside}

/-- A policy with hints for a type that ask for the string form of its objects, which no property stands for. -/
def Policy.Seals (policy : Policy) (sealed : String) : Prop :=
  ∃ hints, policy.typeHints? sealed = some hints ∧ hints.method = .string ∧ hints.stringSource = none

theorem Policy.Seals.stringSource?_eq_none (hseal : policy.Seals sealed) (h : v.base.IsObjectOf sealed) :
    policy.stringSource? v = none := by
  obtain ⟨hints, hhints, -, hsource⟩ := hseal
  rw [Policy.stringSource?, h.hintsFor?_eq policy, hhints]
  exact hsource

theorem Policy.Seals.prefersString (hseal : policy.Seals sealed) (h : v.base.IsObjectOf sealed) :
    Strategy.prefersString policy v = true := by
  obtain ⟨hints, hhints, hmethod, -⟩ := hseal
  rw [Strategy.prefersString, h.hintsFor?_eq policy, hhints]
  exact beq_iff_eq.2 hmethod

/-- An object of a sealed type is expanded only under a chain of decorators. -/
theorem Policy.Seals.not_isObjectOf_of_complex (hseal : policy.Seals sealed) {depth : Nat}
    (hclass : classify policy v depth = .complex) (hchain : ¬ v.isChain) : ¬ v.base.IsObjectOf sealed := by
  intro hsealed
  have hexpansion := expansion_of_classify_eq_complex hclass
  unfold Strategy.expansion at hexpansion
  rw [if_neg hchain, if_pos (hseal.prefersString hsealed)] at hexpansion
  split at hexpansion <;> cases hexpansion

/-- The promoted form of an alike chain is written alike, or it is around an object of the type. -/
theorem agree_promoted_alike {depth : Nat} (hinside : AgreeInside chained (Alike sealed chained) inside inside')
    (h : Alike sealed chained v v') (hchain : v.base.IsObjectOf sealed → chained) :
    Agree chained (writePromoted policy inside v depth) (writePromoted policy inside' v' depth) ∨
      chained ∧ ∀ w : Walker, w.promotionDue = false →
        (endState (writePromoted policy inside v depth w)).promotionDue = false ∧
          (endState (writePromoted policy inside' v' depth w)).promotionDue = false := by
  have hmake : KeepsMake (Alike sealed chained) := Alike.outline.keepsBase.keepsMake
  by_cases hsealed : v.base.IsObjectOf sealed
  · -- The own properties of the two objects need not correspond, but those of each do to themselves.
    have hrefl (u : Value) : Alike sealed chained u u := Alike.refl (hchain hsealed) u
    have hself (u : Value) : Agree chained (writePromoted policy inside u depth) (writePromoted policy inside' u depth) :=
      agree_promoted Alike.outline.keepsBase hinside (hrefl u) (agree_selection hmake hinside (hrefl u)
        (List.forall₂_same.2 fun p _ => Property.Rel.refl fun c _ => hrefl c))
    exact .inr ⟨hchain hsealed, fun w hspent =>
      ⟨((hself v).eq_of_not_due hspent).2.1, ((hself v').eq_of_not_due hspent).2.2⟩⟩
  · exact .inl (agree_promoted Alike.outline.keepsBase hinside h
      (agree_selection hmake hinside h (selection_rel hmake h (h.properties hsealed))))

/-- Alike values are written by walks that agree. -/
theorem Policy.Seals.outlineWalks (hseal : policy.Seals sealed) (chained : Prop) :
    OutlineWalks policy chained (Alike sealed chained) where
  outline := Alike.outline
  source _ _ h := Alike.outline.keepsBase.sourceProperty?_rel h fun hsource =>
    h.properties fun hsealed => hsource (hseal.stringSource?_eq_none hsealed)
  parts inside inside' hinside v v' h depth hclass := by
    have hmake : KeepsMake (Alike sealed chained) := Alike.outline.keepsBase.keepsMake
    refine Alike.outline.keepsBase.agree_parts hinside (Alike.outline.parallel h) (fun hchain => ?_) fun hchain => ?_
    · exact agree_selection hmake hinside h
        (selection_rel hmake h (h.properties (hseal.not_isObjectOf_of_complex hclass hchain)))
    · exact agree_promoted_alike hinside h (h.chained_of_isChain hchain)

/-! ## Whole values -/

/-- If the hints of a type ask for its string form, which no property stands for, then the own properties of its objects
are neither read nor written: values that differ in nothing else are written by the same steps, from any state. Where
such objects may stand under chains of decorators, this is so as long as the walk does not promote a chain. -/
theorem write_eq_of_alike (hseal : policy.Seals sealed) (h : Alike sealed chained v v') (name : Option String)
    (depth : Nat) (w : Walker) (hpromoted : chained → w.promotionDue = true →
      (endState (write policy v name depth w)).promotionDue = true) :
    write policy v name depth w = write policy v' name depth w := by
  rcases (hseal.outlineWalks chained).agree_write h name depth w with ⟨hsame, -⟩ | ⟨hchained, hdue, hend, -⟩
  · exact hsame
  · rw [hpromoted hchained hdue] at hend
    cases hend

/-- The secrets of a card, which stand under one decorator, or in a chain of them after another one has been promoted. -/
theorem write_eq_of_alike_card :
    (({} : Policy).withHints "Secret" { method := .string }).Seals "Secret" ∧
      write (({} : Policy).withHints "Secret" { method := .string })
          (.object "Card" [⟨"code", none, .ready (.decorated (.object "Secret"
            [⟨"pin", none, .deferred { id := 0, first := .ok (.scalar (.string "1234")) }⟩] none)
            [⟨"tries", none, .ready .null⟩] false)⟩] none) none 2 {} =
        write (({} : Policy).withHints "Secret" { method := .string })
          (.object "Card" [⟨"code", none, .ready (.decorated (.object "Secret" [] none)
            [⟨"tries", none, .ready .null⟩] false)⟩] none) none 2 {} ∧
      write (({} : Policy).withHints "Secret" { method := .string })
          (.decorated (.decorated (.object "Secret"
            [⟨"pin", none, .deferred { id := 0, first := .ok (.scalar (.string "1234")) }⟩] none) [] false) [] false)
          none 1 { promotionDue := false } =
        write (({} : Policy).withHints "Secret" { method := .string })
          (.decorated (.decorated (.object "Secret" [] none) [] false) [] false) none 1 { promotionDue := false } := by
  have hseal : (({} : Policy).withHints "Secret" { method := .string }).Seals "Secret" :=
    ⟨_, Policy.typeHints?_withHints_self .., rfl, rfl⟩
  refine ⟨hseal, write_eq_of_alike hseal ?_ none 2 {} fun h : False => h.elim,
    write_eq_of_alike hseal ?_ none 1 { promotionDue := false } fun (_ : True) hdue => nomatch hdue⟩
  · have hnull : Alike "Secret" False .null .null := .null
    refine .object "Card" none (.cons (.intro "code" none (.ready ?_)) .nil)
    exact .decorated false (.sealed none _ _) (.cons (.intro "tries" none (.ready hnull)) .nil) fun hchain => nomatch hchain
  · exact .decorated false (.decorated false (.sealed none _ _) .nil fun _ _ => trivial) .nil fun _ _ => trivial

/-- The first chain of decorators in an item is promoted, and shows the properties of an object of a sealed type. -/
theorem promoted_chain_shows_properties :
    (({} : Policy).withHints "Secret" { method := .string }).Seals "Secret" ∧
      Alike "Secret" True
        (.decorated (.decorated (.object "Secret"
          [⟨"pin", none, .deferred { id := 0, first := .ok (.scalar (.string "1234")) }⟩] none) [] false) [] false)
        (.decorated (.decorated (.object "Secret" [] none) [] false) [] false) ∧
      .asked (.property "pin") (some 0) none ∈ (endState (write (({} : Policy).withHints "Secret" { method := .string })
        (.decorated (.decorated (.object "Secret"
          [⟨"pin", none, .deferred { id := 0, first := .ok (.scalar (.string "1234")) }⟩] none) [] false) [] false)
        none 1 {})).run.journal ∧
      .text "1234" ∈ (endState (write (({} : Policy).withHints "Secret" { method := .string })
        (.decorated (.decorated (.object "Secret"
          [⟨"pin", none, .deferred { id := 0, first := .ok (.scalar (.string "1234")) }⟩] none) [] false) [] false)
        none 1 {})).recorder.events ∧
      .text "1234" ∉ (endState (write (({} : Policy).withHints "Secret" { method := .string })
        (.decorated (.decorated (.object "Secret" [] none) [] false) [] false) none 1 {})).recorder.events := by
  refine ⟨⟨_, Policy.typeHints?_withHints_self .., rfl, rfl⟩, ?_, ?_, ?_, ?_⟩
  · exact .decorated false (.decorated false (.sealed none _ _) .nil fun _ _ => trivial) .nil fun _ _ => trivial
  · decide +kernel
  · decide +kernel
  · decide +kernel

end Walks

end GraphMarkup
