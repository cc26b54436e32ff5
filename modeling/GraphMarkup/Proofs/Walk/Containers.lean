import GraphMarkup.Proofs.Walk.Known
import GraphMarkup.Proofs.Walk.Properties

/-!
# Containers in full

* `Chart.Presents`, `Chart.PresentsProperty` : an element with what a walk has written it for, and under which name;
* `Shape.HeldBy` : elements for what a container holds, in pairs for a dictionary;
* `Value.attached` : the properties that come after what a container holds;
* `Chart.Shows.container` : what stands in the element of a container;
* `write_container_in_full` : without hints and with depth left, a dictionary or a list is written with all items up to
  the first fault of the enumeration, then with the properties that go with it, and with nothing else.
-/

namespace GraphMarkup

variable {α β γ : Type} {policy : Policy} {v : Value} {name : Option String} {depth : Nat} {shape : Shape}

/-! ## Lists in a row -/

/-- What is known of the members of one of two related lists is known along the relation. -/
theorem forall₂_imp_of_mem {R S : α → β → Prop} {P : β → Prop} {as : List α} {bs : List β} (h : List.Forall₂ R as bs)
    (hbs : ∀ b ∈ bs, P b) (himp : ∀ a b, R a b → P b → S a b) : List.Forall₂ S as bs := by
  have hboth := (List.forall₂_and_left bs as).2 ⟨hbs, h.flip⟩
  exact hboth.flip.imp fun a b hab => himp a b hab.2 hab.1

/-- A list related to pairs in a row comes in pairs itself. -/
theorem exists_pairs_of_forall₂ {R : γ → β → Prop} {f g : α → γ} {as : List α} {bs : List β}
    (h : List.Forall₂ R (as.flatMap fun a => [f a, g a]) bs) :
    ∃ pairs : List (β × β), bs = pairs.flatMap (fun pair => [pair.1, pair.2]) ∧
      List.Forall₂ (fun a pair => R (f a) pair.1 ∧ R (g a) pair.2) as pairs := by
  induction as generalizing bs with
  | nil =>
    cases h
    exact ⟨[], rfl, .nil⟩
  | cons a as ih =>
    cases h with
    | @cons _ first _ _ hfirst h =>
      cases h with
      | @cons _ second _ _ hsecond hrest =>
        obtain ⟨pairs, rfl, hpairs⟩ := ih hrest
        exact ⟨(first, second) :: pairs, rfl, .cons ⟨hfirst, hsecond⟩ hpairs⟩

/-! ## What an element is written for -/

namespace Chart

/-- The element of a value: it is what writing the value records, and begins with the name of the value, if it has one,
in front of the type. -/
structure Presents (policy : Policy) (value : Value) (label : Option String) (depth : Nat) (c : Chart) : Prop
    extends c.Shows value label depth where
  sound : c.Sound policy
  labelled : c.element.Labelled policy label
  written : ∀ r, write policy value label depth (c.before.on r) = .ok () (c.after.on (r.append c.element.events))

/-- The element of a property, which begins with the name of the property. -/
structure PresentsProperty (policy : Policy) (depth : Nat) (p : Property Value) (c : Chart) : Prop
    extends c.OfProperty depth p where
  sound : c.Sound policy
  labelled : c.element.Labelled policy (some p.name)

variable {c : Chart}

theorem Shows.presents (h : c.Shows v name depth) (hsound : c.Sound policy) : c.Presents policy v name depth := by
  have hfits := hsound.here
  have hsubject := hfits.subject
  have hlabelled := hfits.labelled
  rw [h.subject, h.name] at hsubject
  rw [h.name] at hlabelled
  exact ⟨h, hsound, hlabelled, hsubject.1⟩

theorem OfProperty.presents {p : Property Value} (h : c.OfProperty depth p) (hsound : c.Sound policy) :
    c.PresentsProperty policy depth p := by
  have hlabelled := hsound.here.labelled
  rw [h.name] at hlabelled
  exact ⟨h, hsound, hlabelled⟩

/-- The properties in the element of a sound chart, one for each and in order. -/
theorem OfProperties.presents {ps : List (Property Value)} (h : OfProperties depth ps c.properties)
    (hsound : c.Sound policy) : List.Forall₂ (PresentsProperty policy (depth - 1)) ps c.properties :=
  forall₂_imp_of_mem h (fun _ hnode => hsound.within (List.mem_append_right _ hnode))
    fun _ _ hproperty hnode => hproperty.presents hnode

end Chart

/-! ## What a container holds -/

/-- Elements for what a container holds after so many reads of every part. An entry of a dictionary has one for the key
and then one for the value, each under its own name, and an item of a list has one without a name. -/
def Shape.HeldBy (policy : Policy) (depth : Nat) (reads : Nat → Nat) : Shape → List Chart → Prop
  | .dictionary entries, held => ∃ pairs : List (Chart × Chart), held = pairs.flatMap (fun pair => [pair.1, pair.2]) ∧
      List.Forall₂ (fun entry pair => pair.1.Presents policy entry.1 (some policy.names.key) depth ∧
        pair.2.Presents policy entry.2 (some policy.names.value) depth) (entries.items reads) pairs
  | .list _ elements, held => List.Forall₂ (fun item c => c.Presents policy item none depth) (elements.items reads) held

theorem Shape.heldBy_of_items {reads : Nat → Nat} {held : List Chart}
    (h : List.Forall₂ (fun item c => c.Presents policy item.2 item.1 depth) (shape.items policy reads) held) :
    shape.HeldBy policy depth reads held := by
  cases shape with
  | dictionary entries => exact exists_pairs_of_forall₂ h
  | list kind elements =>
    rw [Shape.items, ← List.map_eq_flatMap] at h
    exact List.forall₂_map_left_iff.1 h

/-! ## Containers -/

/-- The properties that come after what a container holds: those of the container itself, if it is enumerable or its
decorator marks it as rebuilt, and then the notes. -/
def Value.attached (shape : Shape) (v : Value) : List (Property Value) :=
  (if shape.hasSidecar || v.isDeserialized then v.base.ownProperties else []) ++ v.notes

/-- What stands in the element of a container, bare or under one decorator. -/
theorem Chart.Shows.container (hhints : policy.hints = []) (hchain : v.isChain = false)
    (hshape : v.base.shape? = some shape) (hdepth : depth ≠ 0) {c : Chart} (h : c.Shows v name depth)
    (hsound : c.Sound policy) :
    shape.HeldBy policy depth c.before.run.reads c.front ∧
      List.Forall₂ (PresentsProperty policy (depth - 1)) (v.attached shape) c.properties := by
  obtain ⟨decoration, hclass⟩ := Value.classify_of_shape policy hchain hdepth hshape
  obtain ⟨-, hnotes⟩ := base_and_notes_of_container hclass
  obtain ⟨hselection, hsame⟩ := selection_of_no_hints (Policy.hintsFor?_of_no_hints hhints v) depth
  have hexpands := h.expands hsound
  unfold Expands at hexpands
  simp only [hclass, deserialized_of_container hclass, hnotes, hselection, hsame] at hexpands
  obtain ⟨hitems, hproperties⟩ := hexpands
  have hshown : OfProperties depth (v.attached shape) c.properties := by
    unfold Value.attached
    split at hproperties
    · next hown => rwa [if_pos hown]
    · next hown => rwa [if_neg hown]
  refine ⟨Shape.heldBy_of_items ?_, hshown.presents hsound⟩
  exact forall₂_imp_of_mem hitems (fun _ hnode => hsound.within (List.mem_append_left _ hnode))
    fun _ _ hshows hnode => hshows.presents hnode

/-- Containers are written in full up to the first fault. From any state of a walk, without hints and with depth left, a
dictionary or a list, bare or under one decorator, becomes an element whose children are those for what the enumeration
at hand passes on, and then one for each property that goes with the container, unless a stop is requested meanwhile. -/
theorem write_container_in_full (hhints : policy.hints = []) (hchain : v.isChain = false)
    (hshape : v.base.shape? = some shape) (hdepth : 1 ≤ depth) (name : Option String) (w : Walker) :
    (∃ c : Chart, c.Presents policy v name depth ∧ c.before = w ∧
      write policy v name depth w = .ok () (c.after.on (w.recorder.append c.element.events)) ∧
      c.element.children = c.front.map Chart.element ++ c.properties.map Chart.element ∧
      shape.HeldBy policy depth w.run.reads c.front ∧
      List.Forall₂ (Chart.PresentsProperty policy (depth - 1)) (v.attached shape) c.properties) ∨
    ∃ w', write policy v name depth w = .error .cancelled w' ∧ w'.run.stopped := by
  refine (write_charted policy v name depth w).imp (fun ⟨c, hsound, hshows, hbefore, hwrite⟩ => ?_) id
  obtain ⟨hheld, hattached⟩ := hshows.container hhints hchain hshape (Nat.pos_iff_ne_zero.1 hdepth) hsound
  have hchildren := hsound.here.children
  rw [Chart.inside, List.map_append] at hchildren
  rw [hbefore] at hheld
  exact ⟨c, hshows.presents hsound, hbefore, hwrite, hchildren, hheld, hattached⟩

/-- Lines that break off after the first one, with their number and a note. -/
theorem write_container_in_full_of_lines :
    ∃ (lines : Value) (steps : List (Step Value)) (c : Chart),
      steps = [⟨.ok (.scalar (.string "one")), false⟩, ⟨.error "collection modified", false⟩,
        ⟨.ok (.scalar (.string "two")), false⟩] ∧
      lines = .decorated (.list .enumerable (some "Lines") (.stepped 1 steps) [⟨"Count", none, .ready (.scalar (.int32 2))⟩])
        [⟨"Seen", none, .failed "never"⟩] false ∧
      c.Presents {} lines (some "lines") 1 ∧ c.before = {} ∧
      write {} lines (some "lines") 1 {} = .ok () (c.after.on (({} : Recorder).append c.element.events)) ∧
      c.element.children = c.front.map Chart.element ++ c.properties.map Chart.element ∧
      List.Forall₂ (fun item node => node.Presents {} item none 1) [.scalar (.string "one")] c.front ∧
      List.Forall₂ (Chart.PresentsProperty {} 0)
        [⟨"Count", none, .ready (.scalar (.int32 2))⟩, ⟨"Seen", none, .failed "never"⟩] c.properties := by
  have hfull := @write_container_in_full {} (.decorated (.list .enumerable (some "Lines") (.stepped 1
    [⟨.ok (.scalar (.string "one")), false⟩, ⟨.error "collection modified", false⟩,
      ⟨.ok (.scalar (.string "two")), false⟩]) [⟨"Count", none, .ready (.scalar (.int32 2))⟩])
    [⟨"Seen", none, .failed "never"⟩] false) 1 _ rfl rfl rfl (Nat.le_refl 1) (some "lines") {}
  have hruns : ((write {} (.decorated (.list .enumerable (some "Lines") (.stepped 1
      [⟨.ok (.scalar (.string "one")), false⟩, ⟨.error "collection modified", false⟩,
        ⟨.ok (.scalar (.string "two")), false⟩]) [⟨"Count", none, .ready (.scalar (.int32 2))⟩])
      [⟨"Seen", none, .failed "never"⟩] false) (some "lines") 1).run' {}).isSome := by
    decide +kernel
  obtain ⟨⟨⟩, w', hwrite⟩ := exists_ok_of_run' hruns
  rcases hfull with ⟨c, hpresents, hbefore, hwritten, hchildren, hheld, hattached⟩ | ⟨_, hcancelled, -⟩
  · exact ⟨_, _, c, rfl, rfl, hpresents, hbefore, hwritten, hchildren, hheld, hattached⟩
  · cases hwrite.symm.trans hcancelled

end GraphMarkup
