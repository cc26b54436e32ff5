import GraphMarkup.Proofs.Walk.Beside
import GraphMarkup.Proofs.Walk.Containers

/-!
# Rebuilt lists

* `Value.RebuiltList` : a list whose innermost decorator marks it as rebuilt from an earlier serialization;
* `Value.shownOwn` : the properties of such a list that are shown;
* `Chart.nestProperties` : the elements of properties in the element of a nest of decorators;
* `Chart.Shows.bareList`, `Chart.Shows.markedList` : what is shown of a list alone, and of one under a mark;
* `write_shows_rebuilt` : without hints and with depth left, a rebuilt list shows its own properties and all notes,
  unless it is in a chain that is promoted;
* `promoted_list_hides_properties` : a promoted chain does not show the properties of the list, although it is marked.

The mark is on the decorator that is directly around the list. A chain that is not promoted passes from each decorator to
the next and comes to it; one that is promoted passes to the bare list at once, and leaves the mark out.
-/

namespace GraphMarkup

open Chart (PresentsProperty)

variable {policy : Policy} {v : Value} {name : Option String} {depth : Nat} {kind : ListKind} {typeName : Option String}
  {elements : Sequence Value} {props : List (Property Value)}

namespace Value

/-- A list directly inside a decorator that marks it as rebuilt, under any number of further decorators. -/
inductive RebuiltList (kind : ListKind) (typeName : Option String) (elements : Sequence Value)
    (props : List (Property Value)) : Value → Prop
  | marked (notes : List (Property Value)) :
    RebuiltList kind typeName elements props (.decorated (.list kind typeName elements props) notes true)
  | under {v : Value} (h : RebuiltList kind typeName elements props v) (notes : List (Property Value))
    (deserialized : Bool) : RebuiltList kind typeName elements props (.decorated v notes deserialized)

theorem RebuiltList.base_eq (h : v.RebuiltList kind typeName elements props) :
    v.base = .list kind typeName elements props := by
  induction h with
  | marked notes => rfl
  | under h notes deserialized ih => exact ih

theorem RebuiltList.exists_decorated (h : v.RebuiltList kind typeName elements props) :
    ∃ inner notes deserialized, v = .decorated inner notes deserialized := by
  cases h with
  | marked notes => exact ⟨_, _, _, rfl⟩
  | under h notes deserialized => exact ⟨_, _, _, rfl⟩

/-- The properties of a rebuilt list that are shown: all of them, but in a chain that is promoted only those of a list that
shows them without the mark. -/
def shownOwn (due : Bool) (kind : ListKind) (props : List (Property Value)) (v : Value) : List (Property Value) :=
  if due && v.isChain && kind != .enumerable then [] else props

theorem shownOwn_of_not_chain (hchain : v.isChain = false) (due : Bool) (kind : ListKind) (props : List (Property Value)) :
    v.shownOwn due kind props = props := by
  rw [shownOwn, hchain, Bool.and_false, Bool.false_and, if_neg Bool.false_ne_true]

end Value

/-- With depth left, a chain of decorators is expanded, unless it is around a named constant. -/
theorem classify_of_chain (hchain : v.isChain) (hdepth : depth ≠ 0)
    (hbase : ∀ typeName name underlying, v.base ≠ .enum typeName name underlying) :
    classify policy v depth = .complex := by
  have henum : Strategy.enumLike? v = none := by
    unfold Strategy.enumLike?
    split
    · next typeName name underlying hconstant => exact absurd hconstant (hbase typeName name underlying)
    · rfl
  have hexpansion : Strategy.expansion policy v = .complex := if_pos hchain
  obtain ⟨inner, notes, deserialized, outerNotes, outer, rfl⟩ := Value.exists_of_isChain hchain
  unfold classify
  rw [henum, hexpansion]
  exact if_neg hdepth

/-! ## The properties in a nest of decorators -/

/-- An element at any level inside another. -/
abbrev Element.Inside : Element → Element → Prop := Relation.TransGen fun e around => e ∈ around.children

namespace Chart

mutual

/-- The elements of properties in the element of a nest of decorators: those of what an expanded chain is around, and then
those in the element itself. -/
def nestProperties (policy : Policy) : Chart → List Chart
  | ⟨subject, _, _, _, _, front, properties⟩ =>
    (if subject.expandsChain policy then frontProperties policy front else []) ++ properties

/-- The elements of properties in nests of decorators in a row. -/
def frontProperties (policy : Policy) : List Chart → List Chart
  | [] => []
  | c :: cs => nestProperties policy c ++ frontProperties policy cs

end

variable {c c' : Chart}

theorem frontProperties_eq (cs : List Chart) : frontProperties policy cs = cs.flatMap (nestProperties policy) := by
  induction cs with
  | nil => rw [frontProperties, List.flatMap_nil]
  | cons c cs ih => rw [frontProperties, ih, List.flatMap_cons]

theorem nestProperties_of_flat (h : c.subject.expandsChain policy = false) : c.nestProperties policy = c.properties := by
  cases c
  rw [nestProperties, if_neg (Bool.eq_false_iff.1 h)]
  rfl

theorem nestProperties_of_expanded (h : c.subject.expandsChain policy) :
    c.nestProperties policy = c.front.flatMap (nestProperties policy) ++ c.properties := by
  cases c
  rw [nestProperties, if_pos h, frontProperties_eq]

theorem nestProperties_of_chain (h : c.subject.expandsChain policy) (hfront : c.front = [c']) :
    c.nestProperties policy = c'.nestProperties policy ++ c.properties := by
  rw [nestProperties_of_expanded h, hfront, List.flatMap_singleton]

/-- What belongs to a nest of decorators stands inside its element. -/
theorem Sound.nestProperties_inside (h : c.Sound policy) :
    ∀ node ∈ c.nestProperties policy, node.element.Inside c.element := by
  induction h with
  | @intro c here within ih =>
    have hdirect : ∀ c' ∈ c.inside, c'.element ∈ c.element.children := by
      intro c' hc'
      rw [here.children]
      exact List.mem_map_of_mem hc'
    have hproperties : ∀ node ∈ c.properties, node.element.Inside c.element := fun node hnode =>
      .single (hdirect node (List.mem_append_right _ hnode))
    intro node hnode
    by_cases hchain : c.subject.expandsChain policy
    · rw [nestProperties_of_expanded hchain] at hnode
      rcases List.mem_append.1 hnode with hnode | hnode
      · obtain ⟨c', hc', hnode⟩ := List.mem_flatMap.1 hnode
        have hinside := List.mem_append_left c.properties hc'
        exact (ih c' hinside node hnode).tail (hdirect c' hinside)
      · exact hproperties node hnode
    · rw [nestProperties_of_flat (Bool.eq_false_iff.2 hchain)] at hnode
      exact hproperties node hnode

/-- A container, bare or under one decorator, has only the properties in its own element. -/
theorem Shows.nestProperties_of_container (hchain : v.isChain = false) {shape : Shape}
    (hshape : v.base.shape? = some shape) (hdepth : depth ≠ 0) (h : c.Shows v name depth) :
    c.nestProperties policy = c.properties := by
  obtain ⟨decoration, hclass⟩ := Value.classify_of_shape policy hchain hdepth hshape
  have hcomplex : classify policy v depth ≠ .complex := by
    rw [hclass]
    exact nofun
  apply nestProperties_of_flat
  rw [h.subject]
  exact Subject.expandsChain_of_ne_complex hcomplex

/-- A bare list shows its own properties only if it is enumerable. -/
theorem Shows.bareList (hhints : policy.hints = []) (hdepth : depth ≠ 0)
    (h : c.Shows (.list kind typeName elements props) name depth) (hsound : c.Sound policy) :
    List.Forall₂ (PresentsProperty policy (depth - 1)) (if kind != .enumerable then [] else props)
      (c.nestProperties policy) := by
  obtain ⟨-, hattached⟩ := h.container hhints rfl rfl hdepth hsound
  rw [h.nestProperties_of_container rfl rfl hdepth]
  cases kind with
  | enumerable =>
    have hown : Value.attached (.list .enumerable elements) (.list .enumerable typeName elements props) =
        props ++ [] := rfl
    rwa [hown, List.append_nil] at hattached
  | list | stack | queue => exact hattached

/-- A list under a decorator that marks it as rebuilt shows its own properties and the notes. -/
theorem Shows.markedList (hhints : policy.hints = []) (hdepth : depth ≠ 0) {notes : List (Property Value)}
    (h : c.Shows (.decorated (.list kind typeName elements props) notes true) name depth) (hsound : c.Sound policy) :
    List.Forall₂ (PresentsProperty policy (depth - 1)) (props ++ notes) (c.nestProperties policy) := by
  obtain ⟨-, hattached⟩ := h.container hhints rfl rfl hdepth hsound
  rw [h.nestProperties_of_container rfl rfl hdepth]
  rwa [Value.attached, Value.isDeserialized, Bool.or_true] at hattached

/-- What a sound chart of a rebuilt list shows. The induction is on the decorators around the marked one. -/
theorem Shows.rebuilt (hhints : policy.hints = []) (hv : v.RebuiltList kind typeName elements props)
    (hdepth : depth ≠ 0) (h : c.Shows v name depth) (hsound : c.Sound policy) :
    List.Forall₂ (PresentsProperty policy (depth - 1)) (v.shownOwn c.before.promotionDue kind props ++ v.notes)
      (c.nestProperties policy) := by
  induction hv generalizing c name with
  | marked notes =>
    rw [Value.shownOwn_of_not_chain rfl]
    exact h.markedList hhints hdepth hsound
  | @under v hinner notes deserialized ih =>
    have hlist := hinner.base_eq
    obtain ⟨inner, innerNotes, innerDeserialized, rfl⟩ := hinner.exists_decorated
    have hclass : classify policy (.decorated (.decorated inner innerNotes innerDeserialized) notes deserialized) depth =
        .complex :=
      classify_of_chain rfl hdepth fun _ _ _ henum => nomatch hlist.symm.trans henum
    have hchain : c.subject.expandsChain policy := by
      rw [h.subject, Subject.expandsChain_of_complex hclass]
      rfl
    have hexpands := (h.expands hsound).of_chain hclass
    have hthreads := hsound.here.threads
    cases hdue : c.before.promotionDue with
    | true =>
      -- The element is that of the bare list, which the mark does not come to.
      rw [hdue, ExpandsChain, if_pos rfl, Value.base_decorated, hlist] at hexpands
      obtain ⟨⟨c', hfront, hshows'⟩, hnotes⟩ := hexpands
      have hsound' : c'.Sound policy := hsound.within (by simp [inside, hfront])
      rw [nestProperties_of_chain hchain hfront]
      exact List.rel_append (hshows'.bareList hhints hdepth hsound') (hnotes.presents hsound)
    | false =>
      rw [hdue, ExpandsChain, if_neg Bool.false_ne_true] at hexpands
      obtain ⟨⟨c', hfront, hshows'⟩, hnotes⟩ := hexpands
      have hsound' : c'.Sound policy := hsound.within (by simp [inside, hfront])
      have hdue' : c'.before.promotionDue = false := by
        rw [inside, hfront, hdue] at hthreads
        exact hthreads.1
      have hrest := ih hshows' hsound'
      rw [hdue'] at hrest
      rw [nestProperties_of_chain hchain hfront, Value.notes, ← List.append_assoc]
      exact List.rel_append hrest (hnotes.presents hsound)

end Chart

/-- A rebuilt list shows its own properties, and the notes from the innermost decorator to the outermost, one element for
each, in order and inside its own element, unless a stop is requested meanwhile. It does so from any state of a walk,
without hints and with depth left, but for a chain that is promoted: that shows the notes alone, unless the list is
enumerable. -/
theorem write_shows_rebuilt (hhints : policy.hints = []) (hv : v.RebuiltList kind typeName elements props)
    (hdepth : 1 ≤ depth) (name : Option String) (w : Walker) :
    (∃ c : Chart, c.Presents policy v name depth ∧ c.before = w ∧
      write policy v name depth w = .ok () (c.after.on (w.recorder.append c.element.events)) ∧
      List.Forall₂ (PresentsProperty policy (depth - 1)) (v.shownOwn w.promotionDue kind props ++ v.notes)
        (c.nestProperties policy) ∧
      ∀ node ∈ c.nestProperties policy, node.element.Inside c.element) ∨
    ∃ w', write policy v name depth w = .error .cancelled w' ∧ w'.run.stopped := by
  refine (write_charted policy v name depth w).imp (fun ⟨c, hsound, hshows, hbefore, hwrite⟩ => ?_) id
  have hshown := hshows.rebuilt hhints hv (Nat.pos_iff_ne_zero.1 hdepth) hsound
  rw [hbefore] at hshown
  exact ⟨c, hshows.presents hsound, hbefore, hwrite, hshown, hsound.nestProperties_inside⟩

/-- A stack that has been rebuilt, in a chain that is met when a promotion is no longer due. -/
theorem write_shows_rebuilt_of_nested_stack :
    ∃ (v : Value) (c : Chart),
      v = .decorated (.decorated (.list .stack none (.ready [.scalar (.int32 1)])
        [⟨"Count", none, .ready (.scalar (.int32 1))⟩, ⟨"Owner", none, .failed "gone"⟩])
        [⟨"Seen", none, .ready (.scalar (.string "yes"))⟩] true) [⟨"Sold", none, .ready .null⟩] false ∧
      c.Presents {} v (some "stack") 2 ∧ c.before = { promotionDue := false } ∧
      write {} v (some "stack") 2 { promotionDue := false } =
        .ok () (c.after.on (({} : Recorder).append c.element.events)) ∧
      List.Forall₂ (PresentsProperty {} 1)
        [⟨"Count", none, .ready (.scalar (.int32 1))⟩, ⟨"Owner", none, .failed "gone"⟩,
          ⟨"Seen", none, .ready (.scalar (.string "yes"))⟩, ⟨"Sold", none, .ready .null⟩]
        (c.nestProperties {}) ∧
      ∀ node ∈ c.nestProperties {}, node.element.Inside c.element := by
  have hshown := @write_shows_rebuilt {} (.decorated (.decorated (.list .stack none (.ready [.scalar (.int32 1)])
    [⟨"Count", none, .ready (.scalar (.int32 1))⟩, ⟨"Owner", none, .failed "gone"⟩])
    [⟨"Seen", none, .ready (.scalar (.string "yes"))⟩] true) [⟨"Sold", none, .ready .null⟩] false) 2 .stack none _ _ rfl
    (.under (.marked _) _ _) (Nat.le_succ 1) (some "stack") { promotionDue := false }
  have hruns : ((write {} (.decorated (.decorated (.list .stack none (.ready [.scalar (.int32 1)])
      [⟨"Count", none, .ready (.scalar (.int32 1))⟩, ⟨"Owner", none, .failed "gone"⟩])
      [⟨"Seen", none, .ready (.scalar (.string "yes"))⟩] true) [⟨"Sold", none, .ready .null⟩] false) (some "stack")
      2).run' { promotionDue := false }).isSome := by
    decide +kernel
  obtain ⟨⟨⟩, w', hwrite⟩ := exists_ok_of_run' hruns
  rcases hshown with ⟨c, hpresents, hbefore, hwritten, hshown⟩ | ⟨_, hcancelled, -⟩
  · exact ⟨_, c, rfl, hpresents, hbefore, hwritten, hshown⟩
  · cases hwrite.symm.trans hcancelled

/-- A promoted chain hides the only property of a rebuilt list. -/
theorem promoted_list_hides_properties :
    Value.RebuiltList .list none (.ready [.scalar (.int32 1)]) [⟨"Count", none, .ready (.scalar (.int32 1))⟩]
        (.decorated (.decorated (.list .list none (.ready [.scalar (.int32 1)])
          [⟨"Count", none, .ready (.scalar (.int32 1))⟩]) [] true) [] false) ∧
      ∃ e, WrittenFrom {}
          (write {} (.decorated (.decorated (.list .list none (.ready [.scalar (.int32 1)])
            [⟨"Count", none, .ready (.scalar (.int32 1))⟩]) [] true) [] false) none 1) e ∧
        .attr "Name" "Count" ∉ e.events := by
  have hevents : ((grow {} (.decorated (.decorated (.list .list none (.ready [.scalar (.int32 1)])
      [⟨"Count", none, .ready (.scalar (.int32 1))⟩]) [] true) [] false) none 1).run' {}).map
        (fun e => decide (.attr "Name" "Count" ∈ e.events)) = some false := by
    decide +kernel
  obtain ⟨e, hwritten, habsent⟩ := exists_writtenFrom (fun e => decide (.attr "Name" "Count" ∈ e.events)) hevents
  exact ⟨.under (.marked _) _ _, e, hwritten, of_decide_eq_false habsent⟩

end GraphMarkup
