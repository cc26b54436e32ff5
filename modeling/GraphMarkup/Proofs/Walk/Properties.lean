import GraphMarkup.Proofs.Walk.Charting

/-!
# The properties of objects

* `Chart.reading` : the named nodes inside a chart, with those inside unnamed ones read in place;
* `Chart.Lists` : nodes that stand for properties, one for each of them in order;
* `write_lists_properties` : the element of an object without hints, under any decorators, reads as its properties in
  order and then the notes from the innermost decorator to the outermost.

A promoted chain has them all inside its own element. Any other chain has the element of its inner value in front of
the notes of its outermost decorator, so that the reading follows the decorators.
-/

namespace GraphMarkup

variable {policy : Policy} {v : Value} {depth : Nat} {typeName : String} {props : List (Property Value)}
  {display : Option (Fetch String)}

namespace Chart

mutual

/-- The named nodes directly inside a chart, with what stands inside the unnamed ones in their place. -/
def reading : Chart → List Chart
  | ⟨_, _, _, _, _, front, properties⟩ => readings front ++ readings properties

/-- Nodes in a row, with what stands inside the unnamed ones in their place. -/
def readings : List Chart → List Chart
  | [] => []
  | c :: cs => (if c.name.isSome then [c] else c.reading) ++ readings cs

end

/-- Nodes that stand for properties with a depth left for them, one for each and in order, and tell how they have been
written. -/
abbrev Lists (policy : Policy) (depth : Nat) : List (Property Value) → List Chart → Prop :=
  List.Forall₂ fun p c => c.OfProperty depth p ∧ c.Sound policy

/-- Whether what is unnamed inside the element of a value stands for the value that its outermost decorator is around,
which has a decorator itself. -/
def NestsInner (value : Value) (depth : Nat) (c : Chart) : Prop :=
  ∀ c' ∈ c.inside, c'.name = none → ∃ inner notes deserialized outerNotes outerDeserialized,
    value = .decorated (.decorated inner notes deserialized) outerNotes outerDeserialized ∧
      c'.Shows (.decorated inner notes deserialized) none depth

variable {c c' : Chart} {front properties : List Chart}

theorem reading_eq (c : Chart) : c.reading = readings c.front ++ readings c.properties := by
  cases c
  rw [reading]

theorem readings_of_named {cs : List Chart} (h : ∀ c ∈ cs, c.name.isSome) : readings cs = cs := by
  induction cs with
  | nil => rw [readings]
  | cons c cs ih =>
    rw [readings, if_pos (h c (List.mem_cons_self ..)), ih fun c' hc' => h c' (List.mem_cons_of_mem _ hc')]
    rfl

/-- Properties read as themselves. -/
theorem OfProperties.lists {ps : List (Property Value)} (h : OfProperties depth ps properties)
    (hsound : ∀ c ∈ properties, c.Sound policy) : Lists policy (depth - 1) ps (readings properties) := by
  rw [readings_of_named h.named]
  induction h with
  | nil => exact .nil
  | cons hfirst _ ih =>
    exact .cons ⟨hfirst, hsound _ (List.mem_cons_self ..)⟩ (ih fun c hc => hsound c (List.mem_cons_of_mem _ hc))

/-- An element with nothing in front of its properties reads as these. -/
theorem lists_flat {ps : List (Property Value)} (hsound : c.Sound policy) (hfront : c.front = [])
    (hproperties : OfProperties depth ps c.properties) :
    Lists policy (depth - 1) ps c.reading ∧ c.NestsInner v depth := by
  refine ⟨?_, fun c' hc' hname => ?_⟩
  · rw [reading_eq, hfront, readings, List.nil_append]
    exact hproperties.lists fun c' hc' => hsound.within (List.mem_append_right _ hc')
  · rw [inside, hfront, List.nil_append] at hc'
    have hnamed := hproperties.named c' hc'
    rw [hname] at hnamed
    cases hnamed

/-- An element with an unnamed child in front of its properties reads as that child does, and then as these. -/
theorem lists_nested {ps qs : List (Property Value)} (hsound : c.Sound policy) (hfront : c.front = [c'])
    (hname : c'.name = none) (hinner : Lists policy (depth - 1) ps c'.reading)
    (hproperties : OfProperties depth qs c.properties) : Lists policy (depth - 1) (ps ++ qs) c.reading := by
  have hrest := hproperties.lists fun node hnode => hsound.within (List.mem_append_right _ hnode)
  rw [reading_eq, hfront, readings, readings, hname, List.append_nil]
  exact List.rel_append hinner hrest

/-- Such a child may stand for what the outermost of several decorators is around. -/
theorem nestsInner_of_front {inner : Value} {notes outerNotes : List (Property Value)} {deserialized outer : Bool}
    {ps : List (Property Value)} (hfront : c.front = [c'])
    (hshows : c'.Shows (.decorated inner notes deserialized) none depth)
    (hproperties : OfProperties depth ps c.properties) :
    c.NestsInner (.decorated (.decorated inner notes deserialized) outerNotes outer) depth := by
  intro node hnode hname
  rw [inside, hfront] at hnode
  rcases List.mem_cons.1 hnode with rfl | hnode
  · exact ⟨inner, notes, deserialized, outerNotes, outer, rfl, hshows⟩
  · have hnamed := hproperties.named node hnode
    rw [hname] at hnamed
    cases hnamed

end Chart

open Chart (OfProperties Expands ExpandsChain Lists)

theorem hintsFor?_of_base_eq_object (hbase : v.base = .object typeName props display)
    (hhints : policy.typeHints? typeName = none) : policy.hintsFor? v = none := by
  rw [Policy.hintsFor?, Value.typeName?, hbase]
  exact hhints

/-- Without hints for its type, all properties of an object are selected, and have the depth left for them. -/
theorem selection_of_no_hints (h : policy.hintsFor? v = none) (depth : Nat) :
    policy.selection v = v.properties ∧ policy.depthFor v depth = depth := by
  rw [Policy.selection, Policy.depthFor, h]
  exact ⟨rfl, rfl⟩

/-- A chart of an object without hints, under any decorators, reads as its properties and then all notes. -/
theorem lists_of_sound (hbase : v.base = .object typeName props display) (hhints : policy.typeHints? typeName = none)
    (hdepth : depth ≠ 0) {c : Chart} (hsound : c.Sound policy) {name : Option String} (hshows : c.Shows v name depth) :
    Lists policy (depth - 1) (props ++ v.notes) c.reading ∧ c.NestsInner v depth := by
  have hflat {v : Value} {c : Chart} (hbase : v.base = .object typeName props display) (hsound : c.Sound policy)
      (h : c.front = [] ∧ OfProperties (policy.depthFor v depth) (policy.selection v) c.properties) :
      Lists policy (depth - 1) (props ++ v.notes) c.reading ∧ c.NestsInner v depth := by
    obtain ⟨hselection, hdepth'⟩ := selection_of_no_hints (hintsFor?_of_base_eq_object hbase hhints) depth
    rw [hselection, hdepth', Value.properties, hbase] at h
    exact Chart.lists_flat hsound h.1 h.2
  have hclass {v : Value} (hbase : v.base = .object typeName props display) : classify policy v depth = .complex := by
    rw [classify_of_base_eq_object hbase hdepth]
    exact expansion_of_no_hints hbase (hintsFor?_of_base_eq_object hbase hhints)
  -- The induction is on the decorators, of which an element takes one off when it nests the inner value.
  induction v using Value.base.induct generalizing c name with
  | case2 value hplain =>
    have hchain : value.isChain = false := by
      cases value with
      | decorated inner notes deserialized => exact absurd rfl (hplain inner notes deserialized)
      | null | scalar | enum | list | dict | object => rfl
    exact hflat hbase hsound ((hshows.expands hsound).of_not_chain (hclass hbase) hchain)
  | case1 inner notes deserialized ih =>
    cases inner with
    | null | scalar | enum | list | dict | object =>
      exact hflat hbase hsound ((hshows.expands hsound).of_not_chain (hclass hbase) rfl)
    | decorated inner innerNotes innerDeserialized =>
      have hexpands := (hshows.expands hsound).of_chain (hclass hbase)
      by_cases hdue : c.before.promotionDue
      · rw [ExpandsChain, if_pos hdue, hbase] at hexpands
        exact hflat hbase hsound hexpands
      · rw [ExpandsChain, if_neg hdue] at hexpands
        obtain ⟨⟨c', hfront, hshows'⟩, hnotes⟩ := hexpands
        have hsound' : c'.Sound policy := hsound.within (by simp [Chart.inside, hfront])
        obtain ⟨hinner, -⟩ := ih hbase hsound' hshows'
        rw [Value.notes, ← List.append_assoc]
        exact ⟨Chart.lists_nested hsound hfront hshows'.name hinner hnotes,
          Chart.nestsInner_of_front hfront hshows' hnotes⟩

/-- No property is lost, repeated or out of order: whatever state a walk is in, it writes an object of a type without
hints, under any decorators and with depth left, as an element that reads as the properties of the object in order and
then the notes from the innermost decorator to the outermost, one element for each, unless a stop is requested. -/
theorem write_lists_properties (hbase : v.base = .object typeName props display)
    (hhints : policy.typeHints? typeName = none) (hdepth : 1 ≤ depth) (name : Option String) (w : Walker) :
    (∃ c : Chart, c.Sound policy ∧ c.Shows v name depth ∧ c.before = w ∧
      write policy v name depth w = .ok () (c.after.on (w.recorder.append c.element.events)) ∧
      Lists policy (depth - 1) (props ++ v.notes) c.reading ∧ c.NestsInner v depth) ∨
    ∃ w', write policy v name depth w = .error .cancelled w' ∧ w'.run.stopped := by
  refine (write_charted policy v name depth w).imp (fun ⟨c, hsound, hshows, hbefore, hwrite⟩ => ?_) id
  have hlists := lists_of_sound hbase hhints (Nat.pos_iff_ne_zero.1 hdepth) hsound hshows
  exact ⟨c, hsound, hshows, hbefore, hwrite, hlists⟩

/-- A chain around a car, met when a promotion is no longer due: one property cannot be read, another is null. -/
theorem write_lists_properties_of_nested_chain :
    ∃ (v : Value) (props : List (Property Value)) (c : Chart),
      props = [⟨"wheel", none, .deferred ⟨1, .error "flat", [], none⟩⟩, ⟨"owner", none, .ready .null⟩,
        ⟨"doors", none, .ready (.scalar (.int32 4))⟩] ∧
      v = .decorated (.decorated (.object "Car" props none) [⟨"Seen", none, .ready (.object "Place" [] none)⟩] false)
        [⟨"Sold", none, .failed "unknown"⟩] false ∧
      c.Sound {} ∧ c.Shows v (some "car") 2 ∧ c.before = { promotionDue := false } ∧
      write {} v (some "car") 2 { promotionDue := false } =
        .ok () (c.after.on (({} : Recorder).append c.element.events)) ∧
      Lists {} 1 (props ++ [⟨"Seen", none, .ready (.object "Place" [] none)⟩, ⟨"Sold", none, .failed "unknown"⟩])
        c.reading ∧
      c.NestsInner v 2 := by
  have hlists := @write_lists_properties {} (.decorated (.decorated (.object "Car"
    [⟨"wheel", none, .deferred ⟨1, .error "flat", [], none⟩⟩, ⟨"owner", none, .ready .null⟩,
      ⟨"doors", none, .ready (.scalar (.int32 4))⟩] none) [⟨"Seen", none, .ready (.object "Place" [] none)⟩] false)
    [⟨"Sold", none, .failed "unknown"⟩] false) 2 "Car" _ none rfl rfl (Nat.le_succ 1) (some "car")
    { promotionDue := false }
  have hruns : ((write {} (.decorated (.decorated (.object "Car" [⟨"wheel", none, .deferred ⟨1, .error "flat", [], none⟩⟩,
      ⟨"owner", none, .ready .null⟩, ⟨"doors", none, .ready (.scalar (.int32 4))⟩] none)
      [⟨"Seen", none, .ready (.object "Place" [] none)⟩] false) [⟨"Sold", none, .failed "unknown"⟩] false) (some "car")
      2).run' { promotionDue := false }).isSome := by
    decide +kernel
  obtain ⟨⟨⟩, w', hwrite⟩ := exists_ok_of_run' hruns
  rcases hlists with ⟨c, hsound, hshows, hbefore, hwritten, hlists⟩ | ⟨_, hcancelled, -⟩
  · exact ⟨_, _, c, rfl, rfl, hsound, hshows, hbefore, hwritten, hlists⟩
  · cases hwrite.symm.trans hcancelled

end GraphMarkup
