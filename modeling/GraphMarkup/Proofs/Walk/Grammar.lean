import GraphMarkup.Proofs.Walk.Closure
import GraphMarkup.Proofs.Walk.Outcome

/-!
# The shape of an item's element

* `Element.IsItem`, `Element.IsProperty` : the elements that items have, and those inside them;
* `growStart_eq`, `growText_eq` : how an element begins, and an element with text, in closed form;
* `Element.Follows` : an element as it is grown under a name;
* `grow_isItem` : a walk that begins an item gives the element of one.

The first unnamed element of an item takes the tag of items. Since every item is unnamed this is its own element, and
from there on the tag is no longer due.
-/

namespace GraphMarkup

variable {policy : Policy} {name : Option String} {w w' : Walker} {e : Element}

/-- The elements inside that of an item: they have the tag of properties, at most a name and at most a type name for
attributes, in this order, and not both a text and children. -/
structure Element.IsProperty (policy : Policy) (e : Element) : Prop where
  tag : e.tag = policy.names.property
  attributes : ∃ name typeName, e.attributes = nameAttributes policy name ++ typeAttributes policy typeName
  unmixed : e.Unmixed

/-- The elements of items: they have the tag of items, at most a type name for attributes, and not both a text and
children, which stand for properties as all elements inside them do. -/
structure Element.IsItem (policy : Policy) (e : Element) : Prop where
  tag : e.tag = policy.names.object
  attributes : ∃ typeName, e.attributes = typeAttributes policy typeName
  unmixed : e.Unmixed
  inside : ∀ c ∈ e.children, c.All (Element.IsProperty policy)

/-- An element as it is grown under a name or none, when the tag of items is due or not. -/
structure Element.Follows (policy : Policy) (due : Bool) (name : Option String) (e : Element) : Prop where
  tag : e.tag = if due then policy.names.object else policy.names.property
  attributes : ∃ typeName, e.attributes = nameAttributes policy name ++ typeAttributes policy typeName
  unmixed : e.Unmixed
  inside : ∀ c ∈ e.children, c.All (Element.IsProperty policy)

theorem Element.Follows.isProperty (h : e.Follows policy false name) : e.All (Element.IsProperty policy) := by
  obtain ⟨typeName, hattributes⟩ := h.attributes
  exact .intro ⟨h.tag, ⟨name, typeName, hattributes⟩, h.unmixed⟩ h.inside

theorem Element.Follows.isItem (h : e.Follows policy true none) : e.IsItem policy :=
  ⟨h.tag, h.attributes, h.unmixed, h.inside⟩

/-! ## How an element begins -/

/-- An element begins with the tag that is due, and no tag of items is due after it. -/
theorem growStart_eq (policy : Policy) (typeName : Option String) (hname : name ≠ none → w.itemTagDue = false) :
    growStart policy name typeName w =
      .ok { tag := if w.itemTagDue then policy.names.object else policy.names.property,
            attributes := nameAttributes policy name ++ typeAttributes policy typeName }
        { w with itemTagDue := false } := by
  obtain ⟨recorder, run, itemTagDue, promotionDue, visited⟩ := w
  cases name with
  | some name =>
    obtain rfl : itemTagDue = false := hname (Option.some_ne_none name)
    rfl
  | none => cases itemTagDue <;> rfl

theorem growText_eq (policy : Policy) (typeName : Option String) (text : String)
    (hname : name ≠ none → w.itemTagDue = false) :
    growText policy name typeName text w =
      .ok { tag := if w.itemTagDue then policy.names.object else policy.names.property,
            attributes := nameAttributes policy name ++ typeAttributes policy typeName,
            text := some text }
        { w with itemTagDue := false } :=
  bind_of_ok (growStart_eq policy typeName hname)

theorem growAround_eq (policy : Policy) (typeName : Option String) {give : WalkM (List Element)}
    (hname : name ≠ none → w.itemTagDue = false) {children : List Element}
    (h : give { w with itemTagDue := false } = .ok children w') :
    growAround policy name typeName give w =
      .ok { tag := if w.itemTagDue then policy.names.object else policy.names.property,
            attributes := nameAttributes policy name ++ typeAttributes policy typeName,
            children := children }
        w' :=
  (bind_of_ok (growStart_eq policy typeName hname)).trans (bind_of_ok h)

/-! ## What a walk keeps to -/

/-- A step after which the tag of items is due if it was before. -/
def KeepsTag {α : Type} (step : WalkM α) : Prop := ∀ w a w', step w = .ok a w' → w'.itemTagDue = w.itemTagDue

/-- A way to grow an element under a name, or under none, that keeps to the shape of items. -/
def GrowsElement (policy : Policy) (name : Option String) (give : WalkM Element) : Prop :=
  ∀ w e w', (name ≠ none → w.itemTagDue = false) → give w = .ok e w' →
    w'.itemTagDue = false ∧ e.Follows policy w.itemTagDue name

/-- A way to grow elements inside that of an item that keeps to the shape of items. -/
def GrowsInside (policy : Policy) (give : WalkM (List Element)) : Prop :=
  ∀ w es w', w.itemTagDue = false → give w = .ok es w' →
    w'.itemTagDue = false ∧ ∀ e ∈ es, e.All (Element.IsProperty policy)

theorem keepsTag_onRun {α : Type} (step : StateM Run α) : KeepsTag (WalkM.onRun step) := by
  rintro w _ _ ⟨⟩
  rfl

theorem keepsTag_poll : KeepsTag WalkM.poll := by
  intro w a w' hpoll
  by_cases hstopped : w.run.stopped
  · rw [WalkM.poll_of_stopped hstopped] at hpoll
    cases hpoll
  · rw [WalkM.poll_of_running hstopped] at hpoll
    cases hpoll
    rfl

theorem follows_emptyProperty (policy : Policy) (p : Property Value) :
    (emptyProperty policy p).Follows policy false (some p.name) :=
  ⟨rfl, ⟨p.typeName? policy.knownTypes, rfl⟩, .inl rfl, by simp [emptyProperty]⟩

theorem growsElement_text (policy : Policy) (name typeName : Option String) (text : String) :
    GrowsElement policy name (growText policy name typeName text) := by
  intro w e w' hname hgrow
  rw [growText_eq policy typeName text hname] at hgrow
  cases hgrow
  exact ⟨rfl, rfl, ⟨typeName, rfl⟩, .inr rfl, List.forall_mem_nil _⟩

theorem GrowsInside.around {give : WalkM (List Element)} (h : GrowsInside policy give) (name typeName : Option String) :
    GrowsElement policy name (growAround policy name typeName give) := by
  intro w e w' hname hgrow
  rw [growAround, bind_of_ok (growStart_eq policy typeName hname)] at hgrow
  obtain ⟨children, w₁, hgive, hrest⟩ := exists_of_bind_ok hgrow
  obtain ⟨hdue, hchildren⟩ := h { w with itemTagDue := false } children w₁ rfl hgive
  cases hrest
  exact ⟨hdue, rfl, ⟨typeName, rfl⟩, .inl rfl, hchildren⟩

theorem GrowsElement.one {give : WalkM Element} (h : GrowsElement policy name give) :
    GrowsInside policy (do return [← give]) := by
  intro w es w' hdue hgrow
  obtain ⟨e, w₁, hgive, hrest⟩ := exists_of_bind_ok hgrow
  obtain ⟨hdue', hfollows⟩ := h w e w₁ (fun _ => hdue) hgive
  cases hrest
  rw [hdue] at hfollows
  exact ⟨hdue', List.forall_mem_singleton.2 hfollows.isProperty⟩

theorem GrowsInside.join {give give' : WalkM (List Element)} (h : GrowsInside policy give)
    (h' : GrowsInside policy give') : GrowsInside policy (do return (← give) ++ (← give')) := by
  intro w es w' hdue hgrow
  obtain ⟨es₁, w₁, hgive, hrest⟩ := exists_of_bind_ok hgrow
  obtain ⟨es₂, w₂, hgive', hrest⟩ := exists_of_bind_ok hrest
  obtain ⟨hdue₁, hes₁⟩ := h w es₁ w₁ hdue hgive
  obtain ⟨hdue₂, hes₂⟩ := h' w₁ es₂ w₂ hdue₁ hgive'
  cases hrest
  exact ⟨hdue₂, List.forall_mem_append.2 ⟨hes₁, hes₂⟩⟩

/-- The shape of items goes through walks. -/
theorem closed_growsElement (policy : Policy) :
    Closed policy KeepsTag (GrowsElement policy) (GrowsInside policy) where
  pure a := by
    rintro w _ _ ⟨⟩
    rfl
  bind h hk w b w' hbind := by
    obtain ⟨a, w₁, hstep, hrest⟩ := exists_of_bind_ok hbind
    exact (hk a w₁ b w' hrest).trans (h w a w₁ hstep)
  note _ := keepsTag_onRun _
  ask _ _ _ _ := keepsTag_onRun _
  stopIf _ := keepsTag_onRun _
  read _ _ := keepsTag_onRun _
  form _ _ := keepsTag_onRun _
  poll := keepsTag_poll
  visit := by
    rintro w _ _ ⟨⟩
    rfl
  one_after h hk w e w' hname hgrow := by
    obtain ⟨a, w₁, hstep, hrest⟩ := exists_of_bind_ok hgrow
    have hdue := h w a w₁ hstep
    rw [← hdue] at hname ⊢
    exact hk a w₁ e w' hname hrest
  row_after h hk w es w' hdue hgrow := by
    obtain ⟨a, w₁, hstep, hrest⟩ := exists_of_bind_ok hgrow
    exact hk a w₁ es w' ((h w a w₁ hstep).trans hdue) hrest
  cancelled name w e w' _ hgrow := by cases hgrow
  absent p w e w' hname hgrow := by
    cases hgrow
    rw [hname (Option.some_ne_none p.name)]
    exact ⟨rfl, follows_emptyProperty policy p⟩
  text := growsElement_text policy
  around h := h.around
  nothing w es w' hdue hgrow := by
    cases hgrow
    exact ⟨hdue, List.forall_mem_nil _⟩
  one h := h.one
  join h h' := h.join h'
  promote h h' w es w' hdue hgrow := by
    rw [get_bind] at hgrow
    by_cases hpromotion : w.promotionDue
    · rw [if_pos hpromotion] at hgrow
      exact h { w with promotionDue := false } es w' hdue hgrow
    · rw [if_neg hpromotion] at hgrow
      exact h' w es w' hdue hgrow

/-- A walk that begins an item gives the element of one. -/
theorem grow_isItem {value : Value} {depth : Nat} (hdue : w.itemTagDue = true)
    (h : grow policy value none depth w = .ok e w') : e.IsItem policy := by
  have hfollows := ((closed_growsElement policy).grow value none depth w e w' (fun hname => absurd rfl hname) h).2
  rw [hdue] at hfollows
  exact hfollows.isItem

end GraphMarkup
