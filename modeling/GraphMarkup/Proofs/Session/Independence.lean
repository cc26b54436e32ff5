import GraphMarkup.Proofs.Session.Document
import GraphMarkup.Proofs.Session.Success
import GraphMarkup.Proofs.Walk.Deferral

/-!
# Items do not know of each other

* `Value.IsSettled.becomes` : a value with nothing left to compute has the same element wherever the walk over it begins;
* `enclose`, `enclose_injective` : an element around what stands inside it, which can be told from it;
* `toXml_of_becomes` : the document of such values, or its error, in terms of their elements;
* `toXml_append` : the document of values followed by others has the children of both documents.
-/

namespace GraphMarkup

open Element (eventsOf)

variable {policy : Policy} {values : List Value} {es : List Element}

/-! ## Elements of settled values -/

/-- A value with nothing left to compute has an element, which is the same in every run. -/
theorem Value.IsSettled.becomes {value : Value} (h : value.IsSettled) (policy : Policy) :
    ∃ e, value.Becomes policy e := by
  -- The walk echoes itself, from a fresh run to any other.
  have hechoed : Echoed (grow policy value none policy.depth) (grow policy value none policy.depth) := by
    have hwithin := echoed_within policy h.steady (Nat.le_refl value.height) none policy.depth
    rwa [h.settled_eq] at hwithin
  have hcalm := hechoed.calm {} (by simp)
  obtain ⟨e, w₀, _, hgrow, -, -⟩ := hechoed.echoed {} {} ⟨by simp, by simp, rfl, rfl⟩ hcalm
  refine ⟨e, fun run hrunning => ?_⟩
  obtain ⟨e', w, w', hgrow', hrun, hmatches⟩ := hechoed.echoed {} { run } ⟨by simp, by simp [hrunning], rfl, rfl⟩ hcalm
  cases hgrow.symm.trans hgrow'
  exact ⟨w', hrun, by simpa using hmatches.running'⟩

theorem exists_becomes_of_settled (policy : Policy) (h : ∀ value ∈ values, value.IsSettled) :
    ∃ es, List.Forall₂ (Value.Becomes policy) values es := by
  induction values with
  | nil => exact ⟨[], .nil⟩
  | cons value values ih =>
    obtain ⟨hvalue, hvalues⟩ := List.forall_mem_cons.1 h
    obtain ⟨e, he⟩ := hvalue.becomes policy
    obtain ⟨es, hes⟩ := ih hvalues
    exact ⟨e :: es, .cons he hes⟩

/-! ## What stands inside an element -/

def enclose (tag body : String) : String :=
  if body = "" then "<" ++ tag ++ " />" else "<" ++ tag ++ ">" ++ body ++ "</" ++ tag ++ ">"

/-- What stands inside an element is known from the element. -/
theorem enclose_injective (tag : String) : Function.Injective (enclose tag) := by
  intro a b h
  have hlist := congrArg String.toList h
  unfold enclose at hlist
  by_cases ha : a = "" <;> by_cases hb : b = ""
  · rw [ha, hb]
  · simp [ha, hb] at hlist
  · simp [ha, hb] at hlist
  · exact String.toList_inj.1 (by simpa [ha, hb] using hlist)

def childrenText (es : List Element) : String := String.ofList (Element.markups none 1 es)

theorem childrenText_append (es fs : List Element) : childrenText (es ++ fs) = childrenText es ++ childrenText fs := by
  rw [childrenText, Element.markups_append, String.ofList_append]
  rfl

theorem childrenText_eq_empty_iff : childrenText es = "" ↔ es = [] := by
  cases es with
  | nil => exact iff_of_true rfl rfl
  | cons e es => simp [childrenText, Element.markups, Element.markup_eq, Element.startMarkup, lineStart]

theorem toList_enclose (tag : String) (es : List Element) :
    (enclose tag (childrenText es)).toList = Element.markups none 0 [{ tag, children := es }] := by
  unfold enclose
  simp only [childrenText_eq_empty_iff]
  cases es with
  | nil => simp [Element.markups, Element.markup_eq, Element.startMarkup, Element.bodyMarkup, Element.isEmpty, lineStart]
  | cons e es =>
    simp [childrenText, Element.markups, Element.markup_eq, Element.startMarkup, Element.bodyMarkup, Element.isEmpty,
      Element.textMarkup, Element.endMarkup, lineStart]

/-! ## Documents -/

/-- The document of values whose elements are known, or the first character that it cannot hold. -/
theorem toXml_of_becomes (hvalid : policy.validate = .ok ()) (h : List.Forall₂ (Value.Becomes policy) values es) :
    (toXml policy values).1 =
      match firstForbidden? (eventsOf es) with
      | none => .ok (enclose policy.names.root (childrenText es))
      | some c => .error (.writer (.forbiddenChar c)) := by
  obtain ⟨run, hwalks, -⟩ := Walks.of_becomes h (show ({} : Run).stopped = false from rfl)
  rcases toXml_of_walks hvalid hwalks with ⟨hnone, xml, hxml, hmarkups⟩ | ⟨c, hsome, hxml⟩
  · rw [hnone, hxml, String.toList_inj.1 (hmarkups.trans (toList_enclose _ es).symm)]
  · rw [hsome, hxml]

/-- Items do not know of each other. Values with nothing left to compute, followed by others, can be written exactly if
both lists can, and what stands inside the root is then what stands inside the two roots, one after the other. The error
is otherwise that of the first list that cannot be written. -/
theorem toXml_append (policy : Policy) {vs ws : List Value} (hvs : ∀ v ∈ vs, v.IsSettled) (hws : ∀ w ∈ ws, w.IsSettled) :
    ((∃ xml, (toXml policy (vs ++ ws)).1 = .ok xml) ↔
      (∃ xml, (toXml policy vs).1 = .ok xml) ∧ ∃ xml, (toXml policy ws).1 = .ok xml) ∧
    (∀ xml, (toXml policy (vs ++ ws)).1 = .ok xml → ∃ a b,
      (toXml policy vs).1 = .ok (enclose policy.names.root a) ∧
      (toXml policy ws).1 = .ok (enclose policy.names.root b) ∧ xml = enclose policy.names.root (a ++ b)) ∧
    ∀ error, (toXml policy (vs ++ ws)).1 = .error error →
      (toXml policy vs).1 = .error error ∨
        (∃ xml, (toXml policy vs).1 = .ok xml) ∧ (toXml policy ws).1 = .error error := by
  cases hvalidate : policy.validate with
  | error e =>
    simp only [toXml_of_invalid hvalidate]
    exact ⟨⟨nofun, nofun⟩, nofun, fun _ herror => .inl herror⟩
  | ok _ =>
    obtain ⟨es, hes⟩ := exists_becomes_of_settled policy hvs
    obtain ⟨fs, hfs⟩ := exists_becomes_of_settled policy hws
    have hboth := toXml_of_becomes hvalidate (List.rel_append hes hfs)
    rw [Element.eventsOf_append, firstForbidden?_append, childrenText_append] at hboth
    have hfirst := toXml_of_becomes hvalidate hes
    have hsecond := toXml_of_becomes hvalidate hfs
    cases hes? : firstForbidden? (eventsOf es) with
    | some c =>
      rw [hes?] at hboth hfirst
      rw [hboth, hfirst]
      exact ⟨⟨nofun, nofun⟩, nofun, fun _ herror => .inl herror⟩
    | none =>
      cases hfs? : firstForbidden? (eventsOf fs) with
      | some c =>
        rw [hes?, hfs?] at hboth
        rw [hes?] at hfirst
        rw [hfs?] at hsecond
        rw [hboth, hfirst, hsecond]
        exact ⟨⟨nofun, nofun⟩, nofun, fun _ herror => .inr ⟨⟨_, rfl⟩, herror⟩⟩
      | none =>
        rw [hes?, hfs?] at hboth
        rw [hes?] at hfirst
        rw [hfs?] at hsecond
        rw [hboth, hfirst, hsecond]
        refine ⟨⟨fun _ => ⟨⟨_, rfl⟩, _, rfl⟩, fun _ => ⟨_, rfl⟩⟩, ?_, nofun⟩
        rintro _ ⟨⟩
        exact ⟨_, _, rfl, rfl, rfl⟩

/-- A chain of decorators, which is promoted in each of two items, and an item after them. -/
theorem toXml_append_of_chains :
    ∃ chain : Value,
      chain = .decorated (.decorated (.object "Wheel" [] none) [] false)
        [⟨"mark", none, .ready (.scalar (.string "<"))⟩] false ∧
      (toXml {} ([chain] ++ [chain, .null])).1 = .ok ("<Objects><Object Type=\"Wheel\"><Property Name=\"mark\"" ++
        " Type=\"String\">&lt;</Property></Object><Object Type=\"Wheel\"><Property Name=\"mark\"" ++
        " Type=\"String\">&lt;</Property></Object><Object /></Objects>") ∧
      (∀ v ∈ [chain], v.IsSettled) ∧ (∀ w ∈ [chain, .null], w.IsSettled) ∧
      ((∃ xml, (toXml {} ([chain] ++ [chain, .null])).1 = .ok xml) ↔
        (∃ xml, (toXml {} [chain]).1 = .ok xml) ∧ ∃ xml, (toXml {} [chain, .null]).1 = .ok xml) ∧
      (∀ xml, (toXml {} ([chain] ++ [chain, .null])).1 = .ok xml → ∃ a b,
        (toXml {} [chain]).1 = .ok (enclose "Objects" a) ∧ (toXml {} [chain, .null]).1 = .ok (enclose "Objects" b) ∧
          xml = enclose "Objects" (a ++ b)) ∧
      ∀ error, (toXml {} ([chain] ++ [chain, .null])).1 = .error error →
        (toXml {} [chain]).1 = .error error ∨
          (∃ xml, (toXml {} [chain]).1 = .ok xml) ∧ (toXml {} [chain, .null]).1 = .error error := by
  let chain : Value := .decorated (.decorated (.object "Wheel" [] none) [] false)
    [⟨"mark", none, .ready (.scalar (.string "<"))⟩] false
  have hnull : Value.null.IsSettled := .intro trivial (List.forall_mem_nil _)
  have hmark : (Value.scalar (.string "<")).IsSettled := .intro trivial (List.forall_mem_nil _)
  have hwheel : (Value.object "Wheel" [] none).IsSettled :=
    .intro ⟨List.forall_mem_nil _, nofun⟩ (List.forall_mem_nil _)
  have hinner : (Value.decorated (.object "Wheel" [] none) [] false).IsSettled :=
    .intro (List.forall_mem_nil _) (List.forall_mem_singleton.2 hwheel)
  have hchain : chain.IsSettled :=
    .intro (List.forall_mem_singleton.2 trivial) (List.forall_mem_cons.2 ⟨hinner, List.forall_mem_singleton.2 hmark⟩)
  have hfirst : ∀ v ∈ [chain], v.IsSettled := List.forall_mem_singleton.2 hchain
  have hsecond : ∀ w ∈ [chain, .null], w.IsSettled :=
    List.forall_mem_cons.2 ⟨hchain, List.forall_mem_singleton.2 hnull⟩
  exact ⟨chain, rfl, by decide +kernel, hfirst, hsecond, toXml_append {} hfirst hsecond⟩

end GraphMarkup
