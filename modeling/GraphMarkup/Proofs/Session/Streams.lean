import GraphMarkup.Proofs.Session.Contents

/-!
# What a stream holds

* `Element.markups_level` : without indentation, elements look the same at every nesting level;
* `Session.Lists` : a session in the layout of a stream over elements that have been written;
* `Lists.item`, `Lists.items` : the element of an item is written after the others, up to the first forbidden character;
* `Lists.finished` : the end of the session adds nothing.

A stream is like a document, but that nothing stands around the elements.
-/

namespace GraphMarkup

open Element (eventsOf)

variable {policy : Policy} {values : List Value} {value : Value} {es : List Element} {e : Element} {run run' : Run}
  {w : Walker}

namespace Element

mutual

theorem markup_level (level level' : Nat) : ∀ e : Element, markup none level e = markup none level' e
  | ⟨tag, attributes, text, children⟩ => by
    rw [markup, markup, markups_level (level + 1) (level' + 1) children]
    rfl

/-- Without indentation, elements look the same at every nesting level. -/
theorem markups_level (level level' : Nat) : ∀ es : List Element, markups none level es = markups none level' es
  | [] => rfl
  | e :: es => by rw [markups, markups, markup_level level level' e, markups_level level level' es]

end

end Element

namespace Session

/-- A session in the layout of a stream that has written elements, over a run that is given but for its journal. -/
structure Lists (policy : Policy) (es : List Element) (run : Run) (s : Session (XmlWriter String)) : Prop where
  policy_eq : s.policy = policy
  layout : s.layout = .stream
  phase : s.phase ≠ .poisoned
  writer : Mirrors none ⟨[], es⟩ s.writer
  journaled : ∃ journal, s.run = run.journaled journal
  unmixed : ∀ e ∈ es, e.All Element.Unmixed

namespace Lists

variable {s : Session (XmlWriter String)}

/-- A session that has just been created. -/
theorem created (policy : Policy) (entry : Entry) :
    (({ writer := { out := "" }, policy, layout := .stream } : Session (XmlWriter String)).note entry).Lists
      policy [] {} :=
  ⟨rfl, rfl, Phase.noConfusion, Mirrors.fresh none, ⟨_, rfl⟩, List.forall_mem_nil _⟩

/-- Items are put, and the session ended, as if there had been items before. -/
theorem opened (h : s.Lists policy es run) :
    (∀ run' e nodes, putItem e nodes { s with run := run' } =
        putItem e nodes { s with run := run', phase := .inDocument }) ∧
      finish s = finish { s with phase := .inDocument } := by
  obtain ⟨writer, sessionPolicy, layout, phase, items, run₁⟩ := s
  obtain rfl : layout = .stream := h.layout
  cases phase with
  | poisoned => exact absurd rfl h.phase
  | inDocument => exact ⟨fun _ _ _ => rfl, rfl⟩
  | atRoot => exact ⟨fun _ e nodes => putItem_of_atRoot rfl rfl rfl e nodes, finish_of_atRoot rfl rfl rfl⟩

/-- The element of an item is written, unless it has a character that XML cannot carry. -/
theorem item (hvalid : policy.validate = .ok ()) (h : s.Lists policy es run)
    (hgrow : grow policy value none policy.depth { run } = .ok e w) :
    (firstForbidden? e.events = none ∧ ∃ s', serialize value s = .ok () s' ∧ s'.Lists policy (es ++ [e]) w.run) ∨
      ∃ c s', firstForbidden? e.events = some c ∧ serialize value s = .error (.writer (.forbiddenChar c)) s' := by
  obtain ⟨journal, hgrow'⟩ := grow_eq_of_journaled h.policy_eq h.journaled value
  rw [hgrow] at hgrow'
  have hproper := (grow_yields_proper policy value none policy.depth).of_ok hgrow
  have hunmixed : ∀ e' ∈ es ++ [e], e'.All Element.Unmixed :=
    List.forall_mem_append.2 ⟨h.unmixed, List.forall_mem_singleton.2 (hproper.mono fun _ he => he.unmixed)⟩
  rw [serialize_of_grow_ok h.phase hgrow', h.opened.1, putItem_of_inDocument rfl]
  rcases h.writer.replay_cases (TreeBuilder.replay_events e _) (hproper.tag_ne_empty hvalid).tag_ne_empty_of_mem_events
    ⟨List.forall_mem_nil _, hunmixed⟩ with
    ⟨hnone, writer', hreplay, hmirrors'⟩ | ⟨c, writer', hsome, hreplay⟩
  · rw [hreplay]
    exact .inl ⟨hnone, _, rfl, h.policy_eq, h.layout, by simp, hmirrors', ⟨_, rfl⟩, hunmixed⟩
  · rw [hreplay]
    exact .inr ⟨c, _, hsome, rfl⟩

/-- The elements of items are written, up to the first character that XML cannot carry. -/
theorem items {es' : List Element} (hvalid : policy.validate = .ok ()) (h : s.Lists policy es run)
    (hwalks : Walks policy run values es' run') :
    (firstForbidden? (eventsOf es') = none ∧
        ∃ s', values.forM serialize s = .ok () s' ∧ s'.Lists policy (es ++ es') run') ∨
      ∃ c s', firstForbidden? (eventsOf es') = some c ∧
        values.forM serialize s = .error (.writer (.forbiddenChar c)) s' :=
  items_of_item (fun h => h.item hvalid) h hwalks

/-- The end of the session adds nothing to the elements. -/
theorem finished (h : s.Lists policy es run) :
    ∃ s', finish s = .ok () s' ∧ s'.writer.out.toList = Element.markups none 0 es := by
  obtain ⟨writer, sessionPolicy, layout, phase, items, run₁⟩ := s
  obtain rfl : layout = .stream := h.layout
  refine ⟨_, h.opened.2.trans rfl, ?_⟩
  show writer.out.toList = _
  rw [h.writer.out]
  simp [trimmed, TreeBuilder.markup, TreeBuilder.stackMarkup]

end Lists

end Session

end GraphMarkup
