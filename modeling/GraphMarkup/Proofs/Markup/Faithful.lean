import GraphMarkup.Proofs.Markup.Building
import GraphMarkup.Proofs.Markup.Fragment

/-!
# Markup and trees carry the same information

* `TreeBuilder.markup` : the text that stands for elements under construction;
* `Mirrors` : an XML writer and a tree builder that have taken the same events;
* `Mirrors.put`, `Mirrors.refuse` : what the builder takes, the writer takes too, or refuses for a forbidden character;
* `Mirrors.replay_cases` : a whole run of events keeps the two alike, up to the first forbidden character;
* `IsDocument` : the events of a run that a tree builder takes to its end, within the vocabulary of XML;
* `xml_eq_iff_forest_eq` : two such runs give the same text exactly if they give the same trees.
-/

namespace GraphMarkup

/-! ## The text of elements under construction -/

namespace TreeBuilder

variable (indent : Option Nat)

def openMarkups : List Element → List Char
  | [] => []
  | e :: rest => openMarkups rest ++ e.startMarkup indent rest.length ++
      '>' :: e.textMarkup ++ Element.markups indent (rest.length + 1) e.children

/-- Whether the start tag of the innermost element still lacks its end. -/
def inStartTag : List Element → Bool
  | [] => false
  | e :: _ => e.isEmpty

def stackMarkup : List Element → List Char
  | [] => []
  | e :: rest => openMarkups indent rest ++ e.startMarkup indent rest.length ++
      if e.isEmpty then [] else '>' :: e.textMarkup ++ Element.markups indent (rest.length + 1) e.children

def markup (b : TreeBuilder) : List Char := Element.markups indent 0 b.roots ++ stackMarkup indent b.stack

variable {indent}

theorem openMarkups_eq (stack : List Element) :
    openMarkups indent stack = stackMarkup indent stack ++ if inStartTag stack then ['>'] else [] := by
  cases stack with
  | nil => rfl
  | cons e rest =>
    cases h : e.isEmpty with
    | false => simp [openMarkups, stackMarkup, inStartTag, h]
    | true =>
      obtain ⟨htext, hchildren⟩ : e.text = none ∧ e.children = [] := by simpa [Element.isEmpty] using h
      simp [openMarkups, stackMarkup, inStartTag, h, Element.textMarkup, htext, hchildren, Element.markups]

theorem stackMarkup_ne_nil {stack : List Element} (h : stack ≠ []) : stackMarkup indent stack ≠ [] := by
  cases stack with
  | nil => exact absurd rfl h
  | cons e rest => simp [stackMarkup, Element.startMarkup]

theorem markup_ne_nil {b : TreeBuilder} (h : b.roots ≠ [] ∨ b.stack ≠ []) : b.markup indent ≠ [] := by
  rcases h with h | h
  · cases hroots : b.roots with
    | nil => exact absurd hroots h
    | cons e es => simp [markup, hroots, Element.markups, Element.markup_eq, Element.startMarkup]
  · simp [markup, stackMarkup_ne_nil h]

end TreeBuilder

/-- An element as an XML writer remembers it while it is the innermost. -/
def Element.frame (e : Element) : OpenElement :=
  { tag := e.tag, hasChildren := !e.children.isEmpty, hasText := e.text.isSome }

/-- An element as an XML writer remembers it while a child of it is open. -/
def Element.parentFrame (e : Element) : OpenElement := { tag := e.tag, hasChildren := true, hasText := e.text.isSome }

/-- Open elements, the innermost first, as an XML writer remembers them. -/
def frames : List Element → List OpenElement
  | [] => []
  | e :: rest => e.frame :: rest.map Element.parentFrame

/-- Text without the line break in front of the first element. -/
def trimmed (indent : Option Nat) (cs : List Char) : List Char :=
  match indent with
  | none => cs
  | some _ => cs.tail

theorem trimmed_append {indent : Option Nat} {cs ds : List Char} (h : cs ≠ []) :
    trimmed indent (cs ++ ds) = trimmed indent cs ++ ds := by
  cases indent with
  | none => rfl
  | some width => exact List.tail_append_of_ne_nil h

/-- An XML writer and a tree builder that have taken the same events. -/
structure Mirrors (indent : Option Nat) (b : TreeBuilder) (w : XmlWriter String) : Prop where
  indent_eq : w.indent = indent
  out : w.out.toList = trimmed indent (b.markup indent)
  stack : w.stack = frames b.stack
  startTagOpen : w.startTagOpen = TreeBuilder.inStartTag b.stack
  written : w.written = !(b.roots.isEmpty && b.stack.isEmpty)

namespace Mirrors

variable {indent : Option Nat} {b : TreeBuilder} {w : XmlWriter String}

theorem fresh (indent : Option Nat) : Mirrors indent {} { out := "", indent } := by
  refine ⟨rfl, ?_, rfl, rfl, rfl⟩
  cases indent <;> rfl

theorem toList_tagEnd (h : Mirrors indent b w) :
    w.tagEnd.toList = if TreeBuilder.inStartTag b.stack then ['>'] else [] := by
  rw [XmlWriter.tagEnd, h.startTagOpen]
  split <;> rfl

theorem length_stack (h : Mirrors indent b w) : w.stack.length = b.stack.length := by
  rw [h.stack]
  cases b.stack with
  | nil => rfl
  | cons e rest => simp [frames]

/-- The beginning of a line, once something has been written. -/
theorem toList_breakAt (h : Mirrors indent b w) (hwritten : w.written = true) (level : Nat) :
    (w.breakAt level).toList = lineStart indent level := by
  rw [XmlWriter.breakAt, h.indent_eq, hwritten]
  cases indent with
  | none => rfl
  | some width => simp [lineStart]

/-- The output when an element begins a line. -/
theorem trimmed_child (h : Mirrors indent b w) (x : List Char) :
    trimmed indent (b.markup indent ++ w.tagEnd.toList ++ (lineStart indent b.stack.length ++ '<' :: x)) =
      w.out.toList ++ w.tagEnd.toList ++ (w.breakAt b.stack.length).toList ++ '<' :: x := by
  cases hwritten : w.written with
  | true =>
    have hne : b.markup indent ≠ [] := by
      refine TreeBuilder.markup_ne_nil ?_
      have := h.written.symm.trans hwritten
      by_cases hroots : b.roots = []
      · simpa [hroots] using this
      · exact .inl hroots
    rw [List.append_assoc, trimmed_append hne, ← h.out, h.toList_breakAt hwritten]
    simp
  | false =>
    -- The first line has no break in front of it.
    obtain ⟨stack, roots⟩ := b
    obtain ⟨rfl, rfl⟩ : roots = [] ∧ stack = [] := by simpa using h.written.symm.trans hwritten
    have hout : w.out.toList = [] := by
      rw [h.out]
      cases indent <;> rfl
    have hend : w.tagEnd.toList = [] := h.toList_tagEnd
    rw [hout, hend, XmlWriter.breakAt, h.indent_eq, hwritten]
    cases indent with
    | none => rfl
    | some width => simp [trimmed, lineStart, TreeBuilder.markup, TreeBuilder.stackMarkup, Element.markups]

theorem put_openElement (h : Mirrors indent b w) {tag : String} (htag : tag ≠ "") :
    ∃ w', XmlWriter.put (.openElement tag) w = .ok () w' ∧
      Mirrors indent { b with stack := { tag } :: b.stack } w' := by
  refine ⟨_, XmlWriter.openElement_eq htag, ⟨h.indent_eq, ?_, ?_, rfl, by simp⟩⟩
  · have hmarkup : TreeBuilder.markup indent { b with stack := { tag } :: b.stack } =
        b.markup indent ++ w.tagEnd.toList ++ (lineStart indent b.stack.length ++ '<' :: tag.toList) := by
      rw [TreeBuilder.markup, TreeBuilder.stackMarkup, TreeBuilder.openMarkups_eq, h.toList_tagEnd, TreeBuilder.markup]
      simp [Element.startMarkup, Element.isEmpty]
    rw [hmarkup, h.trimmed_child, h.length_stack]
    simp
  · obtain ⟨stack, roots⟩ := b
    rw [XmlWriter.noteChild, h.stack]
    cases stack with
    | nil => simp [frames, Element.frame, h.stack]
    | cons e rest => simp [frames, Element.frame, Element.parentFrame]

theorem put_attr {e : Element} {rest roots : List Element} (h : Mirrors indent ⟨e :: rest, roots⟩ w)
    (hempty : e.isEmpty) {name value : String} (hvalue : Markup.IsXmlText value) :
    ∃ w', XmlWriter.put (.attr name value) w = .ok () w' ∧
      Mirrors indent ⟨{ e with attributes := e.attributes ++ [(name, value)] } :: rest, roots⟩ w' := by
  have hopen : w.startTagOpen = true := h.startTagOpen.trans hempty
  have hempty' : ({ e with attributes := e.attributes ++ [(name, value)] } : Element).isEmpty := hempty
  refine ⟨_, XmlWriter.attr_eq hopen (Markup.escape_eq_ok hvalue),
    ⟨h.indent_eq, ?_, h.stack, h.startTagOpen, h.written⟩⟩
  have hmarkup : TreeBuilder.markup indent ⟨{ e with attributes := e.attributes ++ [(name, value)] } :: rest, roots⟩ =
      TreeBuilder.markup indent ⟨e :: rest, roots⟩ ++ attributeMarkup (name, value) := by
    simp only [TreeBuilder.markup, TreeBuilder.stackMarkup, if_pos hempty, if_pos hempty']
    simp [Element.startMarkup]
  rw [hmarkup, trimmed_append (TreeBuilder.markup_ne_nil (by simp)), ← h.out]
  simp [attributeMarkup]

theorem put_text {e : Element} {rest roots : List Element} (h : Mirrors indent ⟨e :: rest, roots⟩ w)
    (hchildren : e.children = []) {content : String} (hcontent : Markup.IsXmlText content) :
    ∃ w', XmlWriter.put (.text content) w = .ok () w' ∧
      Mirrors indent ⟨{ e with text := some (e.text.getD "" ++ content) } :: rest, roots⟩ w' := by
  refine ⟨_, XmlWriter.text_eq h.stack (Markup.escape_eq_ok hcontent), ⟨h.indent_eq, ?_, rfl, rfl, h.written⟩⟩
  have hmarkup : TreeBuilder.markup indent ⟨{ e with text := some (e.text.getD "" ++ content) } :: rest, roots⟩ =
      TreeBuilder.markup indent ⟨e :: rest, roots⟩ ++
        (w.tagEnd.toList ++ content.toList.flatMap (Markup.escapeChar .content)) := by
    rw [h.toList_tagEnd]
    cases htext : e.text with
    | none =>
      simp [TreeBuilder.markup, TreeBuilder.stackMarkup, TreeBuilder.inStartTag, Element.isEmpty, htext, hchildren,
        Element.startMarkup, Element.textMarkup, Element.markups]
    | some text =>
      simp [TreeBuilder.markup, TreeBuilder.stackMarkup, TreeBuilder.inStartTag, Element.isEmpty, htext, hchildren,
        Element.startMarkup, Element.textMarkup, Element.markups]
  rw [hmarkup, trimmed_append (TreeBuilder.markup_ne_nil (by simp)), ← h.out]
  simp

theorem toList_endOf {e : Element} {rest roots : List Element} (h : Mirrors indent ⟨e :: rest, roots⟩ w) :
    (if e.isEmpty then [] else '>' :: e.textMarkup ++ Element.markups indent (rest.length + 1) e.children) ++
      (w.endOf e.frame rest.length).toList = e.bodyMarkup indent rest.length := by
  have hwritten : w.written = true := by simpa using h.written
  have hopen : w.startTagOpen = e.isEmpty := h.startTagOpen
  rw [XmlWriter.endOf, hopen]
  by_cases hempty : e.isEmpty
  · simp [Element.bodyMarkup, hempty]
  · simp only [Element.bodyMarkup, hempty, Element.endMarkup, Element.frame]
    by_cases htext : e.text = none
    · have hchildren : e.children ≠ [] := by simpa [Element.isEmpty, htext] using hempty
      simp [htext, hchildren, h.toList_breakAt hwritten]
    · have hsome : e.text.isSome := Option.isSome_iff_ne_none.2 htext
      simp [htext, hsome]

/-- The output when the innermost element has been closed. -/
theorem trimmed_closed {e : Element} {rest roots : List Element} (h : Mirrors indent ⟨e :: rest, roots⟩ w) :
    trimmed indent
        (Element.markups indent 0 roots ++ TreeBuilder.openMarkups indent rest ++ e.markup indent rest.length) =
      (w.out ++ w.endOf e.frame rest.length).toList := by
  have hmarkup : Element.markups indent 0 roots ++ TreeBuilder.openMarkups indent rest ++ e.markup indent rest.length =
      TreeBuilder.markup indent ⟨e :: rest, roots⟩ ++ (w.endOf e.frame rest.length).toList := by
    rw [Element.markup_eq, ← h.toList_endOf]
    simp [TreeBuilder.markup, TreeBuilder.stackMarkup]
  rw [hmarkup, trimmed_append (TreeBuilder.markup_ne_nil (by simp)), ← h.out, String.toList_append]

theorem put_closeElement_of_parent {e parent : Element} {rest roots : List Element}
    (h : Mirrors indent ⟨e :: parent :: rest, roots⟩ w) :
    ∃ w', XmlWriter.put .closeElement w = .ok () w' ∧
      Mirrors indent ⟨{ parent with children := parent.children ++ [e] } :: rest, roots⟩ w' := by
  refine ⟨_, XmlWriter.closeElement_eq h.stack, ⟨h.indent_eq, ?_, ?_, ?_, h.written⟩⟩
  · have hmarkup : TreeBuilder.markup indent ⟨{ parent with children := parent.children ++ [e] } :: rest, roots⟩ =
        Element.markups indent 0 roots ++ TreeBuilder.openMarkups indent (parent :: rest) ++
          e.markup indent (parent :: rest).length := by
      simp [TreeBuilder.markup, TreeBuilder.stackMarkup, TreeBuilder.openMarkups, Element.isEmpty, Element.startMarkup,
        Element.textMarkup, Element.markups_append, Element.markups]
    rw [hmarkup, h.trimmed_closed, List.length_map]
  · simp [frames, Element.frame, Element.parentFrame]
  · simp [TreeBuilder.inStartTag, Element.isEmpty]

theorem put_closeElement_of_root {e : Element} {roots : List Element} (h : Mirrors indent ⟨[e], roots⟩ w) :
    ∃ w', XmlWriter.put .closeElement w = .ok () w' ∧ Mirrors indent ⟨[], roots ++ [e]⟩ w' := by
  refine ⟨_, XmlWriter.closeElement_eq h.stack, ⟨h.indent_eq, ?_, rfl, rfl, ?_⟩⟩
  · have hmarkup : TreeBuilder.markup indent ⟨[], roots ++ [e]⟩ =
        Element.markups indent 0 roots ++ TreeBuilder.openMarkups indent [] ++
          e.markup indent ([] : List Element).length := by
      simp [TreeBuilder.markup, TreeBuilder.stackMarkup, TreeBuilder.openMarkups, Element.markups_append,
        Element.markups]
    rw [hmarkup, h.trimmed_closed]
    rfl
  · rw [h.written]
    cases roots <;> rfl

/-- What a tree builder takes, an XML writer takes too, as long as no tag is empty, character data is such as XML can
carry, and no element mixes text with children. -/
theorem put {event : Event} {b' : TreeBuilder} (h : Mirrors indent b w) (htakes : TreeBuilder.Takes event b b')
    (htag : ∀ tag, event = .openElement tag → tag ≠ "") (hwritable : event.IsWritable)
    (hunmixed : b'.Each Element.Unmixed) :
    ∃ w', XmlWriter.put event w = .ok () w' ∧ Mirrors indent b' w' := by
  cases htakes with
  | openElement tag stack roots => exact h.put_openElement (htag tag rfl)
  | attr name value e rest roots empty => exact h.put_attr empty hwritable
  | text content e rest roots =>
    have hchildren : e.children = [] := (hunmixed.1 _ (List.mem_cons_self ..)).here.resolve_left (by simp)
    exact h.put_text hchildren hwritable
  | closeChild e parent rest roots => exact h.put_closeElement_of_parent
  | closeRoot e roots => exact h.put_closeElement_of_root

/-- What a tree builder takes, an XML writer refuses for the first forbidden character if there is one. -/
theorem refuse {event : Event} {b' : TreeBuilder} (h : Mirrors indent b w) (htakes : TreeBuilder.Takes event b b')
    {c : Char} (hc : (event.data.find? fun c => !Markup.isXmlChar c) = some c) :
    XmlWriter.put event w = .error (.writer (.forbiddenChar c)) w := by
  cases htakes with
  | openElement | closeChild | closeRoot => cases hc
  | attr name value e rest roots empty =>
    exact XmlWriter.attr_eq_error (h.startTagOpen.trans empty) (Markup.escape_eq_error_of_find? .attrValue hc)
  | text content e rest roots => exact XmlWriter.text_eq_error h.stack (Markup.escape_eq_error_of_find? .content hc)

/-- Of what a tree builder takes, an XML writer takes all, or everything up to the first forbidden character. -/
theorem replay_cases {events : List Event} {b' : TreeBuilder} (h : Mirrors indent b w)
    (hreplay : Writer.replay events b = .ok () b') (htags : ∀ tag, .openElement tag ∈ events → tag ≠ "")
    (hunmixed : b'.Each Element.Unmixed) :
    (firstForbidden? events = none ∧ ∃ w', Writer.replay events w = .ok () w' ∧ Mirrors indent b' w') ∨
      ∃ c w', firstForbidden? events = some c ∧
        Writer.replay events w = .error (.writer (.forbiddenChar c)) w' := by
  induction events generalizing b w with
  | nil =>
    cases hreplay
    exact .inl ⟨rfl, w, rfl, h⟩
  | cons event events ih =>
    obtain ⟨b₁, hput, hrest⟩ := Writer.exists_of_replay_cons hreplay
    have htakes := TreeBuilder.takes_of_put hput
    rw [firstForbidden?_cons]
    cases hfind : event.data.find? fun c => !Markup.isXmlChar c with
    | some c => exact .inr ⟨c, w, rfl, Writer.replay_cons_of_error (h.refuse htakes hfind)⟩
    | none =>
      have hwritable : event.IsWritable := Event.isWritable_iff.2 fun c hc => by simpa using List.find?_eq_none.1 hfind c hc
      -- No later event unmixes an element, so that the elements are unmixed in between as well.
      obtain ⟨w₁, hw₁, h₁⟩ := h.put htakes (fun tag htag => htags tag (htag ▸ List.mem_cons_self ..)) hwritable
        (TreeBuilder.unmixed_of_replay hrest hunmixed)
      rw [Writer.replay_cons_of_ok hw₁, Option.none_or]
      exact ih h₁ hrest fun tag htag => htags tag (List.mem_cons_of_mem _ htag)

end Mirrors

/-! ## Equal text, equal trees -/

/-- The line break in front of the first element tells nothing. -/
theorem trimmed_markups_inj {indent : Option Nat} {es es' : List Element}
    (h : trimmed indent (Element.markups indent 0 es) = trimmed indent (Element.markups indent 0 es')) :
    Element.markups indent 0 es = Element.markups indent 0 es' := by
  cases indent with
  | none => exact h
  | some width =>
    have hhead : ∀ es, Element.markups (some width) 0 es = [] ∨
        Element.markups (some width) 0 es = '\n' :: '<' :: (Element.markups (some width) 0 es).tail.tail := by
      rintro (_ | ⟨e, es⟩)
      · exact .inl rfl
      · exact .inr (by simp [Element.markups, Element.markup_eq, Element.startMarkup, lineStart])
    simp only [trimmed] at h
    rcases hhead es with hes | hes <;> rcases hhead es' with hes' | hes'
    · rw [hes, hes']
    · rw [hes, hes'] at h
      cases h
    · rw [hes, hes'] at h
      cases h
    · rw [hes, hes', h]

/-- The events of a whole run that build trees within the vocabulary of XML: a fresh tree builder takes all of them
and is left with no element open, names are names, character data is such as XML can carry, and no element mixes
text with children. -/
structure IsDocument (events : List Event) (forest : List Element) : Prop where
  built : ∃ b, Writer.replay events ({} : TreeBuilder) = .ok () b ∧ b.finish = .ok forest
  plain : ∀ event ∈ events, event.IsPlain
  unmixed : ∀ e ∈ forest, e.All Element.Unmixed

theorem Event.IsPlain.isWritable {event : Event} (h : event.IsPlain) : event.IsWritable := by
  cases event with
  | attr name value => exact h.2
  | text content => exact h
  | openElement | closeElement => trivial

namespace IsDocument

variable {events : List Event} {forest : List Element}

theorem replay_eq (h : IsDocument events forest) : Writer.replay events ({} : TreeBuilder) = .ok () ⟨[], forest⟩ := by
  obtain ⟨⟨stack, roots⟩, hreplay, hfinish⟩ := h.built
  cases stack with
  | nil =>
    cases hfinish
    exact hreplay
  | cons e rest => cases hfinish

theorem legible (h : IsDocument events forest) : ∀ e ∈ forest, e.All Element.Legible :=
  TreeBuilder.legible_of_replay h.replay_eq h.plain h.unmixed

/-- The text of a document is the markup of its trees. -/
theorem written (h : IsDocument events forest) (indent : Option Nat) :
    ∃ w : XmlWriter String, Writer.replay events { out := "", indent } = .ok () w ∧
      w.out.toList = trimmed indent (Element.markups indent 0 forest) := by
  have htags : ∀ tag, .openElement tag ∈ events → tag ≠ "" := fun tag htag => (h.plain _ htag).1
  have hnone : firstForbidden? events = none :=
    firstForbidden?_eq_none_iff.2 fun event hevent => (h.plain event hevent).isWritable
  rcases (Mirrors.fresh indent).replay_cases h.replay_eq htags ⟨by simp, h.unmixed⟩ with
    ⟨-, w, hw, hmirrors⟩ | ⟨c, w, hsome, -⟩
  · refine ⟨w, hw, ?_⟩
    rw [hmirrors.out]
    simp [TreeBuilder.markup, TreeBuilder.stackMarkup]
  · cases hnone.symm.trans hsome

end IsDocument

/-- XML text and element trees carry the same information: two documents, written with the same indentation, have the
same text exactly if they have the same trees. -/
theorem xml_eq_iff_forest_eq (indent : Option Nat) {events events' : List Event} {forest forest' : List Element}
    (h : IsDocument events forest) (h' : IsDocument events' forest') :
    ∃ w w' : XmlWriter String, Writer.replay events { out := "", indent } = .ok () w ∧
      Writer.replay events' { out := "", indent } = .ok () w' ∧ (w.out = w'.out ↔ forest = forest') := by
  obtain ⟨w, hw, hout⟩ := h.written indent
  obtain ⟨w', hw', hout'⟩ := h'.written indent
  refine ⟨w, w', hw, hw', ?_, ?_⟩
  · intro heq
    have hmarkups := trimmed_markups_inj (hout.symm.trans ((congrArg String.toList heq).trans hout'))
    exact Element.markups_injective h.legible h'.legible hmarkups
  · rintro rfl
    exact String.toList_inj.1 (hout.trans hout'.symm)

/-- Text in two pieces and the same text in one, and an attribute that needs references. -/
theorem xml_eq_of_text_in_pieces :
    ∃ w w' : XmlWriter String,
      Writer.replay [.openElement "a", .attr "n" "\"<", .openElement "b", .text "1 <", .text "\n 2", .closeElement,
        .closeElement] { out := "", indent := some 2 } = .ok () w ∧
      Writer.replay [.openElement "a", .attr "n" "\"<", .openElement "b", .text "1 <\n 2", .closeElement,
        .closeElement] { out := "", indent := some 2 } = .ok () w' ∧
      (w.out = w'.out ↔ [(⟨"a", [("n", "\"<")], none, [⟨"b", [], some "1 <\n 2", []⟩]⟩ : Element)] =
        [⟨"a", [("n", "\"<")], none, [⟨"b", [], some "1 <\n 2", []⟩]⟩]) := by
  have hunmixed : ∀ e ∈ [(⟨"a", [("n", "\"<")], none, [⟨"b", [], some "1 <\n 2", []⟩]⟩ : Element)],
      e.All Element.Unmixed := by
    refine List.forall_mem_singleton.2 (.intro (.inl rfl) (List.forall_mem_singleton.2 (.intro (.inr rfl) ?_)))
    simp
  refine xml_eq_iff_forest_eq (some 2) ⟨⟨_, rfl, rfl⟩, ?_, hunmixed⟩ ⟨⟨_, rfl, rfl⟩, ?_, hunmixed⟩
  · decide
  · decide

end GraphMarkup
