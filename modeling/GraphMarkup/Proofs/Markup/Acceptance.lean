import GraphMarkup.Proofs.Markup.Faithful
import GraphMarkup.Proofs.Markup.Forest

/-!
# Which calls writers accept

* `Output.NeverFails` : an output that takes every piece, now and later;
* `XmlWriter.OnlyEmits` : a step that does nothing but hand text to such an output;
* `WriterCall`, `Writer.trace` : calls made one after another, also after one that has been refused;
* `InStep` : three writers that have as many elements open, and are in a start tag or not together;
* `writers_accept_alike` : over the same calls, an XML writer, a recorder and a tree builder give the same outcomes.

Whether an attribute is in place is told by a flag, by the last event, or by an element that is still empty. These agree
in every state that the three can reach, since a refused call changes none of them.
-/

namespace GraphMarkup

/-! ## Outputs that never fail -/

namespace Output

variable {ο : Type} [Output ο] {out : ο}

/-- An output that takes every piece and can always be flushed, whatever has been handed to it before. -/
def NeverFails (out : ο) : Prop :=
  ∃ safe : ο → Prop, safe out ∧ ∀ o, safe o →
    (∀ piece, ∃ o', Output.write piece o = .ok () o' ∧ safe o') ∧ ∃ o', Output.flush o = .ok () o' ∧ safe o'

theorem NeverFails.write (h : NeverFails out) (piece : String) :
    ∃ out', Output.write piece out = .ok () out' ∧ NeverFails out' := by
  obtain ⟨safe, hout, hsafe⟩ := h
  obtain ⟨out', hwrite, hout'⟩ := (hsafe out hout).1 piece
  exact ⟨out', hwrite, safe, hout', hsafe⟩

theorem NeverFails.flush (h : NeverFails out) : ∃ out', Output.flush out = .ok () out' ∧ NeverFails out' := by
  obtain ⟨safe, hout, hsafe⟩ := h
  obtain ⟨out', hflush, hout'⟩ := (hsafe out hout).2
  exact ⟨out', hflush, safe, hout', hsafe⟩

theorem neverFails_string (out : String) : NeverFails out :=
  ⟨fun _ => True, trivial, fun o _ => ⟨fun piece => ⟨o ++ piece, rfl, trivial⟩, o, rfl, trivial⟩⟩

end Output

open Output (NeverFails)

/-- A sink without a limit and without a fault to report never fails. -/
theorem Sink.neverFails {sink : Sink} (hroom : sink.room = none) (hflush : sink.flushFault = none) :
    NeverFails sink := by
  refine ⟨fun s => s.room = none ∧ s.flushFault = none, ⟨hroom, hflush⟩, fun s hs => ⟨fun piece => ?_, s, ?_, hs⟩⟩
  · refine ⟨{ s with received := s.received ++ piece.toUTF8 }, ?_, hs⟩
    show Sink.write piece s = _
    simp only [Sink.write, hs.1]
  · show Sink.flush s = _
    simp only [Sink.flush, hs.2]

/-! ## XML writers over such outputs -/

namespace XmlWriter

variable {ο : Type} [Output ο] {w : XmlWriter ο}

/-- A step that hands text to the output, does nothing else, and comes to an end if the output never fails. -/
def OnlyEmits (step : EStateM Error (XmlWriter ο) Unit) : Prop :=
  ∀ w, NeverFails w.out → ∃ out, step w = .ok () { w with out } ∧ NeverFails out

theorem onlyEmits_pure : OnlyEmits (pure () : EStateM Error (XmlWriter ο) Unit) := fun w hw => ⟨w.out, rfl, hw⟩

theorem onlyEmits_emit (piece : String) : OnlyEmits (emit (ο := ο) piece) := by
  intro w hw
  obtain ⟨out, hwrite, hout⟩ := hw.write piece
  refine ⟨out, ?_, hout⟩
  simp only [emit, hwrite]

theorem OnlyEmits.bind {step later : EStateM Error (XmlWriter ο) Unit} (h : OnlyEmits step) (h' : OnlyEmits later) :
    OnlyEmits (do step; later) := by
  intro w hw
  obtain ⟨out, hstep, hout⟩ := h w hw
  obtain ⟨out', hlater, hout'⟩ := h' { w with out } hout
  exact ⟨out', (bind_of_ok hstep).trans hlater, hout'⟩

theorem OnlyEmits.get {k : XmlWriter ο → EStateM Error (XmlWriter ο) Unit} (hk : ∀ w, OnlyEmits (k w)) :
    OnlyEmits (MonadState.get >>= k) := fun w hw => hk w w hw

theorem onlyEmits_spaces (n : Nat) : OnlyEmits (spaces (ο := ο) n) := by
  induction n with
  | zero => exact onlyEmits_pure
  | succ n ih => exact (onlyEmits_emit " ").bind ih

theorem onlyEmits_newline (level : Nat) : OnlyEmits (newline (ο := ο) level) := by
  refine OnlyEmits.get fun w => ?_
  cases w.indent with
  | none => exact onlyEmits_pure
  | some width =>
    refine OnlyEmits.get fun w => ?_
    by_cases hwritten : w.written
    · rw [if_pos hwritten]
      exact (onlyEmits_emit "\n").bind (onlyEmits_spaces _)
    · rw [if_neg hwritten]
      exact onlyEmits_spaces _

theorem finishStartTag_of_neverFails (hw : NeverFails w.out) :
    ∃ out, finishStartTag w = .ok () { w with out, startTagOpen := false } ∧ NeverFails out := by
  rw [finishStartTag, get_bind]
  by_cases hopen : w.startTagOpen
  · obtain ⟨out, hemit, hout⟩ := onlyEmits_emit ">" w hw
    refine ⟨out, ?_, hout⟩
    rw [if_pos hopen, bind_of_ok hemit]
    rfl
  · obtain ⟨out, stack, startTagOpen, indent, written⟩ := w
    obtain rfl : startTagOpen = false := Bool.eq_false_iff.2 hopen
    exact ⟨out, rfl, hw⟩

theorem openElement_of_neverFails (hw : NeverFails w.out) {tag : String} (htag : tag ≠ "") :
    ∃ w', openElement tag w = .ok () w' ∧ NeverFails w'.out ∧ w'.stack.length = w.stack.length + 1 ∧
      w'.startTagOpen = true := by
  have hempty : tag.isEmpty = false := by simpa [String.isEmpty_iff] using htag
  obtain ⟨out₁, hfinish, hout₁⟩ := finishStartTag_of_neverFails hw
  simp only [openElement, hempty, Bool.false_eq_true, if_false]
  rw [bind_of_ok hfinish, modify_bind, get_bind]
  have hnote : ∀ w : XmlWriter ο, w.noteChild.out = w.out ∧ w.noteChild.stack.length = w.stack.length := by
    rintro ⟨out, _ | ⟨e, rest⟩, startTagOpen, indent, written⟩ <;> exact ⟨rfl, rfl⟩
  obtain ⟨hnoteOut, hnoteStack⟩ := hnote { w with out := out₁, startTagOpen := false }
  generalize noteChild { w with out := out₁, startTagOpen := false } = w₁ at hnoteOut hnoteStack ⊢
  obtain ⟨out₂, hline, hout₂⟩ := onlyEmits_newline w₁.stack.length w₁ (hnoteOut ▸ hout₁)
  obtain ⟨out₃, hemit, hout₃⟩ := onlyEmits_emit ("<" ++ tag) { w₁ with out := out₂ } hout₂
  rw [bind_of_ok hline, bind_of_ok hemit]
  exact ⟨_, rfl, hout₃, congrArg (· + 1) hnoteStack, rfl⟩

theorem attr_of_neverFails (hw : NeverFails w.out) (hopen : w.startTagOpen = true) (name : String) {value : String}
    (hvalue : Markup.IsXmlText value) :
    ∃ out, attr name value w = .ok () { w with out } ∧ NeverFails out := by
  obtain ⟨out, stack, startTagOpen, indent, written⟩ := w
  obtain rfl : startTagOpen = true := hopen
  simp only [attr, escaped, Markup.escape_eq_ok hvalue]
  exact onlyEmits_emit _ ⟨out, stack, true, indent, written⟩ hw

theorem text_of_neverFails (hw : NeverFails w.out) {e : OpenElement} {rest : List OpenElement}
    (hstack : w.stack = e :: rest) {content : String} (hcontent : Markup.IsXmlText content) :
    ∃ w', text content w = .ok () w' ∧ NeverFails w'.out ∧ w'.stack.length = w.stack.length ∧
      w'.startTagOpen = false := by
  obtain ⟨out, stack, startTagOpen, indent, written⟩ := w
  obtain rfl : stack = e :: rest := hstack
  obtain ⟨out₁, hfinish, hout₁⟩ := finishStartTag_of_neverFails
    (w := ⟨out, { e with hasText := true } :: rest, startTagOpen, indent, written⟩) hw
  obtain ⟨out₂, hemit, hout₂⟩ := onlyEmits_emit
    (String.ofList (content.toList.flatMap (Markup.escapeChar .content)))
    ⟨out₁, { e with hasText := true } :: rest, false, indent, written⟩ hout₁
  refine ⟨⟨out₂, { e with hasText := true } :: rest, false, indent, written⟩, ?_, hout₂, rfl, rfl⟩
  simp only [text, escaped, Markup.escape_eq_ok hcontent]
  exact (bind_of_ok hfinish).trans hemit

theorem closeElement_of_neverFails (hw : NeverFails w.out) {e : OpenElement} {rest : List OpenElement}
    (hstack : w.stack = e :: rest) :
    ∃ out, closeElement w = .ok () { w with out, stack := rest, startTagOpen := false } ∧ NeverFails out := by
  obtain ⟨out, stack, startTagOpen, indent, written⟩ := w
  obtain rfl : stack = e :: rest := hstack
  cases startTagOpen with
  | true =>
    obtain ⟨out', hemit, hout'⟩ := onlyEmits_emit " />" ⟨out, rest, true, indent, written⟩ hw
    exact ⟨out', (bind_of_ok hemit).trans rfl, hout'⟩
  | false =>
    have hend : OnlyEmits (ο := ο) (do
        if e.hasChildren && !e.hasText then newline rest.length
        emit ("</" ++ e.tag ++ ">")) := by
      by_cases hline : e.hasChildren && !e.hasText
      · simp only [if_pos hline]
        exact (onlyEmits_newline _).bind (onlyEmits_emit _)
      · simp only [if_neg hline]
        exact onlyEmits_emit _
    exact hend ⟨out, rest, false, indent, written⟩ hw

end XmlWriter

/-! ## Calls -/

/-- A call on a writer. -/
inductive WriterCall where
  | put (event : Event)
  | flush
  deriving DecidableEq, Repr

/-- A call without an empty tag and without a character that XML cannot carry. It may be out of place. -/
def WriterCall.IsFit : WriterCall → Prop
  | .put (.openElement tag) => tag ≠ ""
  | .put (.attr _ value) => Markup.IsXmlText value
  | .put (.text content) => Markup.IsXmlText content
  | .put .closeElement | .flush => True

instance : (call : WriterCall) → Decidable call.IsFit
  | .put (.openElement tag) => inferInstanceAs (Decidable (tag ≠ ""))
  | .put (.attr _ value) => inferInstanceAs (Decidable (Markup.IsXmlText value))
  | .put (.text content) => inferInstanceAs (Decidable (Markup.IsXmlText content))
  | .put .closeElement | .flush => inferInstanceAs (Decidable True)

namespace Writer

variable {ω γ : Type} [Writer ω]

def perform : WriterCall → EStateM Error ω Unit
  | .put event => put event
  | .flush => flush

/-- Makes calls one after another, whether they are refused or not, and tells after each of them how it went and what
is then seen of the writer. -/
def trace (view : ω → γ) : List WriterCall → ω → List (Except Error Unit × γ)
  | [], _ => []
  | call :: calls, w =>
    match perform call w with
    | .ok _ w => (.ok (), view w) :: trace view calls w
    | .error e w => (.error e, view w) :: trace view calls w

variable {view : ω → γ} {call : WriterCall} {w w' : ω}

theorem trace_cons_of_ok (h : perform call w = .ok () w') (calls : List WriterCall) :
    trace view (call :: calls) w = (.ok (), view w') :: trace view calls w' := by
  rw [trace, h]

theorem trace_cons_of_error {e : Error} (h : perform call w = .error e w') (calls : List WriterCall) :
    trace view (call :: calls) w = (.error e, view w') :: trace view calls w' := by
  rw [trace, h]

end Writer

/-! ## Writers in step -/

section

variable {ο : Type} [Output ο] {w : XmlWriter ο} {r : Recorder} {b : TreeBuilder}

/-- Three writers with as many elements open, all in a start tag or none of them. -/
structure InStep (w : XmlWriter ο) (r : Recorder) (b : TreeBuilder) : Prop where
  out : NeverFails w.out
  length_stack : w.stack.length = b.stack.length
  depth : r.depth = b.stack.length
  startTagOpen : w.startTagOpen = TreeBuilder.inStartTag b.stack
  inStartTag : r.inStartTag = TreeBuilder.inStartTag b.stack

/-- Three writers take a call and are in step after it, or refuse it for the same reason and stay as they are. -/
def AnswerAlike (call : WriterCall) (w : XmlWriter ο) (r : Recorder) (b : TreeBuilder) : Prop :=
  (∃ w' r' b', Writer.perform call w = .ok () w' ∧ Writer.perform call r = .ok () r' ∧
    Writer.perform call b = .ok () b' ∧ InStep w' r' b') ∨
  ∃ e, Writer.perform call w = .error e w ∧ Writer.perform call r = .error e r ∧ Writer.perform call b = .error e b

namespace InStep

theorem fresh {out : ο} (hout : NeverFails out) (indent : Option Nat) :
    InStep { out, indent } {} {} := ⟨hout, rfl, rfl, rfl, rfl⟩

theorem openElement (h : InStep w r b) {tag : String} (htag : tag ≠ "") :
    AnswerAlike (.put (.openElement tag)) w r b := by
  obtain ⟨w', hw', hout, hlength, hopen⟩ := XmlWriter.openElement_of_neverFails h.out htag
  refine .inl ⟨w', r.push (.openElement tag), _, hw', rfl, rfl, hout, ?_, ?_, hopen, ?_⟩
  · exact hlength.trans (congrArg (· + 1) h.length_stack)
  · exact congrArg (· + 1) h.depth
  · simp [Recorder.push, Recorder.inStartTag, TreeBuilder.inStartTag, Element.isEmpty]

theorem attr (h : InStep w r b) (name : String) {value : String} (hvalue : Markup.IsXmlText value) :
    AnswerAlike (.put (.attr name value)) w r b := by
  obtain ⟨stack, roots⟩ := b
  cases hstart : TreeBuilder.inStartTag stack with
  | true =>
    obtain ⟨e, rest, rfl, hempty⟩ : ∃ e rest, stack = e :: rest ∧ e.isEmpty = true := by
      cases stack with
      | nil => cases hstart
      | cons e rest => exact ⟨e, rest, rfl, hstart⟩
    obtain ⟨out, hw', hout⟩ := XmlWriter.attr_of_neverFails h.out (h.startTagOpen.trans hstart) name hvalue
    have hr : r.inStartTag = true := h.inStartTag.trans hstart
    refine .inl ⟨_, _, _, hw', Recorder.put_attr hr, if_pos hempty, hout, h.length_stack, h.depth, h.startTagOpen, ?_⟩
    exact (Recorder.inStartTag_push_attr r name value).trans hstart.symm
  | false =>
    have hopen : w.startTagOpen = false := h.startTagOpen.trans hstart
    refine .inr ⟨.writer (.strayAttribute name), XmlWriter.attr_eq_stray hopen, if_neg ?_, ?_⟩
    · exact Bool.eq_false_iff.1 (h.inStartTag.trans hstart)
    · cases stack with
      | nil => rfl
      | cons e rest => exact if_neg (Bool.eq_false_iff.1 hstart)

theorem text (h : InStep w r b) {content : String} (hcontent : Markup.IsXmlText content) :
    AnswerAlike (.put (.text content)) w r b := by
  obtain ⟨stack, roots⟩ := b
  cases stack with
  | nil =>
    have hstack : w.stack = [] := List.length_eq_zero_iff.1 h.length_stack
    exact .inr ⟨.writer .strayText, XmlWriter.text_eq_stray hstack, if_pos h.depth, rfl⟩
  | cons e rest =>
    obtain ⟨frame, frames, hstack⟩ := List.exists_cons_of_length_eq_add_one h.length_stack
    obtain ⟨w', hw', hout, hlength, hopen⟩ := XmlWriter.text_of_neverFails h.out hstack hcontent
    have hr : r.depth ≠ 0 := h.depth ▸ Nat.succ_ne_zero _
    refine .inl ⟨w', _, _, hw', Recorder.put_text hr, rfl, hout, hlength.trans h.length_stack, h.depth, hopen, ?_⟩
    simp [Recorder.push, Recorder.inStartTag, TreeBuilder.inStartTag, Element.isEmpty]

theorem closeElement (h : InStep w r b) : AnswerAlike (.put .closeElement) w r b := by
  obtain ⟨stack, roots⟩ := b
  cases stack with
  | nil =>
    have hstack : w.stack = [] := List.length_eq_zero_iff.1 h.length_stack
    exact .inr ⟨.writer .strayClose, XmlWriter.closeElement_eq_stray hstack, if_pos h.depth, rfl⟩
  | cons e rest =>
    obtain ⟨frame, frames, hstack⟩ := List.exists_cons_of_length_eq_add_one h.length_stack
    obtain ⟨out, hw', hout⟩ := XmlWriter.closeElement_of_neverFails h.out hstack
    have hr : r.depth ≠ 0 := h.depth ▸ Nat.succ_ne_zero _
    have hlength : frames.length = rest.length := Nat.succ.inj ((congrArg List.length hstack).symm.trans h.length_stack)
    have hdepth : (r.push .closeElement).depth = rest.length := by
      show r.depth - 1 = _
      rw [h.depth, List.length_cons, Nat.add_sub_cancel]
    have hlast : (r.push .closeElement).inStartTag = false := by simp [Recorder.push, Recorder.inStartTag]
    cases rest with
    | nil => exact .inl ⟨_, _, _, hw', Recorder.put_closeElement hr, rfl, hout, hlength, hdepth, rfl, hlast⟩
    | cons parent rest =>
      -- A parent has a child now, and is no longer empty.
      have hparent : Element.isEmpty { parent with children := parent.children ++ [e] } = false := by
        simp [Element.isEmpty]
      exact .inl ⟨_, _, _, hw', Recorder.put_closeElement hr, rfl, hout, hlength, hdepth, hparent.symm,
        hlast.trans hparent.symm⟩

theorem flush (h : InStep w r b) : AnswerAlike .flush w r b := by
  obtain ⟨out, hflush, hout⟩ := h.out.flush
  refine .inl ⟨{ w with out }, r, b, ?_, rfl, rfl, hout, h.length_stack, h.depth, h.startTagOpen, h.inStartTag⟩
  show XmlWriter.flush w = _
  simp only [XmlWriter.flush, hflush]

/-- Writers in step answer a call alike. -/
theorem perform (h : InStep w r b) {call : WriterCall} (hcall : call.IsFit) : AnswerAlike call w r b := by
  cases call with
  | put event =>
    cases event with
    | openElement tag => exact h.openElement hcall
    | attr name value => exact h.attr name hcall
    | text content => exact h.text hcall
    | closeElement => exact h.closeElement
  | flush => exact h.flush

/-- Writers in step stay in step over any calls, refused ones included. -/
theorem trace (h : InStep w r b) {calls : List WriterCall} (hcalls : ∀ call ∈ calls, call.IsFit) :
    Writer.trace (fun w => w.stack.length) calls w = Writer.trace Recorder.depth calls r ∧
      Writer.trace Recorder.depth calls r = Writer.trace (fun b => b.stack.length) calls b := by
  induction calls generalizing w r b with
  | nil => exact ⟨rfl, rfl⟩
  | cons call calls ih =>
    obtain ⟨hcall, hcalls⟩ := List.forall_mem_cons.1 hcalls
    rcases h.perform hcall with ⟨w', r', b', hw, hr, hb, h'⟩ | ⟨e, hw, hr, hb⟩
    · rw [Writer.trace_cons_of_ok hw, Writer.trace_cons_of_ok hr, Writer.trace_cons_of_ok hb, h'.length_stack, h'.depth,
        (ih h' hcalls).1, (ih h' hcalls).2]
      exact ⟨rfl, rfl⟩
    · rw [Writer.trace_cons_of_error hw, Writer.trace_cons_of_error hr, Writer.trace_cons_of_error hb, h.length_stack,
        h.depth, (ih h hcalls).1, (ih h hcalls).2]
      exact ⟨rfl, rfl⟩

end InStep

/-- The writers accept the same calls. Over any calls with tags and character data that XML can carry, in place or not,
a fresh XML writer on an output that never fails, a fresh recorder and a fresh tree builder take and refuse the same
calls for the same reasons, and have as many elements open after each. -/
theorem writers_accept_alike {out : ο} (hout : NeverFails out) (indent : Option Nat) {calls : List WriterCall}
    (hcalls : ∀ call ∈ calls, call.IsFit) :
    Writer.trace (fun w => w.stack.length) calls ({ out, indent } : XmlWriter ο) =
        Writer.trace Recorder.depth calls {} ∧
      Writer.trace Recorder.depth calls {} = Writer.trace (fun b => b.stack.length) calls ({} : TreeBuilder) :=
  (InStep.fresh hout indent).trace hcalls

/-- Text outside of any element, an attribute after an empty text, and one close too many. -/
theorem writers_accept_alike_of_refused :
    ∃ calls : List WriterCall,
      calls = [.put (.text "early"), .put (.openElement "a"), .put (.attr "n" "<"), .put (.text ""),
        .put (.attr "late" ""), .flush, .put .closeElement, .put .closeElement, .put (.openElement "b")] ∧
      (∀ call ∈ calls, call.IsFit) ∧ NeverFails ({} : Sink) ∧
      Writer.trace (fun w => w.stack.length) calls ({ out := {}, indent := some 2 } : XmlWriter Sink) =
        Writer.trace Recorder.depth calls {} ∧
      Writer.trace Recorder.depth calls {} = Writer.trace (fun b => b.stack.length) calls ({} : TreeBuilder) ∧
      Writer.trace Recorder.depth calls {} =
        [(.error (.writer .strayText), 0), (.ok (), 1), (.ok (), 1), (.ok (), 1),
          (.error (.writer (.strayAttribute "late")), 1), (.ok (), 1), (.ok (), 0), (.error (.writer .strayClose), 0),
          (.ok (), 1)] := by
  have hsink : NeverFails ({} : Sink) := Sink.neverFails rfl rfl
  have hcalls : ∀ call ∈ ([.put (.text "early"), .put (.openElement "a"), .put (.attr "n" "<"), .put (.text ""),
      .put (.attr "late" ""), .flush, .put .closeElement, .put .closeElement, .put (.openElement "b")] :
      List WriterCall), call.IsFit := by decide
  obtain ⟨hxml, hrecorder⟩ := writers_accept_alike hsink (some 2) hcalls
  exact ⟨_, rfl, hcalls, hsink, hxml, hrecorder, rfl⟩

end

end GraphMarkup
