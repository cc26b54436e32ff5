import GraphMarkup.Markup.XmlWriter
import GraphMarkup.Proofs.State

/-!
# What an XML writer adds to its text

* `XmlWriter.tagEnd`, `XmlWriter.breakAt`, `XmlWriter.endOf` : the `>` that is still to come, the beginning of a line,
  and the end of an element;
* `openElement_eq`, `attr_eq`, `text_eq`, `closeElement_eq` : the state after an event that is accepted, in closed form;
* `attr_eq_error`, `text_eq_error` : an event with a character that XML cannot carry changes nothing;
* `attr_eq_stray`, `text_eq_stray`, `closeElement_eq_stray` : nor does an event that is out of place.

Where something is written the output is a text, which takes every piece. A refusal is the same on any output.
-/

namespace GraphMarkup.XmlWriter

/-- The `>` that is still to come, if any. -/
def tagEnd (w : XmlWriter String) : String := if w.startTagOpen then ">" else ""

def breakAt (w : XmlWriter String) (level : Nat) : String :=
  match w.indent with
  | none => ""
  | some width => (if w.written then "\n" else "") ++ String.ofList (List.replicate (level * width) ' ')

/-- The end of an element at a nesting level: of an empty one while its start tag is open, and an end tag otherwise. -/
def endOf (w : XmlWriter String) (e : OpenElement) (level : Nat) : String :=
  if w.startTagOpen then " />"
  else (if e.hasChildren && !e.hasText then w.breakAt level else "") ++ ("</" ++ e.tag ++ ">")

/-! ## Pieces of text -/

theorem emit_eq (piece : String) (w : XmlWriter String) : emit piece w = .ok () { w with out := w.out ++ piece } := rfl

theorem finishStartTag_eq (w : XmlWriter String) :
    finishStartTag w = .ok () { w with out := w.out ++ w.tagEnd, startTagOpen := false } := by
  obtain ⟨out, stack, startTagOpen, indent, written⟩ := w
  cases startTagOpen with
  | true => rfl
  | false =>
    show EStateM.Result.ok () _ = _
    simp [tagEnd]

theorem spaces_eq (n : Nat) (w : XmlWriter String) :
    spaces n w = .ok () { w with out := w.out ++ String.ofList (List.replicate n ' ') } := by
  induction n generalizing w with
  | zero =>
    show EStateM.Result.ok () _ = _
    simp
  | succ n ih =>
    show spaces n { w with out := w.out ++ " " } = _
    rw [ih]
    simp [List.replicate_succ, String.ofList_cons, String.append_assoc]

theorem newline_eq (level : Nat) (w : XmlWriter String) :
    newline level w = .ok () { w with out := w.out ++ w.breakAt level } := by
  obtain ⟨out, stack, startTagOpen, indent, written⟩ := w
  cases indent with
  | none =>
    show EStateM.Result.ok () _ = _
    simp [breakAt]
  | some width =>
    cases written with
    | false =>
      show spaces (level * width) _ = _
      rw [spaces_eq]
      simp [breakAt]
    | true =>
      show spaces (level * width) _ = _
      rw [spaces_eq]
      simp [breakAt, String.append_assoc]

/-! ## Events that are refused -/

section

variable {ο : Type} [Output ο] {w : XmlWriter ο}

theorem attr_eq_error {name value : String} {fault : WriterFault} (hopen : w.startTagOpen = true)
    (hescape : Markup.escape .attrValue value = .error fault) :
    attr name value w = .error (.writer fault) w := by
  obtain ⟨out, stack, startTagOpen, indent, written⟩ := w
  obtain rfl : startTagOpen = true := hopen
  simp only [attr, XmlWriter.escaped, hescape]
  rfl

theorem attr_eq_stray {name value : String} (hopen : w.startTagOpen = false) :
    attr name value w = .error (.writer (.strayAttribute name)) w := by
  obtain ⟨out, stack, startTagOpen, indent, written⟩ := w
  obtain rfl : startTagOpen = false := hopen
  rfl

theorem text_eq_error {e : OpenElement} {rest : List OpenElement} {content : String} {fault : WriterFault}
    (hstack : w.stack = e :: rest) (hescape : Markup.escape .content content = .error fault) :
    text content w = .error (.writer fault) w := by
  obtain ⟨out, stack, startTagOpen, indent, written⟩ := w
  obtain rfl : stack = e :: rest := hstack
  simp only [text, XmlWriter.escaped, hescape]
  rfl

theorem text_eq_stray {content : String} (hstack : w.stack = []) :
    text content w = .error (.writer .strayText) w := by
  obtain ⟨out, stack, startTagOpen, indent, written⟩ := w
  obtain rfl : stack = [] := hstack
  rfl

theorem closeElement_eq_stray (hstack : w.stack = []) : closeElement w = .error (.writer .strayClose) w := by
  obtain ⟨out, stack, startTagOpen, indent, written⟩ := w
  obtain rfl : stack = [] := hstack
  rfl

end

/-! ## Events that are accepted -/

section

variable {w : XmlWriter String}

theorem openElement_eq {tag : String} (h : tag ≠ "") :
    openElement tag w = .ok ()
      { w with
        out := w.out ++ w.tagEnd ++ w.breakAt w.stack.length ++ ("<" ++ tag)
        stack := { tag } :: w.noteChild.stack
        startTagOpen := true
        written := true } := by
  have hempty : tag.isEmpty = false := by simpa [String.isEmpty_iff] using h
  simp only [openElement, hempty, Bool.false_eq_true, if_false]
  rw [bind_of_ok (finishStartTag_eq w), modify_bind, get_bind, bind_of_ok (newline_eq ..), bind_of_ok (emit_eq ..)]
  obtain ⟨out, stack, startTagOpen, indent, written⟩ := w
  cases stack with
  | nil => rfl
  | cons e rest => rfl

theorem attr_eq {name value escaped : String} (hopen : w.startTagOpen = true)
    (hescape : Markup.escape .attrValue value = .ok escaped) :
    attr name value w = .ok () { w with out := w.out ++ (" " ++ name ++ "=\"" ++ escaped ++ "\"") } := by
  obtain ⟨out, stack, startTagOpen, indent, written⟩ := w
  obtain rfl : startTagOpen = true := hopen
  simp only [attr, XmlWriter.escaped, hescape]
  rfl

theorem text_eq {e : OpenElement} {rest : List OpenElement} {content escaped : String} (hstack : w.stack = e :: rest)
    (hescape : Markup.escape .content content = .ok escaped) :
    text content w = .ok ()
      { w with
        out := w.out ++ w.tagEnd ++ escaped
        stack := { e with hasText := true } :: rest
        startTagOpen := false } := by
  obtain ⟨out, stack, startTagOpen, indent, written⟩ := w
  obtain rfl : stack = e :: rest := hstack
  simp only [text, XmlWriter.escaped, hescape]
  cases startTagOpen with
  | true => rfl
  | false =>
    show EStateM.Result.ok () _ = _
    simp [tagEnd]

theorem closeElement_eq {e : OpenElement} {rest : List OpenElement} (hstack : w.stack = e :: rest) :
    closeElement w = .ok () { w with out := w.out ++ w.endOf e rest.length, stack := rest, startTagOpen := false } := by
  obtain ⟨out, stack, startTagOpen, indent, written⟩ := w
  obtain rfl : stack = e :: rest := hstack
  cases startTagOpen with
  | true => rfl
  | false =>
    by_cases h : e.hasChildren && !e.hasText
    · rw [closeElement, get_bind]
      simp only [modify_bind, get_bind, Bool.false_eq_true, if_false, h, if_true]
      rw [bind_of_ok (newline_eq ..), emit_eq]
      simp [endOf, h, String.append_assoc, breakAt]
    · rw [closeElement, get_bind]
      simp only [modify_bind, get_bind, Bool.false_eq_true, if_false, h]
      rw [emit_eq]
      simp [endOf, h]

end

end GraphMarkup.XmlWriter
