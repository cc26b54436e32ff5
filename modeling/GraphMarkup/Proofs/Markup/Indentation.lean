import GraphMarkup.Proofs.Markup.Record

/-!
# What an indentation adds to the text

* `XmlWriter.Takes`, `perform_eq_ok_iff` : what a call that is taken does, in closed form;
* `XmlWriter.lineBreak` : the beginning of a line that a call writes on account of the indentation;
* `XmlWriter.unindented` : a writer without its indentation, on another text;
* `Takes.unindented` : a call adds the same to both texts, but for its line break;
* `XmlWriter.indentation` : the number of characters in the line breaks of calls in a row;
* `XmlWriter.takesAll`, `XmlWriter.keepsOpen` : calls that are all taken, and that are made while some elements stay
  open;
* `AddsSameText` : calls that add the same text with an indentation as without one;
* `addsSameText_iff` : calls do so exactly if they come to no line break;
* `text_stays_in_line_iff` : calls in an element that holds text do so exactly if none of them opens an element.

An end tag heeds the text in front of it, and a start tag does not. So a child of an element with text is put on a line
of its own, and the line break becomes part of that text.
-/

namespace GraphMarkup

def XmlCall.opens : XmlCall → Bool
  | .call made => made.opens
  | .declaration => false

namespace XmlWriter

/-! ## One call -/

section

variable {w w' : XmlWriter String} {call : XmlCall}

/-- What a call that is taken does. -/
inductive Takes (w : XmlWriter String) : XmlCall → XmlWriter String → Prop
  | declaration (hwritten : w.written = false) : Takes w .declaration
      { w with out := w.out ++ "<?xml version=\"1.0\" encoding=\"utf-8\"?>", written := true }
  | flush : Takes w (.call .flush) w
  | openElement {tag : String} (htag : tag ≠ "") : Takes w (.call (.put (.openElement tag)))
      { w with
        out := w.out ++ w.tagEnd ++ w.breakAt w.stack.length ++ ("<" ++ tag)
        stack := { tag } :: w.noteChild.stack
        startTagOpen := true
        written := true }
  | attr {name value escaped : String} (hopen : w.startTagOpen = true)
      (hescape : Markup.escape .attrValue value = .ok escaped) : Takes w (.call (.put (.attr name value)))
      { w with out := w.out ++ (" " ++ name ++ "=\"" ++ escaped ++ "\"") }
  | text {e : OpenElement} {rest : List OpenElement} {content escaped : String} (hstack : w.stack = e :: rest)
      (hescape : Markup.escape .content content = .ok escaped) : Takes w (.call (.put (.text content)))
      { w with
        out := w.out ++ w.tagEnd ++ escaped
        stack := { e with hasText := true } :: rest
        startTagOpen := false }
  | closeElement {e : OpenElement} {rest : List OpenElement} (hstack : w.stack = e :: rest) :
      Takes w (.call (.put .closeElement))
      { w with out := w.out ++ w.endOf e rest.length, stack := rest, startTagOpen := false }

theorem declaration_eq (hwritten : w.written = false) : declaration w =
    .ok () { w with out := w.out ++ "<?xml version=\"1.0\" encoding=\"utf-8\"?>", written := true } := by
  obtain ⟨out, stack, startTagOpen, indent, written⟩ := w
  obtain rfl : written = false := hwritten
  rfl

theorem takes_of_perform (h : perform call w = .ok () w') : Takes w call w' := by
  cases call with
  | declaration =>
    cases hwritten : w.written with
    | true => cases (declaration_eq_late hwritten).symm.trans h
    | false =>
      cases (declaration_eq hwritten).symm.trans h
      exact .declaration hwritten
  | call call =>
    cases call with
    | flush =>
      cases h
      exact .flush
    | put event =>
      cases event with
      | openElement tag =>
        by_cases htag : tag = ""
        · subst htag
          cases h
        · cases (openElement_eq htag).symm.trans h
          exact .openElement htag
      | attr name value =>
        cases hopen : w.startTagOpen with
        | false => cases (attr_eq_stray hopen).symm.trans h
        | true =>
          cases hescape : Markup.escape .attrValue value with
          | error fault => cases (attr_eq_error hopen hescape).symm.trans h
          | ok escaped =>
            cases (attr_eq hopen hescape).symm.trans h
            exact .attr hopen hescape
      | text content =>
        cases hstack : w.stack with
        | nil => cases (text_eq_stray hstack).symm.trans h
        | cons e rest =>
          cases hescape : Markup.escape .content content with
          | error fault => cases (text_eq_error hstack hescape).symm.trans h
          | ok escaped =>
            cases (text_eq hstack hescape).symm.trans h
            exact .text hstack hescape
      | closeElement =>
        cases hstack : w.stack with
        | nil => cases (closeElement_eq_stray hstack).symm.trans h
        | cons e rest =>
          cases (closeElement_eq hstack).symm.trans h
          exact .closeElement hstack

theorem perform_eq_ok_iff : perform call w = .ok () w' ↔ Takes w call w' := by
  refine ⟨takes_of_perform, fun h => ?_⟩
  cases h with
  | declaration hwritten => exact declaration_eq hwritten
  | flush => rfl
  | openElement htag => exact openElement_eq htag
  | attr hopen hescape => exact attr_eq hopen hescape
  | text hstack hescape => exact text_eq hstack hescape
  | closeElement hstack => exact closeElement_eq hstack

end

/-! ## Line breaks -/

/-- The beginning of a line that a call writes on account of the indentation. -/
def lineBreak (w : XmlWriter String) : XmlCall → String
  | .call (.put (.openElement _)) => w.breakAt w.stack.length
  | .call (.put .closeElement) =>
    match w.stack with
    | [] => ""
    | e :: rest => if !w.startTagOpen && e.hasChildren && !e.hasText then w.breakAt rest.length else ""
  | _ => ""

def unindented (w : XmlWriter String) (out : String) : XmlWriter String := { w with out, indent := none }

section

variable {w w' : XmlWriter String} {call : XmlCall}

theorem breakAt_unindented (out : String) (level : Nat) : (w.unindented out).breakAt level = "" := rfl

theorem noteChild_unindented (out : String) : (w.unindented out).noteChild.stack = w.noteChild.stack := by
  obtain ⟨_, stack, startTagOpen, indent, written⟩ := w
  cases stack <;> rfl

theorem endOf_eq {e : OpenElement} {rest : List OpenElement} (hstack : w.stack = e :: rest) (out : String) :
    w.endOf e rest.length = w.lineBreak (.call (.put .closeElement)) ++ (w.unindented out).endOf e rest.length := by
  obtain ⟨_, stack, startTagOpen, indent, written⟩ := w
  obtain rfl : stack = e :: rest := hstack
  obtain ⟨tag, hasChildren, hasText⟩ := e
  cases startTagOpen <;> cases hasChildren <;> cases hasText <;> simp [endOf, lineBreak, unindented, breakAt]

/-- A call that is taken is taken without the indentation too, and adds the same but for its line break. -/
theorem Takes.unindented (h : Takes w call w') (out : String) :
    ∃ front back, w'.out = w.out ++ front ++ w.lineBreak call ++ back ∧
      Takes (w.unindented out) call (w'.unindented (out ++ front ++ back)) := by
  cases h with
  | declaration hwritten =>
    refine ⟨_, "", by simp only [lineBreak, String.append_empty]; rfl, ?_⟩
    rw [String.append_empty]
    exact .declaration hwritten
  | flush =>
    refine ⟨"", "", by simp only [lineBreak, String.append_empty], ?_⟩
    rw [String.append_empty, String.append_empty]
    exact .flush
  | @openElement tag htag =>
    refine ⟨w.tagEnd, "<" ++ tag, rfl, ?_⟩
    have hopen := Takes.openElement (w := w.unindented out) htag
    rw [breakAt_unindented, noteChild_unindented, String.append_empty] at hopen
    exact hopen
  | @attr name value escaped hopen hescape =>
    refine ⟨_, "", by simp only [lineBreak, String.append_empty]; rfl, ?_⟩
    rw [String.append_empty]
    exact .attr hopen hescape
  | text hstack hescape =>
    exact ⟨w.tagEnd, _, by simp only [lineBreak, String.append_empty], .text hstack hescape⟩
  | @closeElement e rest hstack =>
    refine ⟨"", (w.unindented out).endOf e rest.length, ?_, ?_⟩
    · rw [String.append_empty, String.append_assoc, ← endOf_eq hstack out]
    · rw [String.append_empty]
      exact .closeElement hstack

/-- In an element that holds text, a call that does not open another one has no line break. -/
theorem Takes.of_hasText {e : OpenElement} {rest : List OpenElement} (h : Takes w call w')
    (hstack : w.stack = e :: rest) (htext : e.hasText) (hopens : ¬ call.opens) :
    w.lineBreak call = "" ∧ (w'.stack = rest ∨ ∃ e', w'.stack = e' :: rest ∧ e'.hasText) := by
  cases h with
  | declaration | flush | attr => exact ⟨rfl, .inr ⟨e, hstack, htext⟩⟩
  | openElement => exact absurd rfl hopens
  | text hstack' =>
    cases hstack.symm.trans hstack'
    exact ⟨rfl, .inr ⟨_, rfl, rfl⟩⟩
  | closeElement hstack' =>
    cases hstack.symm.trans hstack'
    refine ⟨?_, .inl rfl⟩
    simp only [lineBreak, hstack, htext, Bool.not_true, Bool.and_false, Bool.false_eq_true, if_false]

/-- The indentation stays, and once something is written it stays so. -/
theorem Takes.indent_and_written (h : Takes w call w') : w'.indent = w.indent ∧ (w.written → w'.written) := by
  cases h <;> simp

end

/-! ## Calls in a row -/

def takesAll (calls : List XmlCall) (w : XmlWriter String) : Bool :=
  (makeAll perform calls w).1.all fun made => made.2.isOk

/-- The number of characters in the line breaks of calls in a row. -/
def indentation : List XmlCall → XmlWriter String → Nat
  | [], _ => 0
  | call :: calls, w => (w.lineBreak call).length + indentation calls (endState (perform call w))

/-- Whether at least so many elements are open whenever one of the calls is made. -/
def keepsOpen (level : Nat) : List XmlCall → XmlWriter String → Bool
  | [], _ => true
  | call :: calls, w => decide (level ≤ w.stack.length) && keepsOpen level calls (endState (perform call w))

section

variable {w w' : XmlWriter String} {call : XmlCall} {calls later : List XmlCall}

theorem indentation_cons (h : Takes w call w') (calls : List XmlCall) :
    indentation (call :: calls) w = (w.lineBreak call).length + indentation calls w' := by
  rw [indentation, perform_eq_ok_iff.2 h]
  rfl

/-- The first of some calls that are taken, and the others. -/
theorem exists_takes (h : takesAll (call :: calls) w) : ∃ w', Takes w call w' ∧ takesAll calls w' := by
  obtain ⟨hcall, hcalls⟩ := Bool.and_eq_true_iff.1 h
  cases hperform : perform call w with
  | ok _ w' =>
    rw [hperform] at hcalls
    exact ⟨w', takes_of_perform hperform, hcalls⟩
  | error e w' =>
    rw [hperform] at hcall
    cases hcall

theorem takesAll_append (h : takesAll (calls ++ later) w) :
    takesAll calls w ∧ takesAll later (makeAll perform calls w).2 := by
  rw [takesAll, makeAll_append, List.all_append] at h
  exact Bool.and_eq_true_iff.1 h

/-- What calls add without the indentation, they add with it, but for the line breaks. -/
theorem makeAll_unindented (calls : List XmlCall) (h : takesAll calls w)
    (out : String) : ∃ more less, (makeAll perform calls w).2.out = w.out ++ more ∧
      (makeAll perform calls (w.unindented out)).2 = (makeAll perform calls w).2.unindented (out ++ less) ∧
      more.length = less.length + indentation calls w ∧ (indentation calls w = 0 → more = less) := by
  induction calls generalizing w out with
  | nil => exact ⟨"", "", String.append_empty.symm, by rw [String.append_empty]; rfl, rfl, fun _ => rfl⟩
  | cons call calls ih =>
    obtain ⟨w', hcall, hcalls⟩ := exists_takes h
    obtain ⟨front, back, hout, hunindented⟩ := hcall.unindented out
    obtain ⟨more, less, hmore, hless, hlength, hsame⟩ := ih hcalls (out ++ front ++ back)
    rw [indentation_cons hcall, makeAll_cons_of_ok (perform_eq_ok_iff.2 hcall),
      makeAll_cons_of_ok (perform_eq_ok_iff.2 hunindented)]
    dsimp only
    refine ⟨front ++ w.lineBreak call ++ back ++ more, front ++ back ++ less, ?_, ?_, ?_, fun hzero => ?_⟩
    · simp only [hmore, hout, String.append_assoc]
    · rw [hless]
      simp only [String.append_assoc]
    · simp only [String.length_append, hlength]
      omega
    · have hbreak : w.lineBreak call = "" := String.length_eq_zero_iff.1 (by omega)
      rw [hbreak, String.append_empty, hsame (by omega)]

/-- A start tag is put on a line of its own. -/
theorem indentation_pos {width : Nat} (h : takesAll calls w)
    (hindent : w.indent = some width) (hwritten : w.written) {opening : XmlCall} (hmem : opening ∈ calls)
    (hopens : opening.opens) : 0 < indentation calls w := by
  induction calls generalizing w with
  | nil => cases hmem
  | cons call calls ih =>
    obtain ⟨w', hcall, hcalls⟩ := exists_takes h
    rw [indentation_cons hcall]
    rcases List.mem_cons.1 hmem with rfl | hmem
    · cases hcall with
      | openElement htag =>
        refine Nat.add_pos_left ?_ _
        simp only [lineBreak, breakAt, hindent, hwritten, if_true, String.length_append]
        exact Nat.add_pos_left Nat.one_pos _
      | declaration | flush | attr | text | closeElement => cases hopens
    · obtain ⟨hindent', hwritten'⟩ := hcall.indent_and_written
      exact Nat.add_pos_right _ (ih hcalls (hindent'.trans hindent) (hwritten' hwritten) hmem)

/-- In an element that holds text no other call is. -/
theorem indentation_eq_zero {e : OpenElement} {rest : List OpenElement}
    (h : takesAll calls w) (hstack : w.stack = e :: rest) (htext : e.hasText)
    (hopen : keepsOpen (rest.length + 1) calls w) (hopens : ∀ call ∈ calls, ¬ call.opens) :
    indentation calls w = 0 := by
  induction calls generalizing w e with
  | nil => rfl
  | cons call calls ih =>
    obtain ⟨w', hcall, hcalls⟩ := exists_takes h
    obtain ⟨hfirst, hlater⟩ := List.forall_mem_cons.1 hopens
    rw [keepsOpen, Bool.and_eq_true, perform_eq_ok_iff.2 hcall] at hopen
    obtain ⟨hbreak, hclosed | ⟨e', hstack', htext'⟩⟩ := hcall.of_hasText hstack htext hfirst
    · -- The element is closed, so that no call is left.
      cases calls with
      | nil => rw [indentation_cons hcall, hbreak]; rfl
      | cons next calls =>
        have hlevel := (Bool.and_eq_true_iff.1 hopen.2).1
        rw [endState, hclosed] at hlevel
        exact absurd (of_decide_eq_true hlevel) (Nat.not_succ_le_self _)
    · rw [indentation_cons hcall, hbreak, ih hcalls hstack' htext' hopen.2 hlater]
      rfl

/-- Where an element is open something is written. -/
theorem indent_and_written_makeAll (calls : List XmlCall) (h : takesAll calls w)
    (hw : w.stack ≠ [] → w.written) : (makeAll perform calls w).2.indent = w.indent ∧
      ((makeAll perform calls w).2.stack ≠ [] → (makeAll perform calls w).2.written) := by
  induction calls generalizing w with
  | nil => exact ⟨rfl, hw⟩
  | cons call calls ih =>
    obtain ⟨w', hcall, hcalls⟩ := exists_takes h
    obtain ⟨hindent, hwritten⟩ := hcall.indent_and_written
    have hw' : w'.stack ≠ [] → w'.written := by
      intro hstack
      cases hcall with
      | declaration | openElement => rfl
      | flush | attr => exact hw hstack
      | text hbefore | closeElement hbefore => exact hw (hbefore ▸ List.cons_ne_nil _ _)
    obtain ⟨hindent', hwritten'⟩ := ih hcalls hw'
    rw [makeAll_cons_of_ok (perform_eq_ok_iff.2 hcall)]
    exact ⟨hindent'.trans hindent, hwritten'⟩

end

end XmlWriter

/-! ## With an indentation and without -/

def textWriter (indent : Option Nat) : XmlWriter String := { out := "", indent }

def writerAfter (indent : Option Nat) (calls : List XmlCall) : XmlWriter String :=
  (makeAll XmlWriter.perform calls (textWriter indent)).2

/-- The calls after some others add the same text with an indentation as without one. -/
def AddsSameText (width : Nat) (before calls : List XmlCall) : Prop :=
  ∃ added, (writerAfter (some width) (before ++ calls)).out = (writerAfter (some width) before).out ++ added ∧
    (writerAfter none (before ++ calls)).out = (writerAfter none before).out ++ added

theorem writerAfter_append (indent : Option Nat) (before calls : List XmlCall) :
    writerAfter indent (before ++ calls) = (makeAll XmlWriter.perform calls (writerAfter indent before)).2 := by
  rw [writerAfter, makeAll_append]
  rfl

section

variable {width : Nat} {before calls inside : List XmlCall}

/-- The same text is added exactly if there is no line break in it. -/
theorem addsSameText_iff (h : XmlWriter.takesAll (before ++ calls) (textWriter (some width))) :
    AddsSameText width before calls ↔ XmlWriter.indentation calls (writerAfter (some width) before) = 0 := by
  obtain ⟨hbefore, hcalls⟩ := XmlWriter.takesAll_append h
  obtain ⟨-, compact, -, hcompact, -⟩ := XmlWriter.makeAll_unindented before hbefore ""
  obtain ⟨more, less, hmore, hless, hlength, hsame⟩ := XmlWriter.makeAll_unindented calls hcalls ("" ++ compact)
  have hfresh : writerAfter none before = (writerAfter (some width) before).unindented ("" ++ compact) := hcompact
  have hmore' : (writerAfter (some width) (before ++ calls)).out = (writerAfter (some width) before).out ++ more := by
    rw [writerAfter_append]
    exact hmore
  have hless' : (writerAfter none (before ++ calls)).out = (writerAfter none before).out ++ less := by
    rw [writerAfter_append, hfresh]
    exact congrArg XmlWriter.out hless
  constructor
  · rintro ⟨added, hindented, hunindented⟩
    obtain rfl := (String.append_right_inj _).1 (hmore'.symm.trans hindented)
    obtain rfl := (String.append_right_inj _).1 (hless'.symm.trans hunindented)
    exact Nat.left_eq_add.1 hlength
  · intro hzero
    exact ⟨more, hmore', hsame hzero ▸ hless'⟩

/-- Behind a text, the innermost element holds text. -/
theorem exists_hasText {content : String}
    (h : XmlWriter.takesAll [.call (.put (.text content))] (writerAfter (some width) before)) :
    ∃ e rest, (writerAfter (some width) (before ++ [.call (.put (.text content))])).stack = e :: rest ∧ e.hasText ∧
      (writerAfter (some width) before).stack.length = rest.length + 1 := by
  obtain ⟨w, hcontent, -⟩ := XmlWriter.exists_takes h
  rw [writerAfter_append, makeAll_cons_of_ok (XmlWriter.perform_eq_ok_iff.2 hcontent)]
  cases hcontent with
  | text hstack => exact ⟨_, _, rfl, rfl, congrArg List.length hstack⟩

/-- From the moment that text has been written into an element until it is closed, an indented writer adds the same text
as a compact one exactly if no element is opened there: a start tag is put on a line of its own, even behind text. -/
theorem text_stays_in_line_iff {content : String}
    (htaken : XmlWriter.takesAll (before ++ .call (.put (.text content)) :: inside) (textWriter (some width)))
    (hopen : XmlWriter.keepsOpen (writerAfter (some width) before).stack.length inside
      (writerAfter (some width) (before ++ [.call (.put (.text content))]))) :
    AddsSameText width (before ++ [.call (.put (.text content))]) inside ↔ ∀ call ∈ inside, ¬ call.opens := by
  rw [List.append_cons] at htaken
  obtain ⟨htext, hinside⟩ := XmlWriter.takesAll_append htaken
  obtain ⟨hindent, hwritten⟩ := XmlWriter.indent_and_written_makeAll _ htext fun h => absurd rfl h
  obtain ⟨e, rest, hstack, hholds, hlevel⟩ := exists_hasText (XmlWriter.takesAll_append htext).2
  rw [addsSameText_iff htaken]
  constructor
  · intro hzero call hcall hopens
    have hbegun := hwritten fun hempty => List.cons_ne_nil e rest (hstack.symm.trans hempty)
    exact absurd hzero (Nat.ne_of_gt (XmlWriter.indentation_pos hinside hindent hbegun hcall hopens))
  · intro hopens
    exact XmlWriter.indentation_eq_zero hinside hstack hholds (hlevel ▸ hopen) hopens

/-- More text and the end tag stay in line. -/
theorem text_stays_in_line_of_nested :
    ∃ before inside : List XmlCall,
      before = [.declaration, .call (.put (.openElement "a")), .call (.put (.openElement "b"))] ∧
      inside = [.call (.put (.text "y")), .call .flush, .call (.put .closeElement)] ∧
      XmlWriter.takesAll (before ++ .call (.put (.text "x")) :: inside) (textWriter (some 2)) ∧
      XmlWriter.keepsOpen 2 inside (writerAfter (some 2) (before ++ [.call (.put (.text "x"))])) ∧
      (writerAfter (some 2) (before ++ .call (.put (.text "x")) :: inside)).out =
        "<?xml version=\"1.0\" encoding=\"utf-8\"?>\n<a>\n  <b>xy</b>" ∧
      (AddsSameText 2 (before ++ [.call (.put (.text "x"))]) inside ↔ ∀ call ∈ inside, ¬ call.opens) := by
  let before : List XmlCall := [.declaration, .call (.put (.openElement "a")), .call (.put (.openElement "b"))]
  let inside : List XmlCall := [.call (.put (.text "y")), .call .flush, .call (.put .closeElement)]
  have htaken : XmlWriter.takesAll (before ++ .call (.put (.text "x")) :: inside) (textWriter (some 2)) := by
    decide +kernel
  have hopen : XmlWriter.keepsOpen (writerAfter (some 2) before).stack.length inside
      (writerAfter (some 2) (before ++ [.call (.put (.text "x"))])) := by decide +kernel
  exact ⟨before, inside, rfl, rfl, htaken, hopen, by decide +kernel, text_stays_in_line_iff htaken hopen⟩

/-- An element opened behind text is put on a line of its own, so that the line break becomes part of that text. -/
theorem start_tag_breaks_line :
    ∃ before inside : List XmlCall,
      before = [.call (.put (.openElement "a"))] ∧
      inside = [.call (.put (.openElement "b")), .call (.put .closeElement), .call (.put .closeElement)] ∧
      XmlWriter.takesAll (before ++ .call (.put (.text "x")) :: inside) (textWriter (some 2)) ∧
      XmlWriter.keepsOpen (writerAfter (some 2) before).stack.length inside
        (writerAfter (some 2) (before ++ [.call (.put (.text "x"))])) ∧
      (writerAfter (some 2) (before ++ .call (.put (.text "x")) :: inside)).out = "<a>x\n  <b /></a>" ∧
      (writerAfter none (before ++ .call (.put (.text "x")) :: inside)).out = "<a>x<b /></a>" ∧
      ¬ AddsSameText 2 (before ++ [.call (.put (.text "x"))]) inside := by
  let before : List XmlCall := [.call (.put (.openElement "a"))]
  let inside : List XmlCall := [.call (.put (.openElement "b")), .call (.put .closeElement), .call (.put .closeElement)]
  have htaken : XmlWriter.takesAll (before ++ [.call (.put (.text "x"))] ++ inside) (textWriter (some 2)) := by
    decide +kernel
  refine ⟨before, inside, rfl, rfl, htaken, by decide +kernel, by decide +kernel, by decide +kernel, fun hsame => ?_⟩
  have hzero := (addsSameText_iff htaken).1 hsame
  revert hzero
  decide +kernel

end

end GraphMarkup
