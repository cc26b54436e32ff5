import GraphMarkup.Proofs.Markup.Room

/-!
# Refused calls leave no trace

* `makeAll`, `accepted` : calls made one after another, whatever comes of them, and those that are not refused;
* `AllOrNothing` : calls that a writer either takes or refuses without any change to it;
* `XmlWriter.allOrNothing`, `Recorder.allOrNothing`, `TreeBuilder.allOrNothing` : so do XML writers on outputs that never
  fail, recorders and tree builders;
* `refused_calls_leave_no_trace` : without the refused calls, the others have the same outcomes and the writer ends in
  the same state.

Every call checks all that it may be refused for before it changes anything. What is left to say of a whole run follows
from that.
-/

namespace GraphMarkup

open Output (NeverFails)

/-! ## Calls in a row -/

section Calls

variable {κ ω : Type} (perform : κ → EStateM Error ω Unit)

/-- Makes calls one after another, whatever comes of them: each of them with its outcome, and the writer in the end. -/
def makeAll : List κ → ω → List (κ × Except Error Unit) × ω
  | [], w => ([], w)
  | call :: calls, w =>
    let made := perform call w
    let rest := makeAll calls (endState made)
    ((call, outcome made) :: rest.1, rest.2)

/-- The calls that are not refused when all of them are made. -/
def accepted (calls : List κ) (w : ω) : List κ :=
  ((makeAll perform calls w).1.filter fun made => made.2.isOk).map Prod.fst

/-- Without the calls that are refused, the others have the same outcomes, and the writer ends in the same state. -/
def RefusedLeaveNoTrace (calls : List κ) (w : ω) : Prop :=
  makeAll perform (accepted perform calls w) w =
    ((makeAll perform calls w).1.filter fun made => made.2.isOk, (makeAll perform calls w).2)

/-- Calls that are taken or change nothing, in writers of a kind which they do not leave. -/
def AllOrNothing (kind : ω → Prop) : Prop :=
  ∀ call w, kind w → (∃ w', perform call w = .ok () w' ∧ kind w') ∨ ∃ e, perform call w = .error e w

variable {perform} {call : κ} {calls : List κ} {w w' : ω}

theorem makeAll_cons_of_ok (h : perform call w = .ok () w') : makeAll perform (call :: calls) w =
    ((call, .ok ()) :: (makeAll perform calls w').1, (makeAll perform calls w').2) := by
  rw [makeAll, h]
  rfl

theorem makeAll_cons_of_error {e : Error} (h : perform call w = .error e w') : makeAll perform (call :: calls) w =
    ((call, .error e) :: (makeAll perform calls w').1, (makeAll perform calls w').2) := by
  rw [makeAll, h]
  rfl

theorem makeAll_append (calls later : List κ) (w : ω) : makeAll perform (calls ++ later) w =
    ((makeAll perform calls w).1 ++ (makeAll perform later (makeAll perform calls w).2).1,
      (makeAll perform later (makeAll perform calls w).2).2) := by
  induction calls generalizing w with
  | nil => rfl
  | cons call calls ih =>
    rw [List.cons_append, makeAll, makeAll, ih]
    rfl

theorem accepted_cons_of_ok (h : perform call w = .ok () w') :
    accepted perform (call :: calls) w = call :: accepted perform calls w' := by
  rw [accepted, makeAll_cons_of_ok h]
  rfl

theorem accepted_cons_of_error {e : Error} (h : perform call w = .error e w') :
    accepted perform (call :: calls) w = accepted perform calls w' := by
  rw [accepted, makeAll_cons_of_error h]
  rfl

/-- Where a refused call changes nothing, it is as if it had not been made. -/
theorem AllOrNothing.refusedLeaveNoTrace {kind : ω → Prop} (h : AllOrNothing perform kind) (calls : List κ)
    (hw : kind w) : RefusedLeaveNoTrace perform calls w := by
  unfold RefusedLeaveNoTrace
  induction calls generalizing w with
  | nil => rfl
  | cons call calls ih =>
    rcases h call w hw with ⟨w', hok, hw'⟩ | ⟨e, herror⟩
    · rw [accepted_cons_of_ok hok, makeAll_cons_of_ok hok, ih hw', makeAll_cons_of_ok hok]
      rfl
    · rw [accepted_cons_of_error herror, ih hw, makeAll_cons_of_error herror]
      rfl

end Calls

/-! ## Writers -/

section

variable {ο : Type} [Output ο]

namespace XmlWriter

variable {w : XmlWriter ο}

theorem declaration_eq_late (hwritten : w.written = true) : declaration w = .error (.writer .lateDeclaration) w := by
  rw [declaration, get_bind, if_pos hwritten]
  rfl

/-- On an output that never fails, the declaration is written, or comes too late. -/
theorem declaration_of_neverFails (hw : NeverFails w.out) :
    (∃ w', declaration w = .ok () w' ∧ NeverFails w'.out) ∨ declaration w = .error (.writer .lateDeclaration) w := by
  cases hwritten : w.written with
  | true => exact .inr (declaration_eq_late hwritten)
  | false =>
    obtain ⟨out, hemit, hout⟩ := onlyEmits_emit "<?xml version=\"1.0\" encoding=\"utf-8\"?>" w hw
    rw [declaration, get_bind, if_neg (Bool.eq_false_iff.1 hwritten)]
    exact .inl ⟨_, (bind_of_ok hemit).trans rfl, hout⟩

/-- An XML writer on an output that never fails takes a call or stays as it is. -/
theorem allOrNothing : AllOrNothing (perform (ο := ο)) fun w => NeverFails w.out := by
  intro call w hw
  cases call with
  | declaration =>
    rcases declaration_of_neverFails hw with htaken | hlate
    · exact .inl htaken
    · exact .inr ⟨_, hlate⟩
  | call call =>
    cases call with
    | flush =>
      obtain ⟨out, hflush, hout⟩ := hw.flush
      refine .inl ⟨{ w with out }, ?_, hout⟩
      show flush w = _
      simp only [flush, hflush]
    | put event =>
      cases event with
      | openElement tag =>
        by_cases htag : tag = ""
        · subst htag
          exact .inr ⟨.writer .emptyTag, rfl⟩
        · obtain ⟨w', hopen, hout, -⟩ := openElement_of_neverFails hw htag
          exact .inl ⟨w', hopen, hout⟩
      | attr name value =>
        cases hopen : w.startTagOpen with
        | false => exact .inr ⟨_, attr_eq_stray hopen⟩
        | true =>
          by_cases hvalue : Markup.IsXmlText value
          · obtain ⟨out, hattr, hout⟩ := attr_of_neverFails hw hopen name hvalue
            exact .inl ⟨_, hattr, hout⟩
          · obtain ⟨c, -, hescape⟩ := Markup.escape_eq_error .attrValue hvalue
            exact .inr ⟨_, attr_eq_error hopen hescape⟩
      | text content =>
        cases hstack : w.stack with
        | nil => exact .inr ⟨_, text_eq_stray hstack⟩
        | cons e rest =>
          by_cases hcontent : Markup.IsXmlText content
          · obtain ⟨w', htext, hout, -⟩ := text_of_neverFails hw hstack hcontent
            exact .inl ⟨w', htext, hout⟩
          · obtain ⟨c, -, hescape⟩ := Markup.escape_eq_error .content hcontent
            exact .inr ⟨_, text_eq_error hstack hescape⟩
      | closeElement =>
        cases hstack : w.stack with
        | nil => exact .inr ⟨_, closeElement_eq_stray hstack⟩
        | cons e rest =>
          obtain ⟨out, hclose, hout⟩ := closeElement_of_neverFails hw hstack
          exact .inl ⟨_, hclose, hout⟩

end XmlWriter

/-- A recorder takes a call or stays as it is. -/
theorem Recorder.allOrNothing : AllOrNothing (Writer.perform (ω := Recorder)) fun _ => True := by
  intro call r _
  cases call with
  | flush => exact .inl ⟨r, rfl, trivial⟩
  | put event =>
    cases event with
    | openElement tag => exact .inl ⟨_, rfl, trivial⟩
    | attr name value =>
      by_cases hstart : r.inStartTag
      · exact .inl ⟨_, put_attr hstart, trivial⟩
      · exact .inr ⟨_, if_neg hstart⟩
    | text content =>
      by_cases hdepth : r.depth = 0
      · exact .inr ⟨_, if_pos hdepth⟩
      · exact .inl ⟨_, put_text hdepth, trivial⟩
    | closeElement =>
      by_cases hdepth : r.depth = 0
      · exact .inr ⟨_, if_pos hdepth⟩
      · exact .inl ⟨_, put_closeElement hdepth, trivial⟩

/-- A tree builder takes a call or stays as it is. -/
theorem TreeBuilder.allOrNothing : AllOrNothing (Writer.perform (ω := TreeBuilder)) fun _ => True := by
  rintro call ⟨stack, roots⟩ _
  cases call with
  | flush => exact .inl ⟨_, rfl, trivial⟩
  | put event =>
    cases event with
    | openElement tag => exact .inl ⟨_, rfl, trivial⟩
    | attr name value =>
      cases stack with
      | nil => exact .inr ⟨_, rfl⟩
      | cons e rest =>
        by_cases hempty : e.isEmpty
        · exact .inl ⟨_, if_pos hempty, trivial⟩
        · exact .inr ⟨_, if_neg hempty⟩
    | text content =>
      cases stack with
      | nil => exact .inr ⟨_, rfl⟩
      | cons e rest => exact .inl ⟨_, rfl, trivial⟩
    | closeElement =>
      cases stack with
      | nil => exact .inr ⟨_, rfl⟩
      | cons e rest => cases rest <;> exact .inl ⟨_, rfl, trivial⟩

/-! ## Fresh writers -/

/-- Refused calls leave no trace. Whatever is called on a fresh XML writer on an output that never fails, on a fresh
recorder or on a fresh tree builder: without the refused calls, the others have the same outcomes and the writer ends in
the same state. -/
theorem refused_calls_leave_no_trace {out : ο} (hout : NeverFails out) (indent : Option Nat) (xmlCalls : List XmlCall)
    (calls : List WriterCall) :
    RefusedLeaveNoTrace XmlWriter.perform xmlCalls { out, indent } ∧
      RefusedLeaveNoTrace Writer.perform calls ({} : Recorder) ∧
      RefusedLeaveNoTrace Writer.perform calls ({} : TreeBuilder) :=
  ⟨XmlWriter.allOrNothing.refusedLeaveNoTrace xmlCalls hout, Recorder.allOrNothing.refusedLeaveNoTrace calls trivial,
    TreeBuilder.allOrNothing.refusedLeaveNoTrace calls trivial⟩

/-- A declaration that comes too late, an empty tag, a character that XML cannot carry, an attribute after text, and one
close too many. -/
theorem refused_calls_leave_no_trace_of_each :
    ∃ (xmlCalls : List XmlCall) (calls : List WriterCall),
      calls = [.put (.text "early"), .put (.openElement "a"), .put (.attr "n" "1"), .put (.text "x"),
        .put (.attr "late" ""), .flush, .put .closeElement, .put .closeElement] ∧
      xmlCalls = .declaration :: .call (.put (.openElement "")) :: .declaration :: calls.map .call ++
        [.call (.put (.openElement "b")), .call (.put (.text "bell\x07"))] ∧
      NeverFails ({} : Sink) ∧
      accepted Writer.perform calls ({} : Recorder) = [.put (.openElement "a"), .put (.attr "n" "1"), .put (.text "x"),
        .flush, .put .closeElement] ∧
      accepted XmlWriter.perform xmlCalls ({ out := {}, indent := some 2 } : XmlWriter Sink) =
        .declaration :: (accepted Writer.perform calls ({} : Recorder)).map .call ++ [.call (.put (.openElement "b"))] ∧
      RefusedLeaveNoTrace XmlWriter.perform xmlCalls ({ out := {}, indent := some 2 } : XmlWriter Sink) ∧
      RefusedLeaveNoTrace Writer.perform calls ({} : Recorder) ∧
      RefusedLeaveNoTrace Writer.perform calls ({} : TreeBuilder) := by
  have hsink : NeverFails ({} : Sink) := Sink.neverFails rfl rfl
  exact ⟨_, _, rfl, rfl, hsink, by decide +kernel, by decide +kernel, refused_calls_leave_no_trace hsink (some 2) _ _⟩

end

end GraphMarkup
