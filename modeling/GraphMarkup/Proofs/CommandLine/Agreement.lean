import GraphMarkup.CommandLine.Program
import GraphMarkup.Proofs.Graph.Whole
import GraphMarkup.Proofs.Session.Independence
import GraphMarkup.Proofs.Session.Preamble
import GraphMarkup.Proofs.Session.Streams

/-!
# The command line and documents

* `Json.toValue_whole` : JSON values become whole values;
* `writeItems_of_ok`, `writeItems_of_error` : a report is known from the session over all items;
* `writeItems_document` : in the layout of a document, the report holds the document behind the XML declaration;
* `writeItems_stream` : in that of a stream, it holds what stands inside the root of the document;
* `run_agrees_with_toXml` : so the program prints what a document of the items holds, and fails if there is none.
-/

namespace GraphMarkup

/-! ## Items -/

namespace Json

mutual

/-- JSON values become whole values. -/
theorem toValue_whole : ∀ json : Json, json.toValue.Whole
  | null => .null
  | bool value => .scalar (.bool value)
  | number value => .scalar (numberScalar value)
  | string value => .scalar (.string value)
  | array items => .list (toValues_whole items) _ _
  | object fields => .object (toProperties_whole fields) _

theorem toValues_whole : ∀ (items : List Json), ∀ v ∈ toValues items, v.Whole
  | [] => List.forall_mem_nil _
  | item :: items => List.forall_mem_cons.2 ⟨item.toValue_whole, toValues_whole items⟩

theorem toProperties_whole : ∀ (fields : List (String × Json)), ∀ p ∈ toProperties fields,
    ∃ c : Value, p.value = .ready c ∧ c.Whole
  | [] => List.forall_mem_nil _
  | (_, content) :: fields =>
    List.forall_mem_cons.2 ⟨⟨content.toValue, rfl, content.toValue_whole⟩, toProperties_whole fields⟩

end

theorem items_whole (json : Json) : ∀ v ∈ json.items, v.Whole := by
  cases json with
  | array items => exact toValues_whole items
  | null | bool | number | string | object => exact List.forall_mem_singleton.2 (toValue_whole _)

end Json

namespace CommandLine

open Element (eventsOf)

variable {a : Arguments} {policy : Policy} {items : List Value}

def declarationText : String := "<?xml version=\"1.0\" encoding=\"utf-8\"?>"

/-- A report on a failure with an error behind it. -/
def Report.FailsWith (report : Report) (e : Error) : Prop := report.exitCode = 1 ∧ report.errors.getLast? = some e.message

/-! ## Sessions -/

section

variable {ω : Type} [Writer ω] {session s : Session ω}

theorem serializeItems_of_ok {number : Nat} (h : items.forM Session.serialize session = .ok () s) :
    serializeItems number items session = .ok () s := by
  induction items generalizing number session with
  | nil =>
    cases h
    rfl
  | cons value items ih =>
    obtain ⟨_, s₁, hserialize, hrest⟩ := exists_of_bind_ok h
    simp only [serializeItems, hserialize]
    exact ih hrest

theorem serializeItems_of_error (number : Nat) {e : Error} (h : items.forM Session.serialize session = .error e s) :
    ∃ failed, serializeItems number items session = .error (failed, e) s := by
  induction items generalizing number session with
  | nil => cases h
  | cons value items ih =>
    cases hserialize : Session.serialize value session with
    | ok _ s₁ =>
      have hrest : items.forM Session.serialize s₁ = .error e s := (bind_of_ok hserialize).symm.trans h
      simp only [serializeItems, hserialize]
      exact ih _ hrest
    | error e₁ s₁ =>
      have hfailed : EStateM.Result.error e₁ s₁ = .error e s := (bind_of_error hserialize).symm.trans h
      cases hfailed
      simp only [serializeItems, hserialize]
      exact ⟨number, rfl⟩

end

section

variable {writer : XmlWriter String} {session s : Session (XmlWriter String)}
  (hbegun : (if a.layout.getD .document = .document then XmlWriter.declaration { out := "", indent := a.indent }
    else .ok () { out := "", indent := a.indent }) = .ok () writer)
  (hcreate : Session.create writer policy (a.layout.getD .document) = .ok session)

include hbegun hcreate

/-- A session that comes to its end leaves its text. -/
theorem writeItems_of_ok (hall : Session.serializeAll items session = .ok () s) :
    writeItems a policy items = .success (s.writer.out ++ "\n") := by
  obtain ⟨_, s₁, hitems, hfinish⟩ := exists_of_bind_ok hall
  simp only [writeItems, hbegun, hcreate, serializeItems_of_ok hitems, hfinish]

/-- A session that fails leaves its error. -/
theorem writeItems_of_error {e : Error} (hall : Session.serializeAll items session = .error e s) :
    (writeItems a policy items).FailsWith e := by
  cases hitems : items.forM Session.serialize session with
  | error e₁ s₁ =>
    have hfailed : EStateM.Result.error e₁ s₁ = .error e s := (bind_of_error hitems).symm.trans hall
    cases hfailed
    obtain ⟨failed, hfailed⟩ := serializeItems_of_error 1 hitems
    simp only [writeItems, hbegun, hcreate, hfailed]
    exact ⟨rfl, rfl⟩
  | ok _ s₁ =>
    have hfinish : Session.finish s₁ = .error e s := (bind_of_ok hitems).symm.trans hall
    simp only [writeItems, hbegun, hcreate, serializeItems_of_ok hitems, hfinish]
    exact ⟨rfl, rfl⟩

end

/-! ## Layouts -/

def begun (policy : Policy) (layout : Layout) (writer : XmlWriter String) : Session (XmlWriter String) :=
  ({ writer, policy, layout } : Session (XmlWriter String)).note
    (.sessionStarted layout policy.depth policy.includeTypeNames)

theorem declaration_eq :
    XmlWriter.declaration ({ out := "" } : XmlWriter String) = .ok () (XmlWriter.behind declarationText { out := "" }) :=
  rfl

section

variable (hvalid : policy.validate = .ok ())

include hvalid

theorem create_eq_begun (layout : Layout) (writer : XmlWriter String) :
    Session.create writer policy layout = .ok (begun policy layout writer) := by
  rw [Session.create, hvalid]
  rfl

theorem toXml_eq_of_valid (items : List Value) :
    (toXml policy items).1 =
      match Session.serializeAll items (begun policy .document { out := "" }) with
      | .ok _ s => .ok s.writer.out
      | .error e _ => .error e := by
  simp only [toXml, create_eq_begun hvalid]
  cases Session.serializeAll items (begun policy .document { out := "" }) <;> rfl

variable (hindent : a.indent = none)

include hindent

/-- In the layout of a document, the text is the document behind the XML declaration. -/
theorem writeItems_document (hlayout : a.layout.getD .document = .document) (items : List Value) :
    (∃ xml, (toXml policy items).1 = .ok xml ∧
        writeItems a policy items = .success (declarationText ++ xml ++ "\n")) ∨
      ∃ e, (toXml policy items).1 = .error e ∧ (writeItems a policy items).FailsWith e := by
  have hcreate : Session.create (XmlWriter.behind declarationText { out := "" }) policy (a.layout.getD .document) =
      .ok ((begun policy .document { out := "" }).behind declarationText) := by
    rw [hlayout]
    exact create_eq_begun hvalid _ _
  have hbegun : (if a.layout.getD .document = .document then XmlWriter.declaration { out := "", indent := a.indent }
      else .ok () { out := "", indent := a.indent }) = .ok () (XmlWriter.behind declarationText { out := "" }) := by
    rw [if_pos hlayout, hindent, declaration_eq]
  obtain ⟨hall, -⟩ := Session.follows_serializeAll declarationText items (begun policy .document { out := "" }) rfl
  rw [toXml_eq_of_valid hvalid]
  cases hplain : Session.serializeAll items (begun policy .document { out := "" }) with
  | ok _ s =>
    rw [hplain] at hall
    exact .inl ⟨_, rfl, writeItems_of_ok hbegun hcreate hall⟩
  | error e s =>
    rw [hplain] at hall
    exact .inr ⟨e, rfl, writeItems_of_error hbegun hcreate hall⟩

/-- In the layout of a stream, the text is what stands inside the root of the document. -/
theorem writeItems_stream (hlayout : a.layout.getD .document = .stream) (hitems : ∀ v ∈ items, v.IsSettled) :
    (∃ body, (toXml policy items).1 = .ok (enclose policy.names.root body) ∧
        writeItems a policy items = .success (body ++ "\n")) ∨
      ∃ e, (toXml policy items).1 = .error e ∧ (writeItems a policy items).FailsWith e := by
  have hcreate : Session.create { out := "" } policy (a.layout.getD .document) =
      .ok (begun policy .stream { out := "" }) := by
    rw [hlayout]
    exact create_eq_begun hvalid _ _
  have hbegun : (if a.layout.getD .document = .document then XmlWriter.declaration { out := "", indent := a.indent }
      else .ok () { out := "", indent := a.indent }) = .ok () { out := "" } := by
    rw [if_neg (by simp [hlayout]), hindent]
  obtain ⟨es, hes⟩ := exists_becomes_of_settled policy hitems
  obtain ⟨run, hwalks, -⟩ := Walks.of_becomes hes (show ({} : Run).stopped = false from rfl)
  have hlists := Session.Lists.created policy (.sessionStarted .stream policy.depth policy.includeTypeNames)
  have hxml := toXml_of_becomes hvalid hes
  rcases hlists.items hvalid hwalks with ⟨hnone, s, hforM, hs⟩ | ⟨c, s, hsome, hforM⟩
  · obtain ⟨s', hfinish, hout⟩ := hs.finished
    have hbody : s'.writer.out = childrenText es := by
      rw [← String.toList_inj, hout, List.nil_append, childrenText, String.toList_ofList]
      exact Element.markups_level 0 1 es
    rw [hnone] at hxml
    refine .inl ⟨childrenText es, hxml, ?_⟩
    rw [writeItems_of_ok hbegun hcreate ((bind_of_ok hforM).trans hfinish), hbody]
  · rw [hsome] at hxml
    exact .inr ⟨_, hxml, writeItems_of_error hbegun hcreate (bind_of_error hforM)⟩

end

/-! ## The program -/

/-- With a depth that is not zero, the arguments ask for a policy that can be used. -/
theorem Arguments.exists_policy (hdepth : 1 ≤ a.depth.getD 1) :
    ∃ policy, a.policy = .ok policy ∧ policy.validate = .ok () := by
  have hvalid : Policy.validateDepth (a.depth.getD 1) = .ok () := if_neg (by omega)
  refine ⟨_, by rw [Arguments.policy, Policy.ofDepth, hvalid]; rfl, ?_⟩
  show (do Policy.validateDepth (a.depth.getD 1); ElementNames.validate {}) = Except.ok ()
  rw [hvalid]
  rfl

/-- A report on what is printed of an answer, or on its error, tells whether there is an answer. -/
theorem Report.agrees {report : Report} {answer : Except Error String} {Prints : String → Prop}
    (hprints : ∀ xml, Prints xml → report.exitCode = 0)
    (h : (∃ xml, answer = .ok xml ∧ Prints xml) ∨ ∃ e, answer = .error e ∧ report.FailsWith e) :
    (report.exitCode = 0 ↔ ∃ xml, answer = .ok xml) ∧ (∀ xml, answer = .ok xml → Prints xml) ∧
      ∀ e, answer = .error e → report.FailsWith e := by
  rcases h with ⟨xml, rfl, hxml⟩ | ⟨e, rfl, hreport⟩
  · refine ⟨⟨fun _ => ⟨xml, rfl⟩, fun _ => hprints xml hxml⟩, fun _ hsame => ?_, nofun⟩
    rwa [← Except.ok.inj hsame]
  · refine ⟨⟨fun hzero => ?_, nofun⟩, nofun, fun _ hsame => ?_⟩
    · cases hreport.1.symm.trans hzero
    · rwa [← Except.error.inj hsame]

/-- The command line agrees with the library. Given a JSON text, and without indentation, the program succeeds exactly
if its items can be written as a document. In the layout of a document it prints the declaration and the document, and in
that of a stream what stands inside the root of the document. Its error is otherwise that of the document. -/
theorem run_agrees_with_toXml {arguments : List String} {read : Source → Option ByteArray} {bytes : ByteArray}
    {text : String} {json : Json} (hcommand : Command.parse? arguments = some (.convert a)) (hindent : a.indent = none)
    (hdepth : 1 ≤ a.depth.getD 1) (hread : read a.source = some bytes) (htext : String.fromUTF8? bytes = some text)
    (hjson : Json.parse? text = some json) :
    ∃ policy, a.policy = .ok policy ∧
      ((run arguments read).exitCode = 0 ↔ ∃ xml, (toXml policy json.items).1 = .ok xml) ∧
      (∀ xml, (toXml policy json.items).1 = .ok xml →
        match a.layout.getD .document with
        | .document => run arguments read = .success ("<?xml version=\"1.0\" encoding=\"utf-8\"?>" ++ xml ++ "\n")
        | .stream => ∃ body, xml = enclose policy.names.root body ∧ run arguments read = .success (body ++ "\n")) ∧
      ∀ e, (toXml policy json.items).1 = .error e →
        (run arguments read).exitCode = 1 ∧ (run arguments read).errors.getLast? = some e.message := by
  obtain ⟨policy, hpolicy, hvalid⟩ := Arguments.exists_policy hdepth
  have hrun : run arguments read = writeItems a policy json.items := by
    simp only [run, hcommand, hpolicy, convertBytes, hread, Option.bind_some, htext, convert, hjson]
  refine ⟨policy, hpolicy, ?_⟩
  rw [hrun]
  cases hlayout : a.layout.getD .document with
  | document =>
    exact Report.agrees (fun xml hxml => congrArg Report.exitCode hxml)
      (writeItems_document hvalid hindent hlayout json.items)
  | stream =>
    refine Report.agrees (fun xml ⟨_, _, hreport⟩ => congrArg Report.exitCode hreport) ?_
    have hsettled : ∀ v ∈ json.items, v.IsSettled := fun v hv => (json.items_whole v hv).isSettled
    rcases writeItems_stream hvalid hindent hlayout hsettled with ⟨body, hxml, hreport⟩ | hfailure
    · exact .inl ⟨_, hxml, body, rfl, hreport⟩
    · exact .inr hfailure

/-- A number, an empty array and an object, in the layout of a stream. -/
theorem run_agrees_with_toXml_of_stream :
    ∃ (arguments : List String) (read : Source → Option ByteArray) (a : Arguments) (text : String) (json : Json),
      arguments = ["--depth=2", "--as", "stream", "-"] ∧ text = "[1, [], \x7b\"a\": null\x7d]" ∧
      Command.parse? arguments = some (.convert a) ∧ a.indent = none ∧ 1 ≤ a.depth.getD 1 ∧
      read a.source = some text.toUTF8 ∧ Json.parse? text = some json ∧
      run arguments read = .success ("<Object Type=\"i64\">1</Object><Object Type=\"Vec\" />" ++
        "<Object Type=\"PSCustomObject\"><Property Name=\"a\" /></Object>\n") ∧
      ∃ policy, a.policy = .ok policy ∧
        ((run arguments read).exitCode = 0 ↔ ∃ xml, (toXml policy json.items).1 = .ok xml) ∧
        (∀ xml, (toXml policy json.items).1 = .ok xml →
          ∃ body, xml = enclose policy.names.root body ∧ run arguments read = .success (body ++ "\n")) ∧
        ∀ e, (toXml policy json.items).1 = .error e →
          (run arguments read).exitCode = 1 ∧ (run arguments read).errors.getLast? = some e.message := by
  let text : String := "[1, [], \x7b\"a\": null\x7d]"
  let read : Source → Option ByteArray := fun _ => some text.toUTF8
  let a : Arguments := { input := some "-", depth := some 2, layout := some .stream }
  have hcommand : Command.parse? ["--depth=2", "--as", "stream", "-"] = some (.convert a) := by decide +kernel
  have htext : String.fromUTF8? text.toUTF8 = some text := dif_pos text.isValidUTF8
  have hjson : Json.parse? "[1, [], \x7b\"a\": null\x7d]" =
      some (.array [.number (.integer 1), .array [], .object [("a", .null)]]) := by rfl
  exact ⟨_, read, a, text, _, rfl, rfl, hcommand, rfl, by decide, rfl, hjson, by decide +kernel,
    run_agrees_with_toXml hcommand rfl (by decide) rfl htext hjson⟩

end CommandLine

end GraphMarkup
