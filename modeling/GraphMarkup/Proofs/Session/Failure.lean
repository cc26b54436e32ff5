import GraphMarkup.Proofs.Markup.Fragment
import GraphMarkup.Proofs.Session.Calls

/-!
# What a failed item leaves behind

* `Policy.tag_ne_empty`, `Element.All.of_proper` : a valid policy has no empty tags;
* `serialize_policy`, `after_policy` : a session keeps its policy;
* `openRoot_ok`, `putItem_started` : an item is put where the root is open, or has been opened first;
* `unchanged_iff_writable` : a failed item leaves the text alone exactly if its character data is such as XML can carry.

An item is refused by the walk, before anything reaches the writer, or by the writer itself in the middle of the replay.
In the latter case what has been written stays.
-/

namespace GraphMarkup

/-! ## Valid policies -/

theorem Policy.names_ne_empty {policy : Policy} (h : policy.validate = .ok ()) :
    ∀ field ∈ policy.names.fields, field.2 ≠ "" := by
  have hnames : policy.names.validate = .ok () := by
    unfold Policy.validate Policy.validateDepth at h
    by_cases hdepth : policy.depth < 1
    · rw [if_pos hdepth] at h
      cases h
    · rw [if_neg hdepth] at h
      exact h
  unfold ElementNames.validate at hnames
  cases hfind : policy.names.fields.find? fun field => field.2.isEmpty with
  | some field =>
    rw [hfind] at hnames
    cases hnames
  | none =>
    intro field hfield hempty
    have := List.find?_eq_none.1 hfind field hfield
    simp [hempty] at this

/-- Proper elements of a valid policy have no empty tags. -/
theorem Element.All.tag_ne_empty {policy : Policy} (h : policy.validate = .ok ()) {e : Element}
    (he : e.All (Element.Proper policy)) : e.All fun e => e.tag ≠ "" := by
  have hnames := Policy.names_ne_empty h
  induction he with
  | @intro e here _ ih =>
    refine .intro ?_ ih
    rcases here.tag with htag | htag
    · rw [htag]
      exact hnames ("object", policy.names.object) (by simp [ElementNames.fields])
    · rw [htag]
      exact hnames ("property", policy.names.property) (by simp [ElementNames.fields])

namespace Session

/-! ## Policies of sessions -/

section Policies

variable {ω α β : Type}

def KeepsPolicy (step : SessionM ω α) : Prop := ∀ s, (endState (step s)).policy = s.policy

theorem KeepsPolicy.bind {step : SessionM ω α} {k : α → SessionM ω β} (h : KeepsPolicy step)
    (hk : ∀ a, KeepsPolicy (k a)) : KeepsPolicy (step >>= k) := by
  intro s
  have hstep := h s
  cases hs : step s with
  | ok a s' =>
    rw [hs] at hstep
    rw [bind_of_ok hs]
    exact (hk a s').trans hstep
  | error e s' =>
    rw [hs] at hstep
    rw [bind_of_error hs]
    exact hstep

theorem KeepsPolicy.get {k : Session ω → SessionM ω β} (hk : ∀ s, KeepsPolicy (k s)) :
    KeepsPolicy (MonadState.get >>= k) := fun s => hk s s

theorem keepsPolicy_modify {f : Session ω → Session ω} (h : ∀ s, (f s).policy = s.policy) :
    KeepsPolicy (modify f : SessionM ω Unit) := h

theorem keepsPolicy_onWriter (step : EStateM Error ω Unit) : KeepsPolicy (onWriter step) := by
  intro s
  unfold onWriter
  split <;> rfl

theorem afterFailure_policy (e : Error) (s : Session ω) : (afterFailure e s).policy = s.policy := by
  unfold afterFailure
  split <;> rfl

variable [Writer ω]

theorem keepsPolicy_openRoot : KeepsPolicy (openRoot : SessionM ω Unit) := by
  refine KeepsPolicy.get fun s => ?_
  by_cases hlayout : s.layout = .document
  · rw [if_pos hlayout]
    exact (keepsPolicy_onWriter _).bind fun _ => keepsPolicy_modify fun _ => rfl
  · rw [if_neg hlayout]
    exact keepsPolicy_modify fun _ => rfl

theorem keepsPolicy_putItem (e : Element) (nodes : Nat) : KeepsPolicy (putItem e nodes : SessionM ω Unit) := by
  have hrest : KeepsPolicy (do
      onWriter (Writer.replay e.events)
      modify fun s => { s with items := s.items + 1 }
      modify fun s => s.note (.itemWritten s.items nodes e.events.length) : SessionM ω Unit) :=
    (keepsPolicy_onWriter _).bind fun _ =>
      (keepsPolicy_modify fun _ => rfl).bind fun _ => keepsPolicy_modify fun _ => rfl
  refine KeepsPolicy.get fun s => ?_
  by_cases hphase : s.phase = .atRoot
  · rw [if_pos hphase]
    exact keepsPolicy_openRoot.bind fun _ => hrest
  · rw [if_neg hphase]
    exact hrest

theorem keepsPolicy_serialize (value : Value) : KeepsPolicy (serialize value : SessionM ω Unit) := by
  intro s
  by_cases hphase : s.phase = .poisoned
  · rw [serialize_of_poisoned hphase]
    rfl
  · cases hgrow : grow s.policy value none s.policy.depth { run := s.run } with
    | ok e w =>
      have hput := keepsPolicy_putItem e w.visited { s with run := w.run }
      rw [serialize_of_grow_ok hphase hgrow]
      cases h : putItem e w.visited { s with run := w.run } with
      | ok _ s' =>
        rw [h] at hput
        exact hput
      | error error s' =>
        rw [h] at hput
        exact (afterFailure_policy error s').trans hput
    | error e w =>
      rw [serialize_of_grow_error hphase hgrow]
      exact afterFailure_policy .cancelled _

/-- A session keeps its policy. -/
theorem after_policy (s : Session ω) (calls : List Call) : (s.after calls).policy = s.policy := by
  induction calls generalizing s with
  | nil => rfl
  | cons call calls ih =>
    refine (ih (s.next call)).trans ?_
    cases call with
    | serialize value => exact keepsPolicy_serialize value s
    | requestStop => rfl

end Policies

/-! ## Items and XML text -/

section Items

variable {s : Session (XmlWriter String)}

theorem openRoot_ok (hroot : s.policy.names.root ≠ "") :
    ∃ writer, openRoot s = .ok () { s with writer, phase := .inDocument } ∧ s.writer.Extends writer := by
  by_cases hlayout : s.layout = .document
  · obtain ⟨writer, hput, -⟩ := XmlWriter.put_openElement hroot s.writer
    have hextends := XmlWriter.put_extends (.openElement s.policy.names.root) s.writer
    replace hput : XmlWriter.put (.openElement s.policy.names.root) s.writer = .ok () writer := hput
    rw [hput] at hextends
    exact ⟨writer, openRoot_of_put hlayout hput, hextends⟩
  · refine ⟨s.writer, ?_, XmlWriter.Extends.refl _⟩
    rw [openRoot, get_bind, if_neg hlayout]
    rfl

/-- An item is put where the root is open, or has been opened first. -/
theorem putItem_started (hroot : s.policy.names.root ≠ "") (hphase : s.phase ≠ .poisoned) (e : Element) (nodes : Nat) :
    ∃ s₁, putItem e nodes s = putItem e nodes s₁ ∧ s₁.phase = .inDocument ∧ s.writer.Extends s₁.writer := by
  cases hs : s.phase with
  | poisoned => exact absurd hs hphase
  | inDocument => exact ⟨s, rfl, hs, XmlWriter.Extends.refl _⟩
  | atRoot =>
    obtain ⟨writer, hopen, hextends⟩ := openRoot_ok hroot
    exact ⟨_, putItem_of_atRoot hs hopen rfl e nodes, rfl, hextends⟩

theorem afterFailure_writer (e : Error) (s : Session (XmlWriter String)) : (afterFailure e s).writer = s.writer := by
  unfold afterFailure
  split <;> rfl

variable {value : Value} {e : Element} {w : Walker}

/-- An item whose character data is such as XML can carry is written. -/
theorem serialize_ok_of_writable (hpolicy : s.policy.validate = .ok ()) (hphase : s.phase ≠ .poisoned)
    (hgrow : grow s.policy value none s.policy.depth { run := s.run } = .ok e w)
    (hwritable : ∀ event ∈ e.events, event.IsWritable) : ∃ s', serialize value s = .ok () s' := by
  have hroot := Policy.names_ne_empty hpolicy ("root", s.policy.names.root) (by simp [ElementNames.fields])
  have hproper := (grow_yields_proper s.policy value none s.policy.depth).of_ok hgrow
  obtain ⟨s₁, hput, hdocument, -⟩ := putItem_started (s := { s with run := w.run }) hroot hphase e w.visited
  obtain ⟨writer, hreplay, -⟩ := XmlWriter.replay_element (hproper.tag_ne_empty hpolicy) hwritable s₁.writer
  rw [serialize_of_grow_ok hphase hgrow, hput, putItem_of_inDocument hdocument, hreplay]
  exact ⟨_, rfl⟩

/-- Any other item fails in the middle, and what has been written of it stays. -/
theorem serialize_error_of_not_writable (hpolicy : s.policy.validate = .ok ()) (hphase : s.phase ≠ .poisoned)
    (hgrow : grow s.policy value none s.policy.depth { run := s.run } = .ok e w)
    (hwritable : ¬ ∀ event ∈ e.events, event.IsWritable) :
    ∃ error s', serialize value s = .error error s' ∧ s'.writer.out ≠ s.writer.out := by
  have hroot := Policy.names_ne_empty hpolicy ("root", s.policy.names.root) (by simp [ElementNames.fields])
  have hproper := (grow_yields_proper s.policy value none s.policy.depth).of_ok hgrow
  obtain ⟨s₁, hput, hdocument, hextends⟩ := putItem_started (s := { s with run := w.run }) hroot hphase e w.visited
  rw [serialize_of_grow_ok hphase hgrow, hput, putItem_of_inDocument hdocument]
  cases hreplay : Writer.replay e.events s₁.writer with
  | ok _ writer => exact absurd (XmlWriter.isWritable_of_replay hreplay) hwritable
  | error error writer =>
    refine ⟨error, _, rfl, ?_⟩
    rw [afterFailure_writer]
    have hlength : s₁.writer.out.length < writer.out.length := by
      have htags := (hproper.tag_ne_empty hpolicy).here
      obtain ⟨tag, attributes, text, children⟩ := e
      have hlt := XmlWriter.length_lt_of_replay htags
        (attrEvents attributes ++ textEvents text ++ Element.eventsOf children ++ [.closeElement]) s₁.writer
      rw [Element.events, List.cons_append] at hreplay
      rwa [hreplay] at hlt
    have hle : s.writer.out.length ≤ s₁.writer.out.length := hextends.length_le
    intro heq
    have hsame : writer.out.length = s.writer.out.length := congrArg String.length heq
    omega

/-- A failed item leaves the text alone exactly if the character data of its element is such as XML can carry, or if it
has no element because the walk over it is cancelled or the session has been poisoned before. -/
theorem unchanged_iff_writable {writer : XmlWriter String} {policy : Policy} {layout : Layout}
    {s₀ : Session (XmlWriter String)} (h : create writer policy layout = .ok s₀) (calls : List Call) (value : Value) :
    (∀ error s', serialize value (s₀.after calls) = .error error s' → s'.writer.out = (s₀.after calls).writer.out) ↔
      ∀ e, (s₀.after calls).itemElement? value = some e → ∀ event ∈ e.events, event.IsWritable := by
  have hpolicy : (s₀.after calls).policy.validate = .ok () := by
    rw [after_policy]
    unfold create at h
    split at h
    · cases h
    · next hvalid =>
      cases h
      exact hvalid
  generalize s₀.after calls = s at hpolicy ⊢
  by_cases hphase : s.phase = .poisoned
  · simp only [serialize_of_poisoned hphase, itemElement?, if_pos hphase]
    constructor
    · rintro - e he
      cases he
    · rintro - error s' heq
      cases heq
      rfl
  · simp only [itemElement?, if_neg hphase]
    cases hgrow : grow s.policy value none s.policy.depth { run := s.run } with
    | error e w =>
      rw [serialize_of_grow_error hphase hgrow]
      constructor
      · rintro - e he
        cases he
      · rintro - error s' heq
        cases heq
        rw [afterFailure_writer]
    | ok e w =>
      constructor
      · intro hunchanged e' he'
        obtain rfl : e = e' := Option.some.inj he'
        apply Classical.byContradiction
        intro hwritable
        obtain ⟨error, s', hserialize, hout⟩ := serialize_error_of_not_writable hpolicy hphase hgrow hwritable
        exact hout (hunchanged error s' hserialize)
      · intro hwritable error s' hserialize
        obtain ⟨s'', hok⟩ := serialize_ok_of_writable hpolicy hphase hgrow (hwritable e rfl)
        rw [hok] at hserialize
        cases hserialize

/-- The condition at the first item of a session in the layout of a document. -/
theorem unchanged_iff_writable_first :
    ∃ s₀, create ({ out := "", indent := some 2 } : XmlWriter String) {} .document = .ok s₀ ∧
      ((∀ error s', serialize (.scalar (.string "a < b")) (s₀.after []) = .error error s' →
        s'.writer.out = (s₀.after []).writer.out) ↔
      ∀ e, (s₀.after []).itemElement? (.scalar (.string "a < b")) = some e → ∀ event ∈ e.events, event.IsWritable) :=
  ⟨_, rfl, unchanged_iff_writable
    (show create ({ out := "", indent := some 2 } : XmlWriter String) {} .document = .ok _ from rfl) [] _⟩

/-- A text with a character that XML cannot carry: the start of its element stays. -/
theorem fragment_of_forbidden_char :
    ∃ s₀, create ({ out := "" } : XmlWriter String) {} .document = .ok s₀ ∧
      ∃ error s', serialize (.scalar (.string "bad\x01")) s₀ = .error error s' ∧ s'.writer.out ≠ s₀.writer.out := by
  have hheight : (Value.scalar (.string "bad\x01")).height = 1 := by
    rw [Value.height]
    rfl
  have hgrow (journal : Array Entry) : grow {} (.scalar (.string "bad\x01")) none 1 { run := { journal } } =
      .ok ⟨"Object", [("Type", "String")], some "bad\x01", []⟩
        { run := { journal := journal.push .visited }, itemTagDue := false, visited := 1 } := by
    rw [grow, hheight]
    rfl
  refine ⟨_, rfl, serialize_error_of_not_writable rfl (by simp [note]) (hgrow _) ?_⟩
  intro hwritable
  have hforbidden : Markup.IsXmlText "bad\x01" := hwritable (.text "bad\x01") (by simp [Element.events])
  exact absurd hforbidden (by decide)

end Items

end Session

end GraphMarkup
