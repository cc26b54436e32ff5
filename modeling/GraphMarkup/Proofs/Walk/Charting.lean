import GraphMarkup.Proofs.Walk.Agreement
import GraphMarkup.Proofs.Walk.Cancelled
import GraphMarkup.Proofs.Walk.Chart
import GraphMarkup.Proofs.Walk.Notes

/-!
# Every walk has a chart

* `Charted`, `ChartedOne` : steps that give elements of which there are sound charts;
* `charted_property`, `charted_items`, ... : the parts of an element;
* `opens_node` : what stands inside the element of a value;
* `exists_chart_of_grow`, `write_charted` : the element of a value has a sound chart, unless a stop is requested.

A chart of what is inside is made by a call with one level less. It tells of `write`, so the levels have to suffice.
-/

namespace GraphMarkup

open Chart (Threads Sound Shows IsLeaf OfProperty OfProperties Expands ExpandsChain)

variable {α β : Type} {policy : Policy} {levels : Nat}

/-! ## Steps that give charted elements -/

theorem KeepsPromotion.of_ok {step : WalkM α} (h : KeepsPromotion step) {w w' : Walker} {a : α}
    (hw : step w = .ok a w') : w'.promotionDue = w.promotionDue := by
  have hend := h w
  rwa [hw] at hend

/-- From a state on, where a promotion is due or not, a step gives elements with sound charts. -/
def ChartedFrom (policy : Policy) (due : Bool) (R : List Chart → Prop) (give : WalkM (List Element)) (w : Walker) :
    Prop :=
  ∀ es w', give w = .ok es w' → ∃ cs : List Chart, es = cs.map Chart.element ∧ (∀ c ∈ cs, c.Sound policy) ∧
    Threads due cs w'.promotionDue ∧ R cs

/-- A step that gives elements with sound charts. -/
abbrev Charted (policy : Policy) (R : List Chart → Prop) (give : WalkM (List Element)) : Prop :=
  ∀ w : Walker, ChartedFrom policy w.promotionDue R give w

/-- A step that gives an element with a sound chart. -/
def ChartedOne (policy : Policy) (R : Chart → Prop) (give : WalkM Element) : Prop :=
  ∀ w e w', give w = .ok e w' → ∃ c : Chart, c.element = e ∧ c.Sound policy ∧
    c.before.promotionDue = w.promotionDue ∧ c.after.promotionDue = w'.promotionDue ∧ R c

section

variable {R S : List Chart → Prop} {give give' : WalkM (List Element)} {w : Walker}

theorem charted_nothing (h : R []) : Charted policy R (return []) := by
  intro w es w' hgive
  cases hgive
  exact ⟨[], rfl, List.forall_mem_nil _, rfl, h⟩

theorem ChartedFrom.mono {due : Bool} (h : ChartedFrom policy due R give w) (hR : ∀ cs, R cs → S cs) :
    ChartedFrom policy due S give w := by
  intro es w' hgive
  obtain ⟨cs, hes, hsound, hthreads, hcs⟩ := h es w' hgive
  exact ⟨cs, hes, hsound, hthreads, hR cs hcs⟩

theorem Charted.mono (h : Charted policy R give) (hR : ∀ cs, R cs → S cs) : Charted policy S give :=
  fun w => (h w).mono hR

theorem Charted.after {step : WalkM β} {k : β → WalkM (List Element)} (h : KeepsPromotion step)
    (hk : ∀ b, Charted policy R (k b)) : Charted policy R (step >>= k) := by
  intro w es w' hgive
  obtain ⟨b, w₁, hstep, hrest⟩ := exists_of_bind_ok hgive
  have hcharts := hk b w₁ es w' hrest
  rwa [h.of_ok hstep] at hcharts

theorem ChartedFrom.join {due : Bool} (h : ChartedFrom policy due R give w) (h' : Charted policy S give') :
    ChartedFrom policy due (fun cs => ∃ front rest, cs = front ++ rest ∧ R front ∧ S rest)
      (do return (← give) ++ (← give')) w := by
  intro es w' hgive
  obtain ⟨es₁, w₁, hfirst, hrest⟩ := exists_of_bind_ok hgive
  obtain ⟨es₂, w₂, hsecond, hend⟩ := exists_of_bind_ok hrest
  cases hend
  obtain ⟨front, rfl, hsound, hthreads, hfront⟩ := h es₁ w₁ hfirst
  obtain ⟨rest, rfl, hsound', hthreads', hrest⟩ := h' w₁ es₂ w' hsecond
  exact ⟨front ++ rest, List.map_append.symm, List.forall_mem_append.2 ⟨hsound, hsound'⟩, hthreads.append hthreads',
    front, rest, rfl, hfront, hrest⟩

theorem Charted.join (h : Charted policy R give) (h' : Charted policy S give') :
    Charted policy (fun cs => ∃ front rest, cs = front ++ rest ∧ R front ∧ S rest)
      (do return (← give) ++ (← give')) :=
  fun w => (h w).join h'

theorem ChartedOne.one {R : Chart → Prop} {give : WalkM Element} (h : ChartedOne policy R give) :
    Charted policy (fun cs => ∃ c, cs = [c] ∧ R c) (do return [← give]) := by
  intro w es w' hgive
  obtain ⟨e, w₁, he, hend⟩ := exists_of_bind_ok hgive
  cases hend
  obtain ⟨c, rfl, hsound, hbefore, hafter, hc⟩ := h w e w' he
  exact ⟨[c], rfl, List.forall_mem_singleton.2 hsound, ⟨hbefore, hafter⟩, c, rfl, hc⟩

theorem ChartedOne.cons {R : Chart → Prop} {give : WalkM Element} (h : ChartedOne policy R give)
    (h' : Charted policy S give') :
    Charted policy (fun cs => ∃ front rest, cs = front ++ rest ∧ (∃ c, front = [c] ∧ R c) ∧ S rest)
      (do return (← give) :: (← give')) := by
  have hjoin := h.one.join h'
  simpa only [bind_assoc, pure_bind, List.cons_append, List.nil_append] using hjoin

end

/-! ## Loops -/

section Loops

variable {γ : Type} {R : γ → Chart → Prop} {body : α → WalkM (List Element)} {parts : α → List γ}

theorem charted_gather {as : List α} (h : ∀ a ∈ as, Charted policy (List.Forall₂ R (parts a)) (body a)) :
    Charted policy (List.Forall₂ R (as.flatMap parts)) (gather body as) := by
  induction as with
  | nil => exact charted_nothing .nil
  | cons a as ih =>
    have hrest := ih fun b hb => h b (List.mem_cons_of_mem _ hb)
    refine ((h a (List.mem_cons_self ..)).join hrest).mono fun cs hcs => ?_
    obtain ⟨front, rest, rfl, hfront, hrest⟩ := hcs
    exact List.rel_append hfront hrest

theorem charted_gatherSteps {steps : List (Step α)}
    (h : ∀ a ∈ Step.items steps, Charted policy (List.Forall₂ R (parts a)) (body a)) (id : Nat) (endStops : Bool)
    (index : Nat) :
    Charted policy (List.Forall₂ R ((Step.items steps).flatMap parts)) (gatherSteps id endStops body index steps) := by
  induction steps generalizing index with
  | nil => exact Charted.after (keepsPromotion_onRun _) fun _ => charted_nothing .nil
  | cons step steps ih =>
    obtain ⟨outcome, stops⟩ := step
    refine Charted.after (keepsPromotion_onRun _) fun _ => ?_
    cases outcome with
    | error reason => exact Charted.after (keepsPromotion_note _) fun _ => charted_nothing .nil
    | ok item =>
      have hrest := ih (fun b hb => h b (List.mem_cons_of_mem _ hb)) (index + 1)
      refine ((h item (List.mem_cons_self ..)).join hrest).mono fun cs hcs => ?_
      obtain ⟨front, rest, rfl, hfront, hrest⟩ := hcs
      exact List.rel_append hfront hrest

theorem charted_gatherItems {items : Sequence α} {w : Walker}
    (h : ∀ a ∈ items.items w.run.reads, Charted policy (List.Forall₂ R (parts a)) (body a)) :
    ChartedFrom policy w.promotionDue (List.Forall₂ R ((items.items w.run.reads).flatMap parts))
      (gatherItems items body) w := by
  cases items with
  | ready items => exact charted_gather h w
  | deferred enumerator =>
    intro es w' hgive
    rw [gatherItems, WalkM.onRun_bind, Fetch.read_deferred] at hgive
    generalize ((Fetch.deferred enumerator).read .enumerator w.run).2 = run at hgive
    cases hanswer : enumerator.answer (w.run.reads enumerator.id + 1) with
    | ok enumeration =>
      rw [Sequence.items_of_ok hanswer] at h ⊢
      rw [hanswer] at hgive
      exact charted_gatherSteps h enumerator.id enumeration.endStops 0 { w with run } es w' hgive
    | error reason =>
      rw [Sequence.items_of_error hanswer]
      rw [hanswer] at hgive
      exact Charted.after (keepsPromotion_note _) (fun _ => charted_nothing .nil) { w with run } es w' hgive

end Loops

/-! ## Parts of an element -/

section Parts

/-- A way to grow lower values that has charts for them. -/
def InsideCharted (policy : Policy) (levels : Nat) : Prop :=
  ∀ v : Value, v.height ≤ levels → ∀ name depth w e w', growWithin policy levels v name depth w = .ok e w' →
    ∃ c : Chart, c.element = e ∧ c.Sound policy ∧ c.Shows v name depth ∧ c.before = w ∧ c.after = w'

theorem InsideCharted.one (h : InsideCharted policy levels) {v : Value} (hv : v.height ≤ levels) (name : Option String)
    (depth : Nat) : ChartedOne policy (fun c => c.Shows v name depth) (growWithin policy levels v name depth) := by
  intro w e w' hgrow
  obtain ⟨c, he, hsound, hshows, hbefore, hafter⟩ := h v hv name depth w e w' hgrow
  exact ⟨c, he, hsound, by rw [hbefore], by rw [hafter], hshows⟩

/-- An element without children that stands for no value. -/
theorem sound_childless {c : Chart} (hlabel : c.element.Labelled policy c.name) (hchildren : c.element.children = [])
    (hsubject : c.subject = .absence ∨ c.subject = .leaf) (hinside : c.inside = [])
    (hdue : c.after.promotionDue = c.before.promotionDue) : c.Sound policy := by
  have hexpands : c.subject.expandsChain policy = false := by
    rcases hsubject with h | h <;> rw [h] <;> rfl
  refine .intro ⟨hlabel, ?_, ?_, ?_⟩ ?_
  · rw [hchildren, hinside]
    rfl
  · rw [hinside, hexpands, hdue]
    exact Bool.and_true _
  · rcases hsubject with h | h <;> rw [h] <;> exact hinside
  · rw [hinside]
    exact List.forall_mem_nil _

theorem charted_property (h : InsideCharted policy levels) {p : Property Value}
    (hp : ∀ c ∈ p.value.results, c.height ≤ levels) (depth : Nat) :
    ChartedOne policy (OfProperty depth p) (growProperty policy (growWithin policy levels) depth p) := by
  intro w e w' hgrow
  obtain ⟨_, w₁, hpoll, hgrow⟩ := exists_of_bind_ok hgrow
  obtain ⟨answer, w₂, hread, hgrow⟩ := exists_of_bind_ok hgrow
  obtain ⟨hanswer, hrun⟩ : answer = (p.value.read (.property p.name) w₁.run).1 ∧
      w₂.run = (p.value.read (.property p.name) w₁.run).2 := by
    cases hread
    exact ⟨rfl, rfl⟩
  have hdue : w₂.promotionDue = w.promotionDue :=
    ((keepsPromotion_onRun _).of_ok hread).trans (keepsPromotion_poll.of_ok hpoll)
  -- A property that is null or cannot be read.
  have habsent (w₃ : Walker) (hdue' : w₃.promotionDue = w₂.promotionDue) (hof : .ofAnswer depth answer = Subject.absence) :
      ∃ c : Chart, c.element = emptyProperty policy p ∧ c.Sound policy ∧ c.before.promotionDue = w.promotionDue ∧
        c.after.promotionDue = w₃.promotionDue ∧ OfProperty depth p c :=
    ⟨⟨.absence, some p.name, emptyProperty policy p, w₂, w₃, [], []⟩, rfl,
      sound_childless ⟨.inl rfl, _, rfl⟩ rfl (.inl rfl) rfl hdue', hdue, rfl, rfl, w₁.run, hanswer ▸ hof.symm, hrun⟩
  cases answer with
  | error reason =>
    obtain ⟨_, w₃, hnote, hgrow⟩ := exists_of_bind_ok hgrow
    cases hgrow
    exact habsent w' ((keepsPromotion_note _).of_ok hnote) rfl
  | ok value =>
    have hresult : value ∈ p.value.results := Fetch.mem_results_of_read hanswer.symm
    by_cases hnull : value.isNull
    · simp only [if_pos hnull] at hgrow
      cases hgrow
      exact habsent w' rfl (if_pos hnull)
    · simp only [if_neg hnull] at hgrow
      obtain ⟨c, he, hsound, hshows, hbefore, hafter⟩ := h value (hp value hresult) _ depth w₂ e w' hgrow
      refine ⟨c, he, hsound, by rw [hbefore, hdue], by rw [hafter], hshows.name, w₁.run, ?_, by rw [hbefore, hrun]⟩
      rw [hshows.subject, ← hanswer]
      exact (if_neg hnull).symm

theorem charted_properties (h : InsideCharted policy levels) {ps : List (Property Value)}
    (hps : ∀ p ∈ ps, ∀ c ∈ p.value.results, c.height ≤ levels) (depth : Nat) :
    Charted policy (OfProperties depth ps) (growProperties policy (growWithin policy levels) depth ps) := by
  have hrow : Charted policy (List.Forall₂ (OfProperty (depth - 1)) (ps.flatMap fun p => [p]))
      (growProperties policy (growWithin policy levels) depth ps) := by
    refine charted_gather fun p hp => (charted_property h (hps p hp) (depth - 1)).one.mono fun cs hcs => ?_
    obtain ⟨c, rfl, hc⟩ := hcs
    exact .cons hc .nil
  rwa [List.flatMap_singleton'] at hrow

theorem charted_selection (h : InsideCharted policy levels) {v : Value} (hlevels : v.height ≤ levels + 1) (depth : Nat) :
    Charted policy (OfProperties (policy.depthFor v depth) (policy.selection v))
      (growSelection policy (growWithin policy levels) v depth) :=
  charted_properties h (fun _ hp _ hc => height_le_of_property hlevels (Policy.mem_properties_of_mem_selection hp) hc) _

theorem charted_notes (h : InsideCharted policy levels) {v : Value} (hlevels : v.height ≤ levels + 1) (depth : Nat) :
    Charted policy (OfProperties depth v.notes) (growProperties policy (growWithin policy levels) depth v.notes) :=
  charted_properties h (fun _ hp _ hc => height_le_of_property hlevels (List.mem_append_right _ hp) hc) depth

theorem charted_items (h : InsideCharted policy levels) {shape : Shape} {w : Walker}
    (hshape : ∀ item ∈ shape.items policy w.run.reads, item.2.height ≤ levels) (depth : Nat) :
    ChartedFrom policy w.promotionDue
      (List.Forall₂ (fun item c => c.Shows item.2 item.1 depth) (shape.items policy w.run.reads))
      (growItems policy (growWithin policy levels) depth shape) w := by
  cases shape with
  | dictionary entries =>
    refine charted_gatherItems fun entry hentry => ?_
    have hmem : ∀ item ∈ [(some policy.names.key, entry.1), (some policy.names.value, entry.2)],
        item.2.height ≤ levels := fun item hitem => hshape item (List.mem_flatMap.2 ⟨entry, hentry, hitem⟩)
    have hkey := h.one (hmem _ (List.mem_cons_self ..)) (some policy.names.key) depth
    have hvalue := h.one (hmem _ (List.mem_cons_of_mem _ (List.mem_singleton_self _))) (some policy.names.value) depth
    have hentry := (hkey.cons hvalue.one).mono (S := List.Forall₂ (fun item c => c.Shows item.2 item.1 depth)
      [(some policy.names.key, entry.1), (some policy.names.value, entry.2)]) fun cs hcs => by
        obtain ⟨front, rest, rfl, ⟨c, rfl, hc⟩, c', rfl, hc'⟩ := hcs
        exact .cons hc (.cons hc' .nil)
    simpa only [bind_assoc, pure_bind] using hentry
  | list kind elements =>
    refine charted_gatherItems fun item hitem => ?_
    have hheight := hshape (none, item) (List.mem_flatMap.2 ⟨item, hitem, List.mem_singleton_self _⟩)
    refine (h.one hheight none depth).one.mono fun cs hcs => ?_
    obtain ⟨c, rfl, hc⟩ := hcs
    exact .cons hc .nil

/-! ## What stands inside an element -/

theorem keepsPromotion_start (policy : Policy) (name typeName : Option String) :
    KeepsPromotion (growStart policy name typeName) := by
  unfold growStart
  cases name with
  | some name => exact keepsPromotion_pure _
  | none =>
    refine KeepsPromotion.get fun w => ?_
    by_cases hdue : w.itemTagDue
    · rw [if_pos hdue]
      exact fun _ => rfl
    · rw [if_neg hdue]
      exact keepsPromotion_pure _

theorem keepsPromotion_text (policy : Policy) (name typeName : Option String) (text : String) :
    KeepsPromotion (growText policy name typeName text) :=
  (keepsPromotion_start policy name typeName).bind fun _ => keepsPromotion_pure _

theorem keepsPromotion_null (policy : Policy) (name : Option String) : KeepsPromotion (growNull policy name) :=
  (keepsPromotion_start policy name none).bind fun _ => (keepsPromotion_pure _).bind fun _ => keepsPromotion_pure _

/-- The scalar in front of notes. -/
theorem charted_leaf (policy : Policy) (scalar : Scalar) : ChartedOne policy IsLeaf (growScalar policy none scalar) := by
  intro w e w' hgrow
  have hlabel := (labelled_text policy none _ _).of_ok hgrow
  have hchildren := (yields_text_childless policy none _ _).of_ok hgrow
  exact ⟨⟨.leaf, none, e, w, w', [], []⟩, rfl, sound_childless hlabel hchildren (.inr rfl) rfl
    ((keepsPromotion_text policy _ _ _).of_ok hgrow), rfl, rfl, rfl, rfl⟩

/-- Charts of what stands in front of the properties, and of the properties. -/
abbrev InTwo (R : List Chart → List Chart → Prop) (cs : List Chart) : Prop :=
  ∃ front properties, cs = front ++ properties ∧ R front properties

/-- An element that has sound charts for its children. -/
def Opens (policy : Policy) (due due' : Bool) (R : List Chart → List Chart → Prop) (e : Element) : Prop :=
  ∃ cs : List Chart, e.children = cs.map Chart.element ∧ (∀ c ∈ cs, c.Sound policy) ∧ Threads due cs due' ∧ InTwo R cs

variable {R : List Chart → List Chart → Prop} {name typeName : Option String} {due : Bool} {w w' : Walker} {e : Element}

theorem opens_childless (hchildren : e.children = []) (hdue : w'.promotionDue = w.promotionDue) (hR : R [] []) :
    Opens policy w.promotionDue w'.promotionDue R e :=
  ⟨[], hchildren, List.forall_mem_nil _, hdue.symm, [], [], rfl, hR⟩

theorem opens_text {text : String} (hgrow : growText policy name typeName text w = .ok e w') (hR : R [] []) :
    Opens policy w.promotionDue w'.promotionDue R e :=
  opens_childless ((yields_text_childless policy _ _ _).of_ok hgrow) ((keepsPromotion_text policy _ _ _).of_ok hgrow) hR

theorem opens_null (hgrow : growNull policy name w = .ok e w') (hR : R [] []) :
    Opens policy w.promotionDue w'.promotionDue R e :=
  opens_childless ((yields_null_childless policy _).of_ok hgrow) ((keepsPromotion_null policy _).of_ok hgrow) hR

theorem opens_around {give : WalkM (List Element)}
    (h : ∀ w₁ : Walker, w₁.promotionDue = w.promotionDue → w₁.run = w.run → ChartedFrom policy due (InTwo R) give w₁)
    (hgrow : growAround policy name typeName give w = .ok e w') : Opens policy due w'.promotionDue R e := by
  obtain ⟨start, w₁, hstart, hgrow⟩ := exists_of_bind_ok hgrow
  obtain ⟨children, w₂, hgive, hgrow⟩ := exists_of_bind_ok hgrow
  cases hgrow
  exact h w₁ ((keepsPromotion_start policy _ _).of_ok hstart) (run_of_growStart hstart) children w' hgive

theorem Charted.opens {give : WalkM (List Element)} (h : Charted policy (InTwo R) give)
    (hgrow : growAround policy name typeName give w = .ok e w') :
    Opens policy w.promotionDue w'.promotionDue R e :=
  opens_around (fun w₁ hdue _ => hdue ▸ h w₁) hgrow

end Parts

/-! ## The ways to write a value -/

section Node

variable {v : Value} {name : Option String} {depth : Nat} {w w' : Walker} {e : Element}

theorem opens_container (h : InsideCharted policy levels) (hlevels : v.height ≤ levels + 1) {shape : Shape}
    {decoration : Option Decoration} (hclass : classify policy v depth = .container shape decoration)
    (hgrow : growAround policy name (v.typeName? policy.knownTypes)
      (growContents policy (growWithin policy levels) v shape decoration depth) w = .ok e w') :
    Opens policy w.promotionDue w'.promotionDue (Expands policy v depth w.promotionDue w.run.reads) e := by
  obtain ⟨hbase, hnotes⟩ := base_and_notes_of_container hclass
  refine opens_around (fun w₁ hdue hrun => ?_) hgrow
  have hitems := charted_items h (w := w₁) (fun item hitem => Nat.le_of_lt_succ (Nat.lt_of_lt_of_le
    (Value.height_lt_of_mem_children (Shape.mem_children_of_mem_items hbase hitem))
    (Nat.le_trans v.height_base_le hlevels))) depth
  rw [hdue, hrun] at hitems
  unfold growContents Expands
  simp only [hclass]
  by_cases hwhole : (shape.hasSidecar || decoration.any Decoration.deserialized) = true
  · simp only [if_pos hwhole]
    exact hitems.join (charted_selection h hlevels depth)
  · simp only [if_neg hwhole, hnotes]
    exact hitems.join (charted_notes h hlevels depth)

theorem opens_asString (h : InsideCharted policy levels) (hlevels : v.height ≤ levels + 1)
    (hclass : classify policy v depth = .asString)
    (hgrow : growString policy (growWithin policy levels) v name depth w = .ok e w') :
    Opens policy w.promotionDue w'.promotionDue (Expands policy v depth w.promotionDue w.run.reads) e := by
  unfold growString at hgrow
  by_cases hempty : v.notes.isEmpty
  · have hexpands : Expands policy v depth w.promotionDue w.run.reads [] [] := by
      unfold Expands
      rw [hclass]
      exact (if_pos hempty).symm ▸ ⟨rfl, rfl⟩
    rw [if_pos hempty] at hgrow
    obtain ⟨text, w₁, hform, hgrow⟩ := exists_of_bind_ok hgrow
    rw [← (closedSteps_keepsPromotion.stringForm policy v).of_ok hform] at hexpands ⊢
    cases text with
    | some text => exact opens_text hgrow hexpands
    | none => exact opens_null hgrow hexpands
  · rw [if_neg hempty] at hgrow
    refine Charted.opens ?_ hgrow
    unfold Expands
    simp only [hclass, if_neg hempty]
    have hleaf (leaf : Option Scalar) :
        Charted policy (fun cs => cs = [] ∨ ∃ c : Chart, cs = [c] ∧ c.IsLeaf) (growLeaf policy leaf) := by
      cases leaf with
      | some leaf => exact (charted_leaf policy leaf).one.mono fun _ => .inr
      | none => exact charted_nothing (.inl rfl)
    exact Charted.after (closedSteps_keepsPromotion.stringLeaf policy v) fun leaf => (hleaf leaf).join (charted_notes h hlevels depth)

/-- What stands inside a chain of decorators, of which the first one is promoted. -/
theorem chartedFrom_chain (h : InsideCharted policy levels) {inner : Value} {notes : List (Property Value)}
    {deserialized : Bool} (hlevels : (Value.decorated inner notes deserialized).height ≤ levels + 1) (w : Walker) :
    ChartedFrom policy false
      (InTwo (ExpandsChain policy (.decorated inner notes deserialized) inner notes depth w.promotionDue))
      (growChain policy (growWithin policy levels) (.decorated inner notes deserialized) inner notes depth) w := by
  have hinner : inner.height ≤ levels := Nat.le_of_lt_succ (Nat.lt_of_lt_of_le (Value.height_inner_lt ..) hlevels)
  have hnotes : Charted policy (OfProperties depth notes)
      (growProperties policy (growWithin policy levels) depth notes) :=
    charted_properties h (fun p hp c hc => height_le_of_property hlevels
      (List.mem_append_right _ (List.mem_append_right _ hp)) hc) depth
  have hall := charted_notes h hlevels depth
  have hselection := charted_selection h hlevels depth
  unfold ChartedFrom growChain ExpandsChain
  rw [get_bind]
  by_cases hdue : w.promotionDue
  · rw [if_pos hdue, modify_bind]
    simp only [if_pos hdue]
    have hbase : inner.base.height ≤ levels := Nat.le_trans inner.height_base_le hinner
    unfold growPromoted
    rw [Value.base_decorated] at *
    generalize inner.base = base at *
    cases base with
    | object =>
      exact hselection.mono (S := InTwo fun front properties => front = [] ∧ OfProperties _ _ properties)
        (fun cs hcs => ⟨[], cs, rfl, rfl, hcs⟩) { w with promotionDue := false }
    | null | scalar | enum | list | dict | decorated =>
      exact ((h.one hbase none depth).cons hall) { w with promotionDue := false }
  · rw [if_neg hdue]
    simp only [if_neg hdue]
    have hrow := ((h.one hinner none depth).cons hnotes) w
    rwa [Bool.eq_false_iff.2 hdue] at hrow

theorem opens_complex (h : InsideCharted policy levels) (hlevels : v.height ≤ levels + 1)
    (hclass : classify policy v depth = .complex)
    (hgrow : growAround policy name (v.typeName? policy.knownTypes)
      (growParts policy (growWithin policy levels) v depth) w = .ok e w') :
    Opens policy (w.promotionDue && !v.isChain) w'.promotionDue (Expands policy v depth w.promotionDue w.run.reads) e := by
  have hselection : Charted policy (InTwo fun front properties => front = [] ∧
      OfProperties (policy.depthFor v depth) (policy.selection v) properties)
      (growSelection policy (growWithin policy levels) v depth) :=
    (charted_selection h hlevels depth).mono fun cs hcs => ⟨[], cs, rfl, rfl, hcs⟩
  unfold Expands
  rw [hclass]
  cases v with
  | decorated v notes deserialized =>
    cases v with
    | decorated inner innerNotes innerDeserialized =>
      show Opens policy (w.promotionDue && false) w'.promotionDue _ e
      rw [Bool.and_false]
      exact opens_around (fun w₁ hdue _ => hdue ▸ chartedFrom_chain h hlevels w₁) hgrow
    | null | scalar | enum | list | dict | object =>
      show Opens policy (w.promotionDue && true) w'.promotionDue _ e
      rw [Bool.and_true]
      exact hselection.opens hgrow
  | null | scalar | enum | list | dict | object =>
    show Opens policy (w.promotionDue && true) w'.promotionDue _ e
    rw [Bool.and_true]
    exact hselection.opens hgrow

theorem opens_notedScalar (h : InsideCharted policy levels) (hlevels : v.height ≤ levels + 1)
    {notes : List (Property Value)} {scalar : Scalar} (hclass : classify policy v depth = .notedScalar notes scalar)
    (hgrow : (if notes.isEmpty then growScalar policy name scalar
      else growAround policy name (some (policy.knownTypes.typeNameOf scalar)) do
        return (← growScalar policy none scalar) :: (← growProperties policy (growWithin policy levels) depth notes)) w =
      .ok e w') :
    Opens policy w.promotionDue w'.promotionDue (Expands policy v depth w.promotionDue w.run.reads) e := by
  obtain ⟨deserialized, rfl⟩ := eq_of_classify_eq_notedScalar hclass
  have hnotes := charted_notes h hlevels depth
  unfold Expands
  simp only [hclass]
  by_cases hempty : notes.isEmpty
  · simp only [if_pos hempty] at hgrow ⊢
    exact opens_text hgrow ⟨rfl, rfl⟩
  · simp only [if_neg hempty] at hgrow ⊢
    exact ((charted_leaf policy scalar).cons hnotes).opens hgrow

/-- What stands inside the element of a value. -/
theorem opens_node (h : InsideCharted policy levels) (hlevels : v.height ≤ levels + 1)
    (hgrow : growNode policy (growWithin policy levels) v name depth w = .ok e w') :
    Opens policy (w.promotionDue && !(Subject.value v depth).expandsChain policy) w'.promotionDue
      (Expands policy v depth w.promotionDue w.run.reads) e := by
  obtain ⟨_, w₁, hpoll, hgrow⟩ := exists_of_bind_ok hgrow
  obtain ⟨_, w₂, hvisit, hgrow⟩ := exists_of_bind_ok hgrow
  have hreads : w.run.reads = w₂.run.reads := by
    rw [WalkM.poll_eq_of_ok hpoll] at hvisit
    cases hvisit
    rfl
  rw [← keepsPromotion_poll.of_ok hpoll, ← keepsPromotion_visit.of_ok hvisit, hreads]
  by_cases hcomplex : classify policy v depth = .complex
  · rw [hcomplex] at hgrow
    rw [Subject.expandsChain_of_complex hcomplex]
    exact opens_complex h hlevels hcomplex hgrow
  · rw [Subject.expandsChain_of_ne_complex hcomplex, Bool.not_false, Bool.and_true]
    have hchildless (hexpands : Expands policy v depth w₂.promotionDue w₂.run.reads =
        fun front properties => front = [] ∧ properties = []) :
        Expands policy v depth w₂.promotionDue w₂.run.reads [] [] := by
      rw [hexpands]
      exact ⟨rfl, rfl⟩
    cases hclass : classify policy v depth with
    | null =>
      rw [hclass] at hgrow
      refine opens_null hgrow (hchildless ?_)
      unfold Expands
      rw [hclass]
    | scalar scalar =>
      rw [hclass] at hgrow
      refine opens_text hgrow (hchildless ?_)
      unfold Expands
      rw [hclass]
    | notedScalar notes scalar =>
      rw [hclass] at hgrow
      exact opens_notedScalar h hlevels hclass hgrow
    | container shape decoration =>
      rw [hclass] at hgrow
      exact opens_container h hlevels hclass hgrow
    | enumLike _ underlying =>
      rw [hclass] at hgrow
      refine opens_text hgrow (hchildless ?_)
      unfold Expands
      rw [hclass]
    | asString =>
      rw [hclass] at hgrow
      exact opens_asString h hlevels hclass hgrow
    | complex => exact absurd hclass hcomplex

end Node

/-! ## Whole values -/

theorem insideCharted (policy : Policy) (levels : Nat) : InsideCharted policy levels := by
  induction levels with
  | zero =>
    intro v hv
    exact absurd hv (Nat.not_le_of_lt v.height_pos)
  | succ levels ih =>
    intro v hv name depth w e w' hgrow
    obtain ⟨cs, hchildren, hsound, hthreads, front, properties, rfl, hexpands⟩ := opens_node ih hv hgrow
    have hwrite : ∀ r, write policy v name depth (w.on r) = .ok () (w'.on (r.append e.events)) := by
      rw [← writeWithin_eq_write policy hv]
      exact (records_within policy (levels + 1) v name depth).of_ok hgrow
    have hlabel := ((closed_labelled policy).within (levels + 1) v name depth).of_ok hgrow
    exact ⟨⟨.value v depth, name, e, w, w', front, properties⟩, rfl,
      .intro ⟨hlabel, hchildren, hthreads, hwrite, hexpands⟩ hsound, ⟨rfl, rfl⟩, rfl, rfl⟩

/-- The element of a value has a chart that tells at every node how the walk has written it. -/
theorem exists_chart_of_grow {v : Value} {name : Option String} {depth : Nat} {w w' : Walker} {e : Element}
    (h : grow policy v name depth w = .ok e w') :
    ∃ c : Chart, c.element = e ∧ c.Sound policy ∧ c.Shows v name depth ∧ c.before = w ∧ c.after = w' :=
  insideCharted policy v.height v (Nat.le_refl _) name depth w e w' h

/-- Writing a value, from any state of a walk, records an element that has a chart, unless a stop is requested. -/
theorem write_charted (policy : Policy) (v : Value) (name : Option String) (depth : Nat) (w : Walker) :
    (∃ c : Chart, c.Sound policy ∧ c.Shows v name depth ∧ c.before = w ∧
      write policy v name depth w = .ok () (c.after.on (w.recorder.append c.element.events))) ∨
    ∃ w', write policy v name depth w = .error .cancelled w' ∧ w'.run.stopped := by
  have hrecords := write_records_grow policy v name depth
  cases hgrow : grow policy v name depth w with
  | ok e w' =>
    obtain ⟨c, rfl, hsound, hshows, rfl, rfl⟩ := exists_chart_of_grow hgrow
    exact .inl ⟨c, hsound, hshows, rfl, hrecords.of_ok hgrow c.before.recorder⟩
  | error e w' =>
    obtain rfl := (grow_yields_proper policy v name depth).of_error hgrow
    obtain ⟨r, hwrite⟩ := hrecords.of_error hgrow w.recorder
    exact .inr ⟨_, hwrite, write_needs_stop policy v name depth w _ hwrite⟩

end GraphMarkup
