import GraphMarkup.Proofs.Session.Calls
import GraphMarkup.Proofs.Walk.Charting

/-!
# Promotion of chains

* `Chart.nodes` : a chart and all charts inside it in document order;
* `Chart.isObjectChain` : whether an element is that of a chain of decorators around an object, with depth left;
* `Chart.Promoted`, `Chart.Nested` : an element with no unnamed child, and one whose first child is its only unnamed one;
* `Chart.PromotesOnce` : chains of which the first is promoted, and all later ones are nested;
* `Chart.Spends` : chains in a row of which the first is promoted if a promotion is due, and all others are nested;
* `Session.serialize_promotes_once` : every item begins with a promotion due, which its first chain takes.

The flag goes through a walk in document order, so that the chains of elements in a row are those of the first, and
then those of the rest with what the first has left of the flag.
-/

namespace GraphMarkup

/-- A value that has an object for its base if it is a chain of decorators. -/
def Value.HoldsObject (v : Value) : Prop :=
  v.isChain → ∃ typeName properties display, v.base = .object typeName properties display

namespace Chart

mutual

def nodes : Chart → List Chart
  | ⟨subject, name, element, before, after, front, properties⟩ =>
    ⟨subject, name, element, before, after, front, properties⟩ :: (nodesOf front ++ nodesOf properties)

def nodesOf : List Chart → List Chart
  | [] => []
  | c :: cs => c.nodes ++ nodesOf cs

end

/-- Whether an element is that of a chain of decorators around an object, with some depth left. -/
def isObjectChain (c : Chart) : Bool :=
  match c.subject with
  | .value v depth =>
    match v.base with
    | .object .. => v.isChain && depth != 0
    | _ => false
  | .absence | .leaf => false

/-- The chains around objects that are reached with depth left, in document order. -/
def objectChains (c : Chart) : List Chart := c.nodes.filter isObjectChain

/-- Whether no other chains occur than those around objects. -/
def ChainsHoldObjects (c : Chart) : Prop := ∀ node ∈ c.nodes, node.OfValue fun v _ => v.HoldsObject

/-- No child is unnamed. -/
def Promoted (c : Chart) : Prop := ∀ child ∈ c.inside, child.name.isSome

/-- The first child is unnamed, and no other is. -/
def Nested (c : Chart) : Prop :=
  ∃ first rest, c.inside = first :: rest ∧ first.name = none ∧ ∀ child ∈ rest, child.name.isSome

/-- The first one of some chains is promoted, and all later ones are nested. -/
def PromotesOnce : List Chart → Prop
  | [] => True
  | first :: later => first.Promoted ∧ ∀ chain ∈ later, chain.Nested

/-- Chains in a row, before and after which a promotion is due or not: the first one takes a promotion that is due, and
all others are nested. -/
def Spends : Bool → List Chart → Bool → Prop
  | due, [], due' => due = due'
  | true, c :: cs, due' => c.Promoted ∧ Spends false cs due'
  | false, c :: cs, due' => c.Nested ∧ Spends false cs due'

variable {policy : Policy} {c c' : Chart} {cs cs' : List Chart} {due due' due'' : Bool}

/-! ## Nodes in document order -/

theorem nodesOf_eq (cs : List Chart) : nodesOf cs = cs.flatMap nodes := by
  induction cs with
  | nil => rw [nodesOf, List.flatMap_nil]
  | cons c cs ih => rw [nodesOf, ih, List.flatMap_cons]

theorem nodes_eq (c : Chart) : c.nodes = c :: c.inside.flatMap nodes := by
  rw [inside, List.flatMap_append, ← nodesOf_eq, ← nodesOf_eq]
  cases c
  rw [nodes]

theorem ChainsHoldObjects.within (h : c.ChainsHoldObjects) (hc' : c' ∈ c.inside) : c'.ChainsHoldObjects := by
  intro node hnode
  apply h node
  rw [nodes_eq]
  exact List.mem_cons_of_mem _ (List.mem_flatMap.2 ⟨c', hc', hnode⟩)

/-! ## Chains in a row -/

theorem Spends.append (h : Spends due cs due') (h' : Spends due' cs' due'') : Spends due (cs ++ cs') due'' := by
  induction cs generalizing due with
  | nil =>
    obtain rfl : due = due' := h
    exact h'
  | cons c cs ih =>
    cases due with
    | true => exact ⟨h.1, ih h.2⟩
    | false => exact ⟨h.1, ih h.2⟩

theorem Spends.nested (h : Spends false cs due) : ∀ c ∈ cs, c.Nested := by
  induction cs with
  | nil => exact List.forall_mem_nil _
  | cons c cs ih => exact List.forall_mem_cons.2 ⟨h.1, ih h.2⟩

theorem Spends.promotesOnce (h : Spends true cs due) : PromotesOnce cs := by
  cases cs with
  | nil => trivial
  | cons first later => exact ⟨h.1, h.2.nested⟩

/-- Charts that pass the flag on have their chains spend it if each of them does. -/
theorem Threads.spends (h : Threads due cs due')
    (hcs : ∀ c ∈ cs, Spends c.before.promotionDue c.objectChains c.after.promotionDue) :
    Spends due ((cs.flatMap nodes).filter isObjectChain) due' := by
  induction cs generalizing due with
  | nil => exact h
  | cons c cs ih =>
    obtain ⟨rfl, hrest⟩ := h
    rw [List.flatMap_cons, List.filter_append]
    exact (hcs c (List.mem_cons_self ..)).append (ih hrest fun c' hc' => hcs c' (List.mem_cons_of_mem _ hc'))

/-! ## The law of promotion -/

/-- The chains around objects with depth left are those that are expanded. -/
theorem isObjectChain_eq (policy : Policy) (h : c.OfValue fun v _ => v.HoldsObject) :
    c.isObjectChain = c.subject.expandsChain policy := by
  unfold isObjectChain
  cases hsubject : c.subject with
  | absence | leaf => rfl
  | value v depth =>
    by_cases hchain : v.isChain
    · obtain ⟨typeName, properties, display, hobject⟩ := h v depth hsubject hchain
      simp only [hobject, hchain, Bool.true_and]
      by_cases hdepth : depth = 0
      · have hclass : classify policy v 0 ≠ .complex := by
          rw [classify_zero, Strategy.leaf?_eq_none _ (by simp [hobject]) (by simp [hobject])]
          exact nofun
        rw [hdepth, Subject.expandsChain_of_ne_complex hclass]
        rfl
      · have hclass : classify policy v depth = .complex := by
          rw [classify_of_base_eq_object hobject hdepth]
          exact if_pos hchain
        rw [Subject.expandsChain_of_complex hclass, hchain, bne_iff_ne]
        exact hdepth
    · have hexpands : (Subject.value v depth).expandsChain policy = false := by
        by_cases hclass : classify policy v depth = .complex
        · rw [Subject.expandsChain_of_complex hclass, Bool.eq_false_iff.2 hchain]
        · exact Subject.expandsChain_of_ne_complex hclass
      simp only [hexpands, Bool.eq_false_iff.2 hchain, Bool.false_and]
      split <;> rfl

/-- A chain around an object is promoted or nested. -/
theorem ExpandsChain.promoted_or_nested {v inner : Value} {notes : List (Property Value)} {depth : Nat}
    (hbase : ∃ typeName properties display, v.base = .object typeName properties display)
    (h : ExpandsChain policy v inner notes depth due c.front c.properties) : if due then c.Promoted else c.Nested := by
  obtain ⟨typeName, properties, display, hobject⟩ := hbase
  unfold ExpandsChain at h
  split at h
  · next hdue =>
    rw [hobject] at h
    obtain ⟨hfront, hproperties⟩ := h
    rw [if_pos hdue, Promoted, inside, hfront]
    exact hproperties.named
  · next hdue =>
    obtain ⟨⟨first, hfront, hshows⟩, hproperties⟩ := h
    rw [if_neg hdue, Nested, inside, hfront]
    exact ⟨first, c.properties, rfl, hshows.name, hproperties.named⟩

/-- In a chart where all chains hold objects, chains spend the flag of promotion. -/
theorem Sound.spends (hsound : c.Sound policy) (h : c.ChainsHoldObjects) :
    Spends c.before.promotionDue c.objectChains c.after.promotionDue := by
  induction hsound with
  | @intro c hfits _ ih =>
    have hinside := hfits.threads.spends fun c' hc' => ih c' hc' (h.within hc')
    have hhere : c.OfValue fun v _ => v.HoldsObject := h c (by rw [nodes_eq]; exact List.mem_cons_self ..)
    rw [objectChains, nodes_eq, List.filter_cons, isObjectChain_eq policy hhere]
    cases hexpands : c.subject.expandsChain policy with
    | false =>
      rw [hexpands, Bool.not_false, Bool.and_true] at hinside
      exact hinside
    | true =>
      rw [hexpands, Bool.not_true, Bool.and_false] at hinside
      have hsubject := hfits.subject
      cases hvalue : c.subject with
      | absence | leaf =>
        rw [hvalue] at hexpands
        cases hexpands
      | value v depth =>
        rw [hvalue] at hexpands hsubject
        obtain ⟨hclass, hchain⟩ := Subject.of_expandsChain hexpands
        have hbase := hhere v depth hvalue hchain
        obtain ⟨inner, notes, deserialized, outerNotes, outer, rfl⟩ := Value.exists_of_isChain hchain
        have hform := (hsubject.2.of_chain hclass).promoted_or_nested hbase
        cases hdue : c.before.promotionDue with
        | true =>
          rw [hdue] at hform
          exact ⟨hform, hinside⟩
        | false =>
          rw [hdue] at hform
          exact ⟨hform, hinside⟩

end Chart

/-! ## Graphs in which chains hold objects -/

/-- A graph in which every chain of decorators is around an object. -/
inductive Value.HoldsObjects : Value → Prop
  | intro {v : Value} (here : v.HoldsObject) (inside : ∀ c ∈ v.children, c.HoldsObjects) : HoldsObjects v

theorem Value.hereditary_holdsObjects : Value.Hereditary Value.HoldsObjects := by
  intro v hv
  cases hv with
  | intro _ inside => exact inside

theorem Value.HoldsObjects.of_not_chain {v : Value} (h : v.isChain = false) (inside : ∀ c ∈ v.children, c.HoldsObjects) :
    v.HoldsObjects :=
  .intro (fun hchain => absurd (h.symm.trans hchain) Bool.false_ne_true) inside

theorem Value.HoldsObjects.decorated {v : Value} {notes : List (Property Value)} (h : v.HoldsObjects)
    (hbase : ∃ typeName properties display, v.base = .object typeName properties display)
    (hnotes : ∀ p ∈ notes, ∀ c ∈ p.value.results, c.HoldsObjects) (deserialized : Bool) :
    (Value.decorated v notes deserialized).HoldsObjects := by
  refine .intro (fun _ => hbase) (List.forall_mem_cons.2 ⟨h, fun c hc => ?_⟩)
  obtain ⟨p, hp, hc⟩ := List.mem_flatMap.1 hc
  exact hnotes p hp c hc

/-- A chart of such a graph has no other chains. -/
theorem Chart.Sound.chainsHoldObjects {policy : Policy} {c : Chart} (hsound : c.Sound policy)
    (h : c.OfValue fun v _ => v.HoldsObjects) : c.ChainsHoldObjects := by
  induction hsound with
  | @intro c hfits within ih =>
    intro node hnode
    rw [nodes_eq] at hnode
    rcases List.mem_cons.1 hnode with rfl | hnode
    · intro v depth hvalue
      cases h v depth hvalue with
      | intro here _ => exact here
    · obtain ⟨c', hc', hnode⟩ := List.mem_flatMap.1 hnode
      have hsound : c.Sound policy := .intro hfits within
      exact ih c' hc' (hsound.ofValue_inside Value.hereditary_holdsObjects h hc') node hnode

/-! ## Items of a session -/

namespace Session

variable {ω : Type} [Writer ω] {s s' : Session ω} {value : Value}

/-- Promotion happens once in an item. Every item begins with a promotion due, whatever came before it in the session.
If no other chains occur in it than those around objects, the first of these in document order is written without an
unnamed child, and each later one with a single unnamed child, which comes first. -/
theorem serialize_promotes_once (h : serialize value s = .ok () s') :
    ∃ c : Chart, c.Sound s.policy ∧ c.Shows value none s.policy.depth ∧ s.itemElement? value = some c.element ∧
      c.before = { run := s.run, promotionDue := true } ∧
      (c.ChainsHoldObjects → Chart.PromotesOnce c.objectChains) := by
  obtain ⟨hphase, e, w, hgrow⟩ := exists_grow_of_serialize h
  obtain ⟨c, rfl, hsound, hshows, hbefore, -⟩ := exists_chart_of_grow hgrow
  refine ⟨c, hsound, hshows, ?_, hbefore, fun hchains => ?_⟩
  · exact itemElement?_of_grow_ok hphase hgrow
  · have hspends := hsound.spends hchains
    rw [hbefore] at hspends
    exact hspends.promotesOnce

/-- A list of two chains at depth two. The object in both has a chain for its property. -/
theorem serialize_promotes_once_of_chains :
    ∃ (v car : Value) (s₀ s' : Session Recorder),
      car = .object "Car" [⟨"spare", none, .ready (.decorated (.decorated (.object "Wheel" [] none) [] false) [] true)⟩]
        none ∧
      v = .list .list none (.ready [.decorated (.decorated car [] false) [⟨"Seen", none, .failed "never"⟩] false,
        .decorated (.decorated (.decorated car [] false) [] false) [⟨"Sold", none, .ready (.scalar (.bool true))⟩] false]) [] ∧
      create ({} : Recorder) { depth := 2 } .document = .ok s₀ ∧ serialize v s₀ = .ok () s' ∧
      ∃ c : Chart, c.Sound s₀.policy ∧ c.Shows v none s₀.policy.depth ∧ s₀.itemElement? v = some c.element ∧
        c.before = { run := s₀.run, promotionDue := true } ∧ c.ChainsHoldObjects ∧
        Chart.PromotesOnce c.objectChains := by
  have hwheel : (Value.object "Wheel" [] none).HoldsObjects := .of_not_chain rfl (List.forall_mem_nil _)
  have hspare : (Value.decorated (.decorated (.object "Wheel" [] none) [] false) [] true).HoldsObjects :=
    (hwheel.decorated ⟨_, _, _, rfl⟩ (List.forall_mem_nil _) false).decorated ⟨_, _, _, rfl⟩ (List.forall_mem_nil _) true
  have hcar : (Value.object "Car"
      [⟨"spare", none, .ready (.decorated (.decorated (.object "Wheel" [] none) [] false) [] true)⟩]
      none).HoldsObjects :=
    .of_not_chain rfl (by simpa [Value.children, Fetch.results] using hspare)
  have hinner := hcar.decorated ⟨_, _, _, rfl⟩ (List.forall_mem_nil _) false
  have hitems : ∀ c ∈ (Value.list .list none (.ready [.decorated (.decorated (.object "Car"
      [⟨"spare", none, .ready (.decorated (.decorated (.object "Wheel" [] none) [] false) [] true)⟩] none) [] false)
      [⟨"Seen", none, .failed "never"⟩] false, .decorated (.decorated (.decorated (.object "Car"
      [⟨"spare", none, .ready (.decorated (.decorated (.object "Wheel" [] none) [] false) [] true)⟩] none) [] false) []
      false) [⟨"Sold", none, .ready (.scalar (.bool true))⟩] false]) []).children, c.HoldsObjects := by
    refine List.forall_mem_cons.2 ⟨?_, List.forall_mem_singleton.2 ?_⟩
    · exact hinner.decorated ⟨_, _, _, rfl⟩ (by simp [Fetch.results]) false
    · refine (hinner.decorated ⟨_, _, _, rfl⟩ (List.forall_mem_nil _) false).decorated ⟨_, _, _, rfl⟩ ?_ false
      have hsold : (Value.scalar (.bool true)).HoldsObjects := .of_not_chain rfl (List.forall_mem_nil _)
      simpa [Fetch.results] using hsold
  have hruns : ((serialize (.list .list none (.ready [.decorated (.decorated (.object "Car"
      [⟨"spare", none, .ready (.decorated (.decorated (.object "Wheel" [] none) [] false) [] true)⟩] none) [] false)
      [⟨"Seen", none, .failed "never"⟩] false, .decorated (.decorated (.decorated (.object "Car"
      [⟨"spare", none, .ready (.decorated (.decorated (.object "Wheel" [] none) [] false) [] true)⟩] none) [] false) []
      false) [⟨"Sold", none, .ready (.scalar (.bool true))⟩] false]) [])).run'
      (({ writer := {}, policy := { depth := 2 }, layout := .document } : Session Recorder).note
        (.sessionStarted .document 2 true))).isSome := by
    decide +kernel
  obtain ⟨⟨⟩, s', hserialize⟩ := exists_ok_of_run' hruns
  obtain ⟨c, hsound, hshows, helement, hbefore, hpromotes⟩ := serialize_promotes_once hserialize
  have hchains := hsound.chainsHoldObjects (hshows.ofValue (.of_not_chain rfl hitems))
  exact ⟨_, _, _, s', rfl, rfl, rfl, hserialize, c, hsound, hshows, helement, hbefore, hchains, hpromotes hchains⟩

end Session

end GraphMarkup
