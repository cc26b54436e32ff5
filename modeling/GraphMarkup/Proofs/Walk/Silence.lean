import GraphMarkup.Proofs.Graph.Whole
import GraphMarkup.Proofs.Walk.Account
import GraphMarkup.Proofs.Walk.Pervading

/-!
# Walks over whole graphs

* `Entry.Silent` : an entry that is no warning, and that the graph does not notice;
* `Hushed` : a step that adds only such entries to the journal;
* `Tells`, `Value.Whole.tells_stringForm?` : a step over the run that gives an answer with nothing noticed, as asking a
  whole graph for its string form does;
* `write_hushed` : writing a whole graph adds only silent entries.
-/

namespace GraphMarkup

variable {α β : Type} {policy : Policy} {v : Value}

/-- An entry that is no warning, and that the graph does not notice. -/
def Entry.Silent (entry : Entry) : Prop := entry.warning? = none ∧ entry.effect? = none

abbrev Hushed (step : WalkM α) : Prop := AddsTo (∀ entry ∈ ·, entry.Silent) step

/-- Silent entries joined are silent. -/
theorem silent_append (entries later : List Entry) (h : ∀ entry ∈ entries, entry.Silent)
    (h' : ∀ entry ∈ later, entry.Silent) : ∀ entry ∈ entries ++ later, entry.Silent :=
  List.forall_mem_append.2 ⟨h, h'⟩

/-! ## Answers -/

/-- A step over the run that gives an answer, with nothing noticed. -/
def Tells (step : StateM Run (Except String α)) : Prop :=
  ∀ run, ∃ a entries, (step run).1 = .ok a ∧
    (step run).2.journal.toList = run.journal.toList ++ entries ∧ ∀ entry ∈ entries, entry.Silent

theorem tells_ok (a : α) : Tells (return .ok a) :=
  fun _ => ⟨a, [], rfl, (List.append_nil _).symm, List.forall_mem_nil _⟩

theorem tells_ready (a : α) (request : Request) : Tells ((Fetch.ready a).read request) :=
  fun _ => ⟨a, [.asked request none none], rfl, Array.toList_push, List.forall_mem_singleton.2 ⟨rfl, rfl⟩⟩

/-- A part that is there is read, and the rest goes on with it. -/
theorem Tells.after_read {f : Fetch β} (hf : f.IsReady) (request : Request)
    {k : Except String β → StateM Run (Except String α)} (hk : ∀ b, f = .ready b → Tells (k (.ok b))) :
    Tells (f.read request >>= k) := by
  obtain ⟨b, rfl⟩ := hf
  intro run
  obtain ⟨a, entries, hanswer, hjournal, hsilent⟩ := hk b rfl (run.ask request none none)
  refine ⟨a, .asked request none none :: entries, hanswer, ?_, List.forall_mem_cons.2 ⟨⟨rfl, rfl⟩, hsilent⟩⟩
  rw [List.append_cons, ← Array.toList_push]
  exact hjournal

theorem Hushed.after_onRun {step : StateM Run (Except String α)} (h : Tells step) {k : Except String α → WalkM β}
    (hk : ∀ a, Hushed (k (.ok a))) : Hushed (WalkM.onRun step >>= k) := by
  refine AddsTo.after_onRun fun run => ?_
  obtain ⟨a, entries, hanswer, hjournal, hsilent⟩ := h run
  rw [hanswer]
  exact ⟨entries, hjournal, (hk a).mono fun later => silent_append entries later hsilent⟩

namespace Value.Whole

theorem tells_displayText (h : v.Whole) (policy : Policy) : Tells (displayText policy v) := by
  have hparts := h.parts
  unfold displayText
  rw [h.base_eq]
  cases v with
  | object typeName properties display =>
    cases display with
    | none => exact tells_ok (some typeName)
    | some text => exact Tells.after_read (hparts.2 text rfl) _ fun b _ => tells_ok (some b)
  | null | scalar | enum | list | dict | decorated => exact tells_ok _

/-- A whole graph has a string form, if any, that is there. -/
theorem tells_stringForm? (h : v.Whole) (policy : Policy) : Tells (stringForm? policy v) := by
  unfold stringForm?
  cases hsource : sourceProperty? policy v with
  | none => exact h.tells_displayText policy
  | some p =>
    obtain ⟨name, -, hfind⟩ := Option.bind_eq_some_iff.1 hsource
    obtain ⟨c, hready, hwhole⟩ := h.property (List.mem_of_find?_eq_some hfind)
    refine Tells.after_read ⟨c, hready⟩ _ fun source hsource => ?_
    obtain rfl := Fetch.ready.inj (hready.symm.trans hsource)
    exact hwhole.tells_displayText policy

theorem hushed_stringForm (h : v.Whole) (policy : Policy) : Hushed (stringForm policy v) :=
  Hushed.after_onRun (h.tells_stringForm? policy) fun text => .still (Still.pure text) (List.forall_mem_nil _)

end Value.Whole

/-! ## Whole graphs -/

theorem pervades_hushed (policy : Policy) : Pervades policy Value.Whole fun step => Hushed step where
  hereditary := Value.Whole.hereditary
  still h := .still h (List.forall_mem_nil _)
  bind h hk := .join silent_append h hk
  poll := .poll (List.forall_mem_nil _) fun _ => List.forall_mem_singleton.2 ⟨rfl, rfl⟩
  visit := .visit (List.forall_mem_singleton.2 ⟨rfl, rfl⟩)
  promote h h' := addsTo_promote h h'
  form hv := hv.hushed_stringForm policy
  property hv hp hok _ := by
    obtain ⟨c, hready, -⟩ := hv.property hp
    rw [hready]
    exact Hushed.after_onRun (tells_ready c _) hok
  elements hv h := by
    obtain ⟨items, rfl⟩ := hv.parts.1
    exact .forM (List.forall_mem_nil _) silent_append h items
  entries hv h := by
    obtain ⟨items, rfl⟩ := hv.parts
    exact .forM (List.forall_mem_nil _) silent_append h items

/-- Writing a whole graph leaves no warning, and the graph notices nothing of it. -/
theorem write_hushed (policy : Policy) (h : v.Whole) (name : Option String) (depth : Nat) :
    Hushed (write policy v name depth) :=
  (pervades_hushed policy).write h name depth

end GraphMarkup
