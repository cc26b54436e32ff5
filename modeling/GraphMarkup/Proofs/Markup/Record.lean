import GraphMarkup.Proofs.Markup.Refusal

/-!
# What a recorder records

* `WriterCall.opens` : calls that open an element;
* `TreeBuilder.levels` : the number of levels that a tree builder has come to;
* `Alongside` : a recorder and a tree builder with as many elements open, which have come to as many levels;
* `Tracks` : the calls that a recorder has taken, the recorder, and a tree builder that has taken them too;
* `RecordsFaithfully` : what a recorder knows of the calls made on it, refused ones included;
* `recorder_records_faithfully` : any recorder does so from the start, and again after it has been cleared.

A recorder counts levels while it goes, and a tree has them when it is complete. In between, the levels of a builder are
those of its roots and, for each open element, its own levels on top of the elements around it.
-/

namespace GraphMarkup

open Element (heights)

def WriterCall.opens : WriterCall → Bool
  | .put (.openElement _) => true
  | _ => false

def WriterCall.closes : WriterCall → Bool
  | .put .closeElement => true
  | _ => false

/-! ## Levels -/

namespace Element

theorem height_eq (e : Element) : e.height = 1 + heights e.children := by
  cases e
  rfl

theorem heights_append (es fs : List Element) : heights (es ++ fs) = max (heights es) (heights fs) := by
  induction es with
  | nil => exact (Nat.zero_max _).symm
  | cons e es ih => rw [List.cons_append, heights, heights, ih, Nat.max_assoc]

theorem heights_singleton (e : Element) : heights [e] = e.height := Nat.max_zero _

end Element

namespace TreeBuilder

/-- The levels that open elements have come to, the innermost first: each has its own on top of those around it. -/
def openLevels : List Element → Nat
  | [] => 0
  | e :: rest => max (rest.length + e.height) (openLevels rest)

def levels (b : TreeBuilder) : Nat := max (heights b.roots) (openLevels b.stack)

/-- Attributes and text add no levels. -/
theorem levels_start (e : Element) (attributes : List (String × String)) (text : Option String)
    (rest roots : List Element) :
    levels ⟨{ e with attributes, text } :: rest, roots⟩ = levels ⟨e :: rest, roots⟩ := by
  simp only [levels, openLevels, Element.height_eq]

end TreeBuilder

/-! ## A recorder and a tree builder -/

section

variable {r r' : Recorder} {b : TreeBuilder} {call : WriterCall} {calls taken : List WriterCall}

/-- A recorder and a tree builder with as many elements open, in a start tag or not together, which have come to as many
levels. -/
structure Alongside (r : Recorder) (b : TreeBuilder) : Prop where
  depth : r.depth = b.stack.length
  inStartTag : r.inStartTag = TreeBuilder.inStartTag b.stack
  maxDepth : r.maxDepth = b.levels

namespace Alongside

theorem openElement (h : Alongside r b) (tag : String) :
    ∃ b', Writer.put (.openElement tag) b = .ok () b' ∧ Alongside (r.push (.openElement tag)) b' := by
  obtain ⟨stack, roots⟩ := b
  have hdepth : r.depth = stack.length := h.depth
  have hmax : r.maxDepth = max (heights roots) (TreeBuilder.openLevels stack) := h.maxDepth
  refine ⟨_, rfl, congrArg (· + 1) hdepth, ?_, ?_⟩
  · simp [Recorder.push, Recorder.inStartTag, TreeBuilder.inStartTag, Element.isEmpty]
  · have hheight : Element.height { tag } = 1 := rfl
    simp only [Recorder.push, TreeBuilder.levels, TreeBuilder.openLevels, hheight]
    omega

theorem attr (h : Alongside r b) (hstart : r.inStartTag) (name value : String) :
    ∃ b', Writer.put (.attr name value) b = .ok () b' ∧ Alongside (r.push (.attr name value)) b' := by
  obtain ⟨stack, roots⟩ := b
  have hempty : TreeBuilder.inStartTag stack = true := h.inStartTag.symm.trans hstart
  cases stack with
  | nil => cases hempty
  | cons e rest =>
    refine ⟨_, if_pos hempty, h.depth, ?_, h.maxDepth.trans (TreeBuilder.levels_start e _ _ rest roots).symm⟩
    exact (Recorder.inStartTag_push_attr r name value).trans hempty.symm

theorem text (h : Alongside r b) (hdepth : r.depth ≠ 0) (content : String) :
    ∃ b', Writer.put (.text content) b = .ok () b' ∧ Alongside (r.push (.text content)) b' := by
  obtain ⟨stack, roots⟩ := b
  cases stack with
  | nil => exact absurd h.depth hdepth
  | cons e rest =>
    refine ⟨_, rfl, h.depth, ?_, h.maxDepth.trans (TreeBuilder.levels_start e _ _ rest roots).symm⟩
    simp [Recorder.push, Recorder.inStartTag, TreeBuilder.inStartTag, Element.isEmpty]

theorem closeElement (h : Alongside r b) (hdepth : r.depth ≠ 0) :
    ∃ b', Writer.put .closeElement b = .ok () b' ∧ Alongside (r.push .closeElement) b' := by
  obtain ⟨stack, roots⟩ := b
  have hlast : (r.push .closeElement).inStartTag = false := by simp [Recorder.push, Recorder.inStartTag]
  cases stack with
  | nil => exact absurd h.depth hdepth
  | cons e rest =>
    have hrest : r.depth - 1 = rest.length := by rw [h.depth, List.length_cons, Nat.add_sub_cancel]
    have hmax := h.maxDepth
    cases rest with
    | nil =>
      refine ⟨_, rfl, hrest, hlast, ?_⟩
      simp only [TreeBuilder.levels, TreeBuilder.openLevels, Element.heights_append, Element.heights_singleton,
        List.length_nil] at hmax ⊢
      simp only [Recorder.push]
      omega
    | cons parent rest =>
      -- The levels of the element that is closed become those of its parent.
      refine ⟨_, rfl, hrest, hlast.trans ?_, ?_⟩
      · simp [TreeBuilder.inStartTag, Element.isEmpty]
      · simp only [TreeBuilder.levels, TreeBuilder.openLevels, Element.height_eq parent, List.length_cons] at hmax
        simp only [Recorder.push, TreeBuilder.levels, TreeBuilder.openLevels, Element.height_eq ⟨_, _, _, _⟩,
          Element.heights_append, Element.heights_singleton]
        omega

/-- A call that the recorder takes, the builder takes too. -/
theorem perform (h : Alongside r b) (hcall : Writer.perform call r = .ok () r') :
    ∃ b', Writer.perform call b = .ok () b' ∧ Alongside r' b' := by
  cases call with
  | flush =>
    cases hcall
    exact ⟨b, rfl, h⟩
  | put event =>
    obtain rfl := Recorder.put_eq_push hcall
    cases event with
    | openElement tag => exact h.openElement tag
    | attr name value =>
      by_cases hstart : r.inStartTag
      · exact h.attr hstart name value
      · cases (if_neg hstart).symm.trans hcall
    | text content =>
      by_cases hdepth : r.depth = 0
      · cases (if_pos hdepth).symm.trans hcall
      · exact h.text hdepth content
    | closeElement =>
      by_cases hdepth : r.depth = 0
      · cases (if_pos hdepth).symm.trans hcall
      · exact h.closeElement hdepth

end Alongside

/-! ## Depth -/

namespace Recorder

/-- What is taken opens an element, closes one, or does neither. -/
theorem depth_of_perform (h : Writer.perform call r = .ok () r') :
    r'.depth + [call].countP WriterCall.closes = r.depth + [call].countP WriterCall.opens := by
  cases call with
  | flush =>
    cases h
    rfl
  | put event =>
    obtain rfl := put_eq_push h
    cases event with
    | openElement | attr | text => rfl
    | closeElement =>
      by_cases hdepth : r.depth = 0
      · cases (if_pos hdepth).symm.trans h
      · show r.depth - 1 + 1 = r.depth
        omega

/-- The number of elements open is counted from the calls that are taken. -/
theorem depth_makeAll (calls : List WriterCall) (r : Recorder) :
    (makeAll Writer.perform calls r).2.depth + (accepted Writer.perform calls r).countP WriterCall.closes =
      r.depth + (accepted Writer.perform calls r).countP WriterCall.opens := by
  induction calls generalizing r with
  | nil => rfl
  | cons call calls ih =>
    rcases allOrNothing call r trivial with ⟨r', hok, -⟩ | ⟨e, herror⟩
    · have hcall := depth_of_perform hok
      have hrest := ih r'
      have hcount (p : WriterCall → Bool) : (call :: accepted Writer.perform calls r').countP p =
          [call].countP p + (accepted Writer.perform calls r').countP p := by
        rw [← List.countP_append, List.singleton_append]
      rw [accepted_cons_of_ok hok, makeAll_cons_of_ok hok, hcount, hcount]
      dsimp only
      omega
    · rw [accepted_cons_of_error herror, makeAll_cons_of_error herror]
      exact ih r

theorem maxDepth_of_perform (h : Writer.perform call r = .ok () r') (hr : r.depth ≤ r.maxDepth) :
    r'.maxDepth = max r.maxDepth r'.depth := by
  cases call with
  | flush =>
    cases h
    exact (Nat.max_eq_left hr).symm
  | put event =>
    obtain rfl := put_eq_push h
    cases event with
    | openElement => rfl
    | attr | text => exact (Nat.max_eq_left hr).symm
    | closeElement => exact (Nat.max_eq_left (Nat.le_trans (Nat.sub_le ..) hr)).symm

/-- A recorder remembers at least as much as is open, and never less than before. -/
theorem maxDepth_makeAll (calls : List WriterCall) (hr : r.depth ≤ r.maxDepth) :
    (makeAll Writer.perform calls r).2.depth ≤ (makeAll Writer.perform calls r).2.maxDepth ∧
      r.maxDepth ≤ (makeAll Writer.perform calls r).2.maxDepth := by
  induction calls generalizing r with
  | nil => exact ⟨hr, Nat.le_refl _⟩
  | cons call calls ih =>
    rcases allOrNothing call r trivial with ⟨r', hok, -⟩ | ⟨e, herror⟩
    · have hcall := maxDepth_of_perform hok hr
      obtain ⟨hdepth, hmax⟩ := ih (r := r') (by omega)
      rw [makeAll_cons_of_ok hok]
      exact ⟨hdepth, Nat.le_trans (by omega) hmax⟩
    · rw [makeAll_cons_of_error herror]
      exact ih hr

/-- At no time are more elements open than a recorder remembers. -/
theorem depth_le_maxDepth (hr : r.depth ≤ r.maxDepth) {before : List WriterCall} (hbefore : before <+: calls) :
    (makeAll Writer.perform before r).2.depth ≤ (makeAll Writer.perform calls r).2.maxDepth := by
  obtain ⟨later, rfl⟩ := hbefore
  obtain ⟨hdepth, -⟩ := maxDepth_makeAll before hr
  rw [makeAll_append]
  exact Nat.le_trans hdepth (maxDepth_makeAll later hdepth).2

/-- As many elements as a recorder remembers were open at some time, or before. -/
theorem exists_depth_eq_maxDepth (calls : List WriterCall) (hr : r.depth ≤ r.maxDepth) :
    (makeAll Writer.perform calls r).2.maxDepth = r.maxDepth ∨ ∃ before, before <+: calls ∧
      (makeAll Writer.perform before r).2.depth = (makeAll Writer.perform calls r).2.maxDepth := by
  induction calls generalizing r with
  | nil => exact .inl rfl
  | cons call calls ih =>
    rcases allOrNothing call r trivial with ⟨r', hok, -⟩ | ⟨e, herror⟩
    · have hcall := maxDepth_of_perform hok hr
      rw [makeAll_cons_of_ok hok]
      rcases ih (r := r') (by omega) with hsame | ⟨before, hbefore, hreached⟩
      · by_cases hraised : r'.depth ≤ r.maxDepth
        · exact .inl (hsame.trans (hcall.trans (Nat.max_eq_left hraised)))
        · refine .inr ⟨[call], List.prefix_append [call] calls, ?_⟩
          rw [makeAll_cons_of_ok hok]
          exact (hsame.trans (hcall.trans (Nat.max_eq_right (by omega)))).symm
      · refine .inr ⟨call :: before, List.cons_prefix_cons.2 ⟨rfl, hbefore⟩, ?_⟩
        rwa [makeAll_cons_of_ok hok]
    · rw [makeAll_cons_of_error herror]
      rcases ih hr with hsame | ⟨before, hbefore, hreached⟩
      · exact .inl hsame
      · refine .inr ⟨call :: before, List.cons_prefix_cons.2 ⟨rfl, hbefore⟩, ?_⟩
        rwa [makeAll_cons_of_error herror]

end Recorder

/-! ## Replays -/

/-- The events of a recorder replayed, and then one more. -/
theorem Recorder.replay_push {ω : Type} [Writer ω] {w w' w'' : ω} {event : Event}
    (h : Writer.replay r.events.toList w = .ok () w') (hput : Writer.put event w' = .ok () w'') :
    Writer.replay (r.push event).events.toList w = .ok () w'' := by
  have hevents : (r.push event).events.toList = r.events.toList ++ [event] := by
    cases event <;> exact Array.toList_push
  rw [hevents, Writer.replay_append_of_ok h]
  exact Writer.replay_cons_of_ok hput

/-- The calls that a recorder has taken, the recorder, and a tree builder that has taken them too. The events replay to
either. -/
structure Tracks (taken : List WriterCall) (r : Recorder) (b : TreeBuilder) : Prop where
  replay : Writer.replay r.events.toList ({} : Recorder) = .ok () r
  replayTree : Writer.replay r.events.toList ({} : TreeBuilder) = .ok () b
  made : makeAll Writer.perform taken ({} : TreeBuilder) = (taken.map fun call => (call, .ok ()), b)
  alongside : Alongside r b

namespace Tracks

theorem fresh : Tracks [] {} {} := ⟨rfl, rfl, rfl, rfl, rfl, rfl⟩

/-- A call that the recorder takes. -/
theorem perform (h : Tracks taken r b) (hcall : Writer.perform call r = .ok () r') :
    ∃ b', Tracks (taken ++ [call]) r' b' := by
  obtain ⟨b', hb', halongside⟩ := h.alongside.perform hcall
  have hmade : makeAll Writer.perform (taken ++ [call]) ({} : TreeBuilder) =
      ((taken ++ [call]).map fun call => (call, .ok ()), b') := by
    rw [makeAll_append, h.made, makeAll_cons_of_ok hb', List.map_append]
    rfl
  refine ⟨b', ?_, ?_, hmade, halongside⟩
  · cases call with
    | flush =>
      cases hcall
      exact h.replay
    | put event =>
      obtain rfl := Recorder.put_eq_push hcall
      exact Recorder.replay_push h.replay hcall
  · cases call with
    | flush =>
      cases hcall
      cases hb'
      exact h.replayTree
    | put event =>
      obtain rfl := Recorder.put_eq_push hcall
      exact Recorder.replay_push h.replayTree hb'

/-- Calls in a row, whether they are taken or not. -/
theorem makeAll (h : Tracks taken r b) (calls : List WriterCall) :
    ∃ b', Tracks (taken ++ accepted Writer.perform calls r) (GraphMarkup.makeAll Writer.perform calls r).2 b' := by
  induction calls generalizing taken r b with
  | nil => exact ⟨b, (List.append_nil taken).symm ▸ h⟩
  | cons call calls ih =>
    rcases Recorder.allOrNothing call r trivial with ⟨r', hok, -⟩ | ⟨e, herror⟩
    · obtain ⟨b', h'⟩ := h.perform hok
      rw [accepted_cons_of_ok hok, makeAll_cons_of_ok hok, List.append_cons]
      exact ih h'
    · rw [accepted_cons_of_error herror, makeAll_cons_of_error herror]
      exact ih h

end Tracks

/-! ## Any calls -/

/-- What a recorder knows of the calls made on it, refused ones included. -/
structure RecordsFaithfully (start : Recorder) (calls : List WriterCall) (taken : List WriterCall) (r : Recorder) :
    Prop where
  /-- As many elements are open as have been opened and not been closed. -/
  depth : r.depth + taken.countP WriterCall.closes = taken.countP WriterCall.opens
  /-- At no time were more elements open than it remembers. -/
  depth_le : ∀ before, before <+: calls → (makeAll Writer.perform before start).2.depth ≤ r.maxDepth
  /-- At some time so many were. -/
  depth_eq : ∃ before, before <+: calls ∧ (makeAll Writer.perform before start).2.depth = r.maxDepth
  /-- Its events make another recorder the same. -/
  replay : Writer.replay r.events.toList ({} : Recorder) = .ok () r
  /-- Its events make a tree builder what the calls taken make of one, which takes all of them. Once every element is
  closed, the trees are complete, and the highest has as many levels as the recorder remembers. -/
  tree : ∃ b, Writer.replay r.events.toList ({} : TreeBuilder) = .ok () b ∧
    makeAll Writer.perform taken ({} : TreeBuilder) = (taken.map fun call => (call, .ok ()), b) ∧
    (r.isBalanced → b.finish = .ok b.roots ∧ r.maxDepth = heights b.roots)

theorem recordsFaithfully_fresh (calls : List WriterCall) :
    RecordsFaithfully {} calls (accepted Writer.perform calls ({} : Recorder))
      (makeAll Writer.perform calls ({} : Recorder)).2 := by
  have hstart : ({} : Recorder).depth ≤ ({} : Recorder).maxDepth := Nat.le_refl 0
  obtain ⟨b, h⟩ := Tracks.fresh.makeAll calls
  refine ⟨?_, fun before => Recorder.depth_le_maxDepth hstart, ?_, h.replay, b, h.replayTree, h.made,
    fun hbalanced => ?_⟩
  · exact (Recorder.depth_makeAll calls {}).trans (Nat.zero_add _)
  · rcases Recorder.exists_depth_eq_maxDepth calls hstart with hzero | hreached
    · exact ⟨[], List.nil_prefix, hzero.symm⟩
    · exact hreached
  · have hmax := h.alongside.maxDepth
    have hdepth := h.alongside.depth
    generalize (GraphMarkup.makeAll Writer.perform calls ({} : Recorder)).2 = r at hbalanced hmax hdepth ⊢
    have hstack : b.stack = [] := List.length_eq_zero_iff.1 (hdepth.symm.trans (beq_iff_eq.1 hbalanced))
    refine ⟨?_, ?_⟩
    · rw [TreeBuilder.finish, hstack]
    · rw [hmax, TreeBuilder.levels, hstack, TreeBuilder.openLevels, Nat.max_zero]

/-- A recorder records faithfully, from the start and after it has been cleared, whatever calls are made on it: it knows
how many elements are open and were at most, and its events replay to the same recorder and to the same trees, which have
as many levels. -/
theorem recorder_records_faithfully (calls : List WriterCall) (start : Recorder)
    (hstart : start = {} ∨ ∃ used : Recorder, start = used.clear) :
    RecordsFaithfully start calls (accepted Writer.perform calls start) (makeAll Writer.perform calls start).2 := by
  obtain rfl : start = {} := by
    rcases hstart with rfl | ⟨used, rfl⟩ <;> rfl
  exact recordsFaithfully_fresh calls

/-- Two trees, the second of two levels, in a recorder that held an open element before it was cleared: an attribute after
text, text outside of any element and one close too many are refused. -/
theorem recorder_records_faithfully_after_clear :
    ∃ (used : Recorder) (calls : List WriterCall),
      used.depth = 1 ∧
      calls = [.put (.openElement "a"), .put (.text "x"), .put (.attr "late" ""), .put .closeElement,
        .put .closeElement, .put (.text "early"), .put (.openElement "b"), .put (.openElement "c"), .flush,
        .put .closeElement, .put .closeElement] ∧
      (makeAll Writer.perform calls used.clear).1.map (fun made => made.2.isOk) =
        [true, true, false, true, false, false, true, true, true, true, true] ∧
      (makeAll Writer.perform calls used.clear).2.isBalanced ∧
      (makeAll Writer.perform calls used.clear).2.maxDepth = 2 ∧
      RecordsFaithfully used.clear calls (accepted Writer.perform calls used.clear)
        (makeAll Writer.perform calls used.clear).2 :=
  ⟨{ events := #[.openElement "old"], depth := 1, maxDepth := 1 }, _, rfl, rfl, by decide +kernel, by decide +kernel,
    by decide +kernel, recorder_records_faithfully _ _ (.inr ⟨_, rfl⟩)⟩

end

end GraphMarkup
