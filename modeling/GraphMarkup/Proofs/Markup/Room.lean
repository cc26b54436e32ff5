import GraphMarkup.Proofs.Markup.Acceptance
import GraphMarkup.Proofs.Markup.Pieces

/-!
# Sinks that become full

* `XmlCall`, `XmlWriter.perform`, `XmlWriter.after` : calls on an XML writer, made one after another whatever comes of
  them;
* `XmlWriter.within` : a writer over a sink with limited room, in place of one without a limit;
* `XmlWriter.Cut` : what is left of a writer on a full sink: the bytes that there was room for;
* `Cuttable`, `Frozen` : a step that is the same within the room, and fails where the room ends; and one that can add
  nothing to a full sink;
* `Limits.perform`, `Limits.after` : a call, and calls in a row, on a sink with a limit and on one without;
* `full_sink_only_cuts` : a full sink only cuts the output.

A call that fails for want of room may leave the writer in any state, in which later calls are made. They cannot do any
harm, since nothing but the bytes received counts once the sink is full.
-/

namespace GraphMarkup

/-! ## First bytes -/

theorem extract_of_size_le {bytes : ByteArray} {n : Nat} (h : bytes.size ≤ n) : bytes.extract 0 n = bytes := by
  apply ByteArray.ext_getElem
  · rw [ByteArray.size_extract, Nat.min_eq_right h, Nat.sub_zero]
  · intro i hi hi'
    simp only [ByteArray.getElem_extract, Nat.zero_add]

theorem extract_append_of_le {bytes later : ByteArray} {n : Nat} (h : n ≤ bytes.size) :
    (bytes ++ later).extract 0 n = bytes.extract 0 n := by
  apply ByteArray.ext_getElem
  · simp only [ByteArray.size_extract, ByteArray.size_append]
    omega
  · intro i hi hi'
    have hlt : i < bytes.size := by
      rw [ByteArray.size_extract] at hi'
      omega
    simp only [ByteArray.getElem_extract, Nat.zero_add, ByteArray.getElem_append_left hlt]

theorem extract_append_of_ge {bytes later : ByteArray} {n : Nat} (h : bytes.size ≤ n) :
    (bytes ++ later).extract 0 n = bytes ++ later.extract 0 (n - bytes.size) := by
  rw [ByteArray.extract_append, extract_of_size_le h, Nat.zero_sub]

/-! ## Calls -/

/-- A call on an XML writer. -/
inductive XmlCall where
  | declaration
  | call (call : WriterCall)
  deriving DecidableEq, Repr

def outcome {ε σ α : Type} : EStateM.Result ε σ α → Except ε α
  | .ok a _ => .ok a
  | .error e _ => .error e

theorem outcome_mapState {ε σ α : Type} (f : σ → σ) (result : EStateM.Result ε σ α) :
    outcome (mapState f result) = outcome result := by
  cases result <;> rfl

namespace XmlWriter

def perform {ο : Type} [Output ο] : XmlCall → EStateM Error (XmlWriter ο) Unit
  | .declaration => declaration
  | .call call => Writer.perform call

def after {ο : Type} [Output ο] (w : XmlWriter ο) (calls : List XmlCall) : XmlWriter ο :=
  calls.foldl (fun w call => endState (perform call w)) w

theorem after_append {ο : Type} [Output ο] (w : XmlWriter ο) (calls later : List XmlCall) :
    w.after (calls ++ later) = (w.after calls).after later := List.foldl_append

end XmlWriter

/-! ## Room -/

/-- A sink without a limit and without a fault to report. -/
structure Sink.Unlimited (sink : Sink) : Prop where
  room : sink.room = none
  flushFault : sink.flushFault = none

/-- A sink with room for some bytes, which has received what another one has. -/
def Sink.within (room : Nat) (refusal : String) (sink : Sink) : Sink :=
  { received := sink.received, room := some (room - sink.received.size), refusal }

namespace XmlWriter

variable {α β : Type} {room : Nat} {refusal : String} {w : XmlWriter Sink}

/-- A writer over a sink with limited room, in place of one without a limit. -/
def within (room : Nat) (refusal : String) (w : XmlWriter Sink) : XmlWriter Sink :=
  { w with out := w.out.within room refusal }

/-- A writer on a full sink, which has the first of the bytes that another one has without a limit. -/
structure Cut (room : Nat) (w limited : XmlWriter Sink) : Prop where
  overflow : room < w.out.received.size
  full : limited.out.room = some 0
  received : limited.out.received = w.out.received.extract 0 room

/-- What a writer without a limit receives later makes no difference to what has been cut. -/
theorem Cut.grow {w' limited : XmlWriter Sink} (h : Cut room w limited) {later : ByteArray}
    (hlater : w'.out.received = w.out.received ++ later) : Cut room w' limited where
  overflow := by
    rw [hlater, ByteArray.size_append]
    exact Nat.lt_of_lt_of_le h.overflow (Nat.le_add_right _ _)
  full := h.full
  received := by rw [h.received, hlater, extract_append_of_le (Nat.le_of_lt h.overflow)]

/-- A step that hands bytes to a sink without a limit, is the same where there is room for all of them, and fails where
there is not. -/
structure Cuttable (room : Nat) (refusal : String) (step : EStateM Error (XmlWriter Sink) α) : Prop where
  unlimited : ∀ w, w.out.Unlimited → (endState (step w)).out.Unlimited
  grows : ∀ w, w.out.Unlimited → ∃ bytes, (endState (step w)).out.received = w.out.received ++ bytes
  fits : ∀ w, w.out.Unlimited → (endState (step w)).out.received.size ≤ room →
    step (w.within room refusal) = mapState (within room refusal) (step w)
  fails : ∀ w, w.out.Unlimited → w.out.received.size ≤ room → room < (endState (step w)).out.received.size →
    ∃ limited, step (w.within room refusal) = .error (.writer (.other refusal)) limited ∧
      Cut room (endState (step w)) limited

namespace Cuttable

theorem size_le {step : EStateM Error (XmlWriter Sink) α} (h : Cuttable room refusal step) (hw : w.out.Unlimited) :
    w.out.received.size ≤ (endState (step w)).out.received.size := by
  obtain ⟨bytes, hbytes⟩ := h.grows w hw
  rw [hbytes, ByteArray.size_append]
  exact Nat.le_add_right _ _

theorem of_out_eq {step : EStateM Error (XmlWriter Sink) α} (hout : ∀ w, (endState (step w)).out = w.out)
    (hwithin : ∀ w, step (w.within room refusal) = mapState (within room refusal) (step w)) :
    Cuttable room refusal step where
  unlimited w hw := by rwa [hout w]
  grows w _ := ⟨ByteArray.empty, by rw [hout w, ByteArray.append_empty]⟩
  fits w _ _ := hwithin w
  fails w _ hsize hover := by
    rw [hout w] at hover
    omega

theorem bind {step : EStateM Error (XmlWriter Sink) α} {k : α → EStateM Error (XmlWriter Sink) β}
    (h : Cuttable room refusal step) (hk : ∀ a, Cuttable room refusal (k a)) : Cuttable room refusal (step >>= k) where
  unlimited w hw := by
    have hmiddle := h.unlimited w hw
    cases hstep : step w with
    | ok a w' =>
      rw [hstep] at hmiddle
      rw [bind_of_ok hstep]
      exact (hk a).unlimited w' hmiddle
    | error e w' =>
      rw [hstep] at hmiddle
      rwa [bind_of_error hstep]
  grows w hw := by
    have hmiddle := h.unlimited w hw
    obtain ⟨bytes, hbytes⟩ := h.grows w hw
    cases hstep : step w with
    | ok a w' =>
      rw [hstep] at hmiddle hbytes
      obtain ⟨later, hlater⟩ := (hk a).grows w' hmiddle
      refine ⟨bytes ++ later, ?_⟩
      rw [bind_of_ok hstep, hlater, ← ByteArray.append_assoc, ← hbytes]
      rfl
    | error e w' =>
      rw [hstep] at hbytes
      rw [bind_of_error hstep]
      exact ⟨bytes, hbytes⟩
  fits w hw hsize := by
    have hmiddle := h.unlimited w hw
    have hfits := h.fits w hw
    cases hstep : step w with
    | ok a w' =>
      rw [hstep] at hmiddle hfits
      rw [bind_of_ok hstep] at hsize ⊢
      rw [bind_of_ok (hfits (Nat.le_trans ((hk a).size_le hmiddle) hsize))]
      exact (hk a).fits w' hmiddle hsize
    | error e w' =>
      rw [hstep] at hfits
      rw [bind_of_error hstep] at hsize ⊢
      exact bind_of_error (hfits hsize)
  fails w hw hsize hover := by
    have hmiddle := h.unlimited w hw
    have hfits := h.fits w hw
    have hfails := h.fails w hw hsize
    cases hstep : step w with
    | ok a w' =>
      rw [hstep] at hmiddle hfits hfails
      rw [bind_of_ok hstep] at hover ⊢
      by_cases hroom : w'.out.received.size ≤ room
      · rw [bind_of_ok (hfits hroom)]
        exact (hk a).fails w' hmiddle hroom hover
      · obtain ⟨limited, hlimited, hcut⟩ := hfails (Nat.lt_of_not_le hroom)
        obtain ⟨later, hlater⟩ := (hk a).grows w' hmiddle
        exact ⟨limited, bind_of_error hlimited, hcut.grow hlater⟩
    | error e w' =>
      rw [hstep] at hfails
      rw [bind_of_error hstep] at hover ⊢
      obtain ⟨limited, hlimited, hcut⟩ := hfails hover
      exact ⟨limited, bind_of_error hlimited, hcut⟩

/-- A piece of text is taken as far as there is room for it. -/
theorem emit (piece : String) : Cuttable room refusal (XmlWriter.emit piece) := by
  have hfree {w : XmlWriter Sink} (hw : w.out.Unlimited) : XmlWriter.emit piece w =
      .ok () { w with out := { w.out with received := w.out.received ++ piece.toUTF8 } } := by
    refine emit_of_ok ?_
    show Sink.write piece w.out = _
    simp only [Sink.write, hw.room]
  refine ⟨fun w hw => ?_, fun w hw => ?_, fun w hw hsize => ?_, fun w hw hsize hover => ?_⟩
  · rw [hfree hw]
    exact ⟨hw.room, hw.flushFault⟩
  · rw [hfree hw]
    exact ⟨piece.toUTF8, rfl⟩
  · rw [hfree hw] at hsize ⊢
    have htotal : (w.out.received ++ piece.toUTF8).size ≤ room := hsize
    rw [ByteArray.size_append] at htotal
    have hwrite : Output.write piece (w.within room refusal).out = .ok () { w.out.within room refusal with
        received := w.out.received ++ piece.toUTF8, room := some (room - w.out.received.size - piece.toUTF8.size) } := by
      show Sink.write piece (w.out.within room refusal) = _
      simp only [Sink.write, Sink.within]
      rw [if_pos (by omega)]
    rw [emit_of_ok hwrite]
    simp only [mapState, within, Sink.within, ByteArray.size_append, Nat.sub_add_eq]
  · rw [hfree hw] at hover ⊢
    have htotal : room < (w.out.received ++ piece.toUTF8).size := hover
    rw [ByteArray.size_append] at htotal
    have hwrite : Output.write piece (w.within room refusal).out =
        .error (.writer (.other refusal)) { w.out.within room refusal with
          received := w.out.received ++ piece.toUTF8.extract 0 (room - w.out.received.size), room := some 0 } := by
      show Sink.write piece (w.out.within room refusal) = _
      simp only [Sink.write, Sink.within]
      rw [if_neg (by omega)]
    exact ⟨_, emit_of_error hwrite, hover, rfl, (extract_append_of_ge hsize).symm⟩

theorem pieced (room : Nat) (refusal : String) : Pieced fun step => Cuttable room refusal step where
  pure _ := .of_out_eq (fun _ => rfl) fun _ => rfl
  throw _ := .of_out_eq (fun _ => rfl) fun _ => rfl
  bind h hk := h.bind hk
  look hsame hk := by
    refine ⟨fun w => (hk w).unlimited w, fun w => (hk w).grows w, fun w hw hsize => ?_, fun w hw hsize hover => ?_⟩
    · rw [get_bind, within, hsame]
      exact (hk w).fits w hw hsize
    · rw [get_bind, within, hsame]
      exact (hk w).fails w hw hsize hover
  change {f} hf := by
    refine .of_out_eq (out_eq_of_change hf) fun w => congrArg (EStateM.Result.ok ()) ?_
    show f { w with out := w.out.within room refusal } = (f w).within room refusal
    rw [hf, within, out_eq_of_change hf]
  emit := emit

theorem flush : Cuttable room refusal (XmlWriter.flush (ο := Sink)) := by
  have hflush {w : XmlWriter Sink} (hw : w.out.flushFault = none) : XmlWriter.flush w = .ok () w := by
    have hsink : Sink.flush w.out = .ok () w.out := by simp only [Sink.flush, hw]
    simp only [XmlWriter.flush, Output.flush, hsink]
  refine ⟨fun w hw => ?_, fun w hw => ?_, fun w hw _ => ?_, fun w hw hsize hover => ?_⟩
  · rwa [hflush hw.flushFault]
  · rw [hflush hw.flushFault]
    exact ⟨ByteArray.empty, ByteArray.append_empty.symm⟩
  · rw [hflush hw.flushFault, hflush (w := w.within room refusal) rfl]
    rfl
  · rw [hflush hw.flushFault] at hover
    exact absurd hsize (Nat.not_le_of_lt hover)

theorem perform (room : Nat) (refusal : String) (call : XmlCall) : Cuttable room refusal (perform call) := by
  cases call with
  | declaration => exact (pieced room refusal).declaration
  | call call =>
    cases call with
    | put event => exact (pieced room refusal).put event
    | flush => exact flush

end Cuttable

/-! ## Full sinks -/

/-- A step that can add nothing to a full sink. -/
def Frozen (step : EStateM Error (XmlWriter Sink) α) : Prop :=
  ∀ w, w.out.room = some 0 →
    (endState (step w)).out.room = some 0 ∧ (endState (step w)).out.received = w.out.received

namespace Frozen

theorem of_out_eq {step : EStateM Error (XmlWriter Sink) α} (hout : ∀ w, (endState (step w)).out = w.out) :
    Frozen step := by
  intro w hw
  rw [hout w]
  exact ⟨hw, rfl⟩

theorem bind {step : EStateM Error (XmlWriter Sink) α} {k : α → EStateM Error (XmlWriter Sink) β} (h : Frozen step)
    (hk : ∀ a, Frozen (k a)) : Frozen (step >>= k) := by
  intro w hw
  obtain ⟨hroom, hreceived⟩ := h w hw
  cases hstep : step w with
  | ok a w' =>
    rw [hstep] at hroom hreceived
    obtain ⟨hroom', hreceived'⟩ := hk a w' hroom
    rw [bind_of_ok hstep]
    exact ⟨hroom', hreceived'.trans hreceived⟩
  | error e w' =>
    rw [hstep] at hroom hreceived
    rw [bind_of_error hstep]
    exact ⟨hroom, hreceived⟩

theorem emit (piece : String) : Frozen (XmlWriter.emit piece) := by
  intro w hw
  by_cases hempty : piece.toUTF8.size ≤ 0
  · have hnothing : piece.toUTF8 = ByteArray.empty := ByteArray.size_eq_zero_iff.1 (Nat.le_zero.1 hempty)
    have hwrite : Output.write piece w.out = .ok () { w.out with room := some 0 } := by
      show Sink.write piece w.out = _
      simp only [Sink.write, hw, hnothing, ByteArray.append_empty]
      rfl
    rw [emit_of_ok hwrite]
    exact ⟨rfl, rfl⟩
  · have hnothing : piece.toUTF8.extract 0 0 = ByteArray.empty := ByteArray.size_eq_zero_iff.1 (by simp)
    have hwrite : Output.write piece w.out =
        .error (.writer (.other w.out.refusal)) { w.out with room := some 0 } := by
      show Sink.write piece w.out = _
      simp only [Sink.write, hw, if_neg hempty, hnothing, ByteArray.append_empty]
    rw [emit_of_error hwrite]
    exact ⟨rfl, rfl⟩

theorem pieced : Pieced fun step => Frozen step where
  pure _ := .of_out_eq fun _ => rfl
  throw _ := .of_out_eq fun _ => rfl
  bind h hk := h.bind hk
  look _ hk := fun w => hk w w
  change hf := .of_out_eq (out_eq_of_change hf)
  emit := emit

theorem flush : Frozen (XmlWriter.flush (ο := Sink)) := by
  refine of_out_eq fun w => ?_
  have hsink : endState (Output.flush w.out) = w.out := by
    show endState (Sink.flush w.out) = w.out
    unfold Sink.flush
    split <;> rfl
  unfold XmlWriter.flush
  cases hflush : Output.flush w.out with
  | ok _ out => rwa [hflush] at hsink
  | error e out => rwa [hflush] at hsink

theorem perform (call : XmlCall) : Frozen (perform call) := by
  cases call with
  | declaration => exact pieced.declaration
  | call call =>
    cases call with
    | put event => exact pieced.put event
    | flush => exact flush

end Frozen

/-! ## Calls in a row -/

/-- A writer on a sink with limited room, next to one that has taken the same calls without a limit: they are the same
but for the limit, or the first has been cut. -/
structure Limits (room : Nat) (refusal : String) (w limited : XmlWriter Sink) : Prop where
  unlimited : w.out.Unlimited
  same_or_cut : w.out.received.size ≤ room ∧ limited = w.within room refusal ∨ Cut room w limited

namespace Limits

variable {limited : XmlWriter Sink}

theorem fresh (indent : Option Nat) (room : Nat) (refusal : String) :
    Limits room refusal { out := {}, indent } { out := { room := some room, refusal }, indent } :=
  ⟨⟨rfl, rfl⟩, .inl ⟨Nat.zero_le room, rfl⟩⟩

theorem eq_within (h : Limits room refusal w limited) (hsize : w.out.received.size ≤ room) :
    limited = w.within room refusal := by
  rcases h.same_or_cut with ⟨-, hsame⟩ | hcut
  · exact hsame
  · exact absurd hsize (Nat.not_le_of_lt hcut.overflow)

theorem received_eq (h : Limits room refusal w limited) : limited.out.received = w.out.received.extract 0 room := by
  rcases h.same_or_cut with ⟨hsize, rfl⟩ | hcut
  · exact (extract_of_size_le hsize).symm
  · exact hcut.received

/-- A call leaves the two as they are: the same but for the limit, or cut. -/
theorem perform (h : Limits room refusal w limited) (call : XmlCall) :
    Limits room refusal (endState (XmlWriter.perform call w)) (endState (XmlWriter.perform call limited)) := by
  have hcuttable := Cuttable.perform room refusal call
  refine ⟨hcuttable.unlimited w h.unlimited, ?_⟩
  rcases h.same_or_cut with ⟨hsize, rfl⟩ | hcut
  · by_cases hfits : (endState (XmlWriter.perform call w)).out.received.size ≤ room
    · rw [hcuttable.fits w h.unlimited hfits]
      refine .inl ⟨hfits, ?_⟩
      cases XmlWriter.perform call w <;> rfl
    · obtain ⟨limited, hlimited, hcut⟩ := hcuttable.fails w h.unlimited hsize (Nat.lt_of_not_le hfits)
      rw [hlimited]
      exact .inr hcut
  · obtain ⟨hfull, hreceived⟩ := Frozen.perform call limited hcut.full
    obtain ⟨bytes, hbytes⟩ := hcuttable.grows w h.unlimited
    have hgrown := hcut.grow hbytes
    exact .inr ⟨hgrown.overflow, hfull, hreceived.trans hgrown.received⟩

theorem after (h : Limits room refusal w limited) (calls : List XmlCall) :
    Limits room refusal (w.after calls) (limited.after calls) := by
  induction calls generalizing w limited with
  | nil => exact h
  | cons call calls ih => exact ih (h.perform call)

/-- A call that fits has the same outcome on both. -/
theorem outcome_eq (h : Limits room refusal w limited) {call : XmlCall}
    (hfits : (endState (XmlWriter.perform call w)).out.received.size ≤ room) :
    outcome (XmlWriter.perform call limited) = outcome (XmlWriter.perform call w) := by
  have hcuttable := Cuttable.perform room refusal call
  rw [h.eq_within (Nat.le_trans (hcuttable.size_le h.unlimited) hfits), hcuttable.fits w h.unlimited hfits,
    outcome_mapState]

/-- The call in which the room ends fails with the refusal of the sink. -/
theorem outcome_error (h : Limits room refusal w limited) {call : XmlCall} (hsize : w.out.received.size ≤ room)
    (hover : room < (endState (XmlWriter.perform call w)).out.received.size) :
    outcome (XmlWriter.perform call limited) = .error (.writer (.other refusal)) := by
  obtain ⟨cut, hcut, -⟩ := (Cuttable.perform room refusal call).fails w h.unlimited hsize hover
  rw [h.eq_within hsize, hcut]
  rfl

end Limits

end XmlWriter

/-- A full sink only cuts the output. Over any calls on an XML writer, a sink with limited room receives the first of the
bytes that a sink without a limit receives, as many as there is room for. Every call that fits has the same outcome on
both, and the first one that does not fails with the refusal of the sink. -/
theorem full_sink_only_cuts (calls : List XmlCall) (indent : Option Nat) (room : Nat) (refusal : String) :
    let free : XmlWriter Sink := { out := {}, indent }
    let limited : XmlWriter Sink := { out := { room := some room, refusal }, indent }
    (limited.after calls).out.received = (free.after calls).out.received.extract 0 room ∧
    ∀ before call later, calls = before ++ call :: later →
      ((free.after (before ++ [call])).out.received.size ≤ room →
        outcome (XmlWriter.perform call (limited.after before)) = outcome (XmlWriter.perform call (free.after before))) ∧
      ((free.after before).out.received.size ≤ room → room < (free.after (before ++ [call])).out.received.size →
        outcome (XmlWriter.perform call (limited.after before)) = .error (.writer (.other refusal))) := by
  intro free limited
  have hfresh : XmlWriter.Limits room refusal free limited := .fresh indent room refusal
  refine ⟨(hfresh.after calls).received_eq, fun before call later _ => ?_⟩
  rw [XmlWriter.after_append]
  exact ⟨fun hfits => (hfresh.after before).outcome_eq hfits, fun hsize hover =>
    (hfresh.after before).outcome_error hsize hover⟩

/-- Room for five bytes, which ends inside an attribute: after a call that is refused, and before others. -/
theorem full_sink_only_cuts_in_attribute :
    ∃ (before later : List XmlCall) (free limited : XmlWriter Sink),
      before = [.call (.put .closeElement), .call (.put (.openElement "a"))] ∧
      later = [.call (.put (.text "late")), .call .flush, .call (.put .closeElement)] ∧
      free = { out := {} } ∧ limited = { out := { room := some 5 } } ∧
      (free.after before).out.received.size = 2 ∧
      (free.after (before ++ [.call (.put (.attr "n" "1"))])).out.received.size = 8 ∧
      outcome (XmlWriter.perform (.call (.put (.attr "n" "1"))) (limited.after before)) =
        .error (.writer (.other "sink is full")) ∧
      (limited.after (before ++ .call (.put (.attr "n" "1")) :: later)).out.received =
        (free.after (before ++ .call (.put (.attr "n" "1")) :: later)).out.received.extract 0 5 := by
  let before : List XmlCall := [.call (.put .closeElement), .call (.put (.openElement "a"))]
  let later : List XmlCall := [.call (.put (.text "late")), .call .flush, .call (.put .closeElement)]
  have hbefore : (({ out := {} } : XmlWriter Sink).after before).out.received.size = 2 := by decide +kernel
  have hattr : (({ out := {} } : XmlWriter Sink).after (before ++ [.call (.put (.attr "n" "1"))])).out.received.size = 8 := by
    decide +kernel
  obtain ⟨hreceived, hcalls⟩ :=
    full_sink_only_cuts (before ++ .call (.put (.attr "n" "1")) :: later) none 5 "sink is full"
  exact ⟨before, later, _, _, rfl, rfl, rfl, rfl, hbefore, hattr, (hcalls before _ later rfl).2 (by omega) (by omega),
    hreceived⟩

end GraphMarkup
