import GraphMarkup.Datum
import GraphMarkup.Proofs.Session.Independence
import GraphMarkup.Proofs.Session.Silence

/-!
# Data become whole values

* `MapBuilder.Whole` : the pairs of a map so far, all of which are whole;
* `Datum.toValue_whole` : the value of a datum is whole;
* `toXml_error_of_settled` : what can be wrong with a document of values in which nothing is left to compute;
* `Datum.toXml_never_degrades` : a datum without a value has no document, and nothing is mended in that of any other.
-/

namespace GraphMarkup

open Element (eventsOf)

/-- What comes of two steps in a row has come of the second, after the first. -/
theorem exists_of_except_bind {ε α β : Type} {step : Except ε α} {k : α → Except ε β} {b : β}
    (h : (step >>= k) = .ok b) : ∃ a, step = .ok a ∧ k a = .ok b := by
  cases step with
  | ok a => exact ⟨a, rfl, h⟩
  | error e => cases h

/-! ## Whole values -/

/-- The pairs of a map so far, and the key that lacks its value, are whole. -/
structure MapBuilder.Whole (b : MapBuilder) : Prop where
  entries : ∀ entry ∈ b.entries.toList, entry.1.Whole ∧ entry.2.Whole
  pendingKey : ∀ key, b.pendingKey = some key → key.Whole

namespace Datum

theorem numbered_whole {values : List Value} (h : ∀ v ∈ values, v.Whole) :
    ∀ p ∈ numbered values, ∃ c : Value, p.value = .ready c ∧ c.Whole := by
  intro p hp
  obtain ⟨⟨c, index⟩, hmem, rfl⟩ := List.mem_map.1 hp
  exact ⟨c, rfl, h c (List.fst_mem_of_mem_zipIdx hmem)⟩

mutual

/-- The value of a datum is whole. -/
theorem toValue_whole : ∀ (d : Datum) {v : Value}, d.toValue = .ok v → v.Whole
  | scalar s, v, h => by
    obtain rfl := Except.ok.inj h
    exact .scalar s
  | absent, v, h | unit, v, h => by
    obtain rfl := Except.ok.inj h
    exact .null
  | present content, v, h | wrapper content, v, h => content.toValue_whole h
  | wideInteger _, v, h | failure _, v, h => nomatch h
  | bytes items, v, h => by
    obtain rfl := Except.ok.inj h
    refine .list (fun item hitem => ?_) _ _
    obtain ⟨byte, -, rfl⟩ := List.mem_map.1 hitem
    exact .scalar _
  | emptyRecord typeName, v, h => by
    obtain rfl := Except.ok.inj h
    exact .object (List.forall_mem_nil _) _
  | sequence items, v, h | tuple items, v, h => by
    obtain ⟨values, hvalues, hv⟩ := exists_of_except_bind h
    obtain rfl := Except.ok.inj hv
    exact .list (toValues_whole items hvalues) _ _
  | namedTuple typeName items, v, h => by
    obtain ⟨values, hvalues, hv⟩ := exists_of_except_bind h
    obtain rfl := Except.ok.inj hv
    exact .list (toValues_whole items hvalues) _ _
  | map calls, v, h => by
    obtain ⟨b, hb, hv⟩ := exists_of_except_bind h
    have hempty : ({} : MapBuilder).Whole := ⟨List.forall_mem_nil _, fun _ hnone => nomatch hnone⟩
    have hwhole := addCalls_whole calls hempty hb
    unfold MapBuilder.finish at hv
    split at hv
    · cases hv
    · obtain rfl := Except.ok.inj hv
      exact .dict hwhole.entries _
  | record typeName fields, v, h => by
    obtain ⟨ps, hps, hv⟩ := exists_of_except_bind h
    obtain rfl := Except.ok.inj hv
    exact .object (toProperties_whole fields hps) _
  | bareCase typeName caseName index, v, h => by
    obtain rfl := Except.ok.inj h
    exact .intro rfl (List.forall_mem_nil _)
  | wrapperCase typeName caseName content, v, h => by
    obtain ⟨value, hvalue, hv⟩ := exists_of_except_bind h
    obtain rfl := Except.ok.inj hv
    exact .object (numbered_whole (List.forall_mem_singleton.2 (content.toValue_whole hvalue))) _
  | tupleCase typeName caseName items, v, h => by
    obtain ⟨values, hvalues, hv⟩ := exists_of_except_bind h
    obtain rfl := Except.ok.inj hv
    exact .object (numbered_whole (toValues_whole items hvalues)) _
  | recordCase typeName caseName fields, v, h => by
    obtain ⟨ps, hps, hv⟩ := exists_of_except_bind h
    obtain rfl := Except.ok.inj hv
    exact .object (toProperties_whole fields hps) _

theorem toValues_whole : ∀ (items : List Datum) {values : List Value}, toValues items = .ok values →
    ∀ v ∈ values, v.Whole
  | [], values, h => by
    obtain rfl := Except.ok.inj h
    exact List.forall_mem_nil _
  | item :: items, values, h => by
    obtain ⟨value, hvalue, hrest⟩ := exists_of_except_bind h
    obtain ⟨values', hvalues, hcons⟩ := exists_of_except_bind hrest
    obtain rfl := Except.ok.inj hcons
    exact List.forall_mem_cons.2 ⟨item.toValue_whole hvalue, toValues_whole items hvalues⟩

theorem toProperties_whole : ∀ (fields : List (String × Option Datum)) {ps : List (Property Value)},
    toProperties fields = .ok ps → ∀ p ∈ ps, ∃ c : Value, p.value = .ready c ∧ c.Whole
  | [], ps, h => by
    obtain rfl := Except.ok.inj h
    exact List.forall_mem_nil _
  | (_, none) :: fields, ps, h => toProperties_whole fields h
  | (name, some content) :: fields, ps, h => by
    obtain ⟨value, hvalue, hrest⟩ := exists_of_except_bind h
    obtain ⟨ps', hps, hcons⟩ := exists_of_except_bind hrest
    obtain rfl := Except.ok.inj hcons
    exact List.forall_mem_cons.2 ⟨⟨value, rfl, content.toValue_whole hvalue⟩, toProperties_whole fields hps⟩

theorem addCalls_whole : ∀ (calls : List (MapCall Datum)) {b b' : MapBuilder}, b.Whole → addCalls calls b = .ok b' →
    b'.Whole
  | [], b, b', hb, h => by
    obtain rfl := Except.ok.inj h
    exact hb
  | .key content :: calls, b, b', hb, h => by
    obtain ⟨key, hkey, hrest⟩ := exists_of_except_bind h
    have hwhole : ({ b with pendingKey := some key } : MapBuilder).Whole :=
      ⟨hb.entries, fun _ hsome => Option.some.inj hsome ▸ content.toValue_whole hkey⟩
    exact addCalls_whole calls hwhole hrest
  | .value content :: calls, b, b', hb, h => by
    rw [addCalls] at h
    split at h
    · cases h
    · next key hpending =>
      obtain ⟨value, hvalue, hrest⟩ := exists_of_except_bind h
      have hwhole : (⟨b.entries.push (key, value), none⟩ : MapBuilder).Whole := by
        refine ⟨?_, fun _ hnone => nomatch hnone⟩
        rw [Array.toList_push]
        exact List.forall_mem_append.2 ⟨hb.entries,
          List.forall_mem_singleton.2 ⟨hb.pendingKey key hpending, content.toValue_whole hvalue⟩⟩
      exact addCalls_whole calls hwhole hrest

end

end Datum

/-! ## Documents -/

/-- Only the policy or a character can be wrong with a document of values in which nothing is left to compute. -/
theorem toXml_error_of_settled {policy : Policy} {values : List Value} {error : Error}
    (hvalues : ∀ v ∈ values, v.IsSettled) (herror : (toXml policy values).1 = .error error) :
    (policy.validate = .error error ∧ ∃ fault, error = .configuration fault) ∨
      (policy.validate = .ok () ∧ ∃ c, Markup.isXmlChar c = false ∧ error = .writer (.forbiddenChar c)) := by
  cases hvalidate : policy.validate with
  | error e =>
    rw [toXml_of_invalid hvalidate] at herror
    obtain rfl := Except.error.inj herror
    exact .inl ⟨rfl, Policy.exists_fault_of_invalid hvalidate⟩
  | ok _ =>
    obtain ⟨es, hes⟩ := exists_becomes_of_settled policy hvalues
    rw [toXml_of_becomes hvalidate hes] at herror
    cases hforbidden : firstForbidden? (eventsOf es) with
    | none =>
      rw [hforbidden] at herror
      cases herror
    | some c =>
      rw [hforbidden] at herror
      obtain rfl := Except.error.inj herror
      exact .inr ⟨rfl, c, isXmlChar_of_firstForbidden? hforbidden, rfl⟩

namespace Datum

/-- Data never degrade. A datum without a value has no document, for the same error. The value of any other is whole, so
that its document is written without a warning and without the graph noticing, and the only errors are that of the policy
and a character that XML cannot carry. -/
theorem toXml_never_degrades (policy : Policy) (datum : Datum) :
    (∀ error, datum.toValue = .error error → datum.toXml policy = .error error) ∧
    ∀ v, datum.toValue = .ok v →
      v.Whole ∧
      datum.toXml policy = (GraphMarkup.toXml policy [v]).1 ∧
      (∀ entry ∈ (GraphMarkup.toXml policy [v]).2.journal.toList, entry.warning? = none ∧ entry.effect? = none) ∧
      ∀ error, datum.toXml policy = .error error →
        (policy.validate = .error error ∧ ∃ fault, error = .configuration fault) ∨
          (policy.validate = .ok () ∧ ∃ c, Markup.isXmlChar c = false ∧ error = .writer (.forbiddenChar c)) := by
  refine ⟨fun error herror => ?_, fun v hv => ?_⟩
  · rw [toXml, herror]
    rfl
  · have hwhole := datum.toValue_whole hv
    have heq : datum.toXml policy = (GraphMarkup.toXml policy [v]).1 := by
      rw [toXml, hv]
      rfl
    refine ⟨hwhole, heq, toXml_silent policy (List.forall_mem_singleton.2 hwhole), fun error herror => ?_⟩
    exact toXml_error_of_settled (List.forall_mem_singleton.2 hwhole.isSettled) (heq.symm.trans herror)

/-- A circle with its radius and a map of its colors, and a character that XML cannot carry in one of them. -/
theorem toXml_never_degrades_circle :
    ∃ circle v, circle = recordCase "Shape" "Circle" [("radius", some (.scalar (.int32 2))), ("label", none),
        ("colors", some (.map [.key (.bareCase "Edge" "Outer" 0), .value (.scalar (.string "\x01"))]))] ∧
      circle.toValue = .ok v ∧ v.Whole ∧
      circle.toXml { depth := 2 } = .error (.writer (.forbiddenChar (Char.ofNat 1))) ∧
      ∀ entry ∈ (GraphMarkup.toXml { depth := 2 } [v]).2.journal.toList,
        entry.warning? = none ∧ entry.effect? = none := by
  let circle := recordCase "Shape" "Circle" [("radius", some (.scalar (.int32 2))), ("label", none),
    ("colors", some (.map [.key (.bareCase "Edge" "Outer" 0), .value (.scalar (.string "\x01"))]))]
  obtain ⟨hwhole, -, hsilent, -⟩ := (toXml_never_degrades { depth := 2 } circle).2 _ rfl
  exact ⟨circle, _, rfl, rfl, hwhole, by decide +kernel, hsilent⟩

end Datum

end GraphMarkup
