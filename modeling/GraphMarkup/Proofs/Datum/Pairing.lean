import GraphMarkup.Proofs.Datum.Conversion

/-!
# Pairing keys and values

* `MapCall.ofPairs` : the parts of a map that pairs are;
* `MapCall.kept` : the parts of a map without the keys that another key takes the place of;
* `MapCall.exists_pairs` : what is kept of a map begins with pairs, up to a key at the end or a value without a key;
* `Datum.addCalls_kept`, `Datum.addCalls_ofPairs_append` : what becomes of keys that are not kept, and of pairs;
* `Datum.map_toValue_iff` : a map is a dictionary of pairs if what is kept of it is in pairs, and an error otherwise;
* `Datum.map_loses_replaced_key` : a key that another one follows is lost without an error.
-/

namespace GraphMarkup

/-! ## Parts of a map -/

namespace MapCall

variable {α : Type} {calls : List (MapCall α)}

def content : MapCall α → α
  | key content | value content => content

def isKey : MapCall α → Bool
  | key _ => true
  | value _ => false

/-- Two parts in a row of which the second does not take the place of the first. -/
def Apart (a b : MapCall α) : Prop := ¬ (a.isKey ∧ b.isKey)

/-- The parts of a map that pairs are, each key directly in front of its value. -/
def ofPairs (pairs : List (α × α)) : List (MapCall α) := pairs.flatMap fun pair => [.key pair.1, .value pair.2]

/-- The parts of a map without the keys that another key directly follows. -/
def kept : List (MapCall α) → List (MapCall α)
  | [] => []
  | .key _ :: .key next :: calls => kept (.key next :: calls)
  | call :: calls => call :: kept calls

theorem kept_sublist (calls : List (MapCall α)) : (kept calls).Sublist calls := by
  induction calls using kept.induct with
  | case1 => exact .slnil
  | case2 first next calls ih => exact ih.cons _
  | case3 call calls hfollows ih =>
    rw [kept]
    · exact ih.cons_cons call
    · exact hfollows

theorem isChain_value_cons (v : α) : (.value v :: calls).IsChain Apart ↔ calls.IsChain Apart := by
  cases calls with
  | nil => exact iff_of_true (.singleton _) .nil
  | cons call calls => exact List.isChain_cons_cons.trans (and_iff_right fun h => nomatch h.1)

/-- All parts are kept exactly if no key directly follows another. -/
theorem kept_eq_self_iff : ∀ calls : List (MapCall α), kept calls = calls ↔ calls.IsChain Apart
  | [] => iff_of_true rfl .nil
  | [.key k] => iff_of_true rfl (.singleton _)
  | .value v :: calls => by
    rw [isChain_value_cons, ← kept_eq_self_iff calls]
    exact List.cons_inj_right (value v)
  | .key k :: .value v :: calls => by
    have hapart : Apart (.key k) (.value v) := fun h => nomatch h.2
    rw [List.isChain_cons_cons, and_iff_right hapart, ← kept_eq_self_iff (.value v :: calls)]
    exact List.cons_inj_right (key k)
  | .key k :: .key next :: calls => by
    refine iff_of_false (fun h => ?_) fun h => (List.isChain_cons_cons.1 h).1 ⟨rfl, rfl⟩
    -- Without the first key, fewer parts are kept than there are.
    have hshorter := (kept_sublist (.key next :: calls)).length_le
    have hsame : (kept (.key next :: calls)).length = calls.length + 2 := congrArg List.length h
    rw [hsame, List.length_cons] at hshorter
    omega

/-- What is kept of a map begins with pairs. After these there is nothing, or a key at the end, or a value without a
key. -/
theorem exists_pairs : ∀ calls : List (MapCall α), ∃ pairs rest, kept calls = ofPairs pairs ++ rest ∧
    (rest = [] ∨ (∃ k, rest = [.key k]) ∨ ∃ v after, rest = .value v :: after)
  | [] => ⟨[], [], rfl, .inl rfl⟩
  | [.key k] => ⟨[], [.key k], rfl, .inr (.inl ⟨k, rfl⟩)⟩
  | .value v :: calls => ⟨[], .value v :: kept calls, rfl, .inr (.inr ⟨v, kept calls, rfl⟩)⟩
  | .key _ :: .key next :: calls => exists_pairs (.key next :: calls)
  -- A pair is taken off at once, so that what is left begins where a key is expected.
  | .key k :: .value v :: calls => by
    obtain ⟨pairs, rest, hkept, hrest⟩ := exists_pairs calls
    refine ⟨(k, v) :: pairs, rest, ?_, hrest⟩
    calc kept (.key k :: .value v :: calls) = .key k :: .value v :: kept calls := rfl
      _ = ofPairs ((k, v) :: pairs) ++ rest := by rw [hkept]; rfl

end MapCall

/-! ## What becomes of them -/

namespace Datum

open MapCall (kept ofPairs)

variable {convert : Datum → Value} {calls : List (MapCall Datum)}

/-- What is described in the parts of a map has values. -/
def Converts (convert : Datum → Value) (calls : List (MapCall Datum)) : Prop :=
  ∀ call ∈ calls, call.content.toValue = .ok (convert call.content)

theorem Converts.kept (h : Converts convert calls) : Converts convert (kept calls) :=
  fun call hcall => h call ((MapCall.kept_sublist calls).subset hcall)

theorem Converts.tail {call : MapCall Datum} (h : Converts convert (call :: calls)) : Converts convert calls :=
  fun call hcall => h call (List.mem_cons_of_mem _ hcall)

theorem addCalls_key {content : Datum} (h : Converts convert (.key content :: calls)) (b : MapBuilder) :
    addCalls (.key content :: calls) b = addCalls calls { b with pendingKey := some (convert content) } := by
  have hkey : content.toValue = .ok (convert content) := h _ (List.mem_cons_self ..)
  rw [addCalls, hkey]
  rfl

theorem addCalls_value {content : Datum} (h : Converts convert (.value content :: calls)) (key : Value)
    (entries : Array (Value × Value)) :
    addCalls (.value content :: calls) ⟨entries, some key⟩ =
      addCalls calls ⟨entries.push (key, convert content), none⟩ := by
  have hvalue : content.toValue = .ok (convert content) := h _ (List.mem_cons_self ..)
  rw [addCalls, hvalue]
  rfl

/-- A key that is not kept makes no difference. -/
theorem addCalls_kept (h : Converts convert calls) (b : MapBuilder) : addCalls (kept calls) b = addCalls calls b := by
  induction calls using MapCall.kept.induct generalizing b with
  | case1 => rfl
  | case2 first next calls ih =>
    -- The second key is put in the place of the first one, whatever was there before.
    have hrest : Converts convert (.key next :: calls) := h.tail
    calc addCalls (kept (.key next :: calls)) b
      _ = addCalls (.key next :: calls) b := ih hrest b
      _ = addCalls calls { b with pendingKey := some (convert next) } := addCalls_key hrest b
      _ = addCalls (.key next :: calls) { b with pendingKey := some (convert first) } :=
        (addCalls_key hrest { b with pendingKey := some (convert first) }).symm
      _ = addCalls (.key first :: .key next :: calls) b := (addCalls_key h b).symm
  | case3 call calls hfollows ih =>
    rw [MapCall.kept]
    · cases call with
      | key content => simp only [addCalls, ih h.tail]
      | value content => simp only [addCalls, ih h.tail]
    · exact hfollows

/-- Pairs become entries, from a state in which no key is pending. -/
theorem addCalls_ofPairs_append {pairs : List (Datum × Datum)} {rest : List (MapCall Datum)}
    (h : Converts convert (ofPairs pairs ++ rest)) (entries : Array (Value × Value)) :
    addCalls (ofPairs pairs ++ rest) ⟨entries, none⟩ =
      addCalls rest ⟨entries ++ pairs.map (Prod.map convert convert), none⟩ := by
  induction pairs generalizing entries with
  | nil => simp [ofPairs]
  | cons pair pairs ih =>
    obtain ⟨key, value⟩ := pair
    have hvalue : Converts convert (.value value :: (ofPairs pairs ++ rest)) := h.tail
    calc addCalls (.key key :: .value value :: (ofPairs pairs ++ rest)) ⟨entries, none⟩
      _ = addCalls (.value value :: (ofPairs pairs ++ rest)) ⟨entries, some (convert key)⟩ := addCalls_key h _
      _ = addCalls (ofPairs pairs ++ rest) ⟨entries.push (convert key, convert value), none⟩ :=
        addCalls_value hvalue _ _
      _ = addCalls rest ⟨entries ++ ((key, value) :: pairs).map (Prod.map convert convert), none⟩ := by
        rw [ih hvalue.tail]
        simp

section

variable {pairs : List (Datum × Datum)} {rest : List (MapCall Datum)} {content : Datum}

/-- What comes of a map, if the part that is kept of it begins with pairs. -/
theorem map_toValue_of_kept (h : Converts convert calls) (hkept : kept calls = ofPairs pairs ++ rest) :
    (map calls).toValue =
      addCalls rest ⟨(pairs.map (Prod.map convert convert)).toArray, none⟩ >>= MapBuilder.finish := by
  have hconverts := h.kept
  rw [hkept] at hconverts
  rw [toValue, ← addCalls_kept h, hkept, addCalls_ofPairs_append hconverts]
  simp

theorem map_toValue_of_pairs (h : Converts convert calls) (hkept : kept calls = ofPairs pairs) :
    (map calls).toValue = .ok (.dict none (.ready (pairs.map (Prod.map convert convert)))) :=
  map_toValue_of_kept h (hkept.trans (List.append_nil _).symm)

theorem map_toValue_of_key_left (h : Converts convert calls) (hkept : kept calls = ofPairs pairs ++ [.key content]) :
    (map calls).toValue = .error (.conversion .keyWithoutValue) := by
  have hleft : Converts convert [.key content] := by
    intro call hcall
    apply h.kept
    rw [hkept]
    exact List.mem_append_right _ hcall
  rw [map_toValue_of_kept h hkept, addCalls_key hleft]
  rfl

theorem map_toValue_of_value_first (h : Converts convert calls)
    (hkept : kept calls = ofPairs pairs ++ .value content :: rest) :
    (map calls).toValue = .error (.conversion .valueWithoutKey) := by
  rw [map_toValue_of_kept h hkept]
  rfl

/-- A map of data that have values is a dictionary if and only if it is kept in pairs, and then of exactly these pairs in
order. If not, it is an error: a value comes without a key, or a key is left at the end. All parts of the map are kept if
and only if no key directly follows another. -/
theorem map_toValue_iff (h : Converts convert calls) :
    (∀ v, (map calls).toValue = .ok v ↔
      ∃ pairs, kept calls = ofPairs pairs ∧ v = .dict none (.ready (pairs.map (Prod.map convert convert)))) ∧
    (∀ e, (map calls).toValue = .error e ↔
      (e = .conversion .keyWithoutValue ∧ ∃ pairs k, kept calls = ofPairs pairs ++ [.key k]) ∨
      (e = .conversion .valueWithoutKey ∧
        ∃ pairs content after, kept calls = ofPairs pairs ++ .value content :: after)) ∧
    (kept calls = calls ↔ calls.IsChain MapCall.Apart) := by
  obtain ⟨pairs, rest, hkept, hrest⟩ := MapCall.exists_pairs calls
  refine ⟨fun v => ⟨fun hv => ?_, ?_⟩, fun e => ⟨fun he => ?_, ?_⟩, MapCall.kept_eq_self_iff calls⟩
  · obtain rfl | ⟨k, rfl⟩ | ⟨content, after, rfl⟩ := hrest
    · rw [List.append_nil] at hkept
      exact ⟨pairs, hkept, Except.ok.inj (hv.symm.trans (map_toValue_of_pairs h hkept))⟩
    · cases hv.symm.trans (map_toValue_of_key_left h hkept)
    · cases hv.symm.trans (map_toValue_of_value_first h hkept)
  · rintro ⟨pairs, hpairs, rfl⟩
    exact map_toValue_of_pairs h hpairs
  · obtain rfl | ⟨k, rfl⟩ | ⟨content, after, rfl⟩ := hrest
    · rw [List.append_nil] at hkept
      cases he.symm.trans (map_toValue_of_pairs h hkept)
    · exact .inl ⟨Except.error.inj (he.symm.trans (map_toValue_of_key_left h hkept)), pairs, k, hkept⟩
    · exact .inr ⟨Except.error.inj (he.symm.trans (map_toValue_of_value_first h hkept)), pairs, content, after, hkept⟩
  · rintro (⟨rfl, pairs, k, hleft⟩ | ⟨rfl, pairs, content, after, hfirst⟩)
    · exact map_toValue_of_key_left h hleft
    · exact map_toValue_of_value_first h hfirst

end

/-- Two pairs, of which the second has a map for its key, and then a key that has no value. -/
theorem map_toValue_iff_of_key_left :
    (map [.key (.scalar (.string "a")), .value (.scalar (.int32 1)), .key (.map []), .value .unit,
        .key (.scalar (.string "b"))]).toValue = .error (.conversion .keyWithoutValue) := by
  have hconverts : Converts (fun d => d.toValue.toOption.getD .null) [.key (.scalar (.string "a")),
      .value (.scalar (.int32 1)), .key (.map []), .value .unit, .key (.scalar (.string "b"))] := by
    intro call hcall
    simp only [List.mem_cons, List.not_mem_nil, or_false] at hcall
    rcases hcall with rfl | rfl | rfl | rfl | rfl <;> rfl
  exact ((map_toValue_iff hconverts).2.1 _).2 (.inl ⟨rfl,
    [(.scalar (.string "a"), .scalar (.int32 1)), (.map [], .unit)], .scalar (.string "b"), rfl⟩)

/-- The first of two keys in a row is lost without an error, although these parts are no pairs. -/
theorem map_loses_replaced_key :
    (map [.key (.scalar (.string "a")), .key (.scalar (.string "b")), .value (.scalar (.int32 1))]).toValue =
        .ok (.dict none (.ready [(.scalar (.string "b"), .scalar (.int32 1))])) ∧
      ¬ ∃ pairs : List (Datum × Datum),
        [.key (.scalar (.string "a")), .key (.scalar (.string "b")), .value (.scalar (.int32 1))] = ofPairs pairs := by
  refine ⟨rfl, fun ⟨pairs, hpairs⟩ => ?_⟩
  cases pairs with
  | nil => cases hpairs
  | cons pair pairs =>
    have hsecond := (List.cons.inj (List.cons.inj hpairs).2).1
    cases hsecond

end Datum

end GraphMarkup
