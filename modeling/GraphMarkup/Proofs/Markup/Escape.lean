import GraphMarkup.Markup.Escape

/-!
# Escaped character data

* `IsXmlText` : data that XML can carry;
* `isReserved_eq_isSome` : data is rewritten exactly for the characters that have a reference;
* `escape_eq_ok`, `escape_eq_error` : escaping succeeds on data that XML can carry, and only on it;
* `escape_append` : data in two pieces is escaped piece by piece;
* `notMem_escaped` : apart from ampersands, no reserved character is left in escaped data;
* `escaped_injective` : data is known from its escaped form.
-/

namespace GraphMarkup.Markup

def IsXmlText (text : String) : Prop := ∀ c ∈ text.toList, isXmlChar c

instance (text : String) : Decidable (IsXmlText text) := decidable_of_iff (text.toList.all isXmlChar) List.all_eq_true

variable {place : Place}

/-! ## Reserved characters -/

/-- Data is rewritten exactly for the characters that have a reference. -/
theorem isReserved_eq_isSome (place : Place) (c : Char) : isReserved place c = (reference? place c).isSome := by
  unfold reference?
  split
  case h_8 =>
    unfold isReserved
    split <;> simp_all
  all_goals rfl

theorem escapeChar_eq_singleton {c : Char} (h : isReserved place c = false) : escapeChar place c = [c] := by
  have hnone : reference? place c = none := by simpa [isReserved_eq_isSome] using h
  rw [escapeChar, hnone]

/-- Where nothing is reserved, writing every character as it has to be written changes nothing. -/
theorem flatMap_escapeChar_eq_self {cs : List Char} (h : ∀ c ∈ cs, isReserved place c = false) :
    cs.flatMap (escapeChar place) = cs := by
  induction cs with
  | nil => rfl
  | cons c cs ih =>
    rw [List.forall_mem_cons] at h
    rw [List.flatMap_cons, escapeChar_eq_singleton h.1, ih h.2, List.singleton_append]

/-! ## Success and failure -/

theorem find?_eq_none_iff_isXmlText {text : String} :
    (text.toList.find? fun c => !isXmlChar c) = none ↔ IsXmlText text := by
  simp [List.find?_eq_none, IsXmlText]

/-- Data that XML can carry is escaped, whether or not there is anything to rewrite in it. -/
theorem escape_eq_ok {text : String} (h : IsXmlText text) :
    escape place text = .ok (String.ofList (text.toList.flatMap (escapeChar place))) := by
  rw [escape, find?_eq_none_iff_isXmlText.2 h]
  by_cases hany : text.toList.any (isReserved place)
  · exact if_pos hany
  · have hplain : ∀ c ∈ text.toList, isReserved place c = false := by simpa using hany
    rw [flatMap_escapeChar_eq_self hplain, String.ofList_toList]
    exact if_neg hany

/-- Escaping is refused for the first character that XML cannot carry. -/
theorem escape_eq_error_of_find? (place : Place) {text : String} {c : Char}
    (h : (text.toList.find? fun c => !isXmlChar c) = some c) : escape place text = .error (.forbiddenChar c) := by
  rw [escape, h]

theorem escape_eq_error (place : Place) {text : String} (h : ¬ IsXmlText text) :
    ∃ c, isXmlChar c = false ∧ escape place text = .error (.forbiddenChar c) := by
  cases hfind : text.toList.find? fun c => !isXmlChar c with
  | none => exact absurd (find?_eq_none_iff_isXmlText.1 hfind) h
  | some c => exact ⟨c, by simpa using List.find?_some hfind, escape_eq_error_of_find? place hfind⟩

/-- Data in two pieces is escaped piece by piece, and refused if the second piece is. -/
theorem escape_append {text escaped : String} (h : IsXmlText text) (hescaped : escape place text = .ok escaped)
    (more : String) : escape place (text ++ more) = (escape place more).map (escaped ++ ·) := by
  rw [escape_eq_ok h] at hescaped
  cases hescaped
  have hfind : ((text ++ more).toList.find? fun c => !isXmlChar c) = more.toList.find? fun c => !isXmlChar c := by
    rw [String.toList_append, List.find?_append, find?_eq_none_iff_isXmlText.2 h, Option.none_or]
  cases hmore : more.toList.find? fun c => !isXmlChar c with
  | some c => rw [escape_eq_error_of_find? place (hfind.trans hmore), escape_eq_error_of_find? place hmore]; rfl
  | none =>
    rw [escape_eq_ok (find?_eq_none_iff_isXmlText.1 (hfind.trans hmore)),
      escape_eq_ok (find?_eq_none_iff_isXmlText.1 hmore), String.toList_append, List.flatMap_append,
      String.ofList_append]
    rfl

/-! ## References -/

def references : List (Char × String) :=
  [('&', "&amp;"), ('<', "&lt;"), ('>', "&gt;"), ('\r', "&#xD;"), ('"', "&quot;"), ('\n', "&#xA;"), ('\t', "&#x9;")]

theorem mem_references_of_reference? {c : Char} {r : String} (h : reference? place c = some r) :
    (c, r) ∈ references := by
  unfold reference? at h
  split at h <;> cases h <;> decide

theorem ne_amp_of_reference?_eq_none {c : Char} (h : reference? place c = none) : c ≠ '&' := by
  rintro rfl
  cases h

/-- A reference is an ampersand and characters of which none is reserved. -/
theorem exists_cons_of_reference? {c : Char} {r : String} (h : reference? place c = some r) :
    ∃ tail, r.toList = '&' :: tail ∧ ∀ d ∈ tail, isReserved place d = false := by
  have hall : ∀ p ∈ references, p.2.toList.head? = some '&' ∧ p.2.toList.tail.any (isReserved place) = false := by
    cases place <;> decide
  obtain ⟨hhead, htail⟩ := hall _ (mem_references_of_reference? h)
  obtain ⟨tail, hshape⟩ := List.head?_eq_some_iff.1 hhead
  have hshape : r.toList = '&' :: tail := hshape
  exact ⟨tail, hshape, by simpa [hshape] using htail⟩

/-- Every reference begins with a character that never stands for itself. -/
theorem cons_ne_reference_append {c d : Char} {r : String} {x y : List Char} (hc : reference? place c = none)
    (hd : reference? place d = some r) : c :: x ≠ r.toList ++ y := by
  obtain ⟨tail, hshape, -⟩ := exists_cons_of_reference? hd
  rw [hshape]
  intro h
  exact ne_amp_of_reference?_eq_none hc (List.cons.inj h).1

/-- No reference is the beginning of another. -/
theorem references_append_inj {p q : Char × String} (hp : p ∈ references) (hq : q ∈ references) {x y : List Char}
    (h : p.2.toList ++ x = q.2.toList ++ y) : p.1 = q.1 ∧ x = y := by
  simp only [references, List.mem_cons, List.not_mem_nil, or_false] at hp hq
  rcases hp with rfl | rfl | rfl | rfl | rfl | rfl | rfl <;>
    rcases hq with rfl | rfl | rfl | rfl | rfl | rfl | rfl <;> simp_all

/-! ## Escaped data -/

/-- The only reserved character of what is written for a character is the ampersand. -/
theorem eq_amp_of_mem_escapeChar {c d : Char} (hd : d ∈ escapeChar place c) (hreserved : isReserved place d) :
    d = '&' := by
  unfold escapeChar at hd
  cases hc : reference? place c with
  | none =>
    rw [hc, List.mem_singleton] at hd
    rw [hd, isReserved_eq_isSome, hc] at hreserved
    cases hreserved
  | some r =>
    obtain ⟨tail, hshape, htail⟩ := exists_cons_of_reference? hc
    have hmem : d ∈ '&' :: tail := by simpa only [hc, hshape] using hd
    cases hmem with
    | head => rfl
    | tail _ hd => cases (htail d hd).symm.trans hreserved

/-- Apart from ampersands, no reserved character is left in escaped data. -/
theorem notMem_escaped {d : Char} (hreserved : isReserved place d) (hne : d ≠ '&') (cs : List Char) :
    d ∉ cs.flatMap (escapeChar place) := by
  intro h
  obtain ⟨c, _, hd⟩ := List.mem_flatMap.1 h
  exact hne (eq_amp_of_mem_escapeChar hd hreserved)

theorem lt_notMem_escaped (cs : List Char) : '<' ∉ cs.flatMap (escapeChar place) :=
  notMem_escaped rfl (by decide) cs

theorem quote_notMem_escaped (cs : List Char) : '"' ∉ cs.flatMap (escapeChar .attrValue) :=
  notMem_escaped rfl (by decide) cs

theorem escapeChar_ne_nil (c : Char) : escapeChar place c ≠ [] := by
  unfold escapeChar
  cases h : reference? place c with
  | none => simp
  | some r =>
    obtain ⟨tail, hshape, -⟩ := exists_cons_of_reference? h
    simp [hshape]

/-- A character is known from how escaped data begins. -/
theorem escapeChar_append_inj {c d : Char} {x y : List Char} (h : escapeChar place c ++ x = escapeChar place d ++ y) :
    c = d ∧ x = y := by
  unfold escapeChar at h
  cases hc : reference? place c with
  | none =>
    cases hd : reference? place d with
    | none =>
      rw [hc, hd] at h
      exact List.cons.inj h
    | some r =>
      rw [hc, hd] at h
      exact absurd h (cons_ne_reference_append hc hd)
  | some r =>
    cases hd : reference? place d with
    | none =>
      rw [hc, hd] at h
      exact absurd h.symm (cons_ne_reference_append hd hc)
    | some s =>
      rw [hc, hd] at h
      exact references_append_inj (mem_references_of_reference? hc) (mem_references_of_reference? hd) h

theorem escaped_injective {cs ds : List Char} (h : cs.flatMap (escapeChar place) = ds.flatMap (escapeChar place)) :
    cs = ds := by
  induction cs generalizing ds with
  | nil =>
    cases ds with
    | nil => rfl
    | cons d ds => simp [escapeChar_ne_nil] at h
  | cons c cs ih =>
    cases ds with
    | nil => simp [escapeChar_ne_nil] at h
    | cons d ds =>
      rw [List.flatMap_cons, List.flatMap_cons] at h
      obtain ⟨rfl, htail⟩ := escapeChar_append_inj h
      rw [ih htail]

end GraphMarkup.Markup
