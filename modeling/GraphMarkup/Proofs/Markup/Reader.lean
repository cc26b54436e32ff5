import GraphMarkup.Json.Token
import GraphMarkup.Proofs.Markup.Escape

/-!
# Character data as a reader takes it

* `normalize` : line ends become line feeds and, in an attribute, blanks become spaces;
* `referent?` : the character that a reference stands for;
* `expand?` : data with its references expanded;
* `read?` : what a reader makes of character data: it is normalized first, and only then expanded;
* `IsCharData` : data that may stand at a place, with nothing in it that a reader would take for markup or change.

The main statement is that escaped data may stand at its place and reads back as the data that was escaped.
-/

namespace GraphMarkup.Markup

/-! ## The reader -/

/-- Line ends as a reader sees them: a carriage return, together with a line feed behind it, is one line feed. -/
def normalizeLineEnds : List Char → List Char
  | [] => []
  | '\r' :: '\n' :: cs => '\n' :: normalizeLineEnds cs
  | '\r' :: cs => '\n' :: normalizeLineEnds cs
  | c :: cs => c :: normalizeLineEnds cs

/-- A character between the quotes of an attribute: blanks are spaces there. -/
def normalizeBlank (c : Char) : Char := if c = '\t' ∨ c = '\n' ∨ c = '\r' then ' ' else c

/-- Character data before any of its references is expanded. -/
def normalize : Place → List Char → List Char
  | .content, cs => normalizeLineEnds cs
  | .attrValue, cs => (normalizeLineEnds cs).map normalizeBlank

/-- The number that digits denote in a base: there is at least one, and nothing else among them. -/
def code? (base : Nat) (digits : List Char) : Option Nat := do
  let values ← digits.mapM JsonToken.hexDigit?
  guard (values ≠ [] ∧ ∀ v ∈ values, v < base)
  return values.foldl (fun n v => n * base + v) 0

def ofCode? (code : Nat) : Option Char :=
  if code.isValidChar ∧ isXmlChar (Char.ofNat code) then some (Char.ofNat code) else none

/-- The characters that can be referred to by name. -/
def entities : List (String × Char) := [("amp", '&'), ("lt", '<'), ("gt", '>'), ("apos", '\x27'), ("quot", '"')]

/-- The character that a reference stands for, by what is between its ampersand and its semicolon. -/
def referent? : List Char → Option Char
  | '#' :: 'x' :: digits => code? 16 digits >>= ofCode?
  | '#' :: digits => code? 10 digits >>= ofCode?
  | name => entities.lookup (String.ofList name)

/-- Data with its references expanded, if every ampersand begins one. Inside a reference `name` holds what has been
read of it, in reverse. -/
def expand? : Option (List Char) → List Char → Option (List Char)
  | none, [] => some []
  | none, '&' :: cs => expand? (some []) cs
  | none, c :: cs => (expand? none cs).map (c :: ·)
  | some _, [] => none
  | some name, ';' :: cs => (referent? name.reverse).bind fun c => (expand? none cs).map (c :: ·)
  | some name, c :: cs => expand? (some (c :: name)) cs

/-- What a reader makes of character data at a place. -/
def read? (place : Place) (data : String) : Option String :=
  (expand? none (normalize place data.toList)).map String.ofList

variable {place : Place}

/-! ## Normalization -/

theorem normalizeLineEnds_eq_self {cs : List Char} (h : '\r' ∉ cs) : normalizeLineEnds cs = cs := by
  fun_induction normalizeLineEnds cs with
  | case1 => rfl
  | case2 cs ih => simp at h
  | case3 cs _ ih => simp at h
  | case4 c cs _ _ ih => rw [ih fun hcs => h (List.mem_cons_of_mem c hcs)]

theorem map_normalizeBlank_eq_self {cs : List Char} (htab : '\t' ∉ cs) (hfeed : '\n' ∉ cs) (hreturn : '\r' ∉ cs) :
    cs.map normalizeBlank = cs := by
  have hsame : ∀ c ∈ cs, normalizeBlank c = id c := by
    intro c hc
    refine if_neg ?_
    rintro (rfl | rfl | rfl) <;> contradiction
  rw [List.map_congr_left hsame, List.map_id]

/-- Normalization changes nothing in escaped data. -/
theorem normalize_escaped (cs : List Char) :
    normalize place (cs.flatMap (escapeChar place)) = cs.flatMap (escapeChar place) := by
  have hreturn : '\r' ∉ cs.flatMap (escapeChar place) := notMem_escaped rfl (by decide) cs
  cases place with
  | content => exact normalizeLineEnds_eq_self hreturn
  | attrValue =>
    rw [normalize, normalizeLineEnds_eq_self hreturn]
    exact map_normalizeBlank_eq_self (notMem_escaped rfl (by decide) cs) (notMem_escaped rfl (by decide) cs) hreturn

/-! ## Expansion -/

theorem expand?_cons {c : Char} (h : c ≠ '&') (cs : List Char) :
    expand? none (c :: cs) = (expand? none cs).map (c :: ·) := by
  rw [expand?]
  exact h

theorem expand?_name {name : List Char} (h : ';' ∉ name) (front rest : List Char) :
    expand? (some front) (name ++ ';' :: rest) =
      (referent? (front.reverse ++ name)).bind fun c => (expand? none rest).map (c :: ·) := by
  induction name generalizing front with
  | nil => rw [List.append_nil, List.nil_append, expand?]
  | cons c name ih =>
    rw [List.mem_cons, not_or] at h
    rw [List.cons_append, expand?, ih h.2, List.reverse_cons, List.append_assoc, List.singleton_append]
    exact fun hc => h.1 hc.symm

def referenceName (reference : String) : List Char := reference.toList.tail.dropLast

/-- A reference is expanded to the character that it stands for. -/
theorem expand?_reference {p : Char × String} (hp : p ∈ references) (rest : List Char) :
    expand? none (p.2.toList ++ rest) = (expand? none rest).map (p.1 :: ·) := by
  have hall : ∀ p ∈ references, p.2.toList = '&' :: (referenceName p.2 ++ [';']) ∧ ';' ∉ referenceName p.2 ∧
      referent? (referenceName p.2) = some p.1 := by decide
  obtain ⟨hshape, hname, hreferent⟩ := hall p hp
  rw [hshape, List.cons_append, List.append_assoc, List.singleton_append, expand?, expand?_name hname,
    List.reverse_nil, List.nil_append, hreferent, Option.bind_some]

theorem expand?_escapeChar_append (c : Char) (rest : List Char) :
    expand? none (escapeChar place c ++ rest) = (expand? none rest).map (c :: ·) := by
  unfold escapeChar
  cases h : reference? place c with
  | none => exact expand?_cons (ne_amp_of_reference?_eq_none h) rest
  | some r => exact expand?_reference (mem_references_of_reference? h) rest

theorem expand?_escaped (cs : List Char) : expand? none (cs.flatMap (escapeChar place)) = some cs := by
  induction cs with
  | nil => rfl
  | cons c cs ih => rw [List.flatMap_cons, expand?_escapeChar_append, ih, Option.map_some]

/-! ## What may stand at a place -/

/-- Data that may stand at a place: there is nothing in it that a reader would take for markup or change, and every
ampersand begins one of the references for the place. -/
structure IsCharData (place : Place) (data : List Char) : Prop where
  lt : '<' ∉ data
  gt : '>' ∉ data
  carriageReturn : '\r' ∉ data
  quote : place = .attrValue → '"' ∉ data
  lineFeed : place = .attrValue → '\n' ∉ data
  tab : place = .attrValue → '\t' ∉ data
  ampersand : ∀ before after, data = before ++ '&' :: after →
    ∃ c r, reference? place c = some r ∧ r.toList <+: '&' :: after

/-- An ampersand in what is written for a character is the beginning of the character's reference. -/
theorem reference?_of_escapeChar_eq {c : Char} {before after : List Char}
    (h : escapeChar place c = before ++ '&' :: after) :
    ∃ r, reference? place c = some r ∧ r.toList = '&' :: after := by
  unfold escapeChar at h
  cases hc : reference? place c with
  | none =>
    have hamp : '&' ∈ [c] := by rw [hc] at h; simp [h]
    exact absurd (List.mem_singleton.1 hamp).symm (ne_amp_of_reference?_eq_none hc)
  | some r =>
    obtain ⟨tail, hshape, htail⟩ := exists_cons_of_reference? hc
    rw [hc] at h
    cases before with
    | nil => exact ⟨r, rfl, h⟩
    | cons d before =>
      have hrest : tail = before ++ '&' :: after := (List.cons.inj (hshape.symm.trans h)).2
      have hamp : '&' ∈ tail := by simp [hrest]
      cases htail '&' hamp

/-- Every ampersand of escaped data begins a reference. -/
theorem reference?_of_escaped_eq {cs before after : List Char}
    (h : cs.flatMap (escapeChar place) = before ++ '&' :: after) :
    ∃ c r, reference? place c = some r ∧ r.toList <+: '&' :: after := by
  induction cs generalizing before with
  | nil => simp at h
  | cons c cs ih =>
    rw [List.flatMap_cons] at h
    -- the ampersand is in what is written for the first character, or behind it
    obtain ⟨front, -, hrest⟩ | ⟨back, hfirst, hback⟩ := List.append_eq_append_iff.1 h
    · exact ih hrest
    · cases back with
      | nil => exact ih (show _ = [] ++ '&' :: after from hback.symm)
      | cons d back =>
        rw [List.cons_append] at hback
        obtain ⟨rfl, rfl⟩ := List.cons.inj hback
        obtain ⟨r, hr, hshape⟩ := reference?_of_escapeChar_eq hfirst
        exact ⟨c, r, hr, cs.flatMap (escapeChar place), by rw [hshape, List.cons_append]⟩

theorem isCharData_escaped (cs : List Char) : IsCharData place (cs.flatMap (escapeChar place)) where
  lt := lt_notMem_escaped cs
  gt := notMem_escaped rfl (by decide) cs
  carriageReturn := notMem_escaped rfl (by decide) cs
  quote := by
    rintro rfl
    exact quote_notMem_escaped cs
  lineFeed := by
    rintro rfl
    exact notMem_escaped rfl (by decide) cs
  tab := by
    rintro rfl
    exact notMem_escaped rfl (by decide) cs
  ampersand _ _ := reference?_of_escaped_eq

/-! ## Reading back -/

/-- Data that XML can carry is escaped to data that may stand at its place and reads back as it was. Data in two
pieces is escaped piece by piece, whether or not either of them has to be rewritten. -/
theorem escape_reads_back (place : Place) {text : String} (h : IsXmlText text) :
    ∃ escaped, escape place text = .ok escaped ∧ IsCharData place escaped.toList ∧ read? place escaped = some text ∧
      ∀ more, escape place (text ++ more) = (escape place more).map (escaped ++ ·) := by
  have hescaped : escape place text = .ok _ := escape_eq_ok h
  refine ⟨_, hescaped, ?_, ?_, escape_append h hescaped⟩
  · rw [String.toList_ofList]
    exact isCharData_escaped text.toList
  · rw [read?, String.toList_ofList, normalize_escaped, expand?_escaped, Option.map_some, String.ofList_toList]

/-- Markup, a line end of two characters and a tab in an attribute. -/
theorem escape_reads_back_of_markup :
    ∃ text escaped : String,
      text = "a\r\n<\"&lt;\">\t" ∧ escaped = "a&#xD;&#xA;&lt;&quot;&amp;lt;&quot;&gt;&#x9;" ∧ IsXmlText text ∧
      escape .attrValue text = .ok escaped ∧ IsCharData .attrValue escaped.toList ∧
      read? .attrValue escaped = some text ∧
      ∀ more, escape .attrValue (text ++ more) = (escape .attrValue more).map (escaped ++ ·) := by
  have htext : IsXmlText "a\r\n<\"&lt;\">\t" := by decide
  obtain ⟨escaped, hescaped, hdata, hread, happend⟩ := escape_reads_back .attrValue htext
  have hshape : escape .attrValue "a\r\n<\"&lt;\">\t" = .ok "a&#xD;&#xA;&lt;&quot;&amp;lt;&quot;&gt;&#x9;" := rfl
  cases hshape.symm.trans hescaped
  exact ⟨_, _, rfl, rfl, htext, hshape, hdata, hread, happend⟩

end GraphMarkup.Markup
