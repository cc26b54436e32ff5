import GraphMarkup.Markup.Element
import GraphMarkup.Proofs.Markup.Escape

/-!
# The markup of element trees

* `Element.All` : a property of an element and of every element inside it;
* `Element.markup`, `Element.markups` : the text that stands for an element, and for elements in a row;
* `Element.Named`, `Element.Unmixed`, `Element.Legible` : names are names, and text and children do not mix;
* `markups_injective` : legible elements are known from their markup.

With an indentation every element begins a line of its own.
-/

namespace GraphMarkup

/-! ## Names -/

def isNameChar (c : Char) : Bool := c.isAlphanum || c == '_' || c == '-' || c == '.'

def IsName (name : String) : Prop := name ≠ "" ∧ ∀ c ∈ name.toList, isNameChar c

instance (name : String) : Decidable (IsName name) :=
  decidable_of_iff (name ≠ "" ∧ name.toList.all isNameChar) (and_congr_right fun _ => List.all_eq_true)

theorem IsName.exists_cons {name : String} (h : IsName name) :
    ∃ c cs, name.toList = c :: cs ∧ isNameChar c ∧ ∀ d ∈ cs, isNameChar d := by
  cases hlist : name.toList with
  | nil => exact absurd (String.toList_eq_nil_iff.1 hlist) h.1
  | cons c cs =>
    have hall := h.2
    rw [hlist] at hall
    exact ⟨c, cs, rfl, hall c (List.mem_cons_self ..), fun d hd => hall d (List.mem_cons_of_mem _ hd)⟩

/-- Where a run of like things ends is known from the things themselves. -/
theorem append_cons_inj_of_stop {α : Type} {p : α → Prop} {as bs x y : List α} {c d : α} (has : ∀ a ∈ as, p a)
    (hbs : ∀ b ∈ bs, p b) (hc : ¬ p c) (hd : ¬ p d) (h : as ++ c :: x = bs ++ d :: y) : as = bs ∧ c = d ∧ x = y := by
  induction as generalizing bs with
  | nil =>
    cases bs with
    | nil => exact ⟨rfl, List.cons.inj h⟩
    | cons b bs => exact absurd ((List.cons.inj h).1 ▸ hbs b (List.mem_cons_self ..)) hc
  | cons a as ih =>
    cases bs with
    | nil => exact absurd ((List.cons.inj h).1 ▸ has a (List.mem_cons_self ..)) hd
    | cons b bs =>
      obtain ⟨rfl, htail⟩ := List.cons.inj h
      obtain ⟨rfl, hrest⟩ := ih (fun a ha => has a (List.mem_cons_of_mem _ ha))
        (fun b hb => hbs b (List.mem_cons_of_mem _ hb)) htail
      exact ⟨rfl, hrest⟩

/-! ## Elements and their markup -/

/-- A property of an element and of every element inside it. -/
inductive Element.All (p : Element → Prop) : Element → Prop where
  | intro {e : Element} (here : p e) (inside : ∀ c ∈ e.children, All p c) : All p e

theorem Element.All.here {p : Element → Prop} {e : Element} (h : e.All p) : p e := by
  cases h
  assumption

theorem Element.All.inside {p : Element → Prop} {e : Element} (h : e.All p) : ∀ c ∈ e.children, c.All p := by
  cases h
  assumption

theorem Element.All.mono {p q : Element → Prop} {e : Element} (h : e.All p) (hpq : ∀ e, p e → q e) : e.All q := by
  induction h with
  | intro here _ ih => exact .intro (hpq _ here) ih

section

variable (indent : Option Nat)

def lineStart (level : Nat) : List Char :=
  match indent with
  | none => []
  | some width => '\n' :: List.replicate (level * width) ' '

def attributeMarkup (a : String × String) : List Char :=
  ' ' :: a.1.toList ++ '=' :: '"' :: a.2.toList.flatMap (Markup.escapeChar .attrValue) ++ ['"']

namespace Element

def startMarkup (level : Nat) (e : Element) : List Char :=
  lineStart indent level ++ '<' :: e.tag.toList ++ e.attributes.flatMap attributeMarkup

def textMarkup (e : Element) : List Char := (e.text.getD "").toList.flatMap (Markup.escapeChar .content)

/-- The end tag of an element, which stands on a line of its own unless the element holds text. -/
def endMarkup (level : Nat) (e : Element) : List Char :=
  (if e.text.isNone then lineStart indent level else []) ++ '<' :: '/' :: e.tag.toList ++ ['>']

mutual

def markup (level : Nat) : Element → List Char
  | ⟨tag, attributes, text, children⟩ =>
    let e : Element := ⟨tag, attributes, text, children⟩
    e.startMarkup indent level ++
      if e.isEmpty then [' ', '/', '>']
      else '>' :: e.textMarkup ++ markups (level + 1) children ++ e.endMarkup indent level

def markups (level : Nat) : List Element → List Char
  | [] => []
  | e :: es => markup level e ++ markups level es

end

variable {indent}

def bodyMarkup (indent : Option Nat) (level : Nat) (e : Element) : List Char :=
  if e.isEmpty then [' ', '/', '>']
  else '>' :: e.textMarkup ++ markups indent (level + 1) e.children ++ e.endMarkup indent level

theorem markup_eq (level : Nat) (e : Element) :
    e.markup indent level = e.startMarkup indent level ++ e.bodyMarkup indent level := by
  cases e
  rw [markup]
  rfl

theorem markups_append (level : Nat) (es fs : List Element) :
    markups indent level (es ++ fs) = markups indent level es ++ markups indent level fs := by
  induction es with
  | nil => rfl
  | cons e es ih => rw [List.cons_append, markups, markups, ih, List.append_assoc]

end Element

/-! ## Reading markup -/

variable {indent}

/-- The tag and the names of the attributes are names. -/
structure Element.Named (e : Element) : Prop where
  tag : IsName e.tag
  attributes : ∀ a ∈ e.attributes, IsName a.1

/-- An element does not hold both text and children. -/
def Element.Unmixed (e : Element) : Prop := e.text = none ∨ e.children = []

/-- An element that can be read from its markup. -/
structure Element.Legible (e : Element) : Prop extends e.Named where
  unmixed : e.Unmixed

theorem Element.All.legible {e : Element} (hnamed : e.All Named) (hunmixed : e.All Unmixed) : e.All Legible := by
  induction hnamed with
  | intro here _ ih => exact .intro ⟨here, hunmixed.here⟩ fun c hc => ih c hc (hunmixed.inside c hc)

/-- What follows the last of some elements in a row: nothing, or an end tag. -/
def EndsRow (cs : List Char) : Prop := cs = [] ∨ ∃ blank rest, cs = blank ++ '<' :: '/' :: rest ∧ '<' ∉ blank

/-- What follows the attributes of a start tag. -/
def EndsAttributes (cs : List Char) : Prop := ∃ rest, cs = ' ' :: '/' :: rest ∨ cs = '>' :: rest

theorem lt_notMem_lineStart (level : Nat) : '<' ∉ lineStart indent level := by
  unfold lineStart
  split
  · simp
  · simp

theorem ne_of_isNameChar {c d : Char} (hc : isNameChar c = true) (hd : isNameChar d = false) : c ≠ d := by
  rintro rfl
  rw [hc] at hd
  cases hd

theorem attributeMarkup_append_inj {a b : String × String} (ha : IsName a.1) (hb : IsName b.1) {x y : List Char}
    (h : attributeMarkup a ++ x = attributeMarkup b ++ y) : a = b ∧ x = y := by
  simp only [attributeMarkup, List.cons_append, List.append_assoc, List.nil_append, List.cons.injEq, true_and] at h
  obtain ⟨hname, -, hvalue⟩ := append_cons_inj_of_stop (p := fun c => isNameChar c) ha.2 hb.2 (by decide) (by decide) h
  have hquote : ∀ cs : List Char, ∀ c ∈ cs.flatMap (Markup.escapeChar .attrValue), c ≠ '"' := by
    rintro cs c hc rfl
    exact Markup.quote_notMem_escaped cs hc
  obtain ⟨hvalue, -, hrest⟩ :=
    append_cons_inj_of_stop (hquote _) (hquote _) (by simp) (by simp) (List.cons.inj hvalue).2
  exact ⟨Prod.ext (String.toList_inj.1 hname) (String.toList_inj.1 (Markup.escaped_injective hvalue)), hrest⟩

theorem attributeMarkup_append_ne {a : String × String} (ha : IsName a.1) {x y : List Char} (hx : EndsAttributes x) :
    attributeMarkup a ++ y ≠ x := by
  obtain ⟨c, cs, hname, hc, -⟩ := ha.exists_cons
  obtain ⟨rest, rfl | rfl⟩ := hx
  · simp only [attributeMarkup, hname]
    rintro h
    have hslash := (List.cons.inj (List.cons.inj h).2).1
    exact ne_of_isNameChar hc (by decide) hslash
  · simp [attributeMarkup]

theorem attributes_append_inj {as bs : List (String × String)} (has : ∀ a ∈ as, IsName a.1) (hbs : ∀ b ∈ bs, IsName b.1)
    {x y : List Char} (hx : EndsAttributes x) (hy : EndsAttributes y)
    (h : as.flatMap attributeMarkup ++ x = bs.flatMap attributeMarkup ++ y) : as = bs ∧ x = y := by
  induction as generalizing bs with
  | nil =>
    cases bs with
    | nil => exact ⟨rfl, h⟩
    | cons b bs =>
      rw [List.flatMap_cons, List.append_assoc] at h
      exact absurd h.symm (attributeMarkup_append_ne (hbs b (List.mem_cons_self ..)) hx)
  | cons a as ih =>
    cases bs with
    | nil =>
      rw [List.flatMap_cons, List.append_assoc] at h
      exact absurd h (attributeMarkup_append_ne (has a (List.mem_cons_self ..)) hy)
    | cons b bs =>
      rw [List.flatMap_cons, List.flatMap_cons, List.append_assoc, List.append_assoc] at h
      obtain ⟨rfl, htail⟩ :=
        attributeMarkup_append_inj (has a (List.mem_cons_self ..)) (hbs b (List.mem_cons_self ..)) h
      obtain ⟨rfl, hrest⟩ := ih (fun a ha => has a (List.mem_cons_of_mem _ ha))
        (fun b hb => hbs b (List.mem_cons_of_mem _ hb)) htail
      exact ⟨rfl, hrest⟩

theorem exists_stop_of_endsAttributes (as : List (String × String)) {x : List Char} (hx : EndsAttributes x) :
    ∃ c cs, as.flatMap attributeMarkup ++ x = c :: cs ∧ isNameChar c = false := by
  cases as with
  | nil =>
    obtain ⟨rest, rfl | rfl⟩ := hx
    · exact ⟨_, _, rfl, by decide⟩
    · exact ⟨_, _, rfl, by decide⟩
  | cons a as => exact ⟨_, _, rfl, by decide⟩

namespace Element

variable {e e' : Element} {level : Nat} {x y : List Char}

theorem startMarkup_append_inj (h : e.Legible) (h' : e'.Legible) (hx : EndsAttributes x) (hy : EndsAttributes y)
    (heq : e.startMarkup indent level ++ x = e'.startMarkup indent level ++ y) :
    e.tag = e'.tag ∧ e.attributes = e'.attributes ∧ x = y := by
  simp only [startMarkup, List.append_assoc, List.cons_append] at heq
  replace heq := (List.cons.inj (List.append_cancel_left heq)).2
  obtain ⟨c, cs, hc, hstop⟩ := exists_stop_of_endsAttributes e.attributes hx
  obtain ⟨d, ds, hd, hstop'⟩ := exists_stop_of_endsAttributes e'.attributes hy
  rw [hc, hd] at heq
  obtain ⟨htag, rfl, rfl⟩ := append_cons_inj_of_stop (p := fun c => isNameChar c) h.tag.2 h'.tag.2 (by simp [hstop])
    (by simp [hstop']) heq
  obtain ⟨hattributes, hrest⟩ := attributes_append_inj h.attributes h'.attributes hx hy (hc.trans hd.symm)
  exact ⟨String.toList_inj.1 htag, hattributes, hrest⟩

theorem endsAttributes_bodyMarkup (e : Element) : EndsAttributes (e.bodyMarkup indent level ++ x) := by
  unfold bodyMarkup
  split
  · exact ⟨_, .inl rfl⟩
  · exact ⟨_, .inr rfl⟩

theorem endsRow_endMarkup (e : Element) : EndsRow (e.endMarkup indent level ++ x) := by
  refine .inr ⟨if e.text.isNone then lineStart indent level else [], e.tag.toList ++ '>' :: x, ?_, ?_⟩
  · simp [endMarkup]
  · split
    · exact lt_notMem_lineStart level
    · simp

/-- An element never begins where a row ends. -/
theorem markup_append_ne (h : e.Legible) (hy : EndsRow y) : e.markup indent level ++ x ≠ y := by
  obtain ⟨c, cs, htag, hc, -⟩ := h.tag.exists_cons
  rw [markup_eq, startMarkup, htag]
  obtain rfl | ⟨blank, rest, rfl, hblank⟩ := hy
  · simp
  · intro heq
    simp only [List.append_assoc, List.cons_append] at heq
    have hlt : ∀ cs : List Char, '<' ∉ cs → ∀ c ∈ cs, c ≠ '<' := by
      rintro cs hcs c hc rfl
      exact hcs hc
    obtain ⟨-, -, htail⟩ :=
      append_cons_inj_of_stop (hlt _ (lt_notMem_lineStart level)) (hlt _ hblank) (by simp) (by simp) heq
    exact ne_of_isNameChar hc (by decide) (List.cons.inj htail).1

/-- An element that is known from its markup, whatever follows. -/
def Readable (indent : Option Nat) (e : Element) : Prop :=
  ∀ (level : Nat) (e' : Element) (x y : List Char), e'.All Legible →
    e.markup indent level ++ x = e'.markup indent level ++ y → e = e' ∧ x = y

theorem markups_append_inj {es es' : List Element} (hread : ∀ e ∈ es, e.Readable indent)
    (h : ∀ e ∈ es, e.All Legible) (h' : ∀ e ∈ es', e.All Legible) (hx : EndsRow x) (hy : EndsRow y)
    (heq : markups indent level es ++ x = markups indent level es' ++ y) : es = es' ∧ x = y := by
  induction es generalizing es' with
  | nil =>
    cases es' with
    | nil => exact ⟨rfl, heq⟩
    | cons e' es' =>
      rw [markups, markups, List.append_assoc] at heq
      exact absurd heq.symm (markup_append_ne (h' e' (List.mem_cons_self ..)).here hx)
  | cons e es ih =>
    cases es' with
    | nil =>
      rw [markups, markups, List.append_assoc] at heq
      exact absurd heq (markup_append_ne (h e (List.mem_cons_self ..)).here hy)
    | cons e' es' =>
      rw [markups, markups, List.append_assoc, List.append_assoc] at heq
      obtain ⟨rfl, htail⟩ := hread e (List.mem_cons_self ..) level e' _ _ (h' e' (List.mem_cons_self ..)) heq
      obtain ⟨rfl, hrest⟩ := ih (fun e he => hread e (List.mem_cons_of_mem _ he))
        (fun e he => h e (List.mem_cons_of_mem _ he)) (fun e he => h' e (List.mem_cons_of_mem _ he)) htail
      exact ⟨rfl, hrest⟩

/-- The end tag of an element that holds text, and what follows it. -/
theorem endsRow_endTag (text : List Char) : EndsRow (text.flatMap (Markup.escapeChar .content) ++ '<' :: '/' :: x) :=
  .inr ⟨_, _, rfl, Markup.lt_notMem_escaped text⟩

/-- An element is empty, or holds text alone, or children alone. -/
theorem bodyMarkup_cases (indent : Option Nat) (level : Nat) (h : e.Legible) :
    (e.text = none ∧ e.children = [] ∧ e.bodyMarkup indent level = [' ', '/', '>']) ∨
      (∃ text, e.text = some text ∧ e.children = [] ∧ e.bodyMarkup indent level =
        '>' :: (text.toList.flatMap (Markup.escapeChar .content) ++ '<' :: '/' :: (e.tag.toList ++ ['>']))) ∨
      (e.text = none ∧ e.children ≠ [] ∧ e.bodyMarkup indent level =
        '>' :: (markups indent (level + 1) e.children ++ e.endMarkup indent level)) := by
  have hunmixed := h.unmixed
  cases htext : e.text with
  | some text =>
    have hchildren : e.children = [] := hunmixed.resolve_left (by simp [htext])
    refine .inr (.inl ⟨text, rfl, hchildren, ?_⟩)
    simp [bodyMarkup, isEmpty, htext, hchildren, textMarkup, endMarkup, markups]
  | none =>
    cases hchildren : e.children with
    | nil => exact .inl ⟨rfl, rfl, by simp [bodyMarkup, isEmpty, htext, hchildren]⟩
    | cons c cs =>
      refine .inr (.inr ⟨rfl, by simp, ?_⟩)
      simp [bodyMarkup, isEmpty, htext, hchildren, textMarkup]

/-- Text ends at the first `<`, which is that of an end tag; in front of a child it never is. -/
theorem text_append_ne {text : List Char} {es : List Element} (hes : es ≠ []) (h : ∀ c ∈ es, c.All Legible) :
    text.flatMap (Markup.escapeChar .content) ++ '<' :: '/' :: x ≠ markups indent level es ++ y := by
  cases es with
  | nil => exact absurd rfl hes
  | cons c cs =>
    intro heq
    rw [markups, List.append_assoc] at heq
    exact markup_append_ne (h c (List.mem_cons_self ..)).here (endsRow_endTag text) heq.symm

theorem bodyMarkup_append_inj (hread : ∀ c ∈ e.children, c.Readable indent) (h : e.All Legible) (h' : e'.All Legible)
    (htag : e.tag = e'.tag) (heq : e.bodyMarkup indent level ++ x = e'.bodyMarkup indent level ++ y) :
    e.text = e'.text ∧ e.children = e'.children ∧ x = y := by
  have hcases := bodyMarkup_cases indent level h'.here
  rcases bodyMarkup_cases indent level h.here with
    ⟨htext, hchildren, hbody⟩ | ⟨text, htext, hchildren, hbody⟩ | ⟨htext, hchildren, hbody⟩
  -- Nothing inside.
  · rcases hcases with ⟨htext', hchildren', hbody'⟩ | ⟨text', htext', hchildren', hbody'⟩ | ⟨htext', hchildren', hbody'⟩
    · rw [hbody, hbody'] at heq
      exact ⟨htext.trans htext'.symm, hchildren.trans hchildren'.symm, List.append_cancel_left heq⟩
    · simp [hbody, hbody'] at heq
    · simp [hbody, hbody'] at heq
  -- Text.
  · rcases hcases with ⟨htext', hchildren', hbody'⟩ | ⟨text', htext', hchildren', hbody'⟩ | ⟨htext', hchildren', hbody'⟩
    · simp [hbody, hbody'] at heq
    · simp only [hbody, hbody', List.cons_append, List.append_assoc, List.cons.injEq, true_and] at heq
      have hlt : ∀ cs : List Char, ∀ c ∈ cs.flatMap (Markup.escapeChar .content), c ≠ '<' := by
        rintro cs c hc rfl
        exact Markup.lt_notMem_escaped cs hc
      obtain ⟨hsame, -, htail⟩ := append_cons_inj_of_stop (hlt _) (hlt _) (by simp) (by simp) heq
      rw [htag] at htail
      refine ⟨?_, hchildren.trans hchildren'.symm, ?_⟩
      · rw [htext, htext', String.toList_inj.1 (Markup.escaped_injective hsame)]
      · simpa using htail
    · simp only [hbody, hbody', List.cons_append, List.append_assoc, List.cons.injEq, true_and] at heq
      exact absurd heq (text_append_ne hchildren' h'.inside)
  -- Children.
  · rcases hcases with ⟨htext', hchildren', hbody'⟩ | ⟨text', htext', hchildren', hbody'⟩ | ⟨htext', hchildren', hbody'⟩
    · simp [hbody, hbody'] at heq
    · simp only [hbody, hbody', List.cons_append, List.append_assoc, List.cons.injEq, true_and] at heq
      exact absurd heq.symm (text_append_ne hchildren h.inside)
    · simp only [hbody, hbody', List.cons_append, List.append_assoc, List.cons.injEq, true_and] at heq
      obtain ⟨hsame, htail⟩ :=
        markups_append_inj hread h.inside h'.inside (endsRow_endMarkup e) (endsRow_endMarkup e') heq
      have hend : e.endMarkup indent level = e'.endMarkup indent level := by
        rw [endMarkup, endMarkup, htext, htext', htag]
      rw [hend] at htail
      exact ⟨htext.trans htext'.symm, hsame, List.append_cancel_left htail⟩

theorem readable_of_legible (h : e.All Legible) : e.Readable indent := by
  induction h with
  | @intro e here inside ih =>
    intro level e' x y h' heq
    rw [markup_eq, markup_eq, List.append_assoc, List.append_assoc] at heq
    obtain ⟨htag, hattributes, hbody⟩ := startMarkup_append_inj here h'.here (endsAttributes_bodyMarkup e)
      (endsAttributes_bodyMarkup e') heq
    obtain ⟨htext, hchildren, hrest⟩ := bodyMarkup_append_inj ih (.intro here inside) h' htag hbody
    cases e
    cases e'
    simp_all

/-- Legible elements are known from their markup. -/
theorem markups_injective {es es' : List Element} (h : ∀ e ∈ es, e.All Legible) (h' : ∀ e ∈ es', e.All Legible)
    (heq : markups indent level es = markups indent level es') : es = es' := by
  exact (markups_append_inj (fun e he => readable_of_legible (h e he)) h h' (.inl rfl) (.inl rfl)
    (congrArg (· ++ []) heq)).1

end Element

end

end GraphMarkup
