import GraphMarkup.Markup.Event

/-!
# Element trees

* `Element` : a tag with attributes, text and children, and the questions asked of it;
* `TreeBuilder` : the writer whose completed elements are trees;
* `TreeBuilder.finish` : the trees, unless an element is still open.
-/

namespace GraphMarkup

/-- One element of a tree. Its text is `none` when none was ever written, so that an empty text can be told from it. -/
structure Element where
  tag : String
  attributes : List (String × String) := []
  text : Option String := none
  children : List Element := []
  deriving Repr

namespace Element

/-- The value of the first attribute of a name. -/
def attribute? (e : Element) (name : String) : Option String := e.attributes.lookup name

def isEmpty (e : Element) : Bool := e.text.isNone && e.children.isEmpty

def childrenWhere (e : Element) (name value : String) : List Element :=
  e.children.filter fun child => child.attribute? name == some value

mutual

def height : Element → Nat
  | ⟨_, _, _, children⟩ => 1 + heights children

/-- The number of levels of the highest of some elements. -/
def heights : List Element → Nat
  | [] => 0
  | e :: es => max (height e) (heights es)

end

/-- The element reached by a path of positions: the first among `roots`, each later one among the children. -/
def descend? (roots : List Element) : List Nat → Option Element
  | [] => none
  | [i] => roots[i]?
  | i :: path => do descend? (← roots[i]?).children path

end Element

/-- Elements under construction, the innermost first, and the completed ones that have no parent. -/
structure TreeBuilder where
  stack : List Element := []
  roots : List Element := []

namespace TreeBuilder

def put (event : Event) : EStateM Error TreeBuilder Unit := fun b =>
  match event, b.stack with
  | .openElement tag, stack => .ok () { b with stack := { tag } :: stack }
  | .attr name value, e :: rest =>
    if e.isEmpty then .ok () { b with stack := { e with attributes := e.attributes ++ [(name, value)] } :: rest }
    else .error (.writer (.strayAttribute name)) b
  | .attr name _, [] => .error (.writer (.strayAttribute name)) b
  | .text content, e :: rest =>
    .ok () { b with stack := { e with text := some (e.text.getD "" ++ content) } :: rest }
  | .text _, [] => .error (.writer .strayText) b
  | .closeElement, e :: parent :: rest =>
    .ok () { b with stack := { parent with children := parent.children ++ [e] } :: rest }
  | .closeElement, [e] => .ok () { stack := [], roots := b.roots ++ [e] }
  | .closeElement, [] => .error (.writer .strayClose) b

/-- The completed elements, once none is open. -/
def finish (b : TreeBuilder) : Except Error (List Element) :=
  match b.stack with
  | [] => .ok b.roots
  | e :: _ => .error (.writer (.unclosed e.tag))

instance : Writer TreeBuilder where
  put := put
  flush := pure ()

end TreeBuilder

end GraphMarkup
