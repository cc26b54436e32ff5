/-!
# Layouts

`Layout` : whether the items of an output stand inside one root element or each by itself.
-/

namespace GraphMarkup

/-- How the top-level items of an output are laid out. -/
inductive Layout where
  /-- All items inside one root element. -/
  | document
  /-- Each item an element of its own at the top. -/
  | stream
  deriving DecidableEq, Repr

instance : Inhabited Layout := ⟨.document⟩

def Layout.name : Layout → String
  | document => "Document"
  | stream => "Stream"

end GraphMarkup
