/-!
# Documents

A document is what reports are made of: texts, lists, and records with named fields in a fixed
order.  How a document is written down is a matter of the format.
-/

namespace GradleWorkspace

/-- A tree of texts, lists and records. -/
inductive Document
  /-- Nothing is known. -/
  | null
  | text (content : String)
  | list (items : List Document)
  | record (fields : List (String × Document))
  deriving Repr

namespace Document

/-- A list of texts. -/
def texts (items : List String) : Document := .list (items.map .text)

/-- A field that is left out if there is nothing to list. -/
def fieldUnlessEmpty (name : String) : List Document → List (String × Document)
  | [] => []
  | item :: items => [(name, .list (item :: items))]

end Document

end GradleWorkspace
