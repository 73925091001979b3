/-!
# The front of a text

Readers of texts take characters off the front of a text and go on with the text after them.
-/

namespace GradleWorkspace.Text

/-- The text after a given character at its front. -/
def afterChar (char : Char) : List Char → Option (List Char)
  | c :: rest => if c = char then some rest else none
  | [] => none

end GradleWorkspace.Text
