import GradleWorkspace.Text.CodeRanges

/-!
# Blank characters

The characters that separate the words of a script: the ASCII blanks and separators, and the
white space of Unicode.  The zero-width space and the byte order mark are not blank.
-/

namespace GradleWorkspace.Text

/-- Code points of the blank characters. -/
def blankRanges : List (Nat × Nat) := [
    (0x9, 0xD), (0x1C, 0x20), (0x85, 0x85), (0xA0, 0xA0), (0x1680, 0x1680), (0x2000, 0x200A),
    (0x2028, 0x2029), (0x202F, 0x202F), (0x205F, 0x205F), (0x3000, 0x3000)]

/-- Whether a character is blank. -/
def isBlank (c : Char) : Bool := inRanges blankRanges c.toNat

end GradleWorkspace.Text
