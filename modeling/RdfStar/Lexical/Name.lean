import RdfStar.Text.Scan

/-!
# Labels and names

The labels of blank nodes and the names of variables: a first character and further ones, each of
its class.
-/

namespace RdfStar.Lexical

/-! ## Classes -/

/-- The letters beyond ASCII. -/
def letterRanges : List (Nat × Nat) := [
  (0xc0, 0xd6), (0xd8, 0xf6), (0xf8, 0x2ff), (0x370, 0x37d), (0x37f, 0x1fff), (0x200c, 0x200d),
  (0x2070, 0x218f), (0x2c00, 0x2fef), (0x3001, 0xd7ff), (0xf900, 0xfdcf), (0xfdf0, 0xfffd),
  (0x10000, 0xeffff)]

/-- The middle dot, the combining marks and the ties, which join to a letter before them. -/
def joiningRanges : List (Nat × Nat) := [(0xb7, 0xb7), (0x300, 0x36f), (0x203f, 0x2040)]

/-- Letters, digits and the underscore. -/
def isWordChar (c : Char) : Bool := c.isAlphanum || c == '_' || Text.inRanges letterRanges c

/-- A name may begin with a word character or a colon. -/
def isFirstChar (c : Char) : Bool := isWordChar c || c == ':'

def isVarNameChar (c : Char) : Bool := isWordChar c || Text.inRanges joiningRanges c

def isLabelChar (c : Char) : Bool := isVarNameChar c || [':', '-', '.'].contains c

/-! ## Acceptance -/

/-- A blank node label does not end with a full stop. -/
def acceptsLabel (label : String) : Bool :=
  match label.toList with
  | [] => false
  | c :: rest => isFirstChar c && rest.all isLabelChar && rest.getLast? != some '.'

def acceptsVarName (name : String) : Bool :=
  match name.toList with
  | [] => false
  | c :: rest => isFirstChar c && rest.all isVarNameChar

end RdfStar.Lexical
