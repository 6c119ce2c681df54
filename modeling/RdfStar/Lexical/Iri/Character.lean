import RdfStar.Text.Scan

/-!
# Characters of IRIs

The classes of characters that the parts of an IRI are made of, and texts in which a character
outside its class is written as a percent sign and two hexadecimal digits.
-/

namespace RdfStar.Lexical

/-! ## Classes -/

def isHexDigit (c : Char) : Bool :=
  c.isDigit || (decide ('a' ≤ c) && decide (c ≤ 'f')) || (decide ('A' ≤ c) && decide (c ≤ 'F'))

/-- The punctuation that never delimits anything. -/
def plainMarks : List Char := ['-', '.', '_', '~']

/-- The punctuation that delimits within a part. -/
def innerMarks : List Char := ['!', '$', '&', '\x27', '(', ')', '*', '+', ',', ';', '=']

/-- The characters beyond ASCII that may stand in any part. -/
def internationalRanges : List (Nat × Nat) := [
  (0xa0, 0xd7ff), (0xf900, 0xfdcf), (0xfdf0, 0xffef),
  (0x10000, 0x1fffd), (0x20000, 0x2fffd), (0x30000, 0x3fffd), (0x40000, 0x4fffd),
  (0x50000, 0x5fffd), (0x60000, 0x6fffd), (0x70000, 0x7fffd), (0x80000, 0x8fffd),
  (0x90000, 0x9fffd), (0xa0000, 0xafffd), (0xb0000, 0xbfffd), (0xc0000, 0xcfffd),
  (0xd0000, 0xdfffd), (0xe1000, 0xefffd)]

/-- The characters for private use, which may stand in a query. -/
def privateRanges : List (Nat × Nat) :=
  [(0xe000, 0xf8ff), (0xf0000, 0xffffd), (0x100000, 0x10fffd)]

/-- The characters of ASCII that may stand in any part. -/
def isAsciiPart (c : Char) : Bool := c.isAlphanum || (plainMarks ++ innerMarks).contains c

def isHostChar (c : Char) : Bool := isAsciiPart c || Text.inRanges internationalRanges c

def isUserChar (c : Char) : Bool := isHostChar c || c == ':'

def isPathChar (c : Char) : Bool := isHostChar c || [':', '@', '/'].contains c

def isFragmentChar (c : Char) : Bool := isPathChar c || c == '?'

def isQueryChar (c : Char) : Bool := isFragmentChar c || Text.inRanges privateRanges c

/-! ## Escapes -/

/-- Whether a text consists of characters of a class and of escapes. -/
def isEscapedText (allowed : Char → Bool) : List Char → Bool
  | [] => true
  | '%' :: high :: low :: rest => isHexDigit high && isHexDigit low && isEscapedText allowed rest
  | c :: rest => allowed c && isEscapedText allowed rest

end RdfStar.Lexical
