import RdfStar.Text.Printable

/-!
# Quoted text

Text as messages quote it: between single quotes, or between double quotes if it holds a single
quote and no double one. The mark in use and the backslash are escaped, and so is everything that
cannot be shown as itself.

Principal result: `escape_of_plain` — a printable character other than the mark and the backslash
stands for itself.
-/

namespace RdfStar.Text

def singleQuote : Char := '\x27'

def doubleQuote : Char := '\x22'

def backslash : Char := '\x5c'

/-- The mark that delimits a text. -/
def mark (text : List Char) : Char :=
  if text.contains singleQuote && !text.contains doubleQuote then doubleQuote else singleQuote

/-- The lower-case hexadecimal digits of a number, at least as many as asked for. -/
def hex (width n : Nat) : List Char := (Nat.toDigits 16 n).leftpad width '0'

/-- A code point by number: two digits below U+0100, four below U+10000, else eight. -/
def escapeCode (n : Nat) : List Char :=
  if n < 0x100 then backslash :: 'x' :: hex 2 n
  else if n < 0x10000 then backslash :: 'u' :: hex 4 n
  else backslash :: 'U' :: hex 8 n

def escape (mark c : Char) : List Char :=
  if c = mark ∨ c = backslash then [backslash, c]
  else if c = '\n' then [backslash, 'n']
  else if c = '\r' then [backslash, 'r']
  else if c = '\t' then [backslash, 't']
  else if isPrintable c then [c]
  else escapeCode c.toNat

def quote (text : String) : String :=
  let chars := text.toList
  let m := mark chars
  String.ofList (m :: chars.flatMap (escape m) ++ [m])

/-- A list of texts between square brackets. -/
def quoteList (texts : List String) : String :=
  "[" ++ ", ".intercalate (texts.map quote) ++ "]"

theorem escape_of_plain {m c : Char} (mark_ne : c ≠ m) (backslash_ne : c ≠ backslash)
    (printable : isPrintable c = true) (breaks : c ≠ '\n' ∧ c ≠ '\r' ∧ c ≠ '\t') :
    escape m c = [c] := by
  simp [escape, mark_ne, backslash_ne, printable, breaks]

end RdfStar.Text
