import RdfStar.Lexical.Iri.Character

/-!
# Addresses in brackets

The two forms of a host that stand between square brackets: an address of eight groups of sixteen
bits, written with colons, and an address of a later version, written with its version number.
-/

namespace RdfStar.Lexical

open Text

/-! ## Groups -/

/-- A group of sixteen bits: one to four hexadecimal digits. -/
def isGroup (text : List Char) : Bool :=
  !text.isEmpty && decide (text.length ≤ 4) && text.all isHexDigit

/-- Eight bits as a decimal numeral, without leading zeros. -/
def isOctet (text : List Char) : Bool := (List.range 256).any fun n => Nat.toDigits 10 n == text

/-- Two groups written as four octets with full stops between them. -/
def isDottedQuad (text : List Char) : Bool :=
  let octets := pieces '.' text
  octets.length == 4 && octets.all isOctet

/-- How many groups a sequence has, if all are well-formed. The last may be a dotted quad where
that is allowed. -/
def countGroups (dotted : Bool) : List (List Char) → Option Nat
  | [] => some 0
  | [group] =>
    if isGroup group then some 1 else if dotted && isDottedQuad group then some 2 else none
  | group :: rest => if isGroup group then (countGroups dotted rest).map (· + 1) else none

/-- The number of groups in a text, which may have none. -/
def groupsOf (dotted : Bool) (text : List Char) : Option Nat :=
  if text.isEmpty then some 0 else countGroups dotted (pieces ':' text)

/-! ## Addresses -/

/-- The texts around the first double colon, if there is one. -/
def gap? : List Char → Option (List Char × List Char)
  | [] => none
  | [_] => none
  | c :: d :: rest =>
    if c = ':' ∧ d = ':' then some ([], rest)
    else (gap? (d :: rest)).map fun around => (c :: around.1, around.2)

/-- An address of eight groups. A double colon, at most once, stands for one or more zero groups,
and the last two groups may be a dotted quad. -/
def isAddress (text : List Char) : Bool :=
  match gap? text with
  | none => groupsOf true text == some 8
  | some (head, tail) =>
    match groupsOf false head, groupsOf true tail with
    | some m, some n => decide (m + n ≤ 7)
    | _, _ => false

/-- An address of a later version: the letter v, the version in hexadecimal, a full stop and a text
of ASCII characters of parts and colons. -/
def isFutureAddress : List Char → Bool
  | [] => false
  | v :: rest =>
    (v == 'v' || v == 'V') && !(before '.' rest).isEmpty && (before '.' rest).all isHexDigit &&
      (after? '.' rest).any fun address => !address.isEmpty &&
        address.all fun c => isAsciiPart c || c == ':'

end RdfStar.Lexical
