import RdfStar.Lexical.Iri.Address

/-!
# Absolute IRIs

An IRI is cut into its parts at the marks between them, and is accepted if every part consists of
the characters it may have. Without a scheme there is no absolute IRI.
-/

namespace RdfStar.Lexical

open Text

structure IriParts where
  scheme : List Char
  authority : Option (List Char)
  path : List Char
  query : Option (List Char)
  fragment : Option (List Char)
  deriving DecidableEq, Repr

namespace IriParts

/-! ## Parts -/

/-- A part with the mark that introduces it, or nothing. -/
def marked (mark : List Char) (part : Option (List Char)) : List Char :=
  part.elim [] fun t => mark ++ t

/-- The authority after a double slash, up to the next slash, and the path. -/
def ofHierarchy : List Char → Option (List Char) × List Char
  | '/' :: '/' :: rest => (some (before '/' rest), marked ['/'] (after? '/' rest))
  | t => (none, t)

/-- The parts of a text: the fragment after the first number sign, then the query after the first
question mark, then the scheme before the first colon. -/
def ofText? (t : List Char) : Option IriParts :=
  let whole := before '#' t
  let hierarchy := before '?' whole
  (after? ':' hierarchy).map fun rest =>
    ⟨before ':' hierarchy, (ofHierarchy rest).1, (ofHierarchy rest).2, after? '?' whole,
      after? '#' t⟩

/-! ## Acceptance -/

/-- A scheme: a letter, then letters, digits, plus, hyphen and full stop. -/
def isScheme : List Char → Bool
  | [] => false
  | c :: rest => c.isAlpha && rest.all fun d => d.isAlphanum || ['+', '-', '.'].contains d

def isPort (t : List Char) : Bool := t.all Char.isDigit

/-- A host with a port after a colon, if there is one. A host in square brackets is an address. -/
def isHost : List Char → Bool
  | '[' :: rest =>
    (isAddress (before ']' rest) || isFutureAddress (before ']' rest)) &&
      match after? ']' rest with
      | some [] => true
      | some (':' :: port) => isPort port
      | _ => false
  | t => isEscapedText isHostChar (before ':' t) && (after? ':' t).all isPort

/-- A host, perhaps with a user before an at sign. -/
def isAuthority (t : List Char) : Bool :=
  match after? '@' t with
  | some host => isEscapedText isUserChar (before '@' t) && isHost host
  | none => isHost t

def accepts (p : IriParts) : Bool :=
  isScheme p.scheme && p.authority.all isAuthority && isEscapedText isPathChar p.path &&
    p.query.all (isEscapedText isQueryChar) && p.fragment.all (isEscapedText isFragmentChar)

end IriParts

/-- Whether a text is an absolute IRI. -/
def acceptsIri (iri : String) : Bool := (IriParts.ofText? iri.toList).any IriParts.accepts

end RdfStar.Lexical
