import RdfStar.Lexical.Iri.Basic
import RdfStar.Lexical.LanguageTag
import RdfStar.Lexical.Name

/-!
# The lexical rules of oxigraph

Which texts oxigraph takes for an IRI, for the label of a blank node, for the name of a variable
and for a language tag, and the lower case in which it keeps a tag. What is said of values and of
conversions holds under any such rules; the rules that are run are the grammars of the four kinds
of text.

Principal results: `acceptsTag_ne_empty`, `lowerTag_ne_empty` — no acceptable tag is empty, also in
lower case.
-/

namespace RdfStar.Oxigraph

class Lexicon where
  acceptsIri : String → Bool
  acceptsLabel : String → Bool
  acceptsVarName : String → Bool
  acceptsTag : String → Bool
  lowerTag : String → String
  /-- A tag in lower case is in lower case. -/
  lowerTag_lowerTag : ∀ tag, lowerTag (lowerTag tag) = lowerTag tag
  /-- An acceptable tag stays acceptable. -/
  acceptsTag_lowerTag : ∀ {tag}, acceptsTag tag = true → acceptsTag (lowerTag tag) = true
  acceptsTag_empty : acceptsTag "" = false

namespace Lexicon

/-- The grammars of IRIs, labels, names and tags. -/
instance grammars : Lexicon where
  acceptsIri := Lexical.acceptsIri
  acceptsLabel := Lexical.acceptsLabel
  acceptsVarName := Lexical.acceptsVarName
  acceptsTag := Lexical.acceptsTag
  lowerTag := Lexical.lowerTag
  lowerTag_lowerTag := Lexical.lowerTag_lowerTag
  acceptsTag_lowerTag h := (Lexical.acceptsTag_lowerTag _).trans h
  acceptsTag_empty := Bool.eq_false_iff.mpr fun h => Lexical.acceptsTag_ne_empty h rfl

theorem acceptsTag_ne_empty [Lexicon] {tag : String} (h : acceptsTag tag = true) : tag ≠ "" := by
  rintro rfl
  rw [acceptsTag_empty] at h
  cases h

/-- An acceptable tag is there also in lower case. -/
theorem lowerTag_ne_empty [Lexicon] {tag : String} (h : acceptsTag tag = true) :
    lowerTag tag ≠ "" :=
  acceptsTag_ne_empty (acceptsTag_lowerTag h)

end Lexicon

end RdfStar.Oxigraph
