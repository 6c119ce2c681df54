import RdfStar.Oxigraph.Conversion
import RdfStar.Path

/-!
# Terms read from oxigraph

Every oxigraph value, valid or not, is read as one term, wherever the factory of terms that reads it
gets its labels from: no part of the value needs a fresh one. What stands in the value is found at
the same path in the term.

Principal results: `decode_plain` — the term of a value; `decodeThrough_default` — what is read where
no factory is given is this term; `at?_term_blankNode_iff` — blank nodes keep their labels and their
places.
-/

namespace RdfStar.Oxigraph

namespace Value

/-- What stands at a path in a triple or a quad. -/
def at? : Value → Path → Option Value
  | v, [] => some v
  | .triple s _ _, .subject :: rest => s.at? rest
  | .triple _ p _, .predicate :: rest => p.at? rest
  | .triple _ _ o, .object :: rest => o.at? rest
  | .quad s _ _ _, .subject :: rest => s.at? rest
  | .quad _ p _ _, .predicate :: rest => p.at? rest
  | .quad _ _ o _, .object :: rest => o.at? rest
  | .quad _ _ _ g, .graph :: rest => g.at? rest
  | _, _ :: _ => none

/-- The literal with a value, and a tag or a datatype. -/
def literalOf (value : String) (language : Option String) (datatype : String) : Literal :=
  match language with
  | some tag => if tag ≠ "" then .tagged value tag else .typed value datatype
  | none => .typed value datatype

/-- The term of a value; a triple is in the default graph. -/
def term : Value → Term
  | .namedNode iri => .leaf (.namedNode iri)
  | .blankNode label => .leaf (.blankNode label)
  | .var name => .leaf (.var name)
  | .defaultGraph => .leaf .defaultGraph
  | .literal value language datatype => .leaf (.literal (literalOf value language datatype))
  | .triple s p o => .quad s.term p.term o.term (.leaf .defaultGraph)
  | .quad s p o g => .quad s.term p.term o.term g.term

/-- **Blank nodes keep their labels and their places.** -/
theorem at?_term_blankNode_iff {v : Value} {path : Path} {label : String} :
    v.term.at? path = some (.leaf (.blankNode label)) ↔ v.at? path = some (.blankNode label) := by
  induction path generalizing v with
  | nil => cases v <;> simp [term, at?, Nested.at?]
  | cons position rest ih =>
    cases v with
    | triple s p o =>
      cases position with
      | subject | predicate | object => exact ih
      | graph => cases rest <;> simp [term, at?, Nested.at?, Quad.get]
    | quad s p o g => cases position <;> exact ih
    | _ => cases position <;> simp [term, at?, Nested.at?]

end Value

section Plain

variable {m : Type → Type} [Monad m] {α : Type} (ofAtom : Atom → α) (fresh : m String)

theorem decode_plain_literal (value : String) (language : Option String) (datatype : String) :
    decode (Factory.plain ofAtom fresh) (.literal value language datatype) =
      pure (.leaf (ofAtom (.literal (Value.literalOf value language datatype)))) := by
  cases language with
  | none => rfl
  | some tag =>
    by_cases h : tag = ""
    · rw [decode, Value.literalOf, if_neg (not_not_intro h), if_neg (not_not_intro h)]
      rfl
    · rw [decode, Value.literalOf, if_pos h, if_pos h]
      rfl

variable [LawfulMonad m]

/-- **A value is read as its term**, and no label is drawn for it. -/
theorem decode_plain (v : Value) :
    decode (Factory.plain ofAtom fresh) v = pure (v.term.map ofAtom) := by
  induction v with
  | literal value language datatype => exact decode_plain_literal ofAtom fresh _ _ _
  | triple s p o hs hp ho =>
    rw [decode, hs, hp, ho]
    simp only [pure_bind]
    rfl
  | quad s p o g hs hp ho hg =>
    rw [decode, hs, hp, ho, hg]
    simp only [pure_bind]
    rfl
  | _ => rfl

/-- Without a factory a value is read as the draft of its term. -/
theorem decodeThrough_default (v : Value) :
    decodeThrough v fresh = pure (Draft.ofTerm v.term) := decode_plain Part.atom fresh v

end Plain

end RdfStar.Oxigraph
