import RdfStar.Term.Basic

/-!
# Wildcard matching

Matching in which every variable of a pattern stands for any term, with no regard to its name.
The candidate is expected to hold no variables.

* `Term.fits` — `term_matches` with a pattern; `Term.fitsOptional` — the same, with none as well.
* `Quad.fitsPositions` — `quad_matches_positions`; `Quad.fitsPattern` — `quad_matches_pattern`.

Principal results: `fits_self` — every term matches itself; `fits_var` — a variable matches
every term.
-/

namespace RdfStar

namespace Term

/-- Whether a term matches a pattern: the pattern is a variable, both are quads that match in all
positions, or the two are equal. -/
def fits : (pattern term : Term) → Bool
  | .leaf (.var _), _ => true
  | .leaf a, t => decide (Nested.leaf a = t)
  | .quad s p o g, .quad s' p' o' g' =>
    (fits s s' && fits p p' && fits o o' && fits g g') ||
      decide (Nested.quad s p o g = .quad s' p' o' g')
  | .quad _ _ _ _, .leaf _ => false

/-- Whether a term matches a pattern, if there is one. -/
def fitsOptional : Option Term → Term → Bool
  | none, _ => true
  | some pattern, t => fits pattern t

theorem fits_var (x : String) (t : Term) : fits (.leaf (.var x)) t = true := by
  cases t <;> rfl

theorem fits_self (t : Term) : fits t t = true := by
  cases t with
  | leaf a => cases a <;> simp [fits]
  | quad s p o g => simp [fits]

end Term

namespace Quad

/-- Whether the terms of a quad match the given ones; a position without one is free. -/
def fitsPositions (q : Quad Atom) (subject predicate object graph : Option Term) : Bool :=
  Term.fitsOptional subject q.subject && Term.fitsOptional predicate q.predicate &&
    Term.fitsOptional object q.object && Term.fitsOptional graph q.graph

/-- Whether a quad matches a pattern in every position. -/
def fitsPattern (q pattern : Quad Atom) : Bool :=
  q.fitsPositions pattern.subject pattern.predicate pattern.object pattern.graph

end Quad

end RdfStar
