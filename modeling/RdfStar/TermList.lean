import RdfStar.Term.Basic
import RdfStar.Text.Quoted

/-!
# Lists of terms

De-duplication, and filtering by type. Terms are compared structurally.

* `uniq` — `uniq_terms`.
* `ofTypeName` — `get_terms_of_type`; `ofType` — the same for a type itself.
* `namedNodes`, `blankNodes`, `literals`, `vars`, `defaultGraphs`, `quads` — `get_named_nodes` to
  `get_quads`; `split` puts their answers side by side.

Principal results: `ofTypeName_eq_ok_iff` — filtering by a type's name is filtering by the type,
and fails exactly for a text that names none; `split_eq` — the helpers are the filters by the six
types.
-/

namespace RdfStar

/-- The failure to read a text as the name of a type. -/
structure UnknownType where
  name : String
  deriving DecidableEq, Repr

def UnknownType.message (e : UnknownType) : String :=
  Text.quote e.name ++ " is not a valid TermType"

namespace TermList

/-- The terms that equal no earlier one. -/
def uniq (terms : List Term) : List Term := terms.eraseDups

def ofType (type : TermType) (terms : List Term) : List Term :=
  terms.filter fun t => t.type == type

def ofTypeName (name : String) (terms : List Term) : Except UnknownType (List Term) :=
  match TermType.ofName? name with
  | some type => .ok (ofType type terms)
  | none => .error ⟨name⟩

def namedNodes (terms : List Term) : List Term := ofType .namedNode terms

def blankNodes (terms : List Term) : List Term := ofType .blankNode terms

def literals (terms : List Term) : List Term := ofType .literal terms

def vars (terms : List Term) : List Term := ofType .var terms

def defaultGraphs (terms : List Term) : List Term := ofType .defaultGraph terms

def quads (terms : List Term) : List Term := ofType .quad terms

/-- The terms of each type, in the order of the types. -/
def split (terms : List Term) : List (TermType × List Term) :=
  [(.namedNode, namedNodes terms), (.blankNode, blankNodes terms), (.literal, literals terms),
    (.var, vars terms), (.defaultGraph, defaultGraphs terms), (.quad, quads terms)]

theorem split_eq (terms : List Term) :
    split terms = TermType.all.map fun type => (type, ofType type terms) := rfl

theorem mem_ofType {type : TermType} {terms : List Term} {t : Term} :
    t ∈ ofType type terms ↔ t ∈ terms ∧ t.type = type := by
  simp [ofType]

theorem ofTypeName_eq_ok_iff {name : String} {terms kept : List Term} :
    ofTypeName name terms = .ok kept ↔
      ∃ type : TermType, TermType.ofName? name = some type ∧ kept = ofType type terms := by
  unfold ofTypeName
  cases TermType.ofName? name <;> simp [eq_comm]

end TermList

end RdfStar
