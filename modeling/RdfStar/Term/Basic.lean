import RdfStar.Nested

/-!
# RDF terms

A term is an atom — a named node, a blank node, a literal, a variable or the default graph — or a
quad of terms. Terms are compared structurally.

* `Atom` — `NamedNode`, `BlankNode`, `Literal`, `Variable` and `DefaultGraph`; with `Quad` they make
  up `Term`.
* `Literal.of` — how a `Literal` settles its datatype when it is made.
* `TermType` — the enumeration of that name; `Nested.text` — the text of a term.

Principal results: `Literal.of_self` — a literal is the one its own fields give;
`TermType.name_injective` — a type is determined by its name.
-/

namespace RdfStar

/-! ## Literals -/

namespace Datatype

/-- The datatype of a literal that states none. -/
def xsdString : String := "http://www.w3.org/2001/XMLSchema#string"

/-- The datatype of a literal with a language tag that states none. -/
def rdfLangString : String := "http://www.w3.org/1999/02/22-rdf-syntax-ns#langString"

theorem rdfLangString_ne_xsdString : rdfLangString ≠ xsdString := by decide

end Datatype

/-- A lexical value with a language tag (empty for none) and the IRI of a datatype. A literal with
a tag is never a plain string. -/
structure Literal where
  value : String
  language : String
  datatype : String
  untagged : datatype = Datatype.xsdString → language = ""
  deriving DecidableEq, Repr

namespace Literal

/-- The literal for a value, a tag and a datatype: a tag turns the plain string datatype into the
one of tagged strings, every other combination is kept. -/
def of (value language datatype : String) : Literal :=
  if tagged : datatype = Datatype.xsdString ∧ language ≠ "" then
    ⟨value, language, Datatype.rdfLangString, fun h => absurd h (by decide)⟩
  else
    ⟨value, language, datatype, fun h => Classical.byContradiction fun n => tagged ⟨h, n⟩⟩

def plain (value : String) : Literal := of value "" Datatype.xsdString

def typed (value datatype : String) : Literal := of value "" datatype

def tagged (value language : String) : Literal := of value language Datatype.xsdString

@[simp] theorem of_value (v l d : String) : (of v l d).value = v := by
  unfold of; split <;> rfl

@[simp] theorem of_language (v l d : String) : (of v l d).language = l := by
  unfold of; split <;> rfl

theorem of_datatype (v l d : String) :
    (of v l d).datatype =
      if d = Datatype.xsdString ∧ l ≠ "" then Datatype.rdfLangString else d := by
  unfold of; split <;> rfl

theorem ext_fields {x y : Literal} (value : x.value = y.value) (language : x.language = y.language)
    (datatype : x.datatype = y.datatype) : x = y := by
  cases x; cases y; simp_all

@[simp] theorem of_self (x : Literal) : of x.value x.language x.datatype = x := by
  refine ext_fields (by simp) (by simp) ?_
  rw [of_datatype, if_neg]
  exact fun h => h.2 (x.untagged h.1)

theorem of_rdfLangString_datatype (v l : String) :
    (of v l Datatype.rdfLangString).datatype = Datatype.rdfLangString := by
  rw [of_datatype, if_neg fun h => Datatype.rdfLangString_ne_xsdString h.1]

/-- A literal with a tag that states no datatype has the datatype of tagged strings. -/
theorem tagged_eq_of {value language : String} (h : language ≠ "") :
    tagged value language = of value language Datatype.rdfLangString := by
  refine ext_fields (by simp [tagged]) (by simp [tagged]) ?_
  rw [tagged, of_datatype, if_pos ⟨rfl, h⟩, of_rdfLangString_datatype]

theorem typed_of_untagged {x : Literal} (h : x.language = "") : typed x.value x.datatype = x := by
  rw [typed, ← h, of_self]

def text (x : Literal) : String :=
  let quoted := "\"" ++ x.value ++ "\""
  if x.language ≠ "" then quoted ++ "@" ++ x.language
  else if x.datatype ≠ Datatype.xsdString then quoted ++ "^^<" ++ x.datatype ++ ">"
  else quoted

end Literal

/-! ## Types of terms -/

inductive TermType where
  | namedNode
  | blankNode
  | literal
  | var
  | defaultGraph
  | quad
  deriving DecidableEq, Repr

namespace TermType

def all : List TermType := [.namedNode, .blankNode, .literal, .var, .defaultGraph, .quad]

def name : TermType → String
  | .namedNode => "NamedNode"
  | .blankNode => "BlankNode"
  | .literal => "Literal"
  | .var => "Variable"
  | .defaultGraph => "DefaultGraph"
  | .quad => "Quad"

def ofName? (text : String) : Option TermType := all.find? fun t => t.name == text

theorem ofName?_name (t : TermType) : ofName? t.name = some t := by cases t <;> decide

theorem name_injective {t u : TermType} (h : t.name = u.name) : t = u :=
  Option.some.inj (by rw [← ofName?_name t, ← ofName?_name u, h])

end TermType

/-! ## Atoms -/

inductive Atom where
  | namedNode (iri : String)
  | blankNode (label : String)
  | literal (literal : Literal)
  | var (name : String)
  | defaultGraph
  deriving DecidableEq, Repr

namespace Atom

def type : Atom → TermType
  | .namedNode _ => .namedNode
  | .blankNode _ => .blankNode
  | .literal _ => .literal
  | .var _ => .var
  | .defaultGraph => .defaultGraph

/-- The IRI, label, name or lexical value; the default graph has none. -/
def value : Atom → String
  | .namedNode iri => iri
  | .blankNode label => label
  | .literal x => x.value
  | .var name => name
  | .defaultGraph => ""

def text : Atom → String
  | .namedNode iri => "<" ++ iri ++ ">"
  | .blankNode label => "_:" ++ label
  | .literal x => x.text
  | .var name => "?" ++ name
  | .defaultGraph => ""

def isVar : Atom → Bool
  | .var _ => true
  | _ => false

def isDefaultGraph : Atom → Bool
  | .defaultGraph => true
  | _ => false

instance : Leaf Atom where
  isDefaultGraph := isDefaultGraph
  text := text

theorem isDefaultGraph_iff {a : Atom} : a.isDefaultGraph = true ↔ a = .defaultGraph := by
  cases a <;> simp [isDefaultGraph]

end Atom

/-! ## Terms -/

abbrev Term := Nested Atom

namespace Term

def type : Term → TermType
  | .leaf a => a.type
  | .quad _ _ _ _ => .quad

/-- The value of an atom; a quad has none. -/
def value : Term → String
  | .leaf a => a.value
  | .quad _ _ _ _ => ""

def isVar : Term → Bool
  | .leaf a => a.isVar
  | .quad _ _ _ _ => false

theorem isDefaultGraph_iff {t : Term} : t.isDefaultGraph = true ↔ t = .leaf .defaultGraph := by
  cases t with
  | leaf a => exact Atom.isDefaultGraph_iff.trans (by simp)
  | quad s p o g => exact ⟨nofun, nofun⟩

end Term

end RdfStar
