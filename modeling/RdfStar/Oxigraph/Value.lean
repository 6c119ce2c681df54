import RdfStar.Oxigraph.Lexicon
import RdfStar.Term.Basic

/-!
# Oxigraph values

The values that oxigraph has for terms, quoted triples and quads, and how they are made: a text
that breaks the lexical rules is refused as malformed, a value in a position that does not take its
kind as misplaced. Quoted triples occur only as objects, and quads are never quoted. Which kinds the
positions take, and the texts of the exceptions, are oxigraph's own: what is said of values and of
conversions holds for every `Placement` and every `Wording`.

Principal results: `ofIri_eq_ok_iff` and its kin — an atomic value is made exactly of acceptable
texts; `ofTriple_eq_ok_iff`, `ofQuad_eq_ok_iff` — a triple or quad is made exactly of parts that fit
their positions; `ofTagged_valid`, `ofTriple_valid` — what is made is valid.
-/

namespace RdfStar.Oxigraph

open Lexicon

inductive Value where
  | namedNode (iri : String)
  | blankNode (label : String)
  | var (name : String)
  | defaultGraph
  | literal (value : String) (language : Option String) (datatype : String)
  | triple (subject predicate object : Value)
  | quad (subject predicate object graph : Value)
  deriving DecidableEq, Repr

namespace Value

inductive Kind where
  | namedNode
  | blankNode
  | var
  | defaultGraph
  | literal
  | triple
  | quad
  deriving DecidableEq, Repr

@[simp]
def kind : Value → Kind
  | .namedNode _ => .namedNode
  | .blankNode _ => .blankNode
  | .var _ => .var
  | .defaultGraph => .defaultGraph
  | .literal _ _ _ => .literal
  | .triple _ _ _ => .triple
  | .quad _ _ _ _ => .quad

end Value

/-! ## Positions -/

/-- Which values oxigraph takes in the positions of its triples and quads. -/
class Placement where
  fits : Position → Value → Bool
  fits_subject : ∀ {v}, fits .subject v = true ↔ v.kind = .namedNode ∨ v.kind = .blankNode
  fits_predicate : ∀ {v}, fits .predicate v = true ↔ v.kind = .namedNode
  fits_object : ∀ {v}, fits .object v = true ↔
    v.kind = .namedNode ∨ v.kind = .blankNode ∨ v.kind = .literal ∨ v.kind = .triple
  fits_graph : ∀ {v}, fits .graph v = true ↔
    v.kind = .namedNode ∨ v.kind = .blankNode ∨ v.kind = .defaultGraph

namespace Placement

attribute [simp] fits_subject fits_predicate fits_object fits_graph

instance byKind : Placement where
  fits
    | .subject, v => decide (v.kind = .namedNode ∨ v.kind = .blankNode)
    | .predicate, v => decide (v.kind = .namedNode)
    | .object, v =>
      decide (v.kind = .namedNode ∨ v.kind = .blankNode ∨ v.kind = .literal ∨ v.kind = .triple)
    | .graph, v => decide (v.kind = .namedNode ∨ v.kind = .blankNode ∨ v.kind = .defaultGraph)
  fits_subject := decide_eq_true_iff
  fits_predicate := decide_eq_true_iff
  fits_object := decide_eq_true_iff
  fits_graph := decide_eq_true_iff

end Placement

open Placement

/-! ## Refusals -/

/-- What is wrong where a value is not made. -/
inductive Fault where
  /-- A text breaks the lexical rules. -/
  | malformed
  /-- A position does not take a value of this kind. -/
  | misplaced
  deriving DecidableEq, Repr

/-- An exception of oxigraph: what is wrong, and the text of the exception. -/
structure Rejection where
  fault : Fault
  text : String
  deriving DecidableEq, Repr

/-- The texts of the exceptions, each by what oxigraph refuses to make a value of. -/
class Wording where
  iri : String → String
  label : String → String
  varName : String → String
  tag : String → String
  triple : (subject predicate object : Value) → String
  quad : (subject predicate object graph : Value) → String

/-- The wording in which refusals are not explained. -/
instance Wording.silent : Wording where
  iri _ := ""
  label _ := ""
  varName _ := ""
  tag _ := ""
  triple _ _ _ := ""
  quad _ _ _ _ := ""

/-! ## Making values -/

namespace Value

theorem eq_ok_iff_of_test {test : Bool} {made v : Value} {refusal : Rejection} :
    (if test then Except.ok made else .error refusal) = .ok v ↔ test = true ∧ v = made := by
  cases test <;> simp [eq_comm]

section Atoms

variable [Lexicon] [Wording]

def ofIri (iri : String) : Except Rejection Value :=
  if acceptsIri iri then .ok (.namedNode iri) else .error ⟨.malformed, Wording.iri iri⟩

def ofLabel (label : String) : Except Rejection Value :=
  if acceptsLabel label then .ok (.blankNode label) else .error ⟨.malformed, Wording.label label⟩

def ofVarName (name : String) : Except Rejection Value :=
  if acceptsVarName name then .ok (.var name) else .error ⟨.malformed, Wording.varName name⟩

/-- The literal with a language tag, which is kept in lower case. -/
def ofTagged (value tag : String) : Except Rejection Value :=
  if acceptsTag tag then .ok (.literal value (some (lowerTag tag)) Datatype.rdfLangString)
  else .error ⟨.malformed, Wording.tag tag⟩

/-- The literal with a datatype and no tag. -/
def ofTyped (value iri : String) : Except Rejection Value :=
  if acceptsIri iri then .ok (.literal value none iri) else .error ⟨.malformed, Wording.iri iri⟩

theorem ofIri_eq_ok_iff {iri : String} {v : Value} :
    ofIri iri = .ok v ↔ acceptsIri iri = true ∧ v = .namedNode iri := eq_ok_iff_of_test

theorem ofLabel_eq_ok_iff {label : String} {v : Value} :
    ofLabel label = .ok v ↔ acceptsLabel label = true ∧ v = .blankNode label := eq_ok_iff_of_test

theorem ofVarName_eq_ok_iff {name : String} {v : Value} :
    ofVarName name = .ok v ↔ acceptsVarName name = true ∧ v = .var name := eq_ok_iff_of_test

theorem ofTagged_eq_ok_iff {value tag : String} {v : Value} :
    ofTagged value tag = .ok v ↔ acceptsTag tag = true ∧
      v = .literal value (some (lowerTag tag)) Datatype.rdfLangString := eq_ok_iff_of_test

theorem ofTyped_eq_ok_iff {value iri : String} {v : Value} :
    ofTyped value iri = .ok v ↔ acceptsIri iri = true ∧ v = .literal value none iri :=
  eq_ok_iff_of_test

end Atoms

section Parts

variable [Placement] [Wording]

def ofTriple (s p o : Value) : Except Rejection Value :=
  if fits .subject s && fits .predicate p && fits .object o then .ok (.triple s p o)
  else .error ⟨.misplaced, Wording.triple s p o⟩

def ofQuad (s p o g : Value) : Except Rejection Value :=
  if fits .subject s && fits .predicate p && fits .object o && fits .graph g then
    .ok (.quad s p o g)
  else .error ⟨.misplaced, Wording.quad s p o g⟩

theorem ofTriple_eq_ok_iff {s p o v : Value} :
    ofTriple s p o = .ok v ↔
      (fits .subject s = true ∧ fits .predicate p = true ∧ fits .object o = true) ∧
        v = .triple s p o := by
  rw [ofTriple, eq_ok_iff_of_test]
  simp only [Bool.and_eq_true, and_assoc]

theorem ofQuad_eq_ok_iff {s p o g v : Value} :
    ofQuad s p o g = .ok v ↔
      (fits .subject s = true ∧ fits .predicate p = true ∧ fits .object o = true ∧
          fits .graph g = true) ∧
        v = .quad s p o g := by
  rw [ofQuad, eq_ok_iff_of_test]
  simp only [Bool.and_eq_true, and_assoc]

end Parts

/-! ## Validity -/

section Validity

variable [Lexicon] [Placement]

/-- A value that oxigraph can hold. -/
def Valid : Value → Prop
  | .namedNode iri => acceptsIri iri = true
  | .blankNode label => acceptsLabel label = true
  | .var name => acceptsVarName name = true
  | .defaultGraph => True
  | .literal _ (some tag) datatype =>
    acceptsTag tag = true ∧ lowerTag tag = tag ∧ datatype = Datatype.rdfLangString
  | .literal _ none datatype => acceptsIri datatype = true
  | .triple s p o =>
    (fits .subject s = true ∧ fits .predicate p = true ∧ fits .object o = true) ∧
      s.Valid ∧ p.Valid ∧ o.Valid
  | .quad s p o g =>
    (fits .subject s = true ∧ fits .predicate p = true ∧ fits .object o = true ∧
        fits .graph g = true) ∧
      s.Valid ∧ p.Valid ∧ o.Valid ∧ g.Valid

variable [Wording]

theorem ofTagged_valid {value tag : String} {v : Value} (h : ofTagged value tag = .ok v) :
    v.Valid := by
  obtain ⟨accepted, rfl⟩ := ofTagged_eq_ok_iff.mp h
  exact ⟨acceptsTag_lowerTag accepted, lowerTag_lowerTag tag, rfl⟩

theorem ofTriple_valid {s p o v : Value} (hs : s.Valid) (hp : p.Valid) (ho : o.Valid)
    (h : ofTriple s p o = .ok v) : v.Valid := by
  obtain ⟨fits, rfl⟩ := ofTriple_eq_ok_iff.mp h
  exact ⟨fits, hs, hp, ho⟩

end Validity

end Value

end RdfStar.Oxigraph
