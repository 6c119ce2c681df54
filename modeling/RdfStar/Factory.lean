import RdfStar.Term.Draft

/-!
# Factories

A factory is a way to build terms: one method for each kind. The plain factory builds the terms
themselves and takes the labels of unnamed blank nodes from a supply; other factories change how a
quad is built. Operations that build quads take the factory to build them with, if one is given.

* `Factory` — the methods of `DataFactory`; `Factory.plain` — `DataFactory` itself.
* `LabelSupply` — its prefix and its counter.
* `Factory.orDefault` — the choice between a given factory and `DEFAULT_FACTORY`.
* `Factory.rebuild` — `from_term` and `from_quad`.

Principal result: `Factory.orDefault_none_quadOfDrafts` — the default factory builds of four terms
the quad of these terms.
-/

namespace RdfStar

/-! ## Labels -/

/-- A supply of blank node labels: a stem, and the number of the next label. -/
structure LabelSupply where
  stem : String
  next : Nat
  deriving DecidableEq, Repr

namespace LabelSupply

def new (stem : String) : LabelSupply := ⟨stem, 0⟩

/-- The stem of a supply that names none. -/
def defaultStem : String := "df_"

def label (stem : String) (n : Nat) : String := stem ++ toString n

def generate : StateM LabelSupply String := fun supply =>
  (label supply.stem supply.next, ⟨supply.stem, supply.next + 1⟩)

/-- Computations that draw no label are equal exactly if their results are. -/
theorem pure_eq_pure_iff {α : Type} {a b : α} :
    (pure a : StateM LabelSupply α) = pure b ↔ a = b := by
  constructor
  · intro h
    exact congrArg (fun x => (StateT.run x (new "")).run.1) h
  · rintro rfl
    rfl

end LabelSupply

/-! ## Methods -/

/-- What a literal states besides its value. -/
inductive Annotation where
  | none
  | language (tag : String)
  | datatype (iri : String)
  deriving DecidableEq, Repr

/-- The literal with a value and an annotation; an empty tag states nothing. -/
def Literal.annotated (value : String) : Annotation → Literal
  | .none => .plain value
  | .language tag => .tagged value tag
  | .datatype iri => .typed value iri

/-- The methods of a factory that builds values of type τ in a monad m. -/
structure Factory (m : Type → Type) (τ : Type) where
  namedNode : String → m τ
  /-- The blank node with a label, or with a fresh one. -/
  blankNode : Option String → m τ
  literal : String → Annotation → m τ
  var : String → m τ
  defaultGraph : m τ
  /-- The quad of three terms and a graph, which is the default graph if none is given. -/
  quad : τ → τ → τ → Option τ → m τ

namespace Factory

variable {m : Type → Type} {τ α : Type}

/-- The factory that builds values with leaves of type α, given how an atom becomes a leaf and
where fresh labels come from. -/
def plain [Monad m] (ofAtom : Atom → α) (fresh : m String) : Factory m (Nested α) where
  namedNode iri := pure (.leaf (ofAtom (.namedNode iri)))
  blankNode
    | some label => pure (.leaf (ofAtom (.blankNode label)))
    | none => do return .leaf (ofAtom (.blankNode (← fresh)))
  literal value annotation := pure (.leaf (ofAtom (.literal (.annotated value annotation))))
  var name := pure (.leaf (ofAtom (.var name)))
  defaultGraph := pure (.leaf (ofAtom .defaultGraph))
  quad s p o g := pure (.quad s p o (g.getD (.leaf (ofAtom .defaultGraph))))

/-- The factory of terms that draws on a label supply. -/
def standard : Factory (StateM LabelSupply) Term := plain id LabelSupply.generate

def triple (F : Factory m τ) (s p o : τ) : m τ := F.quad s p o none

/-- The quad of four drafts; an absent graph counts as none given. -/
def quadOfDrafts (F : Factory m Draft) (s p o g : Draft) : m Draft := F.quad s p o g.present?

/-- The factory that is given or, without one, the default factory, which takes its fresh labels
from a supply of its own. -/
def orDefault [Monad m] (given : Option (Factory m Draft)) (fresh : m String) : Factory m Draft :=
  given.getD (plain Part.atom fresh)

/-- The default factory builds of terms what the plain factory of terms builds. -/
theorem orDefault_none_quadOfDrafts [Monad m] [LawfulMonad m] (fresh : m String)
    (s p o g : Term) :
    (orDefault none fresh).quadOfDrafts (.ofTerm s) (.ofTerm p) (.ofTerm o) (.ofTerm g) =
      Draft.ofTerm <$> (plain id fresh).quad s p o (some g) := by
  rw [quadOfDrafts, Draft.present?_ofTerm]
  exact (map_pure Draft.ofTerm (Nested.quad s p o g)).symm

/-- The same factory, but a quad is built with subject and object exchanged. -/
def swapped (F : Factory m τ) : Factory m τ :=
  { F with quad := fun s p o g => F.quad o p s g }

/-- The same factory, but every quad that it builds is recorded. -/
def recorded [Monad m] (F : Factory m τ) (record : τ → m Unit) : Factory m τ :=
  { F with
    quad := fun s p o g => do
      let built ← F.quad s p o g
      record built
      return built }

end Factory

/-! ## Rebuilding -/

/-- The failure to read a value as a term. -/
structure NotTerm where
  value : Data
  deriving DecidableEq, Repr

def NotTerm.message (e : NotTerm) : String := "Not a term: " ++ e.value.quoted

section Rebuild

variable {m : Type → Type} [Monad m] {τ : Type}

/-- An atom built anew. A literal with a tag is built from its value and tag alone. -/
def Factory.rebuildAtom (F : Factory m τ) : Atom → m τ
  | .namedNode iri => F.namedNode iri
  | .blankNode label => F.blankNode (some label)
  | .literal x =>
    F.literal x.value (if x.language ≠ "" then .language x.language else .datatype x.datatype)
  | .var name => F.var name
  | .defaultGraph => F.defaultGraph

/-- A draft built anew from its leaves up, in the order of the positions. -/
def Factory.rebuild (F : Factory m τ) : Draft → ExceptT NotTerm m τ
  | .leaf (.atom a) => ExceptT.lift (F.rebuildAtom a)
  | .leaf (.foreign v) => throw ⟨v⟩
  | .quad s p o g => do
    let s ← F.rebuild s
    let p ← F.rebuild p
    let o ← F.rebuild o
    let g ← F.rebuild g
    ExceptT.lift (F.quad s p o (some g))

end Rebuild

end RdfStar
