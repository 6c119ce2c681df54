import RdfStar.Position

/-!
# Nested quads

A value nested in quads is a leaf or a quad of four such values, so quads may quote quads to any
depth and in any position. The kind of leaf is a parameter: RDF terms have atoms at their leaves,
drafts may also hold foreign values. `Quad` is the class of that name and `Quad.isTriple` its
`is_triple`.

Principal results: `Nested.bind_leaf`, `Nested.bind_bind` — grafting at the leaves is a monad;
`Nested.swap_swap` — exchanging subject and object at every level undoes itself.
-/

namespace RdfStar

inductive Nested (α : Type) where
  | leaf (a : α)
  | quad (subject predicate object graph : Nested α)
  deriving DecidableEq, Repr

/-- A quad on its own: the value from which traversals start. -/
structure Quad (α : Type) where
  subject : Nested α
  predicate : Nested α
  object : Nested α
  graph : Nested α
  deriving DecidableEq, Repr

variable {α β γ : Type}

/-! ## Positions -/

namespace Quad

def get (q : Quad α) : Position → Nested α
  | .subject => q.subject
  | .predicate => q.predicate
  | .object => q.object
  | .graph => q.graph

/-- The quad as a value that another quad can quote. -/
def toNested (q : Quad α) : Nested α := .quad q.subject q.predicate q.object q.graph

theorem ext_get {q r : Quad α} (h : ∀ p, q.get p = r.get p) : q = r := by
  cases q; cases r
  simp only [mk.injEq]
  exact ⟨h .subject, h .predicate, h .object, h .graph⟩

theorem toNested_injective {q r : Quad α} (h : q.toNested = r.toNested) : q = r := by
  cases q; cases r
  simpa [toNested] using h

end Quad

namespace Nested

/-- Induction with one hypothesis for all positions of a quad. -/
@[elab_as_elim]
theorem inductionByPosition {motive : Nested α → Prop} (leaf : ∀ a, motive (.leaf a))
    (quad : ∀ q : Quad α, (∀ p, motive (q.get p)) → motive q.toNested) (t : Nested α) :
    motive t := by
  induction t with
  | leaf a => exact leaf a
  | quad s p o g hs hp ho hg =>
    refine quad ⟨s, p, o, g⟩ fun position => ?_
    cases position with
    | subject => exact hs
    | predicate => exact hp
    | object => exact ho
    | graph => exact hg

/-! ## Size -/

/-- The number of leaves and quads. -/
def size : Nested α → Nat
  | .leaf _ => 1
  | .quad s p o g => s.size + p.size + o.size + g.size + 1

/-- The number of quads, the outermost included. -/
def quads : Nested α → Nat
  | .leaf _ => 0
  | .quad s p o g => s.quads + p.quads + o.quads + g.quads + 1

/-! ## Grafting -/

/-- Replaces every leaf by the value that it stands for. -/
def bind : Nested α → (α → Nested β) → Nested β
  | .leaf a, f => f a
  | .quad s p o g, f => .quad (s.bind f) (p.bind f) (o.bind f) (g.bind f)

/-- Renames every leaf. -/
def map (f : α → β) (t : Nested α) : Nested β := t.bind fun a => .leaf (f a)

@[simp] theorem bind_leaf (t : Nested α) : t.bind .leaf = t := by
  induction t with
  | leaf => rfl
  | quad s p o g hs hp ho hg => simp [bind, hs, hp, ho, hg]

theorem bind_bind (t : Nested α) (f : α → Nested β) (k : β → Nested γ) :
    (t.bind f).bind k = t.bind fun a => (f a).bind k := by
  induction t with
  | leaf => rfl
  | quad s p o g hs hp ho hg => simp [bind, hs, hp, ho, hg]

theorem map_map (t : Nested α) (f : α → β) (k : β → γ) :
    (t.map f).map k = t.map fun a => k (f a) := bind_bind t _ _

@[simp] theorem map_id (t : Nested α) : t.map id = t := bind_leaf t

/-! ## Swap -/

/-- Exchanges subject and object of every quad. -/
def swap : Nested α → Nested α
  | .leaf a => .leaf a
  | .quad s p o g => .quad o.swap p.swap s.swap g.swap

@[simp] theorem swap_swap (t : Nested α) : t.swap.swap = t := by
  induction t with
  | leaf => rfl
  | quad s p o g hs hp ho hg => simp [swap, hs, hp, ho, hg]

end Nested

namespace Quad

def bind (q : Quad α) (f : α → Nested β) : Quad β :=
  ⟨q.subject.bind f, q.predicate.bind f, q.object.bind f, q.graph.bind f⟩

def map (f : α → β) (q : Quad α) : Quad β := q.bind fun a => .leaf (f a)

def swap (q : Quad α) : Quad α :=
  ⟨q.object.swap, q.predicate.swap, q.subject.swap, q.graph.swap⟩

theorem toNested_bind (q : Quad α) (f : α → Nested β) :
    (q.bind f).toNested = q.toNested.bind f := rfl

theorem toNested_swap (q : Quad α) : q.swap.toNested = q.toNested.swap := rfl

end Quad

/-! ## Leaves -/

/-- What printing and traversal need to know of a leaf: its text, and whether it is the default
graph. -/
class Leaf (α : Type) where
  isDefaultGraph : α → Bool
  text : α → String

namespace Nested

variable [Leaf α]

def isDefaultGraph : Nested α → Bool
  | .leaf a => Leaf.isDefaultGraph a
  | .quad _ _ _ _ => false

/-- A quad between double angle brackets; a default graph is not written. -/
def text : Nested α → String
  | .leaf a => Leaf.text a
  | .quad s p o g =>
    let shown := [s.text, p.text, o.text] ++ if g.isDefaultGraph then [] else [g.text]
    "<< " ++ " ".intercalate shown ++ " >>"

end Nested

namespace Quad

variable [Leaf α]

/-- A quad in the default graph is a triple. -/
def isTriple (q : Quad α) : Bool := q.graph.isDefaultGraph

def text (q : Quad α) : String := q.toNested.text

end Quad

end RdfStar
