import RdfStar.Leaf.Traversal
import RdfStar.Term.Basic

/-!
# Leaf table

One row for each leaf of a quad, in traversal order: where the leaf stands, its type and its value.
`Quad.leafTable` holds the rows of `leaf_frame`, and `LeafRow.columns` names and types its columns.
-/

namespace RdfStar

structure LeafRow where
  /-- The path to the leaf, joined by dots. -/
  path : String
  /-- How many quads lie around the one that holds the leaf. -/
  depth : Nat
  /-- The last step of the path. -/
  position : String
  type : String
  value : String
  deriving DecidableEq, Repr

inductive ColumnType where
  | text
  | integer
  deriving DecidableEq, Repr

def ColumnType.name : ColumnType → String
  | .text => "String"
  | .integer => "Int64"

namespace LeafRow

/-- The columns of the table, in order. -/
def columns : List (String × ColumnType) :=
  [("path", .text), ("depth", .integer), ("position", .text), ("term_type", .text),
    ("value", .text)]

def ofLeaf (leaf : Atom) (path : Path) : LeafRow where
  path := path.dotted
  depth := path.length - 1
  position := (path.getLast?.map Position.name).getD ""
  type := leaf.type.name
  value := leaf.value

end LeafRow

def Quad.leafTable (q : Quad Atom) (dropDefault : Bool) : List LeafRow :=
  (q.leaves dropDefault).map fun e => .ofLeaf e.1 e.2

end RdfStar
