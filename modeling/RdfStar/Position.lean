/-!
# Positions of a quad

The four places of a quad in their fixed order, their names, and paths of positions that lead from
a quad down to a term nested in it. `Position.all` is `QUAD_POSITIONS` and `Position.ofTriple` is
`TRIPLE_POSITIONS`.

Principal results: `Position.ofName?_eq_some_iff` — a text names a position exactly when it is that
position's name; `Path.names_injective` — a path is determined by its names.
-/

namespace RdfStar

inductive Position where
  | subject
  | predicate
  | object
  | graph
  deriving DecidableEq, Repr

namespace Position

/-- Every position, in the order in which positions are visited. -/
def all : List Position := [.subject, .predicate, .object, .graph]

/-- The positions of a triple: all but the graph. -/
def ofTriple : List Position := [.subject, .predicate, .object]

def name : Position → String
  | .subject => "subject"
  | .predicate => "predicate"
  | .object => "object"
  | .graph => "graph"

/-- The place of a position in the visiting order, from 0. -/
def index : Position → Nat
  | .subject => 0
  | .predicate => 1
  | .object => 2
  | .graph => 3

def ofName? (text : String) : Option Position := all.find? fun p => p.name == text

theorem mem_all (p : Position) : p ∈ all := by cases p <;> decide

theorem name_injective {p q : Position} (h : p.name = q.name) : p = q := by
  cases p <;> cases q <;> simp_all [name]

theorem ofName?_name (p : Position) : ofName? p.name = some p := by cases p <;> decide

theorem ofName?_eq_some_iff {text : String} {p : Position} :
    ofName? text = some p ↔ text = p.name := by
  constructor
  · intro h
    have := List.find?_some h
    simpa using (beq_iff_eq.mp this).symm
  · rintro rfl
    exact ofName?_name p

end Position

/-! ## Paths -/

/-- The positions from a quad down to a term inside it, outermost first. -/
abbrev Path := List Position

namespace Path

def names (path : Path) : List String := path.map Position.name

/-- A path as one text: its names joined by dots. -/
def dotted (path : Path) : String := ".".intercalate path.names

theorem names_injective {p q : Path} (h : p.names = q.names) : p = q :=
  List.map_inj_right (fun _ _ => Position.name_injective) |>.mp h

end Path

end RdfStar
