import RdfStar.Log
import RdfStar.Term.Basic
import RdfStar.Text.Quoted

/-!
# Lookup by path

The term found inside another by following position names from the outside in. A path is given as
text, so it may name no position, and it may go on where there is no quad left to enter.

* `resolve` — `resolve_path`; `follow` — its loop, given the whole path for the report.
* `PathError` — what `PathTraversalError` tells.
* `PathStop` — the one event that is logged: the path goes on past a leaf.

Principal result: `follow_names` — along positions, lookup by name finds what `Nested.at?` finds
by recursion on the term.
-/

namespace RdfStar

/-- The value at a path of positions, if the path stays inside the value. -/
def Nested.at? {α : Type} : Nested α → Path → Option (Nested α)
  | t, [] => some t
  | .leaf _, _ :: _ => none
  | .quad s p o g, position :: rest => ((Quad.mk s p o g).get position).at? rest

/-! ## Failures -/

inductive PathError where
  /-- The path goes on at a term that is no quad. -/
  | notQuad (segment : String) (found : TermType)
  | unknownPosition (segment : String)
  deriving DecidableEq, Repr

namespace PathError

/-- The first segment that could not be followed. -/
def segment : PathError → String
  | .notQuad segment _ => segment
  | .unknownPosition segment => segment

/-- The type of the term at which the path failed. -/
def found : PathError → TermType
  | .notQuad _ found => found
  | .unknownPosition _ => .quad

/-- What is said of a position that a term does not have. -/
def describe (position found : String) : String :=
  "Tried to get " ++ position ++ " from term of type " ++ found

def message : PathError → String
  | .notQuad segment found => describe segment found.name
  | .unknownPosition segment => "Unknown quad position: " ++ Text.quote segment

end PathError

/-- The event that a path went on past a leaf. -/
structure PathStop where
  path : List String
  found : TermType
  segment : String
  deriving DecidableEq, Repr

def PathStop.message (stop : PathStop) : String :=
  "Path " ++ Text.quoteList stop.path ++ " stops at " ++ stop.found.name ++ " before " ++
    stop.segment

/-! ## Lookup -/

/-- Follows the rest of a path, given the whole of it for the report. -/
def follow (whole : List String) : Term → List String → Logged PathStop PathError Term
  | t, [] => pure t
  | .leaf a, segment :: _ => do
    Logged.note ⟨whole, a.type, segment⟩
    throw (.notQuad segment a.type)
  | .quad s p o g, segment :: rest =>
    match Position.ofName? segment with
    | some position => follow whole ((Quad.mk s p o g).get position) rest
    | none => throw (.unknownPosition segment)

/-- The term at a path; the empty path leads to the term itself. -/
def resolve (t : Term) (path : List String) : Logged PathStop PathError Term := follow path t path

theorem follow_names {whole : List String} {t u : Term} {path : Path} :
    (follow whole t path.names).outcome = (.ok u, []) ↔ t.at? path = some u := by
  induction path generalizing t with
  | nil => exact ⟨fun h => (by cases h; rfl), fun h => (by cases h; rfl)⟩
  | cons position rest ih =>
    cases t with
    | leaf a => exact ⟨fun h => (by cases h), fun h => (by cases h)⟩
    | quad s p o g =>
      simp only [Path.names, List.map_cons, follow, Position.ofName?_name, Nested.at?]
      exact ih

end RdfStar
