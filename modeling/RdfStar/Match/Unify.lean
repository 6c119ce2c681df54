import RdfStar.Match.Options
import RdfStar.Quad.Positions
import RdfStar.Substitution

/-!
# Unification of a pattern with a candidate

A candidate matches a pattern if one assignment of terms to the pattern's variables turns the
pattern into the candidate; variables of the candidate count as constants. Every occurrence of a
name, at any depth, has to stand for equal terms. All four positions of a quad are compared, also
after one has failed, so every occurrence that conflicts with its binding is reported.

* `Quad.unify` — `unify`, with its options and the two flags that override them.
* `Unify.compare` — the `match_term` inside it, which on two quads is its `match_quad`.
* `MatchState` — the bindings that both share, and the conflicts that are logged.

Principal results: `compareVar_free` and `compareVar_bound` — what an occurrence of a variable does
to the state; `compare_quad` — two quads are compared as `every_position` tests the first;
`Quad.unify_given` — flags that are given on their own count as those of the options.
-/

namespace RdfStar

/-- The event that a variable met a term other than the one bound to it. -/
structure Conflict where
  name : String
  bound : Term
  found : Term
  deriving DecidableEq, Repr

def Conflict.message (c : Conflict) : String :=
  "?" ++ c.name ++ " is bound to " ++ c.bound.text ++ ", cannot match " ++ c.found.text

/-- What a match has bound and reported so far. -/
structure MatchState where
  bindings : Bindings := []
  conflicts : List Conflict := []
  deriving DecidableEq, Repr

namespace MatchState

def bind (st : MatchState) (x : String) (t : Term) : MatchState :=
  { st with bindings := st.bindings.bind x t }

def report (st : MatchState) (c : Conflict) : MatchState :=
  { st with conflicts := st.conflicts ++ [c] }

end MatchState

namespace Unify

/-- One occurrence of a pattern variable. A variable that it meets may be let through; otherwise
a free name is bound, and a bound one has to stand for the same term. -/
def compareVar (skipVariables : Bool) (x : String) (other : Term) : StateM MatchState Bool :=
  fun st =>
    if skipVariables && Term.isVar other then (true, st)
    else match st.bindings.value? x with
      | none => (true, st.bind x other)
      | some bound =>
        if bound = other then (true, st) else (false, st.report ⟨x, bound, other⟩)

/-- Compares a pattern with a candidate. -/
def compare (skipVariables : Bool) : Term → Term → StateM MatchState Bool
  | .leaf (.var x), other => compareVar skipVariables x other
  | .leaf a, other => pure (decide (Nested.leaf a = other))
  | .quad s p o g, .quad s' p' o' g' => do
    let subject ← compare skipVariables s s'
    let predicate ← compare skipVariables p p'
    let object ← compare skipVariables o o'
    let graph ← compare skipVariables g g'
    return subject && predicate && object && graph
  | .quad _ _ _ _, .leaf _ => pure false

/-- Quads are compared position by position, and every position is. -/
theorem compare_quad (skipVariables : Bool) (q r : Quad Atom) :
    compare skipVariables q.toNested r.toNested =
      q.everyPosition fun t position => compare skipVariables t (r.get position) := by
  simp [Quad.toNested, compare, Quad.everyPosition, Quad.entries, Position.all, Quad.get,
    Bool.and_assoc]

theorem compareVar_skip {x : String} {other : Term} {st : MatchState}
    (h : Term.isVar other = true) : (compareVar true x other).run st = (true, st) := by
  simp [compareVar, StateT.run, h]

theorem compareVar_free {x : String} {other : Term} {st : MatchState}
    (h : st.bindings.value? x = none) :
    (compareVar false x other).run st = (true, st.bind x other) := by
  simp [compareVar, StateT.run, h]

theorem compareVar_bound {x : String} {bound other : Term} {st : MatchState}
    (h : st.bindings.value? x = some bound) :
    (compareVar false x other).run st =
      if bound = other then (true, st) else (false, st.report ⟨x, bound, other⟩) := by
  simp [compareVar, StateT.run, h]

end Unify

/-! ## Answers -/

/-- The outcome of a match; its bindings are given if they were asked for. -/
inductive MatchAnswer where
  | mismatch
  | matched
  | bound (bindings : Bindings)
  deriving DecidableEq, Repr

namespace Quad

/-- Compares a pattern with a candidate from the empty state. -/
def matching (pattern candidate : Quad Atom) (skipVariables : Bool) : Bool × MatchState :=
  (Unify.compare skipVariables pattern.toNested candidate.toNested).run {}

/-- The answer of a match, with the conflicts that it met. Flags that are given override those of
the options. -/
def unify (pattern candidate : Quad Atom) (options : MatchOptions := {}) (given : Overrides := {}) :
    MatchAnswer × List Conflict :=
  let flags := options.merged given
  let (success, st) := matching pattern candidate flags.skipVariables
  let answer :=
    if success then
      if flags.returnBindings then .bound st.bindings else .matched
    else .mismatch
  (answer, st.conflicts)

theorem unify_given (pattern candidate : Quad Atom) (options : MatchOptions) (given : Overrides) :
    pattern.unify candidate options given = pattern.unify candidate (options.merged given) := rfl

end Quad

end RdfStar
