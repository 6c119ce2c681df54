import RdfStar.Factory

/-!
# The four positions of a quad

Operations on the terms that a quad holds itself; nothing here looks inside a nested quad. A
callback runs in an arbitrary monad and is called for every position in the fixed order, whatever
it answers.

* `positions` — `get_positions`; `namedPositions` — `named_positions`.
* `forEachPosition`, `filterPositions`, `filterPositionNames`, `reducePositions`, `everyPosition`,
  `somePosition` — the functions of these names.
* `mapPositionsThrough` — `map_positions` with its optional factory; `mapPositions` — the same,
  given how the quad is built.

Principal result: `mapPositionsThrough_default` — without a factory, terms are built into the quad
that the plain factory gives.
-/

namespace RdfStar

variable {α β γ σ : Type} {m : Type → Type} [Monad m]

/-- The entries that pass a test. The test may have effects, and every entry is tested once, in
order. -/
def select {ε : Type} (test : ε → m Bool) : List ε → m (List ε)
  | [] => pure []
  | entry :: rest => do
    let keep ← test entry
    let kept ← select test rest
    return if keep then entry :: kept else kept

namespace Quad

/-- The terms of a quad, each with its position. -/
def entries (q : Quad α) : List (Nested α × Position) := Position.all.map fun p => (q.get p, p)

/-- The terms of a quad; a default graph may be left out. -/
def positions [Leaf α] (q : Quad α) (dropDefault : Bool) : List (Nested α) :=
  if dropDefault && q.isTriple then Position.ofTriple.map q.get else Position.all.map q.get

/-- The terms of a quad under the names of their positions. -/
def namedPositions (q : Quad α) : List (String × Nested α) :=
  q.entries.map fun e => (e.2.name, e.1)

def forEachPosition (q : Quad α) (f : Nested α → Position → m Unit) : m Unit :=
  q.entries.forM fun e => f e.1 e.2

/-- The terms whose position passes the test. -/
def filterPositions (q : Quad α) (test : Nested α → Position → m Bool) : m (List (Nested α)) := do
  let kept ← select (fun e => test e.1 e.2) q.entries
  return kept.map Prod.fst

/-- The positions that pass the test. -/
def filterPositionNames (q : Quad α) (test : Nested α → Position → m Bool) :
    m (List Position) := do
  let kept ← select (fun e => test e.1 e.2) q.entries
  return kept.map Prod.snd

/-- Whether every position passes the test; all four are tested before the answers are combined. -/
def everyPosition (q : Quad α) (test : Nested α → Position → m Bool) : m Bool := do
  let answers ← q.entries.mapM fun e => test e.1 e.2
  return answers.all id

/-- Whether some position passes the test; all four are tested before the answers are combined. -/
def somePosition (q : Quad α) (test : Nested α → Position → m Bool) : m Bool := do
  let answers ← q.entries.mapM fun e => test e.1 e.2
  return answers.any id

/-- Builds a quad from what the callback makes of each position. -/
def mapPositions (q : Quad α) (f : Nested α → Position → m β) (build : β → β → β → β → m γ) :
    m γ := do
  let s ← f q.subject .subject
  let p ← f q.predicate .predicate
  let o ← f q.object .object
  let g ← f q.graph .graph
  build s p o g

/-- Builds a quad from what the callback makes of each position, through the factory that is given
or else through the default one. -/
def mapPositionsThrough (q : Quad α) (f : Nested α → Position → m Draft) (fresh : m String)
    (given : Option (Factory m Draft) := none) : m Draft :=
  q.mapPositions f (Factory.orDefault given fresh).quadOfDrafts

def reducePositions (q : Quad α) (f : σ → Nested α → Position → m σ) (start : σ) : m σ :=
  q.entries.foldlM (fun acc e => f acc e.1 e.2) start

/-! ## Laws -/

theorem namedPositions_eq (q : Quad α) :
    q.namedPositions = Position.all.map fun p => (p.name, q.get p) := rfl

theorem mapPositionsThrough_default [LawfulMonad m] (q : Quad α)
    (f : Nested α → Position → m Term) (fresh : m String) :
    (q.mapPositionsThrough (fun t p => Draft.ofTerm <$> f t p) fresh) =
      Draft.ofTerm <$> q.mapPositions f fun s p o g =>
        (Factory.plain id fresh).quad s p o (some g) := by
  simp [mapPositionsThrough, mapPositions, Factory.orDefault_none_quadOfDrafts]

end Quad

end RdfStar
