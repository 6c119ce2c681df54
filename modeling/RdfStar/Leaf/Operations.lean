import RdfStar.Leaf.Traversal
import RdfStar.Quad.Positions

/-!
# Operations on the leaves of a quad

The operations on positions, taken to the leaves of nested quads: a callback gets a leaf with its
path. It runs in an arbitrary monad and is called for every leaf in traversal order, whatever it
answers; a quad that a callback returns is not looked into.

* `allLeaves` — `get_all_leaves`.
* `forEachLeaf`, `filterLeaves`, `filterLeafPaths`, `reduceLeaves`, `everyLeaf`, `someLeaf` — the
  functions of these names.
* `mapLeavesThrough` — `map_leaves` with its optional factory; `mapLeaves` — the same, given how
  quads are built; `Nested.rebuild` — the recursion inside it.

Principal results: `Nested.rebuild_quad` — how a quad is rebuilt from its parts;
`Nested.rebuild_map` — renaming what is built renames the result; `mapLeaves_pure` — with a callback
that has no effect and looks at no path, mapping the leaves is grafting at the leaves;
`mapLeavesThrough_default` — without a factory, terms are built into what the plain factory gives.
-/

namespace RdfStar

variable {α β γ σ : Type} {m : Type → Type} [Monad m]

/-- Rebuilds a value from what the callback makes of each leaf: positions in order, and a quad as
soon as its four parts are done. The path to the value is given last step first. -/
def Nested.rebuild (f : α → Path → m β) (build : β → β → β → β → m β) : Nested α → Path → m β
  | .leaf a, trail => f a trail.reverse
  | .quad s p o g, trail => do
    let s ← s.rebuild f build (.subject :: trail)
    let p ← p.rebuild f build (.predicate :: trail)
    let o ← o.rebuild f build (.object :: trail)
    let g ← g.rebuild f build (.graph :: trail)
    build s p o g

/-! ## The trail -/

namespace Nested

/-- A value is rebuilt below a trail as it is at the root, with the trail before all paths. -/
theorem rebuild_append (t : Nested α) (f : α → Path → m β) (build : β → β → β → β → m β)
    (trail path : Path) :
    t.rebuild f build (trail ++ path.reverse) =
      t.rebuild (fun a rest => f a (path ++ rest)) build trail := by
  induction t generalizing trail with
  | leaf a => simp [rebuild]
  | quad s p o g hs hp ho hg => simp only [rebuild, ← List.cons_append, hs, hp, ho, hg]

theorem rebuild_concat (t : Nested α) (f : α → Path → m β) (build : β → β → β → β → m β)
    (trail : Path) (p : Position) :
    t.rebuild f build (trail ++ [p]) = t.rebuild (fun a rest => f a (p :: rest)) build trail :=
  t.rebuild_append f build trail [p]

/-- A quad is rebuilt from its parts as they are rebuilt at the root, with their positions before
all paths. -/
theorem rebuild_quad (s p o g : Nested α) (f : α → Path → m β) (build : β → β → β → β → m β) :
    (quad s p o g).rebuild f build [] = (do
      let s ← s.rebuild (fun a path => f a (.subject :: path)) build []
      let p ← p.rebuild (fun a path => f a (.predicate :: path)) build []
      let o ← o.rebuild (fun a path => f a (.object :: path)) build []
      let g ← g.rebuild (fun a path => f a (.graph :: path)) build []
      build s p o g) := by
  simp only [← rebuild_concat, List.nil_append]
  rfl

end Nested

/-! ## Leaves -/

namespace Quad

def mapLeaves (q : Quad α) (f : α → Path → m β) (build : β → β → β → β → m β) : m β :=
  q.toNested.rebuild f build []

/-- Maps the leaves, and builds quads through the factory that is given or else through the default
one. -/
def mapLeavesThrough (q : Quad α) (f : α → Path → m Draft) (fresh : m String)
    (given : Option (Factory m Draft) := none) : m Draft :=
  q.mapLeaves f (Factory.orDefault given fresh).quadOfDrafts

variable [Leaf α]

/-- All leaves, in traversal order. -/
def allLeaves (q : Quad α) (dropDefault : Bool) : List α := (q.leaves dropDefault).map Prod.fst

def forEachLeaf (q : Quad α) (f : α → Path → m Unit) : m Unit :=
  (q.leaves false).forM fun e => f e.1 e.2

/-- The leaves that pass the test. -/
def filterLeaves (q : Quad α) (test : α → Path → m Bool) : m (List α) := do
  let kept ← select (fun e => test e.1 e.2) (q.leaves false)
  return kept.map Prod.fst

/-- The paths of the leaves that pass the test. -/
def filterLeafPaths (q : Quad α) (test : α → Path → m Bool) : m (List Path) := do
  let kept ← select (fun e => test e.1 e.2) (q.leaves false)
  return kept.map Prod.snd

/-- Whether every leaf passes the test; all are tested before the answers are combined. -/
def everyLeaf (q : Quad α) (test : α → Path → m Bool) : m Bool := do
  let answers ← (q.leaves false).mapM fun e => test e.1 e.2
  return answers.all id

/-- Whether some leaf passes the test; all are tested before the answers are combined. -/
def someLeaf (q : Quad α) (test : α → Path → m Bool) : m Bool := do
  let answers ← (q.leaves false).mapM fun e => test e.1 e.2
  return answers.any id

def reduceLeaves (q : Quad α) (f : σ → α → Path → m σ) (start : σ) : m σ :=
  (q.leaves false).foldlM (fun acc e => f acc e.1 e.2) start

end Quad

/-! ## Laws -/

section Laws

variable [LawfulMonad m]

theorem Nested.rebuild_pure (t : Nested α) (f : α → Nested β) (trail : Path) :
    t.rebuild (fun a _ => (pure (f a) : m (Nested β))) (fun s p o g => pure (.quad s p o g)) trail =
      pure (t.bind f) := by
  induction t generalizing trail with
  | leaf a => rfl
  | quad s p o g hs hp ho hg => simp [rebuild, bind, hs, hp, ho, hg]

/-- If what is built of renamed parts is what was built, renamed, then the result is renamed. -/
theorem Nested.rebuild_map (t : Nested α) (f : α → Path → m β) (rename : β → γ)
    {build : β → β → β → β → m β} {build' : γ → γ → γ → γ → m γ}
    (hbuild : ∀ s p o g,
      build' (rename s) (rename p) (rename o) (rename g) = rename <$> build s p o g)
    (trail : Path) :
    t.rebuild (fun a path => rename <$> f a path) build' trail =
      rename <$> t.rebuild f build trail := by
  induction t generalizing trail with
  | leaf a => rfl
  | quad s p o g hs hp ho hg => simp [rebuild, hs, hp, ho, hg, hbuild]

namespace Quad

theorem mapLeaves_pure (q : Quad α) (f : α → Nested β) :
    q.mapLeaves (fun a _ => (pure (f a) : m (Nested β))) (fun s p o g => pure (.quad s p o g)) =
      pure (q.bind f).toNested :=
  q.toNested.rebuild_pure f []

theorem mapLeavesThrough_default (q : Quad α) (f : α → Path → m Term) (fresh : m String) :
    q.mapLeavesThrough (fun a path => Draft.ofTerm <$> f a path) fresh =
      Draft.ofTerm <$> q.mapLeaves f fun s p o g =>
        (Factory.plain id fresh).quad s p o (some g) :=
  q.toNested.rebuild_map f Draft.ofTerm (Factory.orDefault_none_quadOfDrafts fresh) []

end Quad

end Laws

end RdfStar
