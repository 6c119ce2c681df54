import RdfStar.Factory
import RdfStar.Leaf.Operations
import RdfStar.Proofs.Leaf.Address
import RdfStar.Substitution

/-!
# Rewriting the leaves of terms

The leaves of a quad mapped by a function without effects, and the result built through the plain
factory.

Principal results: `Quad.rewriteLeaves_eq` — where the function does not look at the paths, this is
grafting at the leaves, and no label is drawn from the supply; `Quad.leaves_rewriteLeaves` — the
leaves of the result are those of what the leaves became, in order, and a callback with effects is
run on the leaves in that order and on nothing else.
-/

namespace RdfStar

namespace Quad

/-- Rewrites every leaf and builds the quads anew, through the plain factory. -/
def rewriteLeaves (q : Quad Atom) (f : Atom → Path → Term) : StateM LabelSupply Term :=
  q.mapLeaves (fun a path => pure (f a path)) fun s p o g => Factory.standard.quad s p o (some g)

theorem rewriteLeaves_eq (q : Quad Atom) (f : Atom → Term) :
    (q.rewriteLeaves fun a _ => f a) = pure (q.bind f).toNested := q.mapLeaves_pure f

/-- Rewriting leaves through the plain factory has one result. -/
theorem rewriteLeaves_eq_pure_iff {q r : Quad Atom} {f : Atom → Term} :
    (q.rewriteLeaves fun a _ => f a) = pure r.toNested ↔ q.bind f = r := by
  rw [rewriteLeaves_eq, LabelSupply.pure_eq_pure_iff]
  exact ⟨toNested_injective, congrArg toNested⟩

end Quad

/-! ## Leaves of a value at a path -/

variable {α β : Type}

/-- Moves leaves to below a path. -/
def underPath (path : Path) (leaves : List (α × Path)) : List (α × Path) :=
  leaves.map fun e => (e.1, path ++ e.2)

theorem under_append (p : Position) (leaves others : List (α × Path)) :
    under p (leaves ++ others) = under p leaves ++ under p others :=
  List.map_append

theorem under_underPath (p : Position) (path : Path) (leaves : List (α × Path)) :
    under p (underPath path leaves) = underPath (p :: path) leaves := by
  simp [under, underPath]

namespace Nested

section LeavesAt

variable [Leaf α]

/-- What there is to report of a value that stands at a path: the value itself if it is a leaf,
and of a quad what a traversal of that quad reports, below the path. -/
def leavesAt (t : Nested α) (path : Path) : List (α × Path) :=
  match t with
  | .leaf a => [(a, path)]
  | .quad s p o g => underPath path ((Quad.mk s p o g).leaves false)

theorem leavesAt_eq (t : Nested α) (path : Path) :
    t.leavesAt path = underPath path (t.frontier false) := by
  cases t with
  | leaf a => simp [leavesAt, frontier, underPath]
  | quad s p o g => rw [leavesAt, Quad.leaves_eq_frontier]; rfl

theorem leavesAt_nil (t : Nested α) : t.leavesAt [] = t.frontier false := by
  simp [leavesAt_eq, underPath]

theorem under_leavesAt (p : Position) (t : Nested α) (path : Path) :
    under p (t.leavesAt path) = t.leavesAt (p :: path) := by
  rw [leavesAt_eq, leavesAt_eq, under_underPath]

end LeavesAt

/-! ## Grafting by path -/

/-- Replaces every leaf by the value that it stands for at its path. -/
def bindAt : Nested α → (α → Path → Nested β) → Nested β
  | .leaf a, f => f a []
  | .quad s p o g, f =>
    .quad (s.bindAt fun a path => f a (.subject :: path))
      (p.bindAt fun a path => f a (.predicate :: path))
      (o.bindAt fun a path => f a (.object :: path)) (g.bindAt fun a path => f a (.graph :: path))

variable {m : Type → Type} [Monad m] [LawfulMonad m]

theorem rebuild_pureAt (t : Nested α) (f : α → Path → Nested β) :
    t.rebuild (fun a path => (pure (f a path) : m (Nested β)))
        (fun s p o g => pure (.quad s p o g)) [] =
      pure (t.bindAt f) := by
  induction t generalizing f with
  | leaf a => rfl
  | quad s p o g hs hp ho hg => simp [rebuild_quad, bindAt, hs, hp, ho, hg]

variable [Leaf β]

/-- Runs a callback on leaves in order, and reports of what it gives the leaves, each below the
path of the leaf that it comes from. -/
def gather (f : α → Path → m (Nested β)) (leaves : List (α × Path)) : m (List (β × Path)) := do
  let parts ← leaves.mapM fun e => do return (← f e.1 e.2).leavesAt e.2
  return parts.flatten

theorem gather_cons (f : α → Path → m (Nested β)) (e : α × Path) (rest : List (α × Path)) :
    gather f (e :: rest) = do
      let u ← f e.1 e.2
      let others ← gather f rest
      return u.leavesAt e.2 ++ others := by
  simp [gather]

theorem gather_append (f : α → Path → m (Nested β)) (leaves others : List (α × Path)) :
    gather f (leaves ++ others) = do
      let first ← gather f leaves
      let second ← gather f others
      return first ++ second := by
  simp [gather]

theorem gather_under (f : α → Path → m (Nested β)) (p : Position) (leaves : List (α × Path)) :
    gather f (under p leaves) = under p <$> gather (fun a path => f a (p :: path)) leaves := by
  induction leaves with
  | nil => simp [gather, under]
  | cons e rest ih =>
    have hunder : under p (e :: rest) = (e.1, p :: e.2) :: under p rest := rfl
    rw [hunder, gather_cons, gather_cons, ih]
    simp [under_append, under_leavesAt]

variable [Leaf α]

/-- **The leaves of a rebuilt value are gathered from its leaves**, whatever the effects of the
callback. -/
theorem frontier_rebuild (t : Nested α) (f : α → Path → m (Nested β)) :
    (frontier false <$> t.rebuild f (fun s p o g => pure (.quad s p o g)) []) =
      gather f (t.frontier false) := by
  induction t generalizing f with
  | leaf a => simp [rebuild, frontier, gather, leavesAt_nil]
  | quad s p o g hs hp ho hg =>
    simp [rebuild_quad, frontier, gather_append, gather_under, ← hs, ← hp, ← ho, ← hg]

theorem frontier_bindAt (t : Nested α) (f : α → Path → Nested β) :
    (t.bindAt f).frontier false =
      (t.frontier false).flatMap fun e => (f e.1 e.2).leavesAt e.2 := by
  have hrun := frontier_rebuild (m := Id) t (fun a path => pure (f a path))
  simp only [rebuild_pureAt, gather, bind_pure_comp, List.mapM_pure, map_pure] at hrun
  rw [List.flatMap_def]
  exact hrun

end Nested

/-! ## Leaves of the result -/

namespace Quad

/-- Replaces every leaf by the value that it stands for at its path. -/
def bindAt (q : Quad α) (f : α → Path → Nested β) : Quad β where
  subject := q.subject.bindAt fun a path => f a (.subject :: path)
  predicate := q.predicate.bindAt fun a path => f a (.predicate :: path)
  object := q.object.bindAt fun a path => f a (.object :: path)
  graph := q.graph.bindAt fun a path => f a (.graph :: path)

theorem toNested_bindAt (q : Quad α) (f : α → Path → Nested β) :
    (q.bindAt f).toNested = q.toNested.bindAt f := rfl

theorem rewriteLeaves_eq_bindAt (q : Quad Atom) (f : Atom → Path → Term) :
    q.rewriteLeaves f = pure (q.bindAt f).toNested := q.toNested.rebuild_pureAt f

theorem leaves_bindAt [Leaf α] [Leaf β] (q : Quad α) (f : α → Path → Nested β) :
    (q.bindAt f).leaves false = (q.leaves false).flatMap fun e => (f e.1 e.2).leavesAt e.2 := by
  rw [leaves_eq_frontier, leaves_eq_frontier, toNested_bindAt, Nested.frontier_bindAt]

/-- **The leaves of a quad whose leaves were rewritten are those of what each leaf became, in
order and below its path.** A callback with effects is run once for every leaf, with its path and
in that order; what it returns is not looked into. -/
theorem leaves_rewriteLeaves (Q : Quad Atom) :
    (∀ f : Atom → Path → Term, ∃ R : Quad Atom, Q.rewriteLeaves f = pure R.toNested ∧
      R.leaves false = (Q.leaves false).flatMap fun e => (f e.1 e.2).leavesAt e.2) ∧
    ∀ (m : Type → Type) [Monad m] [LawfulMonad m] (fresh : m String) (f : Atom → Path → m Term),
      (do
        let rewritten ← Q.mapLeaves f fun s p o g => (Factory.plain id fresh).quad s p o (some g)
        return rewritten.leavesAt []) =
      (do
        let parts ← (Q.leaves false).mapM fun e => do return (← f e.1 e.2).leavesAt e.2
        return parts.flatten) := by
  refine ⟨fun f => ?_, fun m _ _ fresh f => ?_⟩
  · obtain ⟨R, hR⟩ : ∃ R : Quad Atom, Q.toNested.bindAt f = R.toNested := ⟨⟨_, _, _, _⟩, rfl⟩
    refine ⟨R, ?_, ?_⟩
    · rw [← hR]
      exact Q.toNested.rebuild_pureAt f
    · rw [leaves_eq_frontier, leaves_eq_frontier, ← hR, Nested.frontier_bindAt]
  · simp only [Nested.leavesAt_nil, bind_pure_comp, leaves_eq_frontier]
    have hgather := Q.toNested.frontier_rebuild f
    simp only [Nested.gather, bind_pure_comp] at hgather
    exact hgather

/-- A callback that quotes every variable and keeps a list of its calls. -/
theorem leaves_rewriteLeaves_quoting :
    let x : Term := .leaf (.var "x")
    let p : Term := .leaf (.namedNode "p")
    let dg : Term := .leaf .defaultGraph
    let Q : Quad Atom := ⟨.quad p p x dg, p, p, x⟩
    let f : Atom → Path → StateM (List Path) Term := fun a path => do
      modify (· ++ [path])
      return if a.isVar then .quad (.leaf a) p p dg else .leaf a
    (do
      let rewritten ← Q.mapLeaves f fun s p o g =>
        (Factory.plain id (pure "")).quad s p o (some g)
      return rewritten.leavesAt []).run [] =
      ([(.namedNode "p", [.subject, .subject]), (.namedNode "p", [.subject, .predicate]),
          (.var "x", [.subject, .object, .subject]),
          (.namedNode "p", [.subject, .object, .predicate]),
          (.namedNode "p", [.subject, .object, .object]),
          (.defaultGraph, [.subject, .object, .graph]), (.defaultGraph, [.subject, .graph]),
          (.namedNode "p", [.predicate]), (.namedNode "p", [.object]),
          (.var "x", [.graph, .subject]), (.namedNode "p", [.graph, .predicate]),
          (.namedNode "p", [.graph, .object]), (.defaultGraph, [.graph, .graph])],
        [[.subject, .subject], [.subject, .predicate], [.subject, .object], [.subject, .graph],
          [.predicate], [.object], [.graph]]) := by
  intro x p dg Q f
  rw [(leaves_rewriteLeaves Q).2 (StateM (List Path)) (pure "") f]
  simp only [leaves_eq_frontier, Nested.leavesAt_eq]
  rfl

end Quad

end RdfStar
