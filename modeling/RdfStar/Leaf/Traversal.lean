import RdfStar.Nested

/-!
# Leaves in order

The leaves of nested quads with their paths, depth first: positions in their fixed order, a nested
quad in full before its next sibling. The traversal works on an explicit stack of the nodes that
are still to be visited; `Nested.frontier` is the same list by recursion on the value. A default
graph in graph position may be left out, at every level.

* `Quad.leaves` — what `iter_leaves` yields; `Pending.visits` — its loop, with all the nodes that it
  takes from the stack.
* `Pending.children` — the nodes that it puts on the stack, by `_position_names`.

Principal results: `Pending.filterMap_visits` — the leaves visited from a stack are those below its
nodes, top first; `Quad.leaves_eq_frontier` — the traversal reports the frontier.
-/

namespace RdfStar

variable {α : Type}

/-! ## Frontier -/

/-- Moves leaves one level down: their paths now begin at the quad around them. -/
def under (position : Position) (leaves : List (α × Path)) : List (α × Path) :=
  leaves.map fun e => (e.1, position :: e.2)

/-- The leaves of a value with their paths, by recursion on the value. -/
def Nested.frontier [Leaf α] (dropDefault : Bool) : Nested α → List (α × Path)
  | .leaf a => [(a, [])]
  | .quad s p o g =>
    under .subject (s.frontier dropDefault) ++ under .predicate (p.frontier dropDefault) ++
      under .object (o.frontier dropDefault) ++
      if dropDefault && g.isDefaultGraph then [] else under .graph (g.frontier dropDefault)

/-! ## Traversal -/

/-- A node that is still to be visited; its path is kept last step first. -/
structure Pending (α : Type) where
  node : Nested α
  trail : Path
  deriving DecidableEq, Repr

namespace Pending

/-- The leaf to report for a visited node, if it is one. -/
def leaf? : Pending α → Option (α × Path)
  | ⟨.leaf a, trail⟩ => some (a, trail.reverse)
  | ⟨.quad _ _ _ _, _⟩ => none

variable [Leaf α]

/-- The nodes directly below a visited node, in the order of their positions. -/
def children (dropDefault : Bool) : Pending α → List (Pending α)
  | ⟨.leaf _, _⟩ => []
  | ⟨.quad s p o g, trail⟩ =>
    ⟨s, .subject :: trail⟩ :: ⟨p, .predicate :: trail⟩ :: ⟨o, .object :: trail⟩ ::
      if dropDefault && g.isDefaultGraph then [] else [⟨g, .graph :: trail⟩]

/-- The work that a stack stands for: the nodes in it and below it. -/
def work : List (Pending α) → Nat
  | [] => 0
  | e :: rest => e.node.size + work rest

theorem work_children_lt (dropDefault : Bool) (e : Pending α) (rest : List (Pending α)) :
    work (e.children dropDefault ++ rest) < work (e :: rest) := by
  obtain ⟨node, trail⟩ := e
  cases node with
  | leaf => simp [children, work, Nested.size]
  | quad s p o g =>
    simp only [children, List.cons_append]
    split <;> simp [work, Nested.size] <;> omega

/-- The nodes visited from a stack, first to last: the top is taken off and its children are put
in its place. -/
def visits (dropDefault : Bool) : List (Pending α) → List (Pending α)
  | [] => []
  | e :: rest => e :: visits dropDefault (e.children dropDefault ++ rest)
termination_by stack => work stack
decreasing_by exact work_children_lt dropDefault e rest

end Pending

namespace Quad

variable [Leaf α]

/-- The nodes visited below a quad, first to last. -/
def visits (q : Quad α) (dropDefault : Bool) : List (Pending α) :=
  Pending.visits dropDefault (Pending.children dropDefault ⟨q.toNested, []⟩)

/-- The leaves of a quad with their paths, in the order of the traversal. -/
def leaves (q : Quad α) (dropDefault : Bool) : List (α × Path) :=
  (q.visits dropDefault).filterMap Pending.leaf?

end Quad

/-! ## The traversal reports the frontier -/

namespace Pending

variable [Leaf α]

/-- The leaves at and below a pending node, with their paths from the root. -/
def leavesBelow (dropDefault : Bool) (e : Pending α) : List (α × Path) :=
  (e.node.frontier dropDefault).map fun leaf => (leaf.1, e.trail.reverse ++ leaf.2)

theorem leavesBelow_under (dropDefault : Bool) (t : Nested α) (position : Position)
    (trail : Path) :
    (under position (t.frontier dropDefault)).map (fun leaf => (leaf.1, trail.reverse ++ leaf.2)) =
      leavesBelow dropDefault ⟨t, position :: trail⟩ := by
  simp [under, leavesBelow, Function.comp_def]

/-- What lies below a node is the node itself, if it is a leaf, and what lies below its
children. -/
theorem leavesBelow_eq (dropDefault : Bool) (e : Pending α) :
    e.leavesBelow dropDefault =
      e.leaf?.toList ++ (e.children dropDefault).flatMap (leavesBelow dropDefault) := by
  obtain ⟨node, trail⟩ := e
  cases node with
  | leaf a => simp [leavesBelow, Nested.frontier, leaf?, children]
  | quad s p o g =>
    rw [leavesBelow, Nested.frontier]
    simp only [List.map_append, leavesBelow_under, children, leaf?]
    split <;> simp [leavesBelow_under]

theorem filterMap_visits (dropDefault : Bool) (stack : List (Pending α)) :
    (visits dropDefault stack).filterMap leaf? = stack.flatMap (leavesBelow dropDefault) := by
  fun_induction visits dropDefault stack with
  | case1 => rfl
  | case2 e rest ih =>
    rw [List.filterMap_cons, ih, List.flatMap_cons, leavesBelow_eq dropDefault e,
      List.flatMap_append]
    cases e.leaf? <;> simp

end Pending

/-- **The traversal on a stack reports the frontier.** -/
theorem Quad.leaves_eq_frontier [Leaf α] (q : Quad α) (dropDefault : Bool) :
    q.leaves dropDefault = q.toNested.frontier dropDefault := by
  have below := Pending.leavesBelow_eq dropDefault ⟨q.toNested, []⟩
  rw [leaves, visits, Pending.filterMap_visits]
  simpa [Pending.leavesBelow, Pending.leaf?, Quad.toNested] using below.symm

end RdfStar
