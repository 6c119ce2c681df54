import RdfStar.Proofs.Leaf.Recovery

/-!
# Default graphs left out

A traversal can leave out the default graphs. It decides so quad by quad, when it puts the
positions of a quad on the stack. What is missing from its report in the end can be told from the
leaves alone: a default graph whose path ends in the graph position. A default graph in another
position stays, and so does everything below a quad that is quoted as a graph, down to the graph of
that quad itself.

Principal results: `Nested.frontier_true` — the frontier without default graphs is a filter of the
full one; `Quad.leaves_without_default_graphs` — the same of the traversal, with what it keeps.
-/

namespace RdfStar

variable {α : Type} [Leaf α]

/-- Whether a leaf stays when default graphs are left out: it does unless it is a default graph in
graph position. -/
def staysReported (e : α × Path) : Bool :=
  !(Leaf.isDefaultGraph e.1 && e.2.getLast? == some .graph)

theorem staysReported_iff {e : Atom × Path} :
    staysReported e = true ↔ ¬(e.1 = .defaultGraph ∧ e.2.getLast? = some .graph) := by
  have hgraph : Leaf.isDefaultGraph e.1 = true ↔ e.1 = .defaultGraph := Atom.isDefaultGraph_iff
  rw [staysReported, Bool.not_eq_true', ← Bool.not_eq_true, Bool.and_eq_true, hgraph, beq_iff_eq]

/-- One step at the beginning of a path changes nothing, unless it is the only one. -/
theorem staysReported_cons {p : Position} {e : α × Path}
    (h : e.2 = [] → p = .graph → Leaf.isDefaultGraph e.1 = false) :
    staysReported (e.1, p :: e.2) = staysReported e := by
  obtain ⟨a, path⟩ := e
  cases path with
  | nil =>
    by_cases hp : p = .graph
    · simp [staysReported, h rfl hp]
    · simp [staysReported, hp]
  | cons q rest => simp only [staysReported, List.getLast?_cons_cons]

theorem filter_under {p : Position} {leaves : List (α × Path)}
    (h : ∀ a, (a, []) ∈ leaves → p = .graph → Leaf.isDefaultGraph a = false) :
    (under p leaves).filter staysReported = under p (leaves.filter staysReported) := by
  rw [under, List.filter_map, under]
  refine congrArg _ (List.filter_congr fun e he => staysReported_cons fun hpath => ?_)
  exact h e.1 (hpath ▸ he)

namespace Nested

/-- What is left out of a graph is the graph itself, if it is a default graph. -/
theorem filter_under_graph (g : Nested α) :
    (under .graph (g.frontier false)).filter staysReported =
      if g.isDefaultGraph then [] else under .graph ((g.frontier false).filter staysReported) := by
  cases g with
  | leaf a =>
    cases ha : Leaf.isDefaultGraph a <;> simp [frontier, under, staysReported, isDefaultGraph, ha]
  | quad s p o g =>
    refine filter_under fun a hnil => absurd hnil ?_
    exact nil_not_mem_frontier_quad (q := ⟨s, p, o, g⟩)

/-- **Without default graphs the frontier lacks those in graph position, and nothing else.** -/
theorem frontier_true (t : Nested α) :
    t.frontier true = (t.frontier false).filter staysReported := by
  induction t with
  | leaf a => simp [frontier, staysReported]
  | quad s p o g hs hp ho hg =>
    have hother (position : Position) (hne : position ≠ .graph) (t : Nested α) :
        (under position (t.frontier false)).filter staysReported =
          under position ((t.frontier false).filter staysReported) :=
      filter_under fun _ _ heq => absurd heq hne
    simp only [frontier, Bool.true_and, Bool.false_and, Bool.false_eq_true, if_false,
      List.filter_append, hs, hp, ho, hg, filter_under_graph, hother .subject (by decide),
      hother .predicate (by decide), hother .object (by decide)]

end Nested

namespace Quad

/-- **A traversal that leaves default graphs out reports what the full one does, in the same order,
but for the default graphs whose path ends in the graph position**, at whatever depth. So a default
graph in another position is reported, and so is any other leaf in graph position; of a quad,
quoted as a graph or elsewhere, the same is reported as of the quad on its own. -/
theorem leaves_without_default_graphs (Q : Quad Atom) :
    Q.leaves true = (Q.leaves false).filter (fun e =>
      ¬(e.1 = .defaultGraph ∧ e.2.getLast? = some .graph)) ∧
    (∀ (a : Atom) (path : Path) (p : Position), (a, path ++ [p]) ∈ Q.leaves true ↔
      Q.LeadsTo (path ++ [p]) (.leaf a) ∧ ¬(a = .defaultGraph ∧ p = .graph)) ∧
    ∀ (path : Path) (q : Quad Atom), Q.LeadsTo path q.toNested →
      ∀ e, (e.1, path ++ e.2) ∈ Q.leaves true ↔ e ∈ q.leaves true := by
  have hfilter : Q.leaves true = (Q.leaves false).filter staysReported := by
    rw [leaves_eq_frontier, leaves_eq_frontier]
    exact Q.toNested.frontier_true
  refine ⟨?_, fun a path p => ?_, fun path q hq e => ?_⟩
  · rw [hfilter]
    refine List.filter_congr fun e _ => Bool.eq_iff_iff.mpr ?_
    rw [staysReported_iff, decide_eq_true_iff]
  · rw [hfilter, List.mem_filter, mem_leaves_iff, leadsTo_iff, staysReported_iff]
    simp
  · rw [leaves_eq_frontier, leaves_eq_frontier]
    exact Nested.mem_frontier_append (leadsTo_iff.mp hq) rfl

/-- A triple quoted as the graph of a quad whose object is a default graph: only the graph of the
triple is left out. -/
theorem leaves_without_default_graphs_quoted_graph :
    let x : Term := .leaf (.var "x")
    let dg : Term := .leaf .defaultGraph
    let inner : Quad Atom := ⟨x, x, dg, dg⟩
    let Q : Quad Atom := ⟨x, x, dg, inner.toNested⟩
    Q.LeadsTo [.graph] inner.toNested ∧
      (Q.leaves true).map Prod.snd = [[.subject], [.predicate], [.object], [.graph, .subject],
        [.graph, .predicate], [.graph, .object]] ∧
      ((.defaultGraph, [.graph, .object]) ∈ Q.leaves true ↔
        (.defaultGraph, [.object]) ∈ inner.leaves true) := by
  intro x dg inner Q
  have hinner : Q.LeadsTo [.graph] inner.toNested := leadsTo_iff.mpr rfl
  obtain ⟨hfilter, -, hquoted⟩ := leaves_without_default_graphs Q
  refine ⟨hinner, ?_, hquoted [.graph] inner hinner (.defaultGraph, [.object])⟩
  rw [hfilter, leaves_eq_frontier]
  decide

end Quad

end RdfStar
