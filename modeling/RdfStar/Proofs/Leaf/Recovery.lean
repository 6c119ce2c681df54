import RdfStar.Proofs.Leaf.Address

/-!
# A quad from its leaves

The leaves of a quad with their paths say what the quad is. That holds also of a traversal that
leaves default graphs out: a nested quad always has a leaf to report, so where nothing of a graph
is reported, the graph is the default graph.

Principal results: `Term.eq_of_mem_frontier_iff` — terms with the same leaves are equal;
`Quad.leaves_determine_quad` — quads with the same leaves are equal, and the graphs of which
nothing is reported are the default graphs.
-/

namespace RdfStar

namespace Nested

variable {α : Type} [Leaf α]

/-! ## Leaves below a place -/

/-- A position is left out exactly if nothing is reported below it. -/
theorem exists_mem_frontier_cons_iff {q : Quad α} {dropDefault : Bool} {p : Position} :
    (∃ a rest, (a, p :: rest) ∈ q.toNested.frontier dropDefault) ↔
      p ∈ q.keptPositions dropDefault := by
  constructor
  · rintro ⟨a, rest, hmem⟩
    exact (mem_frontier_cons.mp hmem).1
  · intro hp
    obtain ⟨⟨a, rest⟩, hmem⟩ := (q.get p).exists_mem_frontier dropDefault
    exact ⟨a, rest, mem_frontier_cons.mpr ⟨hp, hmem⟩⟩

/-- There is nothing below a default graph but the default graph itself. -/
theorem isDefaultGraph_of_at? {t u : Nested α} {path : Path} (ht : t.isDefaultGraph = true)
    (hu : t.at? path = some u) : u.isDefaultGraph = true := by
  cases t with
  | leaf a =>
    cases path with
    | nil => cases hu; exact ht
    | cons p rest => cases hu
  | quad s p o g => cases ht

/-- A position is kept if something other than a default graph stands there or below. -/
theorem mem_keptPositions_of_at? {q : Quad α} {dropDefault : Bool} {p : Position} {rest : Path}
    {u : Nested α} (h : (q.get p).at? rest = some u) (hu : u.isDefaultGraph = false) :
    p ∈ q.keptPositions dropDefault := by
  refine Quad.mem_keptPositions_iff.mpr fun ⟨_, hp, hg⟩ => ?_
  subst hp
  rw [isDefaultGraph_of_at? hg h] at hu
  cases hu

/-- Below a place that is not left out, what is reported of the whole is what is reported of the
value there. -/
theorem mem_frontier_append {t u : Nested α} {dropDefault : Bool} {path rest : Path} {a : α}
    (ht : t.at? path = some u) (hu : u.isDefaultGraph = false) :
    (a, path ++ rest) ∈ t.frontier dropDefault ↔ (a, rest) ∈ u.frontier dropDefault := by
  induction path generalizing t with
  | nil =>
    cases ht
    rfl
  | cons p path ih =>
    induction t using inductionByPosition with
    | leaf b => cases ht
    | quad q _ =>
      rw [at?_toNested_cons] at ht
      have hkept : p ∈ q.keptPositions dropDefault := mem_keptPositions_of_at? ht hu
      rw [List.cons_append, mem_frontier_cons, and_iff_right hkept]
      exact ih ht

end Nested

/-! ## Terms with the same leaves -/

/-- What is left out is known: it is the default graph. -/
theorem Quad.get_of_not_mem_keptPositions {q : Quad Atom} {dropDefault : Bool} {p : Position}
    (h : p ∉ q.keptPositions dropDefault) : q.get p = .leaf .defaultGraph := by
  obtain ⟨-, rfl, hg⟩ := Classical.not_not.mp (mt Quad.mem_keptPositions_iff.mpr h)
  exact Term.isDefaultGraph_iff.mp hg

/-- **Terms of which the same leaves are reported are equal.** -/
theorem Term.eq_of_mem_frontier_iff {t u : Term} {dropDefault : Bool}
    (h : ∀ e, e ∈ t.frontier dropDefault ↔ e ∈ u.frontier dropDefault) : t = u := by
  induction t using Nested.inductionByPosition generalizing u with
  | leaf a =>
    have ha := (h (a, [])).mp (List.mem_singleton_self _)
    induction u using Nested.inductionByPosition with
    | leaf b =>
      cases List.mem_singleton.mp ha
      rfl
    | quad r _ => exact absurd ha Nested.nil_not_mem_frontier_quad
  | quad q ih =>
    induction u using Nested.inductionByPosition with
    | leaf b =>
      have hb := (h (b, [])).mpr (List.mem_singleton_self _)
      exact absurd hb Nested.nil_not_mem_frontier_quad
    | quad r _ =>
      refine congrArg Quad.toNested (Quad.ext_get fun p => ?_)
      have hkept : p ∈ q.keptPositions dropDefault ↔ p ∈ r.keptPositions dropDefault := by
        simp only [← Nested.exists_mem_frontier_cons_iff, h]
      by_cases hp : p ∈ q.keptPositions dropDefault
      · refine ih p fun e => ?_
        have he := h (e.1, p :: e.2)
        rwa [Nested.mem_frontier_cons, Nested.mem_frontier_cons, and_iff_right hp,
          and_iff_right (hkept.mp hp)] at he
      · rw [Quad.get_of_not_mem_keptPositions hp,
          Quad.get_of_not_mem_keptPositions (mt hkept.mpr hp)]

namespace Quad

/-- A graph inside a quad is the default graph exactly if a traversal that leaves default graphs
out reports nothing of it. -/
theorem graph_unreported_iff {Q q : Quad Atom} {path : Path}
    (hq : Q.toNested.at? path = some q.toNested) :
    (∀ e ∈ Q.leaves true, ¬path ++ [.graph] <+: e.2) ↔ q.graph = .leaf .defaultGraph := by
  have hbelow : (∃ e ∈ Q.leaves true, path ++ [.graph] <+: e.2) ↔
      .graph ∈ q.keptPositions true := by
    rw [leaves_eq_frontier, ← Nested.exists_mem_frontier_cons_iff]
    constructor
    · rintro ⟨⟨a, _⟩, he, rest, rfl⟩
      rw [List.append_assoc, List.singleton_append, Nested.mem_frontier_append hq rfl] at he
      exact ⟨a, rest, he⟩
    · rintro ⟨a, rest, he⟩
      refine ⟨(a, path ++ .graph :: rest), (Nested.mem_frontier_append hq rfl).mpr he, rest, ?_⟩
      rw [List.append_assoc, List.singleton_append]
  calc (∀ e ∈ Q.leaves true, ¬path ++ [.graph] <+: e.2)
      ↔ ¬∃ e ∈ Q.leaves true, path ++ [.graph] <+: e.2 := by simp
    _ ↔ q.graph.isDefaultGraph = true := by rw [hbelow, mem_keptPositions_iff]; simp
    _ ↔ q.graph = .leaf .defaultGraph := Term.isDefaultGraph_iff

/-- **No quad is lost in its leaves**: quads of which the same leaves are reported are equal,
whether or not default graphs are left out, and only default graphs are left out. -/
theorem leaves_determine_quad (Q R : Quad Atom) (dropDefault : Bool) :
    (Q.leaves dropDefault = R.leaves dropDefault ↔ Q = R) ∧
    ∀ (path : Path) (q : Quad Atom), Q.toNested.at? path = some q.toNested →
      ((∀ e ∈ Q.leaves true, ¬path ++ [.graph] <+: e.2) ↔ q.graph = .leaf .defaultGraph) := by
  refine ⟨⟨fun h => ?_, fun h => by rw [h]⟩, fun path q => graph_unreported_iff⟩
  rw [leaves_eq_frontier, leaves_eq_frontier] at h
  exact toNested_injective (Term.eq_of_mem_frontier_iff fun e => by rw [h])

/-- A quad in graph position whose own graph is left out, next to a default graph that stands as
its object and is kept. -/
theorem leaves_determine_quad_default_object :
    let inner : Quad Atom := ⟨.leaf (.var "x"), .leaf (.namedNode "p"), .leaf .defaultGraph,
      .leaf .defaultGraph⟩
    let Q : Quad Atom := ⟨.leaf (.blankNode "b"), .leaf (.namedNode "p"), .leaf (.var "x"),
      inner.toNested⟩
    Q.toNested.at? [.graph] = some inner.toNested ∧
      (∀ e ∈ Q.leaves true, ¬[.graph, .graph] <+: e.2) ∧
      (.defaultGraph, [.graph, .object]) ∈ Q.leaves true := by
  intro inner Q
  refine ⟨rfl, ((leaves_determine_quad Q Q true).2 [.graph] inner rfl).mpr rfl, ?_⟩
  rw [leaves_eq_frontier]
  decide

end Quad

end RdfStar
