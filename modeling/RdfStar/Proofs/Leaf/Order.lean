import RdfStar.Proofs.Leaf.Address

/-!
# The order of the leaves

A traversal reports the leaves of a quad in the lexicographic order of their paths, with subject
before predicate before object before graph. So it reports no path twice, and since a leaf has
nothing below it, no reported path goes on where another one ends.

Principal results: `Nested.inOrder_frontier` — the frontier is in lexicographic order;
`Quad.leaves_addressable` — the paths that are reported are those that lead to a leaf, in that
order.
-/

namespace RdfStar

/-! ## The order of paths -/

namespace Path

/-- Lexicographic order: where two paths part, the first takes the earlier position. -/
def Precedes : Path → Path → Prop := List.Lex fun p q => p.index < q.index

theorem Precedes.cons {p : Position} {path other : Path} (h : path.Precedes other) :
    Precedes (p :: path) (p :: other) := List.Lex.cons h

theorem Precedes.head {p q : Position} (h : p.index < q.index) (path other : Path) :
    Precedes (p :: path) (q :: other) := List.Lex.rel h

theorem not_precedes_self (path : Path) : ¬path.Precedes path :=
  List.lex_irrefl (fun p => Nat.lt_irrefl p.index) path

end Path

/-! ## The frontier in order -/

variable {α : Type}

theorem Quad.pairwise_keptPositions [Leaf α] (q : Quad α) (dropDefault : Bool) :
    (q.keptPositions dropDefault).Pairwise fun p p' => p.index < p'.index := by
  unfold keptPositions
  split <;> decide

/-- Leaves whose paths are in lexicographic order. -/
def InOrder (leaves : List (α × Path)) : Prop := leaves.Pairwise fun e e' => e.2.Precedes e'.2

theorem InOrder.under {leaves : List (α × Path)} (h : InOrder leaves) (p : Position) :
    InOrder (under p leaves) :=
  List.pairwise_map.mpr (h.imp Path.Precedes.cons)

/-- Leaves under an earlier position come before those under a later one. -/
theorem precedes_of_mem_under {p q : Position} (h : p.index < q.index)
    {leaves others : List (α × Path)} {e e' : α × Path} (he : e ∈ under p leaves)
    (he' : e' ∈ under q others) : e.2.Precedes e'.2 := by
  obtain ⟨d, -, rfl⟩ := List.mem_map.mp he
  obtain ⟨d', -, rfl⟩ := List.mem_map.mp he'
  exact Path.Precedes.head h _ _

theorem Nested.inOrder_frontier [Leaf α] (t : Nested α) (dropDefault : Bool) :
    InOrder (t.frontier dropDefault) := by
  induction t using inductionByPosition with
  | leaf a => exact List.pairwise_singleton _ _
  | quad q ih =>
    rw [frontier_toNested]
    refine List.pairwise_flatMap.mpr ⟨fun p _ => (ih p).under p, ?_⟩
    exact (q.pairwise_keptPositions dropDefault).imp fun h e he e' he' =>
      precedes_of_mem_under h he he'

theorem InOrder.nodup_paths {leaves : List (α × Path)} (h : InOrder leaves) :
    (leaves.map Prod.snd).Nodup := by
  refine List.pairwise_map.mpr (h.imp fun {e e'} hprecedes heq => ?_)
  rw [heq] at hprecedes
  exact Path.not_precedes_self _ hprecedes

/-! ## No path goes on past a leaf -/

theorem Nested.eq_of_append_eq_leaf {t : Nested α} {path rest : Path} {a b : α}
    (h : t.at? path = some (.leaf a)) (h' : t.at? (path ++ rest) = some (.leaf b)) : rest = [] := by
  rw [at?_append, h] at h'
  cases rest with
  | nil => rfl
  | cons p rest => cases h'

namespace Quad

theorem eq_of_prefix_of_mem_leaves {Q : Quad Atom} {e e' : Atom × Path}
    (he : e ∈ Q.leaves false) (he' : e' ∈ Q.leaves false) (h : e.2 <+: e'.2) : e.2 = e'.2 := by
  obtain ⟨rest, hrest⟩ := h
  have hleaf := mem_leaves_iff.mp he
  have hleaf' := mem_leaves_iff.mp he'
  rw [← hrest] at hleaf'
  rw [← hrest, Nested.eq_of_append_eq_leaf hleaf hleaf', List.append_nil]

/-- **A traversal reports exactly the paths that lead to a leaf, with the leaf that is found there,
each once and in lexicographic order; none of them goes on where another ends.** -/
theorem leaves_addressable (Q : Quad Atom) :
    (∀ segments : List String, (∃ e ∈ Q.leaves false, e.2.names = segments) ↔
      ∃ t, (resolve Q.toNested segments).outcome.1 = .ok t ∧ Term.type t ≠ .quad) ∧
    (∀ e ∈ Q.leaves false, Q.LeadsTo e.2 (.leaf e.1)) ∧
    ((Q.leaves false).map Prod.snd).Nodup ∧
    (∀ e ∈ Q.leaves false, ∀ e' ∈ Q.leaves false, e.2 <+: e'.2 → e.2 = e'.2) ∧
    (Q.leaves false).Pairwise fun e e' => e.2.Precedes e'.2 := by
  have horder : InOrder (Q.leaves false) := by
    rw [leaves_eq_frontier]
    exact Q.toNested.inOrder_frontier false
  refine ⟨fun segments => ?_, fun e he => ?_, horder.nodup_paths, fun e he e' he' => ?_, horder⟩
  · simp only [resolve, follow_eq_ok_iff]
    constructor
    · rintro ⟨⟨a, path⟩, he, rfl⟩
      exact ⟨.leaf a, ⟨path, rfl, mem_leaves_iff.mp he⟩, by cases a <;> nofun⟩
    · rintro ⟨t, ⟨path, rfl, ht⟩, hquad⟩
      cases t with
      | leaf a => exact ⟨(a, path), mem_leaves_iff.mpr ht, rfl⟩
      | quad s p o g => exact absurd rfl hquad
  · exact leadsTo_iff.mpr (mem_leaves_iff.mp he)
  · exact eq_of_prefix_of_mem_leaves he he'

/-- A leaf below a quad in graph position, next to a quad quoted twice. -/
theorem leaves_addressable_quoted_graph :
    let inner : Quad Atom := ⟨.leaf (.var "x"), .leaf (.namedNode "p"), .leaf (.blankNode "b"),
      .leaf .defaultGraph⟩
    let Q : Quad Atom := ⟨inner.toNested, .leaf (.namedNode "q"), .leaf (.var "x"), inner.toNested⟩
    (.blankNode "b", [.graph, .object]) ∈ Q.leaves false ∧
      Q.LeadsTo [.graph, .object] (.leaf (.blankNode "b")) ∧
      ∀ e ∈ Q.leaves false, [.graph, .object] <+: e.2 → e.2 = [.graph, .object] := by
  intro inner Q
  have hleaf : (.blankNode "b", [.graph, .object]) ∈ Q.leaves false := by
    rw [leaves_eq_frontier]
    decide
  obtain ⟨-, hleads, -, hends, -⟩ := leaves_addressable Q
  exact ⟨hleaf, hleads _ hleaf, fun e he h => (hends _ hleaf e he h).symm⟩

end Quad

end RdfStar
