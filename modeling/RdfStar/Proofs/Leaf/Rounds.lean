import RdfStar.Leaf.Traversal
import RdfStar.Term.Basic

/-!
# The rounds of a traversal

A traversal is a loop, and each round of it takes the next node off the stack. A leaf is reported; a
quad gives way to the nodes at its positions, so the stack may grow by as many as three. What
shrinks, by one in each round, is the number of quads and of leaves to report that are at the nodes
of the stack or below them. So the loop ends, and after how many rounds can be told beforehand. Of
the four nodes directly below a quad all are visited, unless the graph is a default graph that is
left out, and those that are no quads are reported.

Principal results: `Nested.length_frontier` — how many leaves are reported of a value, by its quads;
`Traversal.exists_after_iff` — how many rounds can be made; `Traversal.after_rounds` — where a
traversal stands when nothing is left to visit; `Quad.traversal_ends` — the rounds and the leaves of
a traversal, by the number of quads and of triples.
-/

namespace RdfStar

variable {α : Type}

/-! ## Quads, triples and leaves -/

theorem length_under (p : Position) (leaves : List (α × Path)) :
    (under p leaves).length = leaves.length :=
  List.length_map _

namespace Nested

/-- The quads in a value, its own before those of its parts. -/
def allQuads : Nested α → List (Quad α)
  | .leaf _ => []
  | .quad s p o g => ⟨s, p, o, g⟩ :: (s.allQuads ++ p.allQuads ++ o.allQuads ++ g.allQuads)

theorem length_allQuads (t : Nested α) : t.allQuads.length = t.quads := by
  induction t with
  | leaf a => rfl
  | quad s p o g hs hp ho hg =>
    simp only [allQuads, List.length_cons, List.length_append, hs, hp, ho, hg, quads]

variable [Leaf α]

/-- The number of triples in a value, its own included. -/
def triples (t : Nested α) : Nat := t.allQuads.countP Quad.isTriple

theorem triples_quad (s p o g : Nested α) :
    (quad s p o g).triples =
      s.triples + p.triples + o.triples + g.triples + if g.isDefaultGraph then 1 else 0 := by
  simp only [triples, allQuads, List.countP_cons, List.countP_append]
  rfl

theorem triples_le_quads (t : Nested α) : t.triples ≤ t.quads := by
  rw [triples, ← length_allQuads]
  exact List.countP_le_length

/-- The number of default graphs that a traversal of a value leaves out. -/
def leftOut (dropDefault : Bool) (t : Nested α) : Nat := if dropDefault then t.triples else 0

theorem leftOut_quad (dropDefault : Bool) (s p o g : Nested α) :
    (quad s p o g).leftOut dropDefault =
      s.leftOut dropDefault + p.leftOut dropDefault + o.leftOut dropDefault +
        g.leftOut dropDefault + if dropDefault && g.isDefaultGraph then 1 else 0 := by
  cases dropDefault with
  | false => rfl
  | true => exact triples_quad s p o g

theorem leftOut_le_quads (dropDefault : Bool) (t : Nested α) :
    t.leftOut dropDefault ≤ t.quads := by
  cases dropDefault with
  | false => exact Nat.zero_le _
  | true => exact t.triples_le_quads

theorem quads_eq_zero_of_isDefaultGraph {t : Nested α} (h : t.isDefaultGraph = true) :
    t.quads = 0 := by
  cases t with
  | leaf a => rfl
  | quad s p o g => cases h

theorem length_frontier_quad (dropDefault : Bool) (s p o g : Nested α) :
    ((quad s p o g).frontier dropDefault).length =
      (s.frontier dropDefault).length + (p.frontier dropDefault).length +
        (o.frontier dropDefault).length +
        if dropDefault && g.isDefaultGraph then 0 else (g.frontier dropDefault).length := by
  rw [frontier, List.length_append, List.length_append, List.length_append]
  cases dropDefault && g.isDefaultGraph <;> simp [length_under]

/-- **Three leaves are reported for every quad, and one more**, less those that are left out. -/
theorem length_frontier (dropDefault : Bool) (t : Nested α) :
    (t.frontier dropDefault).length + t.leftOut dropDefault = 3 * t.quads + 1 := by
  induction t with
  | leaf a => cases dropDefault <;> rfl
  | quad s p o g hs hp ho hg =>
    rw [length_frontier_quad, leftOut_quad, quads]
    cases hdrop : dropDefault && g.isDefaultGraph with
    | false =>
      simp only [Bool.false_eq_true, if_false]
      omega
    | true =>
      -- the graph that is left out is a leaf, with nothing below it to be left out
      have hquads : g.quads = 0 :=
        quads_eq_zero_of_isDefaultGraph (Bool.and_eq_true_iff.mp hdrop).2
      have hleftOut : g.leftOut dropDefault ≤ g.quads := g.leftOut_le_quads dropDefault
      simp only [if_true]
      omega

end Nested

/-! ## The rounds that a stack takes -/

namespace Pending

variable [Leaf α] (dropDefault : Bool)

/-- The rounds that a stack takes: one for every quad and one for every leaf to report, at its nodes
and below them. -/
def rounds : List (Pending α) → Nat
  | [] => 0
  | e :: rest => e.node.quads + (e.node.frontier dropDefault).length + rounds rest

theorem rounds_append (stack rest : List (Pending α)) :
    rounds dropDefault (stack ++ rest) = rounds dropDefault stack + rounds dropDefault rest := by
  induction stack with
  | nil => rw [List.nil_append, rounds, Nat.zero_add]
  | cons e stack ih => simp only [List.cons_append, rounds, ih, Nat.add_assoc]

/-- A node takes one round itself, and those of the nodes directly below it. -/
theorem rounds_children (e : Pending α) :
    rounds dropDefault (e.children dropDefault) + 1 =
      e.node.quads + (e.node.frontier dropDefault).length := by
  obtain ⟨node, trail⟩ := e
  cases node with
  | leaf a => rfl
  | quad s p o g =>
    rw [children, Nested.length_frontier_quad, Nested.quads]
    cases hdrop : dropDefault && g.isDefaultGraph with
    | false =>
      simp only [rounds, Bool.false_eq_true, if_false]
      omega
    | true =>
      have hquads : g.quads = 0 :=
        Nested.quads_eq_zero_of_isDefaultGraph (Bool.and_eq_true_iff.mp hdrop).2
      simp only [rounds, if_true]
      omega

/-- Whatever a visit puts on the stack, there is one round less to make. -/
theorem rounds_visit (e : Pending α) (rest : List (Pending α)) :
    rounds dropDefault (e.children dropDefault ++ rest) + 1 = rounds dropDefault (e :: rest) := by
  have hchildren := rounds_children dropDefault e
  rw [rounds_append, rounds]
  omega

theorem length_visits (stack : List (Pending α)) :
    (visits dropDefault stack).length = rounds dropDefault stack := by
  fun_induction visits dropDefault stack with
  | case1 => rfl
  | case2 e rest ih => rw [List.length_cons, ih, rounds_visit]

end Pending

/-! ## The loop -/

/-- Where a traversal stands: the nodes that are still to be visited, the next one first, and the
leaves that have been reported. -/
structure Traversal (α : Type) where
  pending : List (Pending α)
  reported : List (α × Path)
  deriving DecidableEq, Repr

namespace Traversal

variable [Leaf α] (dropDefault : Bool)

/-- A traversal of a quad begins with the nodes at its positions. -/
def start (q : Quad α) : Traversal α := ⟨Pending.children dropDefault ⟨q.toNested, []⟩, []⟩

/-- One round: the next node is reported or gives way to the nodes directly below it. There is none
if no node is left. -/
def round : Traversal α → Option (Traversal α)
  | ⟨[], _⟩ => none
  | ⟨e :: rest, reported⟩ => some ⟨e.children dropDefault ++ rest, reported ++ e.leaf?.toList⟩

/-- Where a traversal stands so many rounds later, if they can all be made. -/
def after : Nat → Traversal α → Option (Traversal α)
  | 0, now => some now
  | k + 1, now => (now.round dropDefault).bind (after k)

/-- The report in the end: what has been reported, and the leaves among the nodes still to come. -/
def report (now : Traversal α) : List (α × Path) :=
  now.reported ++ (Pending.visits dropDefault now.pending).filterMap Pending.leaf?

variable {dropDefault} {now next : Traversal α}

theorem round_eq_none_iff :
    now.round dropDefault = none ↔ Pending.rounds dropDefault now.pending = 0 := by
  obtain ⟨pending, reported⟩ := now
  cases pending with
  | nil => exact iff_of_true rfl rfl
  | cons e rest =>
    rw [← Pending.rounds_visit]
    exact iff_of_false nofun (Nat.succ_ne_zero _)

/-- What a round does: everything else about it follows from this. -/
theorem exists_visit_of_round (h : now.round dropDefault = some next) :
    ∃ e rest, now.pending = e :: rest ∧
      next = ⟨e.children dropDefault ++ rest, now.reported ++ e.leaf?.toList⟩ := by
  obtain ⟨pending, reported⟩ := now
  cases pending with
  | nil => cases h
  | cons e rest => exact ⟨e, rest, rfl, (Option.some.inj h).symm⟩

/-- The variant of the loop. -/
theorem rounds_of_round (h : now.round dropDefault = some next) :
    Pending.rounds dropDefault next.pending + 1 = Pending.rounds dropDefault now.pending := by
  obtain ⟨e, rest, hpending, rfl⟩ := exists_visit_of_round h
  rw [hpending, Pending.rounds_visit]

/-- The invariant of the loop. -/
theorem report_of_round (h : now.round dropDefault = some next) :
    next.report dropDefault = now.report dropDefault := by
  obtain ⟨e, rest, hpending, rfl⟩ := exists_visit_of_round h
  rw [report, report, hpending, Pending.visits, List.filterMap_cons]
  cases e.leaf? <;> simp

/-- **As many rounds can be made as the stack takes**, and no more. -/
theorem exists_after_iff {k : Nat} :
    (∃ later, now.after dropDefault k = some later) ↔
      k ≤ Pending.rounds dropDefault now.pending := by
  induction k generalizing now with
  | zero => exact iff_of_true ⟨now, rfl⟩ (Nat.zero_le _)
  | succ k ih =>
    rw [after]
    cases hround : now.round dropDefault with
    | none =>
      rw [round_eq_none_iff.mp hround]
      exact iff_of_false nofun (Nat.not_succ_le_zero k)
    | some next =>
      rw [← rounds_of_round hround, Nat.add_le_add_iff_right]
      exact ih

/-- What some rounds do: they bring the end nearer, and they do not change the report in the end. -/
theorem rounds_and_report_of_after {k : Nat} {later : Traversal α}
    (h : now.after dropDefault k = some later) :
    Pending.rounds dropDefault later.pending + k = Pending.rounds dropDefault now.pending ∧
      later.report dropDefault = now.report dropDefault := by
  induction k generalizing now with
  | zero =>
    cases h
    exact ⟨rfl, rfl⟩
  | succ k ih =>
    obtain ⟨next, hround, hafter⟩ := Option.bind_eq_some_iff.mp h
    obtain ⟨hrounds, hreport⟩ := ih hafter
    refine ⟨?_, hreport.trans (report_of_round hround)⟩
    rw [← Nat.add_assoc, hrounds, rounds_of_round hround]

/-- **In the end nothing is left to visit and everything is reported.** -/
theorem after_rounds (now : Traversal α) :
    now.after dropDefault (Pending.rounds dropDefault now.pending) =
      some ⟨[], now.report dropDefault⟩ := by
  obtain ⟨later, hafter⟩ : ∃ later,
      now.after dropDefault (Pending.rounds dropDefault now.pending) = some later :=
    exists_after_iff.mpr (Nat.le_refl _)
  obtain ⟨hrounds, hreport⟩ := rounds_and_report_of_after hafter
  have hnone : later.round dropDefault = none :=
    round_eq_none_iff.mpr (Nat.add_eq_right.mp hrounds)
  rw [hafter, ← hreport]
  obtain ⟨pending, reported⟩ := later
  cases pending with
  | nil => simp [report, Pending.visits]
  | cons e rest => cases hnone

theorem report_start (q : Quad α) :
    (start dropDefault q).report dropDefault = q.leaves dropDefault := rfl

end Traversal

/-! ## The traversal of a quad -/

namespace Quad

variable [Leaf α]

theorem rounds_start (q : Quad α) (dropDefault : Bool) :
    Pending.rounds dropDefault (Traversal.start dropDefault q).pending +
      q.toNested.leftOut dropDefault = 4 * q.toNested.quads := by
  have hfrontier := q.toNested.length_frontier dropDefault
  -- the node of the quad itself is never on the stack
  have hchildren : Pending.rounds dropDefault (Traversal.start dropDefault q).pending + 1 =
      q.toNested.quads + (q.toNested.frontier dropDefault).length :=
    Pending.rounds_children dropDefault ⟨q.toNested, []⟩
  omega

theorem length_leaves (q : Quad α) (dropDefault : Bool) :
    (q.leaves dropDefault).length + q.toNested.leftOut dropDefault =
      3 * q.toNested.quads + 1 := by
  rw [leaves_eq_frontier, Nested.length_frontier]

/-- The loop of a traversal ends after so many rounds: these can be made, one visit in each, and no
more; by then nothing is left to visit and the leaves are reported. -/
structure EndsAfter (q : Quad α) (dropDefault : Bool) (rounds : Nat) : Prop where
  exists_after_iff : ∀ k,
    (∃ later, (Traversal.start dropDefault q).after dropDefault k = some later) ↔ k ≤ rounds
  after_rounds : (Traversal.start dropDefault q).after dropDefault rounds =
    some ⟨[], q.leaves dropDefault⟩
  length_visits : (q.visits dropDefault).length = rounds

theorem endsAfter_rounds (q : Quad α) (dropDefault : Bool) :
    q.EndsAfter dropDefault
      (Pending.rounds dropDefault (Traversal.start dropDefault q).pending) where
  exists_after_iff _ := Traversal.exists_after_iff
  after_rounds := by rw [Traversal.after_rounds, Traversal.report_start]
  length_visits := Pending.length_visits dropDefault _

/-- **A traversal takes four rounds for every quad and reports three leaves for every quad and one
more.** If default graphs are left out, there is one round and one leaf less for every triple. -/
theorem traversal_ends (Q : Quad α) :
    let N := Q.toNested.allQuads.length
    let D := Q.toNested.allQuads.countP isTriple
    (Q.EndsAfter false (4 * N) ∧ (Q.leaves false).length = 3 * N + 1) ∧
      D ≤ N ∧ Q.EndsAfter true (4 * N - D) ∧ (Q.leaves true).length = 3 * N + 1 - D := by
  intro N D
  have hN : Q.toNested.quads = N := Q.toNested.length_allQuads.symm
  have hD : D ≤ N := List.countP_le_length
  have hends (dropDefault : Bool) :
      Q.EndsAfter dropDefault (4 * N - Q.toNested.leftOut dropDefault) := by
    rw [← hN, ← Q.rounds_start dropDefault, Nat.add_sub_cancel]
    exact Q.endsAfter_rounds dropDefault
  have hleaves (dropDefault : Bool) :
      (Q.leaves dropDefault).length = 3 * N + 1 - Q.toNested.leftOut dropDefault := by
    rw [← hN, ← Q.length_leaves dropDefault, Nat.add_sub_cancel]
  exact ⟨⟨hends false, hleaves false⟩, hD, hends true, hleaves true⟩

/-- A triple that quotes a triple, in eight rounds and in six. -/
example :
    let s : Term := .leaf (.namedNode "s")
    let dg : Term := .leaf .defaultGraph
    let Q : Quad Atom := ⟨.quad s s s dg, s, s, dg⟩
    ((Traversal.start false Q).after false 8).map Traversal.pending = some [] ∧
      ((Traversal.start true Q).after true 6).map Traversal.pending = some [] := by
  decide

end Quad

end RdfStar
