import Mathlib.Data.List.Basic
import RdfStar.Proofs.Leaf.Order
import RdfStar.Proofs.Leaf.Recovery
import RdfStar.Proofs.Leaf.Rewriting

/-!
# The traversal as a recursion

The stack of a traversal never shows in what it reports. A quad is reported position by position: a
leaf as it stands, and a nested quad by its own traversal, below its position. This equation has one
solution only, so it may be read as the definition of the traversal. A nested quad, at any depth, is
thus reported in one piece, after everything that comes before it and before everything that comes
after it.

Principal results: `Nested.exists_frontier_split` — the leaves below a place are reported together,
between those of earlier and those of later paths; `Quad.leaves_recursive` — the recursion equation,
its uniqueness, and the piece of a nested quad.
-/

namespace RdfStar

variable {α : Type} [Leaf α]

/-! ## The leaves below a place -/

namespace Quad

/-- A kept position, with those before it and those after it. -/
theorem exists_keptPositions_split {q : Quad α} {dropDefault : Bool} {p : Position}
    (hp : p ∈ q.keptPositions dropDefault) :
    ∃ earlier later, q.keptPositions dropDefault = earlier ++ p :: later ∧
      (∀ p' ∈ earlier, p'.index < p.index) ∧ ∀ p' ∈ later, p.index < p'.index := by
  obtain ⟨earlier, later, hsplit⟩ := List.append_of_mem hp
  have horder := q.pairwise_keptPositions dropDefault
  rw [hsplit, List.pairwise_append, List.pairwise_cons] at horder
  obtain ⟨-, ⟨hlater, -⟩, hearlier⟩ := horder
  exact ⟨earlier, later, hsplit, fun p' hp' => hearlier p' hp' p List.mem_cons_self, hlater⟩

end Quad

namespace Nested

/-- **What is reported of a value inside another is reported in one piece**, after the leaves of
earlier paths and before those of later ones. -/
theorem exists_frontier_split {t u : Nested α} {dropDefault : Bool} {path : Path}
    (ht : t.at? path = some u) (hu : u.isDefaultGraph = false) :
    ∃ before after, t.frontier dropDefault =
        before ++ underPath path (u.frontier dropDefault) ++ after ∧
      (∀ e ∈ before, e.2.Precedes path) ∧
      ∀ e ∈ after, path.Precedes e.2 ∧ ¬path <+: e.2 := by
  induction path generalizing t with
  | nil =>
    cases ht
    exact ⟨[], [], by simp [underPath], nofun, nofun⟩
  | cons p rest ih =>
    induction t using inductionByPosition with
    | leaf a => cases ht
    | quad q _ =>
      rw [at?_toNested_cons] at ht
      obtain ⟨before, after, hsplit, hbefore, hafter⟩ := ih ht
      have hp : p ∈ q.keptPositions dropDefault := mem_keptPositions_of_at? ht hu
      obtain ⟨earlier, later, hkept, hearlier, hlater⟩ := Quad.exists_keptPositions_split hp
      -- the position of the first step, and around it the other positions of the outer quad
      let reported (ps : List Position) : List (α × Path) :=
        ps.flatMap fun p' => under p' ((q.get p').frontier dropDefault)
      refine ⟨reported earlier ++ under p before, under p after ++ reported later, ?_, ?_, ?_⟩
      · rw [frontier_toNested, hkept, List.flatMap_append, List.flatMap_cons, hsplit, under_append,
          under_append, under_underPath]
        simp only [reported, List.append_assoc]
      · intro e he
        rcases List.mem_append.mp he with he | he
        · obtain ⟨p', hp', he⟩ := List.mem_flatMap.mp he
          obtain ⟨d, -, rfl⟩ := List.mem_map.mp he
          exact Path.Precedes.head (hearlier p' hp') _ _
        · obtain ⟨d, hd, rfl⟩ := List.mem_map.mp he
          exact (hbefore d hd).cons
      · intro e he
        rcases List.mem_append.mp he with he | he
        · obtain ⟨d, hd, rfl⟩ := List.mem_map.mp he
          obtain ⟨hprecedes, hprefix⟩ := hafter d hd
          exact ⟨hprecedes.cons, fun h => hprefix (List.cons_prefix_cons.mp h).2⟩
        · obtain ⟨p', hp', he⟩ := List.mem_flatMap.mp he
          obtain ⟨d, -, rfl⟩ := List.mem_map.mp he
          have hindex := hlater p' hp'
          refine ⟨Path.Precedes.head hindex _ _, fun h => ?_⟩
          rw [(List.cons_prefix_cons.mp h).1] at hindex
          exact Nat.lt_irrefl _ hindex

end Nested

/-! ## The recursion -/

namespace Quad

/-- The leaves of a quad, given how those of the quads in it are listed: the positions in order, a
default graph left out if that is asked for; a leaf under its position, and a quad as it is listed,
below its position. -/
def listedBy (list : Quad α → List (α × Path)) (dropDefault : Bool) (q : Quad α) :
    List (α × Path) :=
  (q.keptPositions dropDefault).flatMap fun p =>
    match q.get p with
    | .leaf a => [(a, [p])]
    | .quad s p' o g => under p (list ⟨s, p', o, g⟩)

theorem leaves_eq_listedBy (q : Quad α) (dropDefault : Bool) :
    q.leaves dropDefault = q.listedBy (fun r => r.leaves dropDefault) dropDefault := by
  rw [leaves_eq_frontier, Nested.frontier_toNested, listedBy]
  refine List.flatMap_congr fun p _ => ?_
  cases q.get p with
  | leaf a => rfl
  | quad s p' o g => exact congrArg (under p) (leaves_eq_frontier ⟨s, p', o, g⟩ dropDefault).symm

/-- Two ways of listing the leaves that follow the recursion agree. -/
theorem eq_of_eq_listedBy {list other : Quad α → List (α × Path)} {dropDefault : Bool}
    (h : ∀ q, list q = q.listedBy list dropDefault)
    (h' : ∀ q, other q = q.listedBy other dropDefault) (q : Quad α) : list q = other q := by
  have hall : ∀ t : Nested α, ∀ r : Quad α, t = r.toNested → list r = other r := by
    intro t
    induction t using Nested.inductionByPosition with
    | leaf a => exact fun r hr => by cases hr
    | quad q ih =>
      intro r hr
      obtain rfl := toNested_injective hr
      rw [h, h', listedBy, listedBy]
      refine List.flatMap_congr fun p _ => ?_
      cases hp : q.get p with
      | leaf a => rfl
      | quad s p' o g => exact congrArg (under p) (ih p ⟨s, p', o, g⟩ hp)
  exact hall q.toNested q rfl

/-- **The traversal is the recursion over the positions of a quad**: it satisfies the equation, and
nothing else does. A quad inside another is reported in one piece, as it is on its own, after the
leaves of earlier paths and before those of later ones. -/
theorem leaves_recursive (dropDefault : Bool) :
    (∀ list : Quad α → List (α × Path),
      (∀ q : Quad α, list q = (q.keptPositions dropDefault).flatMap fun p =>
        match q.get p with
        | .leaf a => [(a, [p])]
        | .quad s p' o g => (list ⟨s, p', o, g⟩).map fun e => (e.1, p :: e.2)) ↔
      ∀ q : Quad α, q.leaves dropDefault = list q) ∧
    ∀ (Q q : Quad α) (path : Path), Q.toNested.at? path = some q.toNested →
      ∃ before after, Q.leaves dropDefault =
          before ++ (q.leaves dropDefault).map (fun e => (e.1, path ++ e.2)) ++ after ∧
        (∀ e ∈ before, e.2.Precedes path) ∧
        ∀ e ∈ after, path.Precedes e.2 ∧ ¬path <+: e.2 := by
  refine ⟨fun list => ⟨fun h => ?_, fun h => ?_⟩, fun Q q path hq => ?_⟩
  · exact eq_of_eq_listedBy (fun q => q.leaves_eq_listedBy dropDefault) h
  · obtain rfl : list = fun q => q.leaves dropDefault := funext fun q => (h q).symm
    exact fun q => q.leaves_eq_listedBy dropDefault
  · simp only [leaves_eq_frontier]
    exact Nested.exists_frontier_split hq rfl

/-- A quad in subject position, with a default graph as its own subject that is kept and one as its
graph that is left out, before the rest of a quad whose graph is left out as well. -/
theorem leaves_recursive_quoted_subject :
    let p : Term := .leaf (.namedNode "p")
    let dg : Term := .leaf .defaultGraph
    let inner : Quad Atom := ⟨dg, p, .quad p p dg p, dg⟩
    let Q : Quad Atom := ⟨inner.toNested, p, dg, dg⟩
    Q.toNested.at? [.subject] = some inner.toNested ∧
      Q.leaves true = (inner.leaves true).map (fun e => (e.1, .subject :: e.2)) ++
        [(.namedNode "p", [.predicate]), (.defaultGraph, [.object])] ∧
      ∃ before after, Q.leaves true =
          before ++ (inner.leaves true).map (fun e => (e.1, [.subject] ++ e.2)) ++ after ∧
        (∀ e ∈ before, e.2.Precedes [.subject]) ∧
        ∀ e ∈ after, Path.Precedes [.subject] e.2 ∧ ¬[.subject] <+: e.2 := by
  intro p dg inner Q
  have hat : Q.toNested.at? [.subject] = some inner.toNested := rfl
  obtain ⟨hequation, hpiece⟩ := leaves_recursive (α := Atom) true
  have hlist := (hequation fun q => q.leaves true).mpr fun _ => rfl
  exact ⟨hat, hlist Q, hpiece Q inner [.subject] hat⟩

end Quad

end RdfStar
