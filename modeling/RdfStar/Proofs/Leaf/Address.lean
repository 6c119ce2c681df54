import RdfStar.Leaf.Traversal
import RdfStar.Path

/-!
# Leaves and their addresses

Every leaf that a traversal reports stands at its path, and what stands at the paths of the leaves
decides what a value is.

Principal results: `Nested.mem_frontier_iff` — the frontier lists exactly the leaves that are found
by following paths; `Nested.bind_eq_iff` — grafting yields a given value exactly when that value
has, at the path of every leaf, what was grafted there; `Quad.leadsTo_iff` — lookup by names is
`Nested.at?`.
-/

namespace RdfStar

variable {α β : Type}

/-! ## The frontier of a quad, position by position -/

theorem mem_under_cons {p q : Position} {leaves : List (α × Path)} {a : α} {rest : Path} :
    (a, q :: rest) ∈ under p leaves ↔ p = q ∧ (a, rest) ∈ leaves := by
  simp only [under, List.mem_map, Prod.mk.injEq, List.cons.injEq, Prod.exists]
  constructor
  · rintro ⟨b, path, hmem, rfl, rfl, rfl⟩
    exact ⟨rfl, hmem⟩
  · rintro ⟨rfl, hmem⟩
    exact ⟨a, rest, hmem, rfl, rfl, rfl⟩

theorem not_mem_under_nil {p : Position} {leaves : List (α × Path)} {a : α} :
    (a, []) ∉ under p leaves := by
  simp [under]

theorem forall_mem_under {p : Position} {leaves : List (α × Path)} {holds : α × Path → Prop} :
    (∀ e ∈ under p leaves, holds e) ↔ ∀ e ∈ leaves, holds (e.1, p :: e.2) := by
  rw [under, List.forall_mem_map]

/-- The positions of a quad that a traversal looks into. -/
def Quad.keptPositions [Leaf α] (q : Quad α) (dropDefault : Bool) : List Position :=
  if dropDefault && q.isTriple then Position.ofTriple else Position.all

/-- Only a graph is ever left out, and only a default graph. -/
theorem Quad.mem_keptPositions_iff [Leaf α] {q : Quad α} {dropDefault : Bool} {p : Position} :
    p ∈ q.keptPositions dropDefault ↔
      ¬(dropDefault = true ∧ p = .graph ∧ q.graph.isDefaultGraph = true) := by
  unfold keptPositions isTriple
  cases dropDefault <;> cases q.graph.isDefaultGraph <;> cases p <;>
    simp [Position.ofTriple, Position.all]

namespace Nested

variable [Leaf α]

theorem frontier_toNested (q : Quad α) (dropDefault : Bool) :
    q.toNested.frontier dropDefault =
      (q.keptPositions dropDefault).flatMap fun p => under p ((q.get p).frontier dropDefault) := by
  rw [Quad.toNested, frontier, Quad.keptPositions, Quad.isTriple]
  cases dropDefault && q.graph.isDefaultGraph <;> simp [Position.ofTriple, Position.all, Quad.get]

theorem frontier_quad (q : Quad α) :
    q.toNested.frontier false =
      Position.all.flatMap fun p => under p ((q.get p).frontier false) :=
  frontier_toNested q false

theorem mem_frontier_cons {q : Quad α} {dropDefault : Bool} {p : Position} {a : α} {rest : Path} :
    (a, p :: rest) ∈ q.toNested.frontier dropDefault ↔
      p ∈ q.keptPositions dropDefault ∧ (a, rest) ∈ (q.get p).frontier dropDefault := by
  rw [frontier_toNested, List.mem_flatMap]
  constructor
  · rintro ⟨p', hp, hmem⟩
    obtain ⟨rfl, hrest⟩ := mem_under_cons.mp hmem
    exact ⟨hp, hrest⟩
  · rintro ⟨hp, hrest⟩
    exact ⟨p, hp, mem_under_cons.mpr ⟨rfl, hrest⟩⟩

theorem nil_not_mem_frontier_quad {q : Quad α} {dropDefault : Bool} {a : α} :
    (a, []) ∉ q.toNested.frontier dropDefault := by
  rw [frontier_toNested, List.mem_flatMap]
  rintro ⟨p, -, hmem⟩
  exact not_mem_under_nil hmem

/-- Nested quads are never empty. -/
theorem exists_mem_frontier (t : Nested α) (dropDefault : Bool) :
    ∃ e, e ∈ t.frontier dropDefault := by
  induction t using inductionByPosition with
  | leaf a => exact ⟨(a, []), List.mem_singleton_self _⟩
  | quad q ih =>
    obtain ⟨e, he⟩ := ih .subject
    have hsubject : .subject ∈ q.keptPositions dropDefault :=
      Quad.mem_keptPositions_iff.mpr fun h => nomatch h.2.1
    exact ⟨(e.1, .subject :: e.2), mem_frontier_cons.mpr ⟨hsubject, he⟩⟩

/-! ## Leaves and lookup -/

omit [Leaf α] in
theorem at?_toNested_cons (q : Quad α) (p : Position) (rest : Path) :
    q.toNested.at? (p :: rest) = (q.get p).at? rest := rfl

/-- No leaf of a quad is found in an atom, since its path has at least one step. -/
theorem at?_leaf_of_mem_frontier {q : Quad α} {dropDefault : Bool} {e : α × Path}
    (he : e ∈ q.toNested.frontier dropDefault) (b : β) : (leaf b).at? e.2 = none := by
  obtain ⟨a, path⟩ := e
  cases path with
  | nil => exact absurd he nil_not_mem_frontier_quad
  | cons position rest => rfl

omit [Leaf α] in
theorem at?_append (t : Nested α) (path rest : Path) :
    t.at? (path ++ rest) = (t.at? path).bind fun u => u.at? rest := by
  induction path generalizing t with
  | nil => simp [at?]
  | cons position path ih =>
    cases t with
    | leaf a => rfl
    | quad s p o g => exact ih _

/-- **The frontier lists the leaves that are found by following paths.** -/
theorem mem_frontier_iff {t : Nested α} {a : α} {path : Path} :
    (a, path) ∈ t.frontier false ↔ t.at? path = some (.leaf a) := by
  -- on the path, since its first step says which part of a quad is concerned
  induction path generalizing t with
  | nil =>
    cases t with
    | leaf b => simp [frontier, at?, eq_comm]
    | quad s p o g =>
      have hnil : (a, []) ∉ (Quad.mk s p o g).toNested.frontier false := nil_not_mem_frontier_quad
      exact ⟨fun h => absurd h hnil, fun h => by cases h⟩
  | cons position rest ih =>
    cases t with
    | leaf b => simp [frontier, at?]
    | quad s p o g =>
      refine Iff.trans (mem_frontier_cons (q := ⟨s, p, o, g⟩)) ?_
      exact (and_iff_right position.mem_all).trans ih

/-- A path leads somewhere exactly if the path of some leaf begins with it. -/
theorem exists_at?_iff {t : Nested α} {path : Path} :
    (∃ u, t.at? path = some u) ↔ ∃ e ∈ t.frontier false, path <+: e.2 := by
  constructor
  · rintro ⟨u, hu⟩
    obtain ⟨⟨a, rest⟩, hmem⟩ := u.exists_mem_frontier false
    refine ⟨(a, path ++ rest), mem_frontier_iff.mpr ?_, rest, rfl⟩
    rw [at?_append, hu]
    exact mem_frontier_iff.mp hmem
  · rintro ⟨⟨a, _⟩, hmem, rest, rfl⟩
    have hleaf := mem_frontier_iff.mp hmem
    rw [at?_append] at hleaf
    obtain ⟨u, hu, -⟩ := Option.bind_eq_some_iff.mp hleaf
    exact ⟨u, hu⟩

/-- **A value is the result of grafting exactly when it has, at the path of every leaf, what was
grafted there.** -/
theorem bind_eq_iff {t : Nested α} {f : α → Nested β} {c : Nested β} :
    t.bind f = c ↔ ∀ e ∈ t.frontier false, c.at? e.2 = some (f e.1) := by
  induction t generalizing c with
  | leaf a => simp [bind, frontier, at?, eq_comm]
  | quad s p o g hs hp ho hg =>
    cases c with
    | leaf b =>
      constructor
      · intro h
        cases h
      · intro h
        obtain ⟨e, he⟩ := exists_mem_frontier (.quad s p o g) false
        have hunmet : (leaf b).at? e.2 = none := at?_leaf_of_mem_frontier (q := ⟨s, p, o, g⟩) he b
        rw [h e he] at hunmet
        cases hunmet
    | quad s' p' o' g' =>
      simp only [bind, quad.injEq, hs, hp, ho, hg, frontier, Bool.false_and, Bool.false_eq_true,
        if_false, List.forall_mem_append, forall_mem_under, at?, Quad.get, and_assoc]

/-- Renaming the leaves changes nothing exactly if it keeps each of them. -/
theorem map_eq_self_iff {t : Nested α} {f : α → α} :
    t.map f = t ↔ ∀ path a, t.at? path = some (.leaf a) → f a = a := by
  rw [map, bind_eq_iff]
  constructor
  · intro h path a ha
    have hfa := h (a, path) (mem_frontier_iff.mpr ha)
    exact leaf.inj (Option.some.inj (hfa.symm.trans ha))
  · rintro h ⟨a, path⟩ hmem
    have ha := mem_frontier_iff.mp hmem
    rw [h path a ha]
    exact ha

end Nested

/-! ## Lookup by names -/

/-- Lookup succeeds along the names of a path of positions, and along no other texts. -/
theorem follow_eq_ok_iff {whole segments : List String} {t u : Term} :
    (follow whole t segments).outcome.1 = .ok u ↔
      ∃ path : Path, path.names = segments ∧ t.at? path = some u := by
  induction segments generalizing t with
  | nil =>
    constructor
    · intro h
      exact ⟨[], rfl, congrArg some (Except.ok.inj h)⟩
    · rintro ⟨path, hnames, ht⟩
      obtain rfl : path = [] := List.map_eq_nil_iff.mp hnames
      rw [Option.some.inj ht]
      rfl
  | cons segment rest ih =>
    cases t with
    | leaf a =>
      constructor
      · intro h
        cases h
      · rintro ⟨path, hnames, ht⟩
        obtain ⟨position, tail, rfl, -, -⟩ := List.map_eq_cons_iff.mp hnames
        cases ht
    | quad s p o g =>
      rw [follow]
      cases hsegment : Position.ofName? segment with
      | none =>
        constructor
        · intro h
          cases h
        · rintro ⟨path, hnames, -⟩
          obtain ⟨position, tail, -, rfl, -⟩ := List.map_eq_cons_iff.mp hnames
          cases hsegment.symm.trans position.ofName?_name
      | some position =>
        obtain rfl := Position.ofName?_eq_some_iff.mp hsegment
        refine ih.trans ⟨?_, ?_⟩
        · rintro ⟨tail, rfl, ht⟩
          exact ⟨position :: tail, rfl, ht⟩
        · rintro ⟨path, hnames, ht⟩
          obtain ⟨position', tail, rfl, hname, htail⟩ := List.map_eq_cons_iff.mp hnames
          obtain rfl := Position.name_injective hname
          exact ⟨tail, htail, ht⟩

namespace Quad

/-- Lookup along a path of positions gives a term, and there is nothing to report. -/
def LeadsTo (q : Quad Atom) (path : Path) (t : Term) : Prop :=
  (resolve q.toNested path.names).outcome = (.ok t, [])

theorem leadsTo_iff {q : Quad Atom} {path : Path} {t : Term} :
    q.LeadsTo path t ↔ q.toNested.at? path = some t := follow_names

theorem mem_leaves_iff {q : Quad Atom} {a : Atom} {path : Path} :
    (a, path) ∈ q.leaves false ↔ q.toNested.at? path = some (.leaf a) := by
  rw [leaves_eq_frontier]
  exact Nested.mem_frontier_iff

end Quad

/-! ## Variables at the leaves -/

/-- The name of a variable. -/
def Atom.var? : Atom → Option String
  | .var x => some x
  | _ => none

theorem Atom.var?_eq_some_iff {a : Atom} {x : String} : a.var? = some x ↔ a = .var x := by
  cases a <;> simp [var?]

namespace Quad

/-- The variables among the leaves with their paths, in traversal order. -/
def varLeaves (q : Quad Atom) : List (String × Path) :=
  (q.leaves false).filterMap fun e => e.1.var?.map fun x => (x, e.2)

/-- The names of the variables, each once, in the order of first occurrences. -/
def varNames (q : Quad Atom) : List String := (q.varLeaves.map Prod.fst).eraseDups

theorem mem_varLeaves_iff {q : Quad Atom} {x : String} {path : Path} :
    (x, path) ∈ q.varLeaves ↔ (.var x, path) ∈ q.leaves false := by
  rw [varLeaves, List.mem_filterMap]
  constructor
  · rintro ⟨⟨a, _⟩, he, hx⟩
    obtain ⟨y, hy, hpair⟩ := Option.map_eq_some_iff.mp hx
    cases hpair
    exact Atom.var?_eq_some_iff.mp hy ▸ he
  · exact fun he => ⟨_, he, rfl⟩

theorem mem_varNames_iff {q : Quad Atom} {x : String} :
    x ∈ q.varNames ↔ ∃ path, (.var x, path) ∈ q.leaves false := by
  simp [varNames, mem_varLeaves_iff]

/-- Whether the term at a path of the quad is a variable. -/
def hasVarAt (q : Quad Atom) (path : Path) : Bool :=
  match (resolve q.toNested path.names).outcome.1 with
  | .ok t => Term.isVar t
  | .error _ => false

theorem LeadsTo.hasVarAt {q : Quad Atom} {path : Path} {t : Term} (h : q.LeadsTo path t) :
    q.hasVarAt path = Term.isVar t := by
  rw [Quad.hasVarAt, h]

end Quad

end RdfStar
