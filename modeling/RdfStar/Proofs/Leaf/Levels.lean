import RdfStar.Proofs.Leaf.Calls
import RdfStar.Proofs.Leaf.Fusion
import RdfStar.Quad.Positions

/-!
# Leaf operations level by level

A traversal works through one stack and does not know in which quad it is. Still every operation on
the leaves of a quad is the operation of that kind on its positions: a leaf is treated as it stands,
and a nested quad by the operation on its own leaves, with its position put before their paths. This
holds whatever effects the callback has, so the calls are the same and in the same order.

Principal results: `Quad.leaves_eq_entries` — the leaves, position by position; `foldlM_flatMap`,
`mapM_flatMap`, `select_flatMap` — to run through parts one after the other is to run through all;
`Quad.join_leaves` — answers joined part by part; `Quad.leaf_operations_by_position` — the
operations.
-/

namespace RdfStar

variable {α β σ : Type} {m : Type → Type} [Monad m] [LawfulMonad m]

/-! ## Part by part -/

section Parts

variable {κ ι : Type} (parts : ι → List κ)

theorem foldlM_flatMap (step : σ → κ → m σ) (start : σ) (list : List ι) :
    (list.flatMap parts).foldlM step start =
      list.foldlM (fun acc i => (parts i).foldlM step acc) start := by
  induction list generalizing start with
  | nil => simp
  | cons i rest ih => simp [ih]

theorem mapM_flatMap (f : κ → m β) (list : List ι) :
    (list.flatMap parts).mapM f = List.flatten <$> list.mapM fun i => (parts i).mapM f := by
  induction list with
  | nil => simp
  | cons i rest ih => simp [ih]

theorem select_append (test : κ → m Bool) (entries others : List κ) :
    select test (entries ++ others) = do
      let kept ← select test entries
      let more ← select test others
      return kept ++ more := by
  induction entries with
  | nil => simp [select]
  | cons e rest ih =>
    simp only [List.cons_append, select, ih, bind_assoc, pure_bind]
    refine bind_congr fun keep => ?_
    cases keep <;> simp

theorem select_map (f : ι → κ) (test : κ → m Bool) (list : List ι) :
    select test (list.map f) = List.map f <$> select (fun i => test (f i)) list := by
  induction list with
  | nil => simp [select]
  | cons i rest ih =>
    simp only [List.map_cons, select, ih, map_bind, bind_map_left, map_pure]
    refine bind_congr fun keep => ?_
    cases keep <;> simp

theorem select_flatMap (test : κ → m Bool) (list : List ι) :
    select test (list.flatMap parts) =
      List.flatten <$> list.mapM fun i => select test (parts i) := by
  induction list with
  | nil => simp [select]
  | cons i rest ih => simp [select_append, ih]

end Parts

/-! ## Position by position -/

namespace Nested

variable [Leaf α] (t : Nested α) (n : Position)

/-- A nested quad is folded by itself, a leaf by one call. -/
theorem foldlM_leavesAt (f : σ → α → Path → m σ) (acc : σ) :
    (t.leavesAt [n]).foldlM (fun acc e => f acc e.1 e.2) acc =
      match t with
      | .leaf a => f acc a [n]
      | .quad s p o g =>
        (Quad.mk s p o g).reduceLeaves (fun acc a path => f acc a (n :: path)) acc := by
  cases t with
  | leaf a => simp [leavesAt]
  | quad s p o g =>
    rw [leavesAt, underPath, List.foldlM_map]
    rfl

/-- The answers about a nested quad are joined by themselves, the one about a leaf is what it is. -/
theorem join_leavesAt {join : List Bool → Bool} (hone : ∀ b, join [b] = b)
    (test : α → Path → m Bool) :
    join <$> (t.leavesAt [n]).mapM (fun e => test e.1 e.2) =
      match t with
      | .leaf a => test a [n]
      | .quad s p o g =>
        join <$> ((Quad.mk s p o g).leaves false).mapM fun e => test e.1 (n :: e.2) := by
  cases t with
  | leaf a => simp [leavesAt, hone]
  | quad s p o g =>
    rw [leavesAt, underPath, List.mapM_map]
    rfl

/-- A leaf is chosen by one call, and the leaves of a nested quad as it chooses them. -/
theorem select_leavesAt (test : α → Path → m Bool) :
    List.map Prod.fst <$> select (fun e => test e.1 e.2) (t.leavesAt [n]) =
      match t with
      | .leaf a => do return if ← test a [n] then [a] else []
      | .quad s p o g => (Quad.mk s p o g).filterLeaves fun a path => test a (n :: path) := by
  cases t with
  | leaf a =>
    simp only [leavesAt, select, pure_bind, map_bind, map_pure]
    refine bind_congr fun keep => ?_
    cases keep <;> rfl
  | quad s p o g =>
    rw [leavesAt, underPath, select_map, Functor.map_map]
    simp only [List.map_map, Function.comp_def]
    exact (bind_pure_comp _ _).symm

end Nested

namespace Quad

variable [Leaf α] (Q : Quad α)

/-- **The leaves of a quad are those of its positions**, one position after the other. -/
theorem leaves_eq_entries : Q.leaves false = Q.entries.flatMap fun e => e.1.leavesAt [e.2] := by
  rw [leaves_eq_frontier, Nested.frontier_quad, entries, List.flatMap_map]
  simp only [Nested.leavesAt_eq]
  rfl

/-! ## The operations -/

theorem reduceLeaves_by_position (f : σ → α → Path → m σ) (start : σ) :
    Q.reduceLeaves f start = Q.reducePositions (fun acc t n =>
      match t with
      | .leaf a => f acc a [n]
      | .quad s p o g =>
        (Quad.mk s p o g).reduceLeaves (fun acc a path => f acc a (n :: path)) acc) start := by
  rw [reduceLeaves, leaves_eq_entries, foldlM_flatMap]
  simp only [Nested.foldlM_leavesAt]
  rfl

omit [LawfulMonad m] [Leaf α] in
theorem mapLeaves_by_position (f : α → Path → m β) (build : β → β → β → β → m β) :
    Q.mapLeaves f build = Q.mapPositions (fun t n =>
      match t with
      | .leaf a => f a [n]
      | .quad s p o g => (Quad.mk s p o g).mapLeaves (fun a path => f a (n :: path)) build)
      build := by
  have hpart (n : Position) (t : Nested α) : t.rebuild f build [n] = t.mapAt f build [n] :=
    t.rebuild_eq_mapAt f build [n]
  rw [mapLeaves, toNested, Nested.rebuild, hpart, hpart, hpart, hpart]
  rfl

/-- Answers can be joined position by position, if joined answers can be joined again. -/
theorem join_leaves {join : List Bool → Bool} (hone : ∀ b, join [b] = b)
    (hflatten : ∀ parts : List (List Bool), join parts.flatten = join (parts.map join))
    (test : α → Path → m Bool) :
    join <$> (Q.leaves false).mapM (fun e => test e.1 e.2) =
      join <$> Q.entries.mapM fun e =>
        match e.1 with
        | .leaf a => test a [e.2]
        | .quad s p o g =>
          join <$> ((Quad.mk s p o g).leaves false).mapM fun d => test d.1 (e.2 :: d.2) := by
  rw [leaves_eq_entries, mapM_flatMap, Functor.map_map]
  simp only [← Nested.join_leavesAt _ _ hone, mapM_map_answers, Functor.map_map, hflatten]

theorem everyLeaf_by_position (test : α → Path → m Bool) :
    Q.everyLeaf test = Q.everyPosition fun t n =>
      match t with
      | .leaf a => test a [n]
      | .quad s p o g => (Quad.mk s p o g).everyLeaf fun a path => test a (n :: path) := by
  simp only [everyLeaf_eq, everyPosition, bind_pure_comp]
  exact Q.join_leaves (by simp) (by simp [List.all_flatten]) test

theorem someLeaf_by_position (test : α → Path → m Bool) :
    Q.someLeaf test = Q.somePosition fun t n =>
      match t with
      | .leaf a => test a [n]
      | .quad s p o g => (Quad.mk s p o g).someLeaf fun a path => test a (n :: path) := by
  simp only [someLeaf_eq, somePosition, bind_pure_comp]
  exact Q.join_leaves (by simp) (by simp [List.any_flatten]) test

theorem filterLeaves_by_position (test : α → Path → m Bool) :
    Q.filterLeaves test = (do
      let parts ← Q.entries.mapM fun e =>
        match e.1 with
        | .leaf a => do return if ← test a [e.2] then [a] else []
        | .quad s p o g => (Quad.mk s p o g).filterLeaves fun a path => test a (e.2 :: path)
      return parts.flatten) := by
  rw [filterLeaves, leaves_eq_entries, select_flatMap, bind_pure_comp, bind_pure_comp,
    Functor.map_map]
  simp only [← Nested.select_leavesAt, mapM_map_answers, Functor.map_map, List.map_flatten]

/-- **The operations on the leaves of a quad are those on its positions, level by level.** A leaf is
treated as it stands, at the path of its one position, and a nested quad by the operation on its own
leaves, with its position put before their paths: a fold goes on with what it has so far, a mapping
builds through the same factory, and the answers of tests are joined by “and”, by “or”, or by putting
the lists of what passes one after the other. Calls and failures of the callback are the same. -/
theorem leaf_operations_by_position (Q : Quad α) (m : Type → Type) [Monad m] [LawfulMonad m] :
    (∀ (σ : Type) (f : σ → α → Path → m σ) (start : σ),
      Q.reduceLeaves f start = Q.reducePositions (fun acc t n =>
        match t with
        | .leaf a => f acc a [n]
        | .quad s p o g =>
          (Quad.mk s p o g).reduceLeaves (fun acc a path => f acc a (n :: path)) acc) start) ∧
    (∀ (β : Type) (f : α → Path → m β) (build : β → β → β → β → m β),
      Q.mapLeaves f build = Q.mapPositions (fun t n =>
        match t with
        | .leaf a => f a [n]
        | .quad s p o g => (Quad.mk s p o g).mapLeaves (fun a path => f a (n :: path)) build)
        build) ∧
    ∀ test : α → Path → m Bool,
      (Q.everyLeaf test = Q.everyPosition fun t n =>
        match t with
        | .leaf a => test a [n]
        | .quad s p o g => (Quad.mk s p o g).everyLeaf fun a path => test a (n :: path)) ∧
      (Q.someLeaf test = Q.somePosition fun t n =>
        match t with
        | .leaf a => test a [n]
        | .quad s p o g => (Quad.mk s p o g).someLeaf fun a path => test a (n :: path)) ∧
      Q.filterLeaves test = (do
        let parts ← Q.entries.mapM fun e =>
          match e.1 with
          | .leaf a => do return if ← test a [e.2] then [a] else []
          | .quad s p o g => (Quad.mk s p o g).filterLeaves fun a path => test a (e.2 :: path)
        return parts.flatten) :=
  ⟨fun _ f start => Q.reduceLeaves_by_position f start,
    fun _ f build => Q.mapLeaves_by_position f build,
    fun test => ⟨Q.everyLeaf_by_position test, Q.someLeaf_by_position test,
      Q.filterLeaves_by_position test⟩⟩

/-- A test that keeps a list of its calls, on a quad that quotes one as its predicate. -/
theorem leaf_operations_by_position_quoted_predicate :
    let p : Term := .leaf (.namedNode "p")
    let x : Term := .leaf (.var "x")
    let Q : Quad Atom := ⟨x, .quad p x p p, p, x⟩
    let test (a : Atom) (path : Path) : StateM (List Path) Bool := do
      modify (· ++ [path])
      return a.isVar
    let calls : List Path := [[.subject], [.predicate, .subject], [.predicate, .predicate],
      [.predicate, .object], [.predicate, .graph], [.object], [.graph]]
    (Q.everyLeaf test).run [] = (false, calls) ∧ (Q.someLeaf test).run [] = (true, calls) ∧
      (Q.filterLeaves test).run [] = ([.var "x", .var "x", .var "x"], calls) := by
  intro p x Q test calls
  obtain ⟨hevery, hsome, hfilter⟩ := (leaf_operations_by_position Q (StateM (List Path))).2.2 test
  rw [hevery, hsome, hfilter]
  simp only [everyPosition, somePosition, everyLeaf, someLeaf, filterLeaves, leaves_eq_frontier]
  exact ⟨rfl, rfl, rfl⟩

end Quad

end RdfStar
