import RdfStar.Proofs.Leaf.Order

/-!
# Post-order

To rebuild a value is to finish its nodes one after another: the parts of a quad in the order of
their positions, and the quad as soon as its four parts are done. These steps, each with the path of
its node, are in lexicographic order, but for a path that comes after all those that go on from it.
The order tells what has been finished when a leaf is reached: the quads all of whose leaves come
before.

Principal results: `Nested.pairwise_walk` — the steps are in the order of their paths;
`Nested.filterMap_leaf?_walk` — the leaves among them are those of the traversal;
`Nested.mem_quadPaths_iff` — the others are the quads; `Nested.built_before_leaf` — the quads that
are built before a leaf is reached.
-/

namespace RdfStar

variable {α : Type}

/-! ## Steps -/

/-- What there is to do at a node of a value when the value is rebuilt. -/
inductive Step (α : Type) where
  /-- To give the leaf at a path to the callback. -/
  | rewrite (a : α) (path : Path)
  /-- To build the quad at a path from what became of its four parts. -/
  | build (path : Path)
  deriving DecidableEq, Repr

namespace Step

def path : Step α → Path
  | .rewrite _ path => path
  | .build path => path

/-- The leaf that a step gives to the callback. -/
def leaf? : Step α → Option (α × Path)
  | .rewrite a path => some (a, path)
  | .build _ => none

/-- The path of the quad that a step builds. -/
def built? : Step α → Option Path
  | .rewrite _ _ => none
  | .build path => some path

/-- The same step, seen from the quad around. -/
def below (p : Position) : Step α → Step α
  | .rewrite a path => .rewrite a (p :: path)
  | .build path => .build (p :: path)

@[simp] theorem path_below (p : Position) (step : Step α) :
    (step.below p).path = p :: step.path := by
  cases step <;> rfl

theorem leaf?_eq_some_iff {step : Step α} {e : α × Path} :
    step.leaf? = some e ↔ step = .rewrite e.1 e.2 := by
  cases step <;> simp [leaf?, Prod.ext_iff]

theorem built?_eq_some_iff {step : Step α} {path : Path} :
    step.built? = some path ↔ step = .build path := by
  cases step <;> simp [built?]

theorem mem_filterMap_leaf?_iff {steps : List (Step α)} {e : α × Path} :
    e ∈ steps.filterMap leaf? ↔ .rewrite e.1 e.2 ∈ steps := by
  simp [List.mem_filterMap, leaf?_eq_some_iff]

theorem mem_filterMap_built?_iff {steps : List (Step α)} {path : Path} :
    path ∈ steps.filterMap built? ↔ .build path ∈ steps := by
  simp [List.mem_filterMap, built?_eq_some_iff]

theorem filterMap_leaf?_below (p : Position) (steps : List (Step α)) :
    (steps.map (below p)).filterMap leaf? = under p (steps.filterMap leaf?) := by
  rw [List.filterMap_map, under, List.map_filterMap]
  refine congrArg (List.filterMap · steps) (funext fun step => ?_)
  cases step <;> rfl

theorem filterMap_built?_below (p : Position) (steps : List (Step α)) :
    (steps.map (below p)).filterMap built? = (steps.filterMap built?).map (p :: ·) := by
  rw [List.filterMap_map, List.map_filterMap]
  refine congrArg (List.filterMap · steps) (funext fun step => ?_)
  cases step <;> rfl

end Step

namespace Nested

/-- The steps of a value: those of the parts of a quad in the order of the positions, and then that
of the quad itself. -/
def walk : Nested α → List (Step α)
  | .leaf a => [.rewrite a []]
  | .quad s p o g =>
    s.walk.map (.below .subject) ++ p.walk.map (.below .predicate) ++
      o.walk.map (.below .object) ++ g.walk.map (.below .graph) ++ [.build []]

/-- The paths of the quads in a value, its own included, in post-order. -/
def quadPaths (t : Nested α) : List Path := t.walk.filterMap Step.built?

theorem walk_toNested (q : Quad α) :
    q.toNested.walk =
      (Position.all.flatMap fun p => (q.get p).walk.map (.below p)) ++ [.build []] := by
  simp [Quad.toNested, walk, Position.all, Quad.get]

/-! ## Leaves and quads of the walk -/

/-- The leaves are reached in the order of the traversal. -/
theorem filterMap_leaf?_walk [Leaf α] (t : Nested α) :
    t.walk.filterMap Step.leaf? = t.frontier false := by
  induction t with
  | leaf a => rfl
  | quad s p o g hs hp ho hg =>
    simp only [walk, frontier, List.filterMap_append, Step.filterMap_leaf?_below, hs, hp, ho, hg]
    simp [Step.leaf?]

theorem quadPaths_toNested (q : Quad α) :
    q.toNested.quadPaths =
      (Position.all.flatMap fun p => (q.get p).quadPaths.map (p :: ·)) ++ [[]] := by
  rw [quadPaths, walk_toNested, List.filterMap_append, List.filterMap_flatMap]
  simp only [Step.filterMap_built?_below]
  rfl

theorem length_quadPaths (t : Nested α) : t.quadPaths.length = t.quads := by
  induction t with
  | leaf a => rfl
  | quad s p o g hs hp ho hg =>
    have hquad : (quad s p o g).quadPaths = _ := quadPaths_toNested ⟨s, p, o, g⟩
    simp [hquad, Position.all, Quad.get, quads, hs, hp, ho, hg]
    omega

theorem mem_quadPaths_iff {t : Nested α} {path : Path} :
    path ∈ t.quadPaths ↔ ∃ q : Quad α, t.at? path = some q.toNested := by
  induction path generalizing t with
  | nil =>
    induction t using inductionByPosition with
    | leaf a => simp [quadPaths, walk, Step.built?, at?, Quad.toNested]
    | quad q _ => exact ⟨fun _ => ⟨q, rfl⟩, fun _ => by simp [quadPaths_toNested]⟩
  | cons p rest ih =>
    induction t using inductionByPosition with
    | leaf a => simp [quadPaths, walk, Step.built?, at?]
    | quad q _ =>
      rw [at?_toNested_cons, ← ih, quadPaths_toNested]
      simp [Position.mem_all]

end Nested

/-! ## The order of the steps -/

theorem Position.index_injective {p q : Position} (h : p.index = q.index) : p = q := by
  cases p <;> cases q <;> simp_all [index]

namespace Path

/-- Post-order: where two paths part, the first takes the earlier position, and a path comes after
those that go on from it. -/
def FinishesBefore : Path → Path → Prop
  | [], _ => False
  | _ :: _, [] => True
  | p :: path, q :: other => p.index < q.index ∨ p = q ∧ FinishesBefore path other

theorem not_finishesBefore_self (path : Path) : ¬path.FinishesBefore path := by
  induction path with
  | nil => exact id
  | cons p path ih => simp [FinishesBefore, ih]

theorem FinishesBefore.asymm {path other : Path} (h : path.FinishesBefore other) :
    ¬other.FinishesBefore path := by
  induction path generalizing other with
  | nil => exact h.elim
  | cons p path ih =>
    cases other with
    | nil => exact id
    | cons q other =>
      rintro (hqp | ⟨rfl, hother⟩)
      · rcases h with hpq | ⟨rfl, -⟩
        · exact Nat.lt_asymm hpq hqp
        · exact Nat.lt_irrefl _ hqp
      · rcases h with hpp | ⟨-, hpath⟩
        · exact Nat.lt_irrefl _ hpp
        · exact ih hpath hother

theorem finishesBefore_trichotomous (path other : Path) :
    path.FinishesBefore other ∨ path = other ∨ other.FinishesBefore path := by
  induction path generalizing other with
  | nil =>
    cases other with
    | nil => exact .inr (.inl rfl)
    | cons q other => exact .inr (.inr trivial)
  | cons p path ih =>
    cases other with
    | nil => exact .inl trivial
    | cons q other =>
      rcases Nat.lt_trichotomy p.index q.index with hpq | hindex | hqp
      · exact .inl (.inl hpq)
      · obtain rfl := Position.index_injective hindex
        rcases ih other with hpath | rfl | hother
        · exact .inl (.inr ⟨rfl, hpath⟩)
        · exact .inr (.inl rfl)
        · exact .inr (.inr (.inr ⟨rfl, hother⟩))
      · exact .inr (.inr (.inl hqp))

/-- What is below a node is finished before the node is. -/
theorem FinishesBefore.append {path other : Path} (h : path.FinishesBefore other) (rest : Path) :
    FinishesBefore (path ++ rest) other := by
  induction path generalizing other with
  | nil => exact h.elim
  | cons p path ih =>
    cases other with
    | nil => trivial
    | cons q other => exact h.imp_right fun ⟨hpq, hpath⟩ => ⟨hpq, ih hpath⟩

/-- A node that is finished before another is below it, or comes before everything below it. -/
theorem FinishesBefore.prefix_or_forall {path other : Path} (h : path.FinishesBefore other) :
    other <+: path ∨ ∀ rest, path.FinishesBefore (other ++ rest) := by
  induction path generalizing other with
  | nil => exact h.elim
  | cons p path ih =>
    cases other with
    | nil => exact .inl List.nil_prefix
    | cons q other =>
      rcases h with hpq | ⟨rfl, hpath⟩
      · exact .inr fun rest => .inl hpq
      · rcases ih hpath with hbegin | hall
        · exact .inl (List.cons_prefix_cons.mpr ⟨rfl, hbegin⟩)
        · exact .inr fun rest => .inr ⟨rfl, hall rest⟩

end Path

namespace Nested

theorem pairwise_walk (t : Nested α) :
    t.walk.Pairwise fun x y => x.path.FinishesBefore y.path := by
  induction t using inductionByPosition with
  | leaf a => exact List.pairwise_singleton _ _
  | quad q ih =>
    rw [walk_toNested, List.pairwise_append]
    refine ⟨List.pairwise_flatMap.mpr ⟨fun p _ => ?_, ?_⟩, List.pairwise_singleton _ _, ?_⟩
    · refine List.pairwise_map.mpr ((ih p).imp fun h => ?_)
      rw [Step.path_below, Step.path_below]
      exact .inr ⟨rfl, h⟩
    · have hpositions : Position.all.Pairwise fun p p' => p.index < p'.index := by decide
      refine hpositions.imp fun h x hx y hy => ?_
      obtain ⟨x, -, rfl⟩ := List.mem_map.mp hx
      obtain ⟨y, -, rfl⟩ := List.mem_map.mp hy
      rw [Step.path_below, Step.path_below]
      exact .inl h
    · intro x hx y hy
      obtain ⟨p, -, hx⟩ := List.mem_flatMap.mp hx
      obtain ⟨x, -, rfl⟩ := List.mem_map.mp hx
      rw [List.mem_singleton.mp hy, Step.path_below]
      trivial

theorem nodup_quadPaths (t : Nested α) : t.quadPaths.Nodup := by
  refine List.pairwise_filterMap.mpr (t.pairwise_walk.imp ?_)
  intro x y hxy path hx other hy heq
  rw [Step.built?_eq_some_iff] at hx hy
  subst hx hy heq
  exact Path.not_finishesBefore_self _ hxy

/-- The steps before one of the walk are those that come before it in post-order. -/
theorem mem_before_iff {t : Nested α} {before after : List (Step α)} {step x : Step α}
    (h : t.walk = before ++ step :: after) :
    x ∈ before ↔ x ∈ t.walk ∧ x.path.FinishesBefore step.path := by
  have horder := t.pairwise_walk
  rw [h, List.pairwise_append, List.pairwise_cons] at horder
  obtain ⟨-, ⟨hafter, -⟩, hbefore⟩ := horder
  rw [h, List.mem_append, List.mem_cons]
  constructor
  · exact fun hx => ⟨.inl hx, hbefore x hx step List.mem_cons_self⟩
  · rintro ⟨hx | rfl | hx, hfinishes⟩
    · exact hx
    · exact absurd hfinishes (Path.not_finishesBefore_self _)
    · exact absurd hfinishes (hafter x hx).asymm

variable [Leaf α]

theorem mem_frontier_iff_mem_walk {t : Nested α} {e : α × Path} :
    e ∈ t.frontier false ↔ .rewrite e.1 e.2 ∈ t.walk := by
  rw [← filterMap_leaf?_walk, Step.mem_filterMap_leaf?_iff]

/-- A quad comes before a leaf in post-order exactly if all its leaves do. -/
theorem finishesBefore_iff_of_mem_quadPaths {t : Nested α} {path quadPath : Path} {a : α}
    (hleaf : (a, path) ∈ t.frontier false) (hquad : quadPath ∈ t.quadPaths) :
    quadPath.FinishesBefore path ↔
      ∀ e ∈ t.frontier false, quadPath <+: e.2 → e.2.FinishesBefore path := by
  constructor
  · rintro h e - ⟨rest, hrest⟩
    rw [← hrest]
    exact h.append rest
  · intro h
    have hself : ¬quadPath <+: path := fun hbegin =>
      Path.not_finishesBefore_self path (h _ hleaf hbegin)
    rcases Path.finishesBefore_trichotomous quadPath path with hfirst | rfl | hlast
    · exact hfirst
    · exact absurd List.prefix_rfl hself
    -- a quad that comes after the leaf has a leaf that does so as well
    · obtain ⟨q, hq⟩ := mem_quadPaths_iff.mp hquad
      obtain ⟨e, he, rest, hrest⟩ := exists_at?_iff.mp ⟨_, hq⟩
      have hbelow := hlast.prefix_or_forall.resolve_left hself rest
      rw [hrest] at hbelow
      exact absurd (h e he ⟨rest, hrest⟩) hbelow.asymm

/-- **The quads that are built before a leaf is reached are those whose leaves all come before.** -/
theorem built_before_leaf [DecidableEq α] {t : Nested α} {before after : List (Step α)}
    {a : α} {path : Path} (h : t.walk = before ++ .rewrite a path :: after) :
    before.filterMap Step.built? = t.quadPaths.filter fun quadPath =>
      ∀ e ∈ t.frontier false, quadPath <+: e.2 → e ∈ before.filterMap Step.leaf? := by
  have hleaf : (a, path) ∈ t.frontier false := mem_frontier_iff_mem_walk.mpr (by simp [h])
  have hiff {quadPath : Path} (hquad : quadPath ∈ t.quadPaths) :
      (∀ e ∈ t.frontier false, quadPath <+: e.2 → e ∈ before.filterMap Step.leaf?) ↔
        .build quadPath ∈ before := by
    rw [mem_before_iff h, and_iff_right (Step.mem_filterMap_built?_iff.mp hquad)]
    refine Iff.trans ?_ (finishesBefore_iff_of_mem_quadPaths hleaf hquad).symm
    refine forall_congr' fun e => forall_congr' fun he => imp_congr_right fun _ => ?_
    rw [Step.mem_filterMap_leaf?_iff, mem_before_iff h,
      and_iff_right (mem_frontier_iff_mem_walk.mp he)]
    rfl
  have hsplit : t.quadPaths = before.filterMap Step.built? ++ after.filterMap Step.built? := by
    rw [quadPaths, h, List.filterMap_append, List.filterMap_cons_none rfl]
  have hnodup := t.nodup_quadPaths
  rw [hsplit, List.nodup_append] at hnodup
  obtain ⟨-, -, hapart⟩ := hnodup
  have hbefore : ∀ quadPath ∈ before.filterMap Step.built?, quadPath ∈ t.quadPaths :=
    fun quadPath hquad => hsplit ▸ List.mem_append_left _ hquad
  have hafter : ∀ quadPath ∈ after.filterMap Step.built?, quadPath ∈ t.quadPaths :=
    fun quadPath hquad => hsplit ▸ List.mem_append_right _ hquad
  rw [hsplit, List.filter_append, List.filter_eq_self.mpr, List.filter_eq_nil_iff.mpr,
    List.append_nil]
  · intro quadPath hquad hall
    have hbuild := (hiff (hafter _ hquad)).mp (of_decide_eq_true hall)
    exact hapart _ (Step.mem_filterMap_built?_iff.mpr hbuild) _ hquad rfl
  · intro quadPath hquad
    exact decide_eq_true ((hiff (hbefore _ hquad)).mpr (Step.mem_filterMap_built?_iff.mp hquad))

end Nested

end RdfStar
