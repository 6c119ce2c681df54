import Mathlib.Data.List.Nodup
import RdfStar.Proofs.Leaf.Rewriting
import RdfStar.Proofs.Match.Agreement

/-!
# The order of the positions

The mirror of a quad has subject and object exchanged at every level, so a match of mirrored quads
compares the same leaves in another order. Other occurrences come first, and bind, and others are
checked; but what a match asks of the candidate has no order, so success is the same, and each name
is bound to the mirror of what it was bound to.

Principal results: `Quad.mirror_eq` — building a quad anew with the exchanging factory gives its
mirror; `Nested.at?_swap` — what is found in a mirrored term; `Quad.unify_swap` — the match of
mirrored quads.
-/

namespace RdfStar

/-! ## Mirrored paths -/

/-- Exchanges subject and object. -/
def Position.swap : Position → Position
  | .subject => .object
  | .predicate => .predicate
  | .object => .subject
  | .graph => .graph

def Path.swap (path : Path) : Path := path.map Position.swap

@[simp] theorem Position.swap_swap (p : Position) : p.swap.swap = p := by cases p <;> rfl

@[simp] theorem Path.swap_swap (path : Path) : path.swap.swap = path := by
  simp [swap, Function.comp_def]

/-! ## Mirrored terms -/

namespace Nested

variable {α : Type}

theorem swap_eq_iff {t u : Nested α} : t.swap = u ↔ t = u.swap := by
  constructor
  · rintro rfl
    exact t.swap_swap.symm
  · rintro rfl
    exact u.swap_swap

theorem at?_swap (t : Nested α) (path : Path) : t.swap.at? path = (t.at? path.swap).map swap := by
  induction path generalizing t with
  | nil => rfl
  | cons position rest ih =>
    cases t with
    | leaf a => rfl
    | quad s p o g =>
      cases position with
      | subject => exact ih o
      | predicate => exact ih p
      | object => exact ih s
      | graph => exact ih g

/-- To build a value anew with subject and object exchanged is to mirror it. -/
theorem rebuild_swap {m : Type → Type} [Monad m] [LawfulMonad m] (t : Nested α) (trail : Path) :
    t.rebuild (fun a _ => (pure (.leaf a) : m (Nested α)))
        (fun s p o g => pure (.quad o p s g)) trail = pure t.swap := by
  induction t generalizing trail with
  | leaf a => rfl
  | quad s p o g hs hp ho hg => simp [rebuild, hs, hp, ho, hg, swap]

end Nested

theorem Term.isVar_swap (t : Term) : isVar t.swap = isVar t := by cases t <;> rfl

namespace Quad

@[simp] theorem swap_swap {α : Type} (q : Quad α) : q.swap.swap = q := by
  simp [swap]

/-- Builds a quad anew, its leaves as they are, through the factory that exchanges subject and
object. -/
def mirror (q : Quad Atom) : StateM LabelSupply Term :=
  q.mapLeaves (fun a _ => pure (.leaf a)) fun s p o g =>
    Factory.standard.swapped.quad s p o (some g)

theorem mirror_eq (q : Quad Atom) : q.mirror = pure q.swap.toNested := q.toNested.rebuild_swap []

theorem leadsTo_swap_iff {q : Quad Atom} {path : Path} {t : Term} :
    q.swap.LeadsTo path t ↔ q.LeadsTo path.swap t.swap := by
  rw [leadsTo_iff, leadsTo_iff, toNested_swap, Nested.at?_swap, Option.map_eq_some_iff]
  constructor
  · rintro ⟨u, hu, rfl⟩
    rw [hu, Nested.swap_swap]
  · intro ht
    exact ⟨t.swap, ht, t.swap_swap⟩

theorem mem_leaves_swap_iff {q : Quad Atom} {a : Atom} {path : Path} :
    (a, path) ∈ q.swap.leaves false ↔ (a, path.swap) ∈ q.leaves false := by
  rw [mem_leaves_iff, mem_leaves_iff, ← leadsTo_iff, ← leadsTo_iff]
  exact leadsTo_swap_iff

/-! ## Matches of mirrored quads -/

variable {P C : Quad Atom} {skipVariables : Bool}

/-- What a match asks of the candidate, it asks of the mirror at the mirrored paths. -/
theorem Unifies.swap (h : P.Unifies C skipVariables) : P.swap.Unifies C.swap skipVariables := by
  obtain ⟨hfound, hequal⟩ := (unifies_iff_leaves_found P C skipVariables).mp h
  refine (unifies_iff_leaves_found P.swap C.swap skipVariables).mpr ⟨?_, ?_⟩
  · intro a path hleaf
    obtain ⟨t, ht, hatom⟩ := hfound a path.swap (mem_leaves_swap_iff.mp hleaf)
    refine ⟨t.swap, leadsTo_swap_iff.mpr (by rwa [Nested.swap_swap]), fun ha => ?_⟩
    rw [hatom ha]
    rfl
  · intro x p q t u hp hq ht hu hskip hskip'
    rw [← Term.isVar_swap] at hskip hskip'
    have hswap : t.swap = u.swap :=
      hequal x p.swap q.swap t.swap u.swap (mem_leaves_swap_iff.mp hp) (mem_leaves_swap_iff.mp hq)
        (leadsTo_swap_iff.mp ht) (leadsTo_swap_iff.mp hu) hskip hskip'
    rw [Nested.swap_eq_iff.mp hswap, Nested.swap_swap]

theorem unifies_swap_iff :
    P.swap.Unifies C.swap skipVariables ↔ P.Unifies C skipVariables := by
  constructor
  · intro h
    simpa using h.swap
  · exact Unifies.swap

theorem value?_swap_of_value? (h : P.Unifies C skipVariables) {x : String} {t : Term}
    (hx : (P.finalBindings C skipVariables).value? x = some t) :
    (P.swap.finalBindings C.swap skipVariables).value? x = some t.swap := by
  obtain ⟨path, hleaf, ht, hskip⟩ := exists_leaf_of_value? hx
  have hleaf' : (.var x, path.swap) ∈ P.swap.leaves false := by
    rwa [mem_leaves_swap_iff, Path.swap_swap]
  have ht' : C.swap.toNested.at? path.swap = some t.swap := by
    rw [toNested_swap, Nested.at?_swap, Path.swap_swap, ht]
    rfl
  exact value?_of_found h.swap hleaf' ht' (by rwa [Term.isVar_swap])

theorem value?_swap (h : P.Unifies C skipVariables) (x : String) :
    (P.swap.finalBindings C.swap skipVariables).value? x =
      ((P.finalBindings C skipVariables).value? x).map Nested.swap := by
  cases hx : (P.finalBindings C skipVariables).value? x with
  | some t => exact value?_swap_of_value? h hx
  | none =>
    cases hx' : (P.swap.finalBindings C.swap skipVariables).value? x with
    | none => rfl
    | some t =>
      have hback := value?_swap_of_value? h.swap hx'
      rw [swap_swap, swap_swap, hx] at hback
      cases hback

theorem finalBindings_swap_perm (h : P.Unifies C skipVariables) :
    (P.swap.finalBindings C.swap skipVariables).Perm
      ((P.finalBindings C skipVariables).map fun e => (e.1, e.2.swap)) := by
  have hnames : ((P.finalBindings C skipVariables).map fun e => (e.1, e.2.swap)).map Prod.fst =
      (P.finalBindings C skipVariables).names := by
    rw [List.map_map]
    rfl
  have hnodup : (P.swap.finalBindings C.swap skipVariables).Nodup :=
    List.Nodup.of_map Prod.fst (nodup_names_finalBindings P.swap C.swap skipVariables)
  have hnodup' : ((P.finalBindings C skipVariables).map fun e => (e.1, e.2.swap)).Nodup :=
    List.Nodup.of_map Prod.fst (hnames ▸ nodup_names_finalBindings P C skipVariables)
  -- no name has two entries on either side, so it is enough to compare the entries one by one
  refine (List.perm_ext_iff_of_nodup hnodup hnodup').mpr fun ⟨x, t⟩ => ?_
  rw [(keyed_finalBindings _ _ _).mem_iff, value?_swap h, Option.map_eq_some_iff]
  simp only [← (keyed_finalBindings _ _ _).mem_iff, List.mem_map, Prod.mk.injEq, Prod.exists]
  constructor
  · rintro ⟨u, hu, rfl⟩
    exact ⟨x, u, hu, rfl, rfl⟩
  · rintro ⟨_, u, hu, rfl, rfl⟩
    exact ⟨u, hu, rfl⟩

/-- **Mirroring both quads changes neither whether they match nor which names are bound, and each
name is bound to the mirror of what it was bound to.** To mirror is to build a quad anew with
subject and object exchanged, and undoes itself. -/
theorem unify_swap (P C : Quad Atom) (skipVariables : Bool) :
    (∀ q : Quad Atom, q.mirror = pure q.swap.toNested ∧ q.swap.mirror = pure q.toNested) ∧
    ((P.swap.unify C.swap { skipVariables := skipVariables }).1 = .matched ↔
      (P.unify C { skipVariables := skipVariables }).1 = .matched) ∧
    ∀ B, (P.unify C { skipVariables := skipVariables, returnBindings := true }).1 = .bound B →
      ∃ B', (P.swap.unify C.swap
          { skipVariables := skipVariables, returnBindings := true }).1 = .bound B' ∧
        B'.Perm (B.map fun e => (e.1, e.2.swap)) := by
  refine ⟨fun q => ⟨q.mirror_eq, ?_⟩, ?_, fun B hB => ?_⟩
  · rw [mirror_eq, swap_swap]
  · rw [unify_eq_matched_iff, unify_eq_matched_iff, unifies_swap_iff]
  · obtain ⟨h, rfl⟩ := unify_eq_bound_iff.mp hB
    exact ⟨_, unify_eq_bound_iff.mpr ⟨h.swap, rfl⟩, finalBindings_swap_perm h⟩

/-- A name that occurs at two depths and is bound to a quad: in the mirror its other occurrence comes
first, and after that of the other name. -/
theorem unify_swap_other_order :
    let p : Term := .leaf (.namedNode "p")
    let q : Term := .leaf (.namedNode "q")
    let x : Term := .leaf (.var "x")
    let y : Term := .leaf (.var "y")
    let P : Quad Atom := ⟨x, p, .quad x p y p, p⟩
    let C : Quad Atom := ⟨.quad q p x p, p, .quad (.quad q p x p) p q p, p⟩
    (P.unify C { returnBindings := true }).1 = .bound [("x", .quad q p x p), ("y", q)] ∧
      ∃ B', (P.swap.unify C.swap { returnBindings := true }).1 = .bound B' ∧
        B'.Perm [("x", .quad x p q p), ("y", q)] ∧ B'.names = ["y", "x"] := by
  intro p q x y P C
  have hbound : (P.unify C { returnBindings := true }).1 =
      .bound [("x", .quad q p x p), ("y", q)] := by decide
  obtain ⟨B', hB', hperm⟩ := (unify_swap P C false).2.2 _ hbound
  have hrun : (P.swap.unify C.swap { returnBindings := true }).1 =
      .bound [("y", q), ("x", .quad x p q p)] := by decide
  refine ⟨hbound, B', hB', hperm, ?_⟩
  cases hB'.symm.trans hrun
  rfl

end Quad

end RdfStar
