import Mathlib.Data.Set.Function
import RdfStar.Proofs.Leaf.Address
import RdfStar.Substitution

/-!
# Renaming variables

To give the variables inside a term other names moves nothing: every path leads to what it led to,
renamed. A renaming that keeps apart the names that occur can be undone, so it also keeps apart the
terms in which they occur.

Principal results: `Nested.at?_map` — what is found in a renamed term; `Term.rename_invFunOn` — a
renaming undone; `Term.injOn_rename` — the terms that a renaming keeps apart.
-/

namespace RdfStar

namespace Nested

variable {α β : Type}

theorem at?_map (f : α → β) (t : Nested α) (path : Path) :
    (t.map f).at? path = (t.at? path).map (map f) := by
  induction path generalizing t with
  | nil => rfl
  | cons position rest ih =>
    cases t with
    | leaf a => rfl
    | quad s p o g => cases position <;> exact ih _

theorem frontier_map [Leaf α] [Leaf β] (f : α → β) (t : Nested α) :
    (t.map f).frontier false = (t.frontier false).map fun e => (f e.1, e.2) := by
  have hunder (position : Position) (u : Nested α) :
      under position ((u.frontier false).map fun e => (f e.1, e.2)) =
        (under position (u.frontier false)).map fun e => (f e.1, e.2) := by
    simp [under]
  induction t with
  | leaf a => rfl
  | quad s p o g hs hp ho hg =>
    rw [map] at hs hp ho hg
    simp [map, bind, frontier, hs, hp, ho, hg, hunder]

end Nested

/-! ## Renamed atoms and terms -/

theorem Atom.exists_var_of_isVar {a : Atom} (h : a.isVar = true) : ∃ x, a = .var x := by
  cases a with
  | var x => exact ⟨x, rfl⟩
  | _ => cases h

theorem Atom.rename_of_not_var (r : String → String) {a : Atom} (h : a.isVar = false) :
    a.rename r = a := by
  cases a with
  | var x => cases h
  | _ => rfl

theorem Atom.isVar_rename (r : String → String) (a : Atom) : (a.rename r).isVar = a.isVar := by
  cases a <;> rfl

namespace Term

theorem isVar_rename (r : String → String) (t : Term) : isVar (rename r t) = isVar t := by
  cases t with
  | leaf a => exact a.isVar_rename r
  | quad s p o g => rfl

theorem rename_eq_leaf_iff {r : String → String} {t : Term} {a : Atom} (ha : a.isVar = false) :
    rename r t = .leaf a ↔ t = .leaf a := by
  cases t with
  | leaf b =>
    rw [show rename r (.leaf b) = .leaf (b.rename r) from rfl, Nested.leaf.injEq,
      Nested.leaf.injEq]
    constructor
    · rintro rfl
      rw [Atom.isVar_rename] at ha
      exact (Atom.rename_of_not_var r ha).symm
    · rintro rfl
      exact Atom.rename_of_not_var r ha
  | quad s p o g => exact ⟨nofun, nofun⟩

/-! ## Names that occur -/

/-- Whether a variable of the given name stands somewhere in the term. -/
def HasVar (t : Term) (x : String) : Prop := ∃ path, t.at? path = some (.leaf (.var x))

/-- What stands inside a term has no other variables. -/
theorem HasVar.of_at? {t u : Term} {path : Path} {x : String} (h : HasVar u x)
    (hu : t.at? path = some u) : HasVar t x := by
  obtain ⟨rest, hx⟩ := h
  exact ⟨path ++ rest, by rw [Nested.at?_append, hu]; exact hx⟩

theorem rename_eq_self {r : String → String} {t : Term} (h : ∀ x, HasVar t x → r x = x) :
    rename r t = t := by
  rw [rename, Nested.map_eq_self_iff]
  intro path a ha
  cases a with
  | var x => exact congrArg Atom.var (h x ⟨path, ha⟩)
  | _ => rfl

theorem rename_rename (r k : String → String) (t : Term) :
    rename k (rename r t) = rename (fun x => k (r x)) t := by
  rw [rename, rename, Nested.map_map, rename]
  congr 1
  funext a
  cases a <;> rfl

variable {r : String → String} {S : Set String}

/-- **A renaming that keeps apart the names of a term can be undone on it.** -/
theorem rename_invFunOn (hr : S.InjOn r) {t : Term} (ht : ∀ x, HasVar t x → x ∈ S) :
    rename (Function.invFunOn r S) (rename r t) = t := by
  rw [rename_rename]
  exact rename_eq_self fun x hx => hr.leftInvOn_invFunOn (ht x hx)

theorem injOn_rename (hr : S.InjOn r) :
    Set.InjOn (rename r) {t | ∀ x, HasVar t x → x ∈ S} := by
  intro t ht u hu h
  rw [← rename_invFunOn hr ht, h, rename_invFunOn hr hu]

end Term

namespace Quad

theorem toNested_rename (q : Quad Atom) (r : String → String) :
    (q.rename r).toNested = Term.rename r q.toNested := rfl

theorem hasVar_toNested_iff {q : Quad Atom} {x : String} :
    Term.HasVar q.toNested x ↔ x ∈ q.varNames := by
  rw [mem_varNames_iff]
  exact exists_congr fun path => mem_leaves_iff.symm

theorem rename_id (q : Quad Atom) : q.rename id = q := by
  apply toNested_injective
  rw [toNested_rename]
  exact Term.rename_eq_self fun _ _ => rfl

theorem rename_invFunOn {q : Quad Atom} {r : String → String}
    (hr : Set.InjOn r {x | x ∈ q.varNames}) :
    (q.rename r).rename (Function.invFunOn r {x | x ∈ q.varNames}) = q := by
  apply toNested_injective
  rw [toNested_rename, toNested_rename]
  exact Term.rename_invFunOn hr fun _ => hasVar_toNested_iff.mp

end Quad

end RdfStar
