import RdfStar.Proofs.Match.Instance
import RdfStar.Proofs.Term.Renaming

/-!
# Quads that match each other

A quad that matches another asks for less than the other does. If each of the two matches the
other, they ask for the same, and differ in nothing but the names of their variables: neither match
can bind a name to an atom or a quad, or two names to one variable, since the other match would have
to undo it.

Principal results: `substitute_of_bound` — what one match binds is turned back by the other;
`newName_newName` — the names are exchanged one for one; `unify_both_ways_iff_rename` — quads match
each other exactly if a bijection of their variables turns one into the other, and then the bindings
are inverse.
-/

namespace RdfStar

namespace Term

/-- Only a variable becomes a variable. -/
theorem exists_var_of_substitute {σ : String → Option Term} {t : Term} {x : String}
    (h : substitute σ t = .leaf (.var x)) : ∃ y, t = .leaf (.var y) := by
  cases t with
  | leaf a =>
    cases a with
    | var y => exact ⟨y, rfl⟩
    | _ => cases h
  | quad s p o g => cases h

/-- To rename is to put in variables. -/
theorem rename_eq_substitute (r : String → String) (t : Term) :
    rename r t = substitute (fun x => some (.leaf (.var (r x)))) t := by
  rw [rename, Nested.map, substitute]
  congr 1
  funext a
  cases a <;> rfl

end Term

/-- The name of the variable that a name is bound to; a name that is not bound to a variable
stays. -/
def Bindings.newName (b : Bindings) (x : String) : String :=
  match b.value? x with
  | some (.leaf (.var y)) => y
  | _ => x

theorem Bindings.newName_of_value? {b : Bindings} {x y : String}
    (h : b.value? x = some (.leaf (.var y))) : b.newName x = y := by
  rw [newName, h]

namespace Quad

theorem rename_eq_substitute (q : Quad Atom) (r : String → String) :
    q.rename r = q.substitute fun x => some (.leaf (.var (r x))) :=
  toNested_injective (Term.rename_eq_substitute r q.toNested)

/-- A quad matches itself with other names for its variables. -/
theorem unifies_renamed (q : Quad Atom) (r : String → String) : q.Unifies (q.rename r) false := by
  rw [rename_eq_substitute]
  exact q.unifies_substitute _

variable {P Q : Quad Atom} {x : String}

/-! ## Matches in both directions -/

/-- The other match turns what a name is bound to back into the variable of that name. -/
theorem substitute_of_bound (hPQ : P.Unifies Q false) (hQP : Q.Unifies P false) {t : Term}
    (hx : (P.finalBindings Q false).value? x = some t) :
    Term.substitute (Q.finalBindings P false).value? t = .leaf (.var x) := by
  have hself : (P.substitute fun y => some (.leaf (.var y))) = P :=
    (P.rename_eq_substitute id).symm.trans P.rename_id
  -- both are the pattern: put in for itself, and turned into the candidate and back
  have hback := hself.trans ((substitute_of_unifies hQP).symm.trans (substitute_candidate hPQ _))
  obtain ⟨path, hleaf, -⟩ := exists_leaf_of_value? hx
  have hvalue := eq_of_substitute_eq hback (mem_varNames_iff.mpr ⟨path, hleaf⟩)
  rw [hx] at hvalue
  exact hvalue.symm

/-- A name is bound to a variable, whose name is bound to the variable of the first. -/
theorem exists_var_of_bound (hPQ : P.Unifies Q false) (hQP : Q.Unifies P false) {t : Term}
    (hx : (P.finalBindings Q false).value? x = some t) :
    ∃ y, t = .leaf (.var y) ∧ y ∈ Q.varNames ∧
      (Q.finalBindings P false).value? y = some (.leaf (.var x)) := by
  obtain ⟨y, rfl⟩ := Term.exists_var_of_substitute (substitute_of_bound hPQ hQP hx)
  obtain ⟨path, hleaf, ht, -⟩ := exists_leaf_of_value? hx
  have hy : (.var y, path) ∈ Q.leaves false := mem_leaves_iff.mpr ht
  exact ⟨y, rfl, mem_varNames_iff.mpr ⟨path, hy⟩,
    value?_of_found hQP hy (mem_leaves_iff.mp hleaf) (Bool.false_and _)⟩

theorem newName_newName (hPQ : P.Unifies Q false) (hQP : Q.Unifies P false)
    (hx : x ∈ P.varNames) :
    (P.finalBindings Q false).newName x ∈ Q.varNames ∧
      (Q.finalBindings P false).newName ((P.finalBindings Q false).newName x) = x := by
  rw [← names_finalBindings_false hPQ] at hx
  obtain ⟨t, ht⟩ := Bindings.exists_value?_of_mem hx
  obtain ⟨y, rfl, hy, hback⟩ := exists_var_of_bound hPQ hQP ht
  rw [Bindings.newName_of_value? ht]
  exact ⟨hy, Bindings.newName_of_value? hback⟩

theorem bijOn_newName (hPQ : P.Unifies Q false) (hQP : Q.Unifies P false) :
    Set.BijOn (P.finalBindings Q false).newName {x | x ∈ P.varNames} {y | y ∈ Q.varNames} :=
  Set.InvOn.bijOn
    ⟨fun _ hx => (newName_newName hPQ hQP hx).2, fun _ hy => (newName_newName hQP hPQ hy).2⟩
    (fun _ hx => (newName_newName hPQ hQP hx).1) fun _ hy => (newName_newName hQP hPQ hy).1

theorem rename_newName (hPQ : P.Unifies Q false) (hQP : Q.Unifies P false) :
    P.rename (P.finalBindings Q false).newName = Q := by
  have hatoms : (fun a => Nested.leaf (Atom.rename (P.finalBindings Q false).newName a)) =
      Atom.substitute (P.finalBindings Q false).value? := by
    funext a
    cases a with
    | var x =>
      rw [Atom.substitute, Atom.rename]
      cases hx : (P.finalBindings Q false).value? x with
      | none => rw [Bindings.newName, hx]; rfl
      | some t =>
        obtain ⟨y, rfl, -⟩ := exists_var_of_bound hPQ hQP hx
        rw [Bindings.newName_of_value? hx]
        rfl
    | _ => rfl
  rw [rename, map, hatoms]
  exact substitute_of_unifies hPQ

theorem isVar_of_mem_finalBindings (hPQ : P.Unifies Q false) (hQP : Q.Unifies P false)
    {e : String × Term} (he : e ∈ P.finalBindings Q false) : Term.isVar e.2 = true := by
  obtain ⟨y, hy, -⟩ := exists_var_of_bound hPQ hQP (keyed_finalBindings _ _ _ e he)
  rw [hy]
  rfl

theorem value?_of_value? (hPQ : P.Unifies Q false) (hQP : Q.Unifies P false) {y : String}
    (hx : (P.finalBindings Q false).value? x = some (.leaf (.var y))) :
    (Q.finalBindings P false).value? y = some (.leaf (.var x)) := by
  obtain ⟨_, ⟨⟩, -, hback⟩ := exists_var_of_bound hPQ hQP hx
  exact hback

/-- A renaming that keeps the names of a quad apart can be undone, and by a match. -/
theorem unifies_of_rename {r : String → String} (hr : Set.InjOn r {x | x ∈ P.varNames}) :
    (P.rename r).Unifies P false := by
  have hmatch := (P.rename r).unifies_renamed (Function.invFunOn r {x | x ∈ P.varNames})
  rwa [rename_invFunOn hr] at hmatch

/-- **Two quads match each other exactly if a bijection of their variables turns one into the
other.** Each match then binds the variables of its pattern to those of its candidate, and the two
bindings are inverse to each other. -/
theorem unify_both_ways_iff_rename (P Q : Quad Atom) :
    ((P.unify Q {}).1 = .matched ∧ (Q.unify P {}).1 = .matched ↔
      ∃ r : String → String,
        Set.BijOn r {x | x ∈ P.varNames} {y | y ∈ Q.varNames} ∧ P.rename r = Q) ∧
    ((P.unify Q {}).1 = .matched ∧ (Q.unify P {}).1 = .matched →
      ∃ B₁ B₂, (P.unify Q { returnBindings := true }).1 = .bound B₁ ∧
        (Q.unify P { returnBindings := true }).1 = .bound B₂ ∧
        (B₁.names = P.varNames ∧ B₂.names = Q.varNames) ∧
        (∀ e ∈ B₁, Term.isVar e.2 = true) ∧ (∀ e ∈ B₂, Term.isVar e.2 = true) ∧
        ∀ x y, B₁.value? x = some (.leaf (.var y)) ↔ B₂.value? y = some (.leaf (.var x))) := by
  simp only [unify_eq_matched_iff]
  refine ⟨⟨?_, ?_⟩, ?_⟩
  · rintro ⟨hPQ, hQP⟩
    exact ⟨_, bijOn_newName hPQ hQP, rename_newName hPQ hQP⟩
  · rintro ⟨r, hr, rfl⟩
    exact ⟨P.unifies_renamed r, unifies_of_rename hr.injOn⟩
  · rintro ⟨hPQ, hQP⟩
    refine ⟨_, _, unify_eq_bound_iff.mpr ⟨hPQ, rfl⟩, unify_eq_bound_iff.mpr ⟨hQP, rfl⟩,
      ⟨names_finalBindings_false hPQ, names_finalBindings_false hQP⟩, ?_, ?_, ?_⟩
    · exact fun e he => isVar_of_mem_finalBindings hPQ hQP he
    · exact fun e he => isVar_of_mem_finalBindings hQP hPQ he
    · exact fun x y => ⟨value?_of_value? hPQ hQP, value?_of_value? hQP hPQ⟩

/-- Two quads that have the same names the other way round. -/
theorem unify_both_ways_iff_rename_exchanged :
    let x : Term := .leaf (.var "x")
    let y : Term := .leaf (.var "y")
    let p : Term := .leaf (.namedNode "p")
    let P : Quad Atom := ⟨x, p, .quad y p x p, p⟩
    let Q : Quad Atom := ⟨y, p, .quad x p y p, p⟩
    ((P.unify Q {}).1 = .matched ∧ (Q.unify P {}).1 = .matched) ∧
      ∃ B₁ B₂, (P.unify Q { returnBindings := true }).1 = .bound B₁ ∧
        (Q.unify P { returnBindings := true }).1 = .bound B₂ ∧
        B₁.value? "x" = some y ∧ B₂.value? "y" = some x := by
  intro x y p P Q
  have hmatch : (P.unify Q {}).1 = .matched ∧ (Q.unify P {}).1 = .matched := by decide
  obtain ⟨B₁, B₂, hB₁, hB₂, -, -, -, hinverse⟩ := (unify_both_ways_iff_rename P Q).2 hmatch
  have hvalue : B₁.value? "x" = some y := by
    have hrun : (P.unify Q { returnBindings := true }).1 = .bound [("x", y), ("y", x)] := by decide
    cases hB₁.symm.trans hrun
    rfl
  exact ⟨hmatch, B₁, B₂, hB₁, hB₂, hvalue, (hinverse "x" "y").mp hvalue⟩

end Quad

end RdfStar
