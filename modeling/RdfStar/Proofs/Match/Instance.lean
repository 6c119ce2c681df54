import RdfStar.Proofs.Leaf.Rewriting
import RdfStar.Proofs.Match.Outcome

/-!
# Instances of a pattern

An instance of a pattern is the pattern with an assignment of terms put in for its variables. A
match finds out whether the candidate is an instance, and of which assignment.

Principal results: `unify_matches_instances` — the candidates that match are the instances of the
pattern, and the bindings are the assignment on the variables of the pattern; `unify_compose` —
matches compose as substitutions do, so an instance of a matching candidate matches.
-/

namespace RdfStar

/-- To leave a name free is to keep its variable. -/
theorem Atom.substitute_getD (σ : String → Option Term) :
    (Atom.substitute fun x => some ((σ x).getD (.leaf (.var x)))) = Atom.substitute σ := by
  funext a
  cases a <;> rfl

namespace Quad

/-! ## Bindings and instances -/

/-- The terms that a match binds turn the pattern into the candidate. -/
theorem substitute_of_unifies {P C : Quad Atom} (h : P.Unifies C false) :
    P.substitute (P.finalBindings C false).value? = C := by
  apply toNested_injective
  rw [substitute, toNested_bind, Nested.bind_eq_iff]
  rintro ⟨a, path⟩ he
  obtain ⟨t, ht, hatom, hvar⟩ := unifies_iff.mp h a path (P.leaves_eq_frontier false ▸ he)
  rw [ht]
  cases a with
  | var x => rw [Atom.substitute, hvar x rfl rfl]; rfl
  | _ => rw [hatom rfl]; rfl

/-- In an instance, the term at the path of a leaf is what the leaf stands for. -/
theorem at?_substitute (P : Quad Atom) (σ : String → Option Term) {a : Atom} {path : Path}
    (hleaf : (a, path) ∈ P.leaves false) :
    (P.substitute σ).toNested.at? path = some (a.substitute σ) :=
  Nested.bind_eq_iff.mp (P.toNested_bind _).symm (a, path) (P.leaves_eq_frontier false ▸ hleaf)

theorem value?_finalBindings_substitute {P : Quad Atom} {s : String → Term} {x : String} {t : Term}
    (h : (P.finalBindings (P.substitute fun y => some (s y)) false).value? x = some t) :
    t = s x := by
  obtain ⟨path, hleaf, ht, -⟩ := exists_leaf_of_value? h
  rw [P.at?_substitute _ hleaf] at ht
  exact (Option.some.inj ht).symm

/-- A pattern matches each of its instances. -/
theorem unifies_substitute (P : Quad Atom) (s : String → Term) :
    P.Unifies (P.substitute fun x => some (s x)) false := by
  refine unifies_iff.mpr fun a path hleaf => ?_
  have ht := P.at?_substitute (fun x => some (s x)) hleaf
  refine ⟨_, ht, fun ha => ?_, ?_⟩
  · cases a with
    | var x => cases ha
    | _ => rfl
  · rintro x rfl -
    obtain ⟨u, hu⟩ := exists_value?_of_leaf hleaf ht (Bool.false_and _)
    rw [hu, value?_finalBindings_substitute hu]
    rfl

theorem finalBindings_substitute (P : Quad Atom) (s : String → Term) :
    P.finalBindings (P.substitute fun x => some (s x)) false =
      P.varNames.map fun x => (x, s x) := by
  have hkeyed := Bindings.keyed_offerAll_nil (P.occurrences (P.substitute fun x => some (s x)) false)
  have hvalues := hkeyed.map_eq Prod.mk (g := fun x => (x, s x)) fun x t hx => by
    rw [value?_finalBindings_substitute hx]
  rw [← names_finalBindings_false (P.unifies_substitute s), finalBindings, ← hvalues]
  simp

theorem unify_substitute (P : Quad Atom) (s : String → Term) :
    P.unify (P.substitute fun x => some (s x)) { returnBindings := true } =
      (.bound (P.varNames.map fun x => (x, s x)), []) := by
  rw [← finalBindings_substitute]
  exact unify_of_unifies (P.unifies_substitute s)

/-- Two assignments with one instance agree on the variables of the pattern. -/
theorem eq_of_substitute_eq {P : Quad Atom} {s s' : String → Term}
    (h : (P.substitute fun x => some (s x)) = P.substitute fun x => some (s' x)) {x : String}
    (hx : x ∈ P.varNames) : s x = s' x := by
  obtain ⟨path, hleaf⟩ := mem_varNames_iff.mp hx
  have hs := P.at?_substitute (fun y => some (s y)) hleaf
  have hs' := P.at?_substitute (fun y => some (s' y)) hleaf
  rw [h, hs'] at hs
  exact (Option.some.inj hs).symm

/-! ## Matching finds the assignment -/

/-- The pattern with the terms of an assignment put in for its variables. -/
def instantiate (P : Quad Atom) (s : String → Term) : StateM LabelSupply Term :=
  P.rewriteLeaves fun a _ => a.substitute fun x => some (s x)

theorem instantiate_eq_pure_iff {P Q : Quad Atom} {s : String → Term} :
    P.instantiate s = pure Q.toNested ↔ (P.substitute fun x => some (s x)) = Q :=
  rewriteLeaves_eq_pure_iff

theorem unifies_iff_exists_substitute {P C : Quad Atom} :
    P.Unifies C false ↔ ∃ s : String → Term, (P.substitute fun x => some (s x)) = C := by
  constructor
  · intro h
    refine ⟨fun x => ((P.finalBindings C false).value? x).getD (.leaf (.var x)), ?_⟩
    rw [substitute, Atom.substitute_getD]
    exact substitute_of_unifies h
  · rintro ⟨s, rfl⟩
    exact P.unifies_substitute s

/-- **The candidates that match are the instances of the pattern, and the bindings of a match are
the one assignment that yields the candidate, on the variables of the pattern.** -/
theorem unify_matches_instances (P C : Quad Atom) :
    (∀ B, (P.unify C { returnBindings := true }).1 = .bound B →
      B.names = P.varNames ∧
        (P.rewriteLeaves fun a _ => a.substitute B.value?) = pure C.toNested) ∧
    (∀ s : String → Term, ∃ Q : Quad Atom, P.instantiate s = pure Q.toNested ∧
      P.unify Q { returnBindings := true } = (.bound (P.varNames.map fun x => (x, s x)), [])) ∧
    ((P.unify C {}).1 = .matched ↔ ∃ s : String → Term, P.instantiate s = pure C.toNested) ∧
    ∀ s s' : String → Term, P.instantiate s = pure C.toNested →
      P.instantiate s' = pure C.toNested → ∀ x ∈ P.varNames, s x = s' x := by
  refine ⟨fun B hB => ?_, fun s => ?_, ?_, fun s s' hs hs' x hx => ?_⟩
  · obtain ⟨hunifies, rfl⟩ := unify_eq_bound_iff.mp hB
    exact ⟨names_finalBindings_false hunifies,
      rewriteLeaves_eq_pure_iff.mpr (substitute_of_unifies hunifies)⟩
  · exact ⟨_, instantiate_eq_pure_iff.mpr rfl, P.unify_substitute s⟩
  · simp only [instantiate_eq_pure_iff]
    exact unify_eq_matched_iff.trans unifies_iff_exists_substitute
  · rw [instantiate_eq_pure_iff] at hs hs'
    exact eq_of_substitute_eq (hs.trans hs'.symm) hx

/-- A name that occurs twice, once below a quoted quad, and stands for a quad with variables. -/
theorem unify_matches_instances_quoted :
    let P : Quad Atom := ⟨.leaf (.var "x"), .leaf (.namedNode "p"), .quad (.leaf (.var "x"))
      (.leaf (.namedNode "q")) (.leaf (.var "y")) (.leaf .defaultGraph), .leaf .defaultGraph⟩
    let t : Term := .quad (.leaf (.var "y")) (.leaf (.namedNode "p")) (.leaf (.blankNode "b"))
      (.leaf .defaultGraph)
    let C : Quad Atom := ⟨t, .leaf (.namedNode "p"), .quad t (.leaf (.namedNode "q"))
      (.leaf (.var "x")) (.leaf .defaultGraph), .leaf .defaultGraph⟩
    let B : Bindings := [("x", t), ("y", .leaf (.var "x"))]
    (P.unify C { returnBindings := true }).1 = .bound B ∧
      (P.rewriteLeaves fun a _ => a.substitute B.value?) = pure C.toNested :=
  ⟨by decide, ((unify_matches_instances _ _).1 _ (by decide)).2⟩

/-! ## Matches compose -/

/-- An instance of a matching candidate is the pattern with the bindings rewritten in turn. -/
theorem substitute_candidate {P Q : Quad Atom} (h : P.Unifies Q false) (σ : String → Option Term) :
    Q.substitute σ = P.substitute fun x =>
      some (Term.substitute σ (((P.finalBindings Q false).value? x).getD (.leaf (.var x)))) := by
  have hQ := congrArg toNested (substitute_of_unifies h)
  apply toNested_injective
  calc (Q.substitute σ).toNested
      = Term.substitute σ (Term.substitute (P.finalBindings Q false).value? P.toNested) :=
        congrArg (Term.substitute σ) hQ.symm
    _ = _ := Term.substitute_substitute _ σ P.toNested

/-- The variables of a term that a match binds are variables of the candidate. -/
theorem mem_varNames_of_bound {P Q : Quad Atom} {x y : String} {t : Term} {path : Path}
    (hx : (P.finalBindings Q false).value? x = some t) (hy : t.at? path = some (.leaf (.var y))) :
    y ∈ Q.varNames := by
  obtain ⟨whole, -, ht, -⟩ := exists_leaf_of_value? hx
  refine mem_varNames_iff.mpr ⟨whole ++ path, mem_leaves_iff.mpr ?_⟩
  rw [Nested.at?_append, ht]
  exact hy

/-- **Matches compose**: if the candidate of one match is the pattern of another, the first pattern
matches the last candidate, with the second bindings applied to the first. -/
theorem unify_compose (P Q : Quad Atom) :
    (∀ R B₁ B₂, (P.unify Q { returnBindings := true }).1 = .bound B₁ →
      (Q.unify R { returnBindings := true }).1 = .bound B₂ →
      P.unify R { returnBindings := true } =
          (.bound (B₁.map fun e => (e.1, Term.substitute B₂.value? e.2)), []) ∧
        ∀ x t path y, B₁.value? x = some t → t.at? path = some (.leaf (.var y)) → y ∈ B₂.names) ∧
    (∀ R, (P.unify Q {}).1 = .matched → (Q.unify R {}).1 = .matched →
      (P.unify R {}).1 = .matched) ∧
    ∀ s : String → Term, (P.unify Q {}).1 = .matched →
      ∃ R : Quad Atom, Q.instantiate s = pure R.toNested ∧ (P.unify R {}).1 = .matched := by
  refine ⟨fun R B₁ B₂ h₁ h₂ => ?_, fun R h₁ h₂ => ?_, fun s h => ?_⟩
  · obtain ⟨hPQ, hB₁⟩ := unify_eq_bound_iff.mp h₁
    obtain ⟨hQR, hB₂⟩ := unify_eq_bound_iff.mp h₂
    have hR : Q.substitute B₂.value? = R := hB₂ ▸ substitute_of_unifies hQR
    rw [substitute_candidate hPQ, hB₁] at hR
    have hkeyed : B₁.Keyed := hB₁ ▸ Bindings.keyed_offerAll_nil _
    constructor
    · rw [← hR, unify_substitute, ← names_finalBindings_false hPQ, hB₁]
      rw [hkeyed.map_eq fun x t => (x, Term.substitute B₂.value? t)]
      intro x t hx
      rw [hx]
      rfl
    · intro x t path y hx hy
      rw [← hB₂, names_finalBindings_false hQR]
      exact mem_varNames_of_bound (hB₁ ▸ hx) hy
  · rw [unify_eq_matched_iff] at *
    obtain ⟨s, rfl⟩ := unifies_iff_exists_substitute.mp h₂
    rw [substitute_candidate h₁]
    exact P.unifies_substitute _
  · rw [unify_eq_matched_iff] at h
    refine ⟨_, instantiate_eq_pure_iff.mpr rfl, ?_⟩
    rw [unify_eq_matched_iff, substitute_candidate h]
    exact P.unifies_substitute _

/-- Three quads that share names: the variables of the second are constants for the first. -/
theorem unify_compose_shared_names :
    let P : Quad Atom := ⟨.leaf (.var "x"), .leaf (.namedNode "p"), .leaf (.var "y"),
      .leaf .defaultGraph⟩
    let Q : Quad Atom := ⟨.quad (.leaf (.var "y")) (.leaf (.namedNode "q")) (.leaf (.var "z"))
      (.leaf .defaultGraph), .leaf (.namedNode "p"), .leaf (.var "y"), .leaf .defaultGraph⟩
    let R : Quad Atom := ⟨.quad (.leaf (.var "x")) (.leaf (.namedNode "q"))
      (.leaf (.blankNode "b")) (.leaf .defaultGraph), .leaf (.namedNode "p"), .leaf (.var "x"),
      .leaf .defaultGraph⟩
    (P.unify Q { returnBindings := true }).1 =
        .bound [("x", Q.subject), ("y", .leaf (.var "y"))] ∧
      (Q.unify R { returnBindings := true }).1 =
        .bound [("y", .leaf (.var "x")), ("z", .leaf (.blankNode "b"))] ∧
      P.unify R { returnBindings := true } =
        (.bound [("x", R.subject), ("y", .leaf (.var "x"))], []) := by
  intro P Q R
  have hPQ : (P.unify Q { returnBindings := true }).1 =
      .bound [("x", Q.subject), ("y", .leaf (.var "y"))] := by decide
  have hQR : (Q.unify R { returnBindings := true }).1 =
      .bound [("y", .leaf (.var "x")), ("z", .leaf (.blankNode "b"))] := by decide
  exact ⟨hPQ, hQR, ((unify_compose P Q).1 R _ _ hPQ hQR).1⟩

end Quad

end RdfStar
