import RdfStar.Proofs.Match.Agreement
import RdfStar.Proofs.Match.Wildcard

/-!
# From strict to lenient matching

A match that binds every variable is the strictest; one that lets variables of the candidate
through asks for less and binds less; fitting a pattern of wildcards asks for the leaves alone. What
one of them accepts, the next accepts as well, and on a pattern in which no variable is repeated
there is nothing between them.

Principal results: `finalBindings_skipping` — the bindings of the lenient match are those of the
strict one without variables; `unify_strictness` — the order of the three, and when they agree.
-/

namespace RdfStar.Quad

variable {P C : Quad Atom}

/-- **The bindings of a lenient match are those of the strict one, without the variables.** -/
theorem finalBindings_skipping (h : P.Unifies C false) :
    P.finalBindings C true = (P.finalBindings C false).filter fun e => !Term.isVar e.2 := by
  have hend : ∀ e ∈ P.occurrences C false,
      (Bindings.offerAll [] (P.occurrences C false)).value? e.1 = some e.2 :=
    fun _ he => value?_of_mem_occurrences h he
  rw [finalBindings, occurrences_true, finalBindings, Bindings.filter_offerAll hend]
  rfl

theorem unifies_skipping_of_unifies (h : P.Unifies C false) : P.Unifies C true := by
  obtain ⟨hfound, hequal⟩ := (unifies_iff_leaves_found P C false).mp h
  refine (unifies_iff_leaves_found P C true).mpr ⟨hfound, ?_⟩
  intro x p q t u hp hq ht hu _ _
  exact hequal x p q t u hp hq ht hu (Bool.false_and _) (Bool.false_and _)

/-- **Strict matching implies lenient matching, with the bindings to variables left out, and that
implies fitting; where no variable is repeated, all three agree.** -/
theorem unify_strictness (P C : Quad Atom) :
    (∀ B, (P.unify C { returnBindings := true }).1 = .bound B →
      (P.unify C { skipVariables := true, returnBindings := true }).1 =
        .bound (B.filter fun e => !Term.isVar e.2)) ∧
    ((P.unify C {}).1 = .matched → (P.unify C { skipVariables := true }).1 = .matched) ∧
    ((P.unify C { skipVariables := true }).1 = .matched → C.fitsPattern P = true) ∧
    ((P.varLeaves.map Prod.fst).Nodup →
      ((P.unify C {}).1 = .matched ↔ C.fitsPattern P = true) ∧
        ((P.unify C { skipVariables := true }).1 = .matched ↔ C.fitsPattern P = true)) := by
  refine ⟨fun B hB => ?_, fun h => ?_, fun h => ?_, fun hlinear => ⟨?_, ?_⟩⟩
  · obtain ⟨hunifies, rfl⟩ := unify_eq_bound_iff.mp hB
    exact unify_eq_bound_iff.mpr
      ⟨unifies_skipping_of_unifies hunifies, finalBindings_skipping hunifies⟩
  · exact unify_eq_matched_iff.mpr (unifies_skipping_of_unifies (unify_eq_matched_iff.mp h))
  · exact fitsPattern_iff.mpr (leavesFound_of_unifies (unify_eq_matched_iff.mp h))
  · exact unify_eq_matched_iff.trans (unifies_iff_of_linear hlinear false)
  · exact unify_eq_matched_iff.trans (unifies_iff_of_linear hlinear true)

/-- A repeated variable that finds one variable twice, and a pattern in which none is repeated. -/
theorem unify_strictness_bound_to_variable :
    let p : Term := .leaf (.namedNode "p")
    let v : Term := .leaf (.var "v")
    let b : Term := .leaf (.blankNode "b")
    let P : Quad Atom := ⟨.leaf (.var "x"), p, .quad (.leaf (.var "x")) p (.leaf (.var "y")) p, p⟩
    let C : Quad Atom := ⟨v, p, .quad v p b p, p⟩
    let L : Quad Atom := ⟨.leaf (.var "x"), p, .leaf (.var "y"), p⟩
    (P.unify C { returnBindings := true }).1 = .bound [("x", v), ("y", b)] ∧
      (P.unify C { skipVariables := true, returnBindings := true }).1 = .bound [("y", b)] ∧
      C.fitsPattern P = true ∧ L.Linear ∧
      ((L.unify C {}).1 = .matched ↔ C.fitsPattern L = true) := by
  intro p v b P C L
  have hbound : (P.unify C { returnBindings := true }).1 = .bound [("x", v), ("y", b)] := by decide
  have hskip : (P.unify C { skipVariables := true }).1 = .matched :=
    (unify_strictness P C).2.1 (by decide)
  have hlinear : L.Linear := by
    rw [Linear, varLeaves, leaves_eq_frontier]
    decide
  exact ⟨hbound, (unify_strictness P C).1 _ hbound, (unify_strictness P C).2.2.1 hskip, hlinear,
    ((unify_strictness L C).2.2.2 hlinear).1⟩

end RdfStar.Quad
