import Mathlib.Logic.Function.Basic
import RdfStar.Leaf.Operations
import RdfStar.Proofs.Match.Outcome
import RdfStar.TermList

/-!
# The names that a match binds

A match meets the variables of its pattern in traversal order and binds each name where it meets it
first, so the names that are bound at the end can be told from the pattern alone: they are its
variables without repetitions. The bindings are kept on the way whether or not they are asked for.

Principal results: `Quad.ofType_var_allLeaves` — the variables among the leaves of a quad;
`Quad.unify_binds_variables` — the names that a match binds, and that asking for the bindings changes
nothing else.
-/

namespace RdfStar

/-! ## Variables without repetitions -/

/-- Where different entries stand for different terms, repetitions are erased before or after the
entries are turned into terms. -/
theorem TermList.uniq_map_of_injective {β : Type} [DecidableEq β] {f : β → Term}
    (hf : Function.Injective f) : ∀ entries : List β, uniq (entries.map f) = entries.eraseDups.map f
  | [] => rfl
  | e :: rest => by
    have hrest := uniq_map_of_injective hf (rest.filter fun d => !d == e)
    have hsame : ((fun t => !t == f e) ∘ f) = fun d => !d == e := by
      funext d
      simp [hf.eq_iff]
    rw [uniq] at hrest ⊢
    rw [List.map_cons, List.eraseDups_cons, List.eraseDups_cons, List.map_cons, List.filter_map,
      hsame, hrest]
termination_by entries => entries.length
decreasing_by exact Nat.lt_succ_of_le (List.length_filter_le _ rest)

namespace Quad

/-- The variables among the leaves, as a list of terms. -/
theorem ofType_var_allLeaves (q : Quad Atom) :
    TermList.ofType .var ((q.allLeaves false).map .leaf) =
      (q.varLeaves.map Prod.fst).map fun x => .leaf (.var x) := by
  rw [allLeaves, varLeaves, TermList.ofType]
  induction q.leaves false with
  | nil => rfl
  | cons e rest ih =>
    obtain ⟨a, path⟩ := e
    cases a with
    | var x => exact congrArg (Nested.leaf (.var x) :: ·) ih
    | _ => exact ih

theorem uniq_variables (q : Quad Atom) :
    TermList.uniq (TermList.ofType .var ((q.allLeaves false).map .leaf)) =
      q.varNames.map fun x => .leaf (.var x) := by
  have hinjective : Function.Injective fun x : String => (.leaf (.var x) : Term) :=
    fun x y h => Atom.var.inj (Nested.leaf.inj h)
  rw [ofType_var_allLeaves, TermList.uniq_map_of_injective hinjective, varNames]

/-! ## Asking for the bindings -/

theorem unify_eq_mismatch_iff {P C : Quad Atom} {options : MatchOptions} :
    (P.unify C options).1 = .mismatch ↔ ¬P.Unifies C options.skipVariables := by
  rw [← unify_ne_mismatch_iff, Classical.not_not]

theorem exists_bound_iff {P C : Quad Atom} {skipVariables : Bool} :
    (∃ B, (P.unify C { skipVariables := skipVariables, returnBindings := true }).1 = .bound B) ↔
      (P.unify C { skipVariables := skipVariables }).1 = .matched := by
  simp only [unify_eq_bound_iff, unify_eq_matched_iff, exists_and_left, exists_eq', and_true]

/-- **A match binds every variable of its pattern once, in the order of first occurrences.** To ask
for the bindings changes neither whether a match succeeds nor what it reports. -/
theorem unify_binds_variables (P C : Quad Atom) :
    ((P.unify C {}).1 = .matched →
      ∃ B, (P.unify C { returnBindings := true }).1 = .bound B ∧ B.names.Nodup ∧
        (B.names.map fun x => (.leaf (.var x) : Term)) =
          TermList.uniq (TermList.ofType .var ((P.allLeaves false).map .leaf))) ∧
    ∀ skipVariables,
      ((∃ B, (P.unify C { skipVariables := skipVariables, returnBindings := true }).1 = .bound B) ↔
        (P.unify C { skipVariables := skipVariables }).1 = .matched) ∧
      ((P.unify C { skipVariables := skipVariables, returnBindings := true }).1 = .mismatch ↔
        (P.unify C { skipVariables := skipVariables }).1 = .mismatch) ∧
      (P.unify C { skipVariables := skipVariables, returnBindings := true }).2 =
        (P.unify C { skipVariables := skipVariables }).2 := by
  refine ⟨fun h => ?_, fun skipVariables => ⟨exists_bound_iff, ?_, ?_⟩⟩
  · have hunifies := unify_eq_matched_iff.mp h
    refine ⟨_, unify_eq_bound_iff.mpr ⟨hunifies, rfl⟩, nodup_names_finalBindings P C false, ?_⟩
    rw [names_finalBindings_false hunifies, uniq_variables]
  · rw [unify_eq_mismatch_iff, unify_eq_mismatch_iff]
  · rw [unify_eq, unify_eq]

/-- Names that occur again at other depths, one of them first inside a quoted quad. -/
theorem unify_binds_variables_repeated :
    let p : Term := .leaf (.namedNode "p")
    let x : Term := .leaf (.var "x")
    let y : Term := .leaf (.var "y")
    let P : Quad Atom := ⟨.quad p y x p, x, .quad p p (.quad y y x p) p, .leaf (.var "g")⟩
    let C : Quad Atom := ⟨.quad p x p p, p, .quad p p (.quad x x p p) p, .leaf .defaultGraph⟩
    (P.unify C {}).1 = .matched ∧
      ∃ B, (P.unify C { returnBindings := true }).1 = .bound B ∧ B.names = ["y", "x", "g"] ∧
        (B.names.map fun x => (.leaf (.var x) : Term)) =
          TermList.uniq (TermList.ofType .var ((P.allLeaves false).map .leaf)) := by
  intro p x y P C
  have hmatch : (P.unify C {}).1 = .matched := by decide
  obtain ⟨B, hB, -, hnames⟩ := (unify_binds_variables P C).1 hmatch
  have hrun : (P.unify C { returnBindings := true }).1 =
      .bound [("y", x), ("x", p), ("g", .leaf .defaultGraph)] := by decide
  refine ⟨hmatch, B, hB, ?_, hnames⟩
  cases hB.symm.trans hrun
  rfl

end Quad

end RdfStar
