import RdfStar.Match.Wildcard
import RdfStar.Proofs.Leaf.Apart
import RdfStar.Proofs.Match.Outcome

/-!
# Wildcards are variables renamed apart

A quad fits a pattern of wildcards if every leaf of the pattern is found in it, variables finding
anything. A match asks this too, and beyond it only that occurrences of one name find equal terms;
so on a linear pattern the two agree, and such a match has nothing to report.

Principal results: `fits_iff_leavesFound` — fitting a pattern is finding its leaves;
`unifies_iff_of_linear` — on linear patterns matching is fitting; `fitsPositions_eq_unify_apart` —
fitting any pattern is matching it with its variables renamed apart.
-/

namespace RdfStar

/-! ## Finding the leaves of a pattern -/

namespace Term

/-- Every leaf of a pattern is found at its path in a term, where variables find anything. -/
def LeavesFound (pattern t : Term) : Prop :=
  ∀ e ∈ pattern.frontier false, ∃ u, t.at? e.2 = some u ∧ (e.1.isVar = false → u = .leaf e.1)

/-- The comparison of whole quads accepts no more than the comparison of their positions. -/
theorem fits_quad (s p o g s' p' o' g' : Term) :
    fits (.quad s p o g) (.quad s' p' o' g') =
      (fits s s' && fits p p' && fits o o' && fits g g') := by
  rw [fits]
  by_cases heq : Nested.quad s p o g = .quad s' p' o' g'
  · obtain ⟨rfl, rfl, rfl, rfl⟩ := Nested.quad.inj heq
    simp [fits_self]
  · rw [decide_eq_false heq, Bool.or_false]

theorem fits_leaf_iff {a : Atom} {t : Term} :
    fits (.leaf a) t = true ↔ (a.isVar = false → t = .leaf a) := by
  cases a with
  | var x => simp [fits, Atom.isVar]
  | _ => simp [fits, Atom.isVar, eq_comm]

/-- **A term fits a pattern if every leaf of the pattern is found in it.** -/
theorem fits_iff_leavesFound {pattern t : Term} : fits pattern t = true ↔ LeavesFound pattern t := by
  induction pattern generalizing t with
  | leaf a => simp [fits_leaf_iff, LeavesFound, Nested.frontier, Nested.at?]
  | quad s p o g hs hp ho hg =>
    cases t with
    | leaf b =>
      constructor
      · intro h
        cases h
      · intro h
        -- a quad has some leaf, and an atom has nothing at its path
        obtain ⟨e, he⟩ := (Nested.quad s p o g).exists_mem_frontier false
        have hunmet : (Nested.leaf b).at? e.2 = none :=
          Nested.at?_leaf_of_mem_frontier (q := ⟨s, p, o, g⟩) he b
        obtain ⟨u, hu, -⟩ := h e he
        rw [hunmet] at hu
        cases hu
    | quad s' p' o' g' =>
      rw [fits_quad]
      simp only [Bool.and_eq_true, hs, hp, ho, hg, LeavesFound, Nested.frontier, Bool.false_and,
        Bool.false_eq_true, if_false, List.forall_mem_append, forall_mem_under, Nested.at?,
        Quad.get]

theorem fitsOptional_eq (constraint : Option Term) (t : Term) (x : String) :
    fitsOptional constraint t = fits (constraint.getD (.leaf (.var x))) t := by
  cases constraint with
  | none => exact (fits_var x t).symm
  | some pattern => rfl

end Term

namespace Quad

theorem fitsPattern_iff {P C : Quad Atom} :
    C.fitsPattern P = true ↔ Term.LeavesFound P.toNested C.toNested := by
  rw [← Term.fits_iff_leavesFound, toNested, toNested, Term.fits_quad]
  rfl

/-! ## Matching asks for more -/

theorem leavesFound_of_unifies {P C : Quad Atom} {skipVariables : Bool}
    (h : P.Unifies C skipVariables) : Term.LeavesFound P.toNested C.toNested := by
  rintro ⟨a, path⟩ he
  rw [← leaves_eq_frontier] at he
  obtain ⟨t, ht, hatom, -⟩ := unifies_iff.mp h a path he
  exact ⟨t, ht, hatom⟩

/-- A leaf of a linear pattern is the only one of its name, so its name is bound to what it
finds. -/
theorem Linear.value?_of_found {P C : Quad Atom} (h : P.Linear) {skipVariables : Bool} {x : String}
    {path : Path} {t : Term} (hleaf : (.var x, path) ∈ P.leaves false)
    (ht : C.toNested.at? path = some t) (hskip : (skipVariables && Term.isVar t) = false) :
    (P.finalBindings C skipVariables).value? x = some t := by
  obtain ⟨u, hu⟩ := exists_value?_of_leaf hleaf ht hskip
  obtain ⟨other, hother, hfound, -⟩ := exists_leaf_of_value? hu
  rw [← h.path_unique hleaf hother, ht] at hfound
  exact hu.trans hfound.symm

/-- **On a linear pattern, matching is fitting**, whether or not variables are let through. -/
theorem unifies_iff_of_linear {P C : Quad Atom} (h : P.Linear) (skipVariables : Bool) :
    P.Unifies C skipVariables ↔ C.fitsPattern P = true := by
  rw [fitsPattern_iff]
  constructor
  · exact leavesFound_of_unifies
  · intro hfound
    refine unifies_iff.mpr fun a path hleaf => ?_
    obtain ⟨t, ht, hatom⟩ := hfound (a, path) (P.leaves_eq_frontier false ▸ hleaf)
    refine ⟨t, ht, hatom, ?_⟩
    rintro x rfl hskip
    exact h.value?_of_found hleaf ht hskip

theorem conflicts_of_linear {P : Quad Atom} (h : P.Linear) (C : Quad Atom)
    (options : MatchOptions) : (P.unify C options).2 = [] := by
  refine conflicts_eq_nil fun e he => ?_
  obtain ⟨path, hleaf, ht, hskip⟩ := mem_occurrences_iff.mp he
  exact h.value?_of_found hleaf ht hskip

theorem unify_of_linear {P : Quad Atom} (h : P.Linear) (C : Quad Atom) :
    P.unify C {} = (if C.fitsPattern P then .matched else .mismatch, []) := by
  refine Prod.ext ?_ (conflicts_of_linear h C {})
  rw [unify_eq]
  simp only [unifies_iff_of_linear h]
  rfl

/-! ## Renaming apart -/

theorem leavesFound_apart {P : Quad Atom} {t : Term} :
    Term.LeavesFound P.apart.toNested t ↔ Term.LeavesFound P.toNested t := by
  rw [Term.LeavesFound, ← leaves_eq_frontier, leaves_apart, List.forall_mem_map,
    Term.LeavesFound, ← leaves_eq_frontier]
  refine forall_congr' fun e => forall_congr' fun _ => exists_congr fun u => and_congr_right fun _ => ?_
  rw [Atom.isVar_apart]
  refine forall_congr' fun ha => ?_
  rw [Atom.apart_of_not_var ha]

theorem fitsPattern_apart (P C : Quad Atom) : C.fitsPattern P.apart = C.fitsPattern P := by
  rw [Bool.eq_iff_iff, fitsPattern_iff, fitsPattern_iff, leavesFound_apart]

theorem unify_apart (P C : Quad Atom) :
    P.apart.unify C {} = (if C.fitsPattern P then .matched else .mismatch, []) := by
  rw [unify_of_linear P.linear_apart, fitsPattern_apart]

/-- The pattern of the given terms, with a variable of some name where there is none. -/
def ofConstraints (free : Position → String) (subject predicate object graph : Option Term) :
    Quad Atom where
  subject := subject.getD (.leaf (.var (free .subject)))
  predicate := predicate.getD (.leaf (.var (free .predicate)))
  object := object.getD (.leaf (.var (free .object)))
  graph := graph.getD (.leaf (.var (free .graph)))

theorem fitsPositions_eq (C : Quad Atom) (free : Position → String)
    (subject predicate object graph : Option Term) :
    C.fitsPositions subject predicate object graph =
      C.fitsPattern (ofConstraints free subject predicate object graph) := by
  rw [fitsPositions, Term.fitsOptional_eq subject _ (free .subject),
    Term.fitsOptional_eq predicate _ (free .predicate),
    Term.fitsOptional_eq object _ (free .object), Term.fitsOptional_eq graph _ (free .graph)]
  rfl

/-- **To fit given terms, with or without one for each position, is to match the pattern of these
terms in which every variable is named by its path; to fit a pattern is to match it with its
variables so named.** Such a match reports nothing. -/
theorem fitsPositions_eq_unify_apart (C : Quad Atom) :
    (∀ (free : Position → String) (subject predicate object graph : Option Term),
      ∃ P : Quad Atom,
        ((ofConstraints free subject predicate object graph).rewriteLeaves fun a path =>
          .leaf (a.apart path)) = pure P.toNested ∧
        P.unify C {} =
          (if C.fitsPositions subject predicate object graph then .matched else .mismatch, [])) ∧
    ∀ Q : Quad Atom, ∃ P : Quad Atom,
      (Q.rewriteLeaves fun a path => .leaf (a.apart path)) = pure P.toNested ∧
      P.unify C {} = (if C.fitsPattern Q then .matched else .mismatch, []) := by
  refine ⟨fun free subject predicate object graph => ?_, fun Q => ?_⟩
  · rw [C.fitsPositions_eq free]
    exact ⟨_, rewriteLeaves_eq_bindAt _ _, unify_apart _ C⟩
  · exact ⟨_, rewriteLeaves_eq_bindAt _ _, unify_apart Q C⟩

end Quad

end RdfStar
