import RdfStar.Proofs.Match.Outcome

/-!
# Matching as lookup of the leaves

Whether a candidate matches can be told without running the match: by looking up, in the candidate,
the path of every leaf of the pattern. Leaves that are no variables have to be found as they are,
and the occurrences of one name have to be found equal. If variables let variables through, an
occurrence that finds a variable is no constraint, whatever its name is bound to.

Principal results: `unify_iff_leaves_found` and `unify_skipping_iff_leaves_found` — success and
bindings of a match by lookup, in either mode; the latter also says that the modes differ only on
candidates with variables.
-/

namespace RdfStar.Quad

variable {P C : Quad Atom}

/-! ## Success -/

theorem unifies_iff_leaves_found (P C : Quad Atom) (skipVariables : Bool) :
    P.Unifies C skipVariables ↔
      (∀ a path, (a, path) ∈ P.leaves false →
        ∃ t, C.LeadsTo path t ∧ (a.isVar = false → t = .leaf a)) ∧
      ∀ x p q t u, (.var x, p) ∈ P.leaves false → (.var x, q) ∈ P.leaves false →
        C.LeadsTo p t → C.LeadsTo q u → (skipVariables && Term.isVar t) = false →
        (skipVariables && Term.isVar u) = false → t = u := by
  simp only [leadsTo_iff]
  constructor
  · intro h
    refine ⟨fun a path hleaf => ?_, fun x p q t u hp hq ht hu hskip hskip' => ?_⟩
    · obtain ⟨t, ht, hatom, -⟩ := unifies_iff.mp h a path hleaf
      exact ⟨t, ht, hatom⟩
    · have hbound := value?_of_found h hp ht hskip
      rw [value?_of_found h hq hu hskip'] at hbound
      exact (Option.some.inj hbound).symm
  · rintro ⟨hfound, hequal⟩
    refine unifies_iff.mpr fun a path hleaf => ?_
    obtain ⟨t, ht, hatom⟩ := hfound a path hleaf
    refine ⟨t, ht, hatom, ?_⟩
    rintro x rfl hskip
    -- the name is bound at its first occurrence, which finds an equal term
    obtain ⟨u, hu⟩ := exists_value?_of_leaf hleaf ht hskip
    obtain ⟨path', hleaf', hu', hskip'⟩ := exists_leaf_of_value? hu
    rw [hu, hequal x path path' t u hleaf hleaf' ht hu' hskip hskip']

/-- **A match succeeds exactly if every leaf is found in the candidate and the occurrences of each
name are found equal; each name is then bound to what its leaves find.** -/
theorem unify_iff_leaves_found (P C : Quad Atom) :
    ((P.unify C {}).1 = .matched ↔
      (∀ a path, (a, path) ∈ P.leaves false →
        ∃ t, C.LeadsTo path t ∧ (a.isVar = false → t = .leaf a)) ∧
      ∀ x p q t u, (.var x, p) ∈ P.leaves false → (.var x, q) ∈ P.leaves false →
        C.LeadsTo p t → C.LeadsTo q u → t = u) ∧
    ((P.unify C {}).1 = .matched →
      ∃ B, (P.unify C { returnBindings := true }).1 = .bound B ∧ B.names = P.varNames ∧
        ∀ x path, (.var x, path) ∈ P.leaves false →
          ∃ t, C.LeadsTo path t ∧ B.value? x = some t) := by
  rw [unify_eq_matched_iff]
  constructor
  · simpa using unifies_iff_leaves_found P C false
  · intro h
    refine ⟨_, unify_eq_bound_iff.mpr ⟨h, rfl⟩, names_finalBindings_false h, fun x path hleaf => ?_⟩
    obtain ⟨t, ht, -⟩ := unifies_iff.mp h (.var x) path hleaf
    exact ⟨t, leadsTo_iff.mpr ht, value?_of_found h hleaf ht (Bool.false_and _)⟩

/-- A name that occurs at two depths and is found equal at both. -/
theorem unify_iff_leaves_found_two_depths :
    let P : Quad Atom := ⟨.leaf (.var "x"), .leaf (.namedNode "p"), .quad (.leaf (.var "y"))
      (.leaf (.namedNode "q")) (.leaf (.var "x")) (.leaf .defaultGraph), .leaf (.var "g")⟩
    let C : Quad Atom := ⟨.leaf (.blankNode "b"), .leaf (.namedNode "p"), .quad (.leaf (.var "x"))
      (.leaf (.namedNode "q")) (.leaf (.blankNode "b")) (.leaf .defaultGraph), .leaf .defaultGraph⟩
    (P.unify C {}).1 = .matched ∧
      ∃ B, (P.unify C { returnBindings := true }).1 = .bound B ∧ B.names = P.varNames ∧
        ∀ x path, (.var x, path) ∈ P.leaves false →
          ∃ t, C.LeadsTo path t ∧ B.value? x = some t :=
  ⟨by decide, (unify_iff_leaves_found _ _).2 (by decide)⟩

/-! ## Letting variables through -/

/-- No term inside a quad without variables is a variable. -/
theorem isVar_of_at? (hC : ∀ a path, (a, path) ∈ C.leaves false → a.isVar = false) {path : Path}
    {t : Term} (ht : C.toNested.at? path = some t) : Term.isVar t = false := by
  cases t with
  | leaf a => exact hC a path (mem_leaves_iff.mpr ht)
  | quad s p o g => rfl

theorem meeting_found_not_var (hC : ∀ a path, (a, path) ∈ C.leaves false → a.isVar = false)
    {m : Meeting} (hm : m ∈ P.meetings C) {t : Term} (ht : m.found = some t) :
    Term.isVar t = false := by
  obtain ⟨path, -, hfound⟩ := mem_meetings_iff.mp hm
  exact isVar_of_at? hC (hfound.trans ht)

theorem occurrences_skipping (hC : ∀ a path, (a, path) ∈ C.leaves false → a.isVar = false) :
    P.occurrences C true = P.occurrences C false := by
  rw [occurrences_true, List.filter_eq_self]
  intro e he
  obtain ⟨path, -, ht, -⟩ := mem_occurrences_iff.mp he
  rw [isVar_of_at? hC ht]
  rfl

theorem unifies_skipping (hC : ∀ a path, (a, path) ∈ C.leaves false → a.isVar = false) :
    P.Unifies C true ↔ P.Unifies C false := by
  have hB : P.finalBindings C true = P.finalBindings C false := by
    rw [finalBindings, occurrences_skipping hC, finalBindings]
  refine forall_congr' fun m => forall_congr' fun hm => ?_
  rw [hB, Meeting.agrees_iff, Meeting.agrees_iff]
  refine exists_congr fun t => and_congr_right fun ht => ?_
  rw [meeting_found_not_var hC hm ht]
  rfl

/-- **With variables let through, a match succeeds exactly if every leaf is found in the candidate
and the occurrences of each name are found equal, those that find a variable left out; the names
that are bound are those with other occurrences. On a candidate without variables nothing
changes.** -/
theorem unify_skipping_iff_leaves_found (P C : Quad Atom) :
    ((P.unify C { skipVariables := true }).1 = .matched ↔
      (∀ a path, (a, path) ∈ P.leaves false →
        ∃ t, C.LeadsTo path t ∧ (a.isVar = false → t = .leaf a)) ∧
      ∀ x p q t u, (.var x, p) ∈ P.leaves false → (.var x, q) ∈ P.leaves false →
        C.LeadsTo p t → C.LeadsTo q u → Term.isVar t = false → Term.isVar u = false → t = u) ∧
    ((P.unify C { skipVariables := true }).1 = .matched →
      ∃ B, (P.unify C { skipVariables := true, returnBindings := true }).1 = .bound B ∧
        B.names = ((P.varLeaves.filter fun e => !C.hasVarAt e.2).map Prod.fst).eraseDups ∧
        ∀ x path t, (.var x, path) ∈ P.leaves false → C.LeadsTo path t → Term.isVar t = false →
          B.value? x = some t) ∧
    ((∀ a path, (a, path) ∈ C.leaves false → a.isVar = false) → ∀ returnBindings,
      P.unify C { skipVariables := true, returnBindings := returnBindings } =
        P.unify C { skipVariables := false, returnBindings := returnBindings }) := by
  rw [unify_eq_matched_iff]
  refine ⟨?_, fun h => ?_, fun hC returnBindings => ?_⟩
  · simpa using unifies_iff_leaves_found P C true
  · refine ⟨_, unify_eq_bound_iff.mpr ⟨h, rfl⟩, names_finalBindings h, ?_⟩
    intro x path t hleaf ht hvar
    exact value?_of_found h hleaf (leadsTo_iff.mp ht) hvar
  · simp only [unify_eq, unifies_skipping hC, occurrences_skipping hC, finalBindings]

/-- A name that is bound, then let through, then checked. -/
theorem unify_skipping_iff_leaves_found_between :
    let P : Quad Atom := ⟨.leaf (.var "x"), .leaf (.var "x"), .leaf (.var "x"), .leaf (.var "g")⟩
    let C : Quad Atom := ⟨.leaf (.blankNode "b"), .leaf (.var "v"), .leaf (.blankNode "b"),
      .leaf (.var "w")⟩
    (P.unify C { skipVariables := true }).1 = .matched ∧
      ∃ B, (P.unify C { skipVariables := true, returnBindings := true }).1 = .bound B ∧
        B.names = ["x"] := by
  intro P C
  have hmatch : (P.unify C { skipVariables := true }).1 = .matched := by decide
  obtain ⟨B, hB, hnames, -⟩ := (unify_skipping_iff_leaves_found P C).2.1 hmatch
  refine ⟨hmatch, B, hB, ?_⟩
  rw [hnames, varLeaves, leaves_eq_frontier]
  decide

end RdfStar.Quad
