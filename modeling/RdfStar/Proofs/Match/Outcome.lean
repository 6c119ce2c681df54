import RdfStar.Proofs.Match.Meeting

/-!
# The outcome of a match

A match succeeds exactly when the bindings with which it ends account for every leaf of the
pattern; they are what is answered, and every occurrence that they do not account for is reported.

Principal results: `unify_eq` — answer and conflicts from the final bindings; `unifies_iff` — what
success asks of the candidate, leaf by leaf; `conflicts_of_unifies` — success reports nothing.
-/

namespace RdfStar.Quad

/-- The leaves of a pattern, in traversal order, with what a candidate has at their paths. -/
def meetings (P C : Quad Atom) : List Meeting := Unify.meetings P.toNested C.toNested

/-- The occurrences of variables that a match takes in. -/
def occurrences (P C : Quad Atom) (skipVariables : Bool) : Bindings :=
  Meeting.occurrences skipVariables (P.meetings C)

/-- The bindings with which a match ends, whether or not it succeeds. -/
def finalBindings (P C : Quad Atom) (skipVariables : Bool) : Bindings :=
  Bindings.offerAll [] (P.occurrences C skipVariables)

/-- The bindings with which a match ends account for every leaf of the pattern. -/
def Unifies (P C : Quad Atom) (skipVariables : Bool) : Prop :=
  ∀ m ∈ P.meetings C, m.agrees skipVariables (P.finalBindings C skipVariables) = true

instance (P C : Quad Atom) (skipVariables : Bool) : Decidable (P.Unifies C skipVariables) :=
  inferInstanceAs (Decidable (∀ m ∈ P.meetings C, _))

theorem mem_meetings_iff {P C : Quad Atom} {m : Meeting} :
    m ∈ P.meetings C ↔ ∃ path, (m.leaf, path) ∈ P.leaves false ∧ C.toNested.at? path = m.found := by
  rw [meetings, Unify.meetings, ← leaves_eq_frontier, List.mem_map]
  constructor
  · rintro ⟨⟨a, path⟩, he, rfl⟩
    exact ⟨path, he, rfl⟩
  · rintro ⟨path, he, hfound⟩
    exact ⟨(m.leaf, path), he, by rw [hfound]⟩

theorem mem_occurrences_iff {P C : Quad Atom} {skipVariables : Bool} {x : String} {t : Term} :
    (x, t) ∈ P.occurrences C skipVariables ↔
      ∃ path, (.var x, path) ∈ P.leaves false ∧ C.toNested.at? path = some t ∧
        (skipVariables && Term.isVar t) = false := by
  rw [occurrences, Meeting.occurrences, List.mem_filterMap]
  constructor
  · rintro ⟨m, hm, hocc⟩
    obtain ⟨path, hleaf, hfound⟩ := mem_meetings_iff.mp hm
    obtain ⟨hvar, hsome, hskip⟩ := Meeting.occurrence?_eq_some_iff.mp hocc
    exact ⟨path, hvar ▸ hleaf, hfound.trans hsome, hskip⟩
  · rintro ⟨path, hleaf, hfound, hskip⟩
    exact ⟨⟨.var x, some t⟩, mem_meetings_iff.mpr ⟨path, hleaf, hfound⟩,
      Meeting.occurrence?_eq_some_iff.mpr ⟨rfl, rfl, hskip⟩⟩

theorem value?_finalBindings (P C : Quad Atom) (skipVariables : Bool) (x : String) :
    (P.finalBindings C skipVariables).value? x = (P.occurrences C skipVariables).value? x := by
  rw [finalBindings, Bindings.value?_offerAll]
  rfl

theorem keyed_finalBindings (P C : Quad Atom) (skipVariables : Bool) :
    (P.finalBindings C skipVariables).Keyed := Bindings.keyed_offerAll_nil _

theorem nodup_names_finalBindings (P C : Quad Atom) (skipVariables : Bool) :
    (P.finalBindings C skipVariables).names.Nodup :=
  Bindings.nodup_names_offerAll (b := []) List.nodup_nil _

/-- Whatever a name is bound to occurs in the candidate at one of its leaves. -/
theorem exists_leaf_of_value? {P C : Quad Atom} {skipVariables : Bool} {x : String} {t : Term}
    (h : (P.finalBindings C skipVariables).value? x = some t) :
    ∃ path, (.var x, path) ∈ P.leaves false ∧ C.toNested.at? path = some t ∧
      (skipVariables && Term.isVar t) = false := by
  rw [value?_finalBindings] at h
  exact mem_occurrences_iff.mp (Bindings.mem_of_value? h)

theorem exists_value?_of_leaf {P C : Quad Atom} {skipVariables : Bool} {x : String} {path : Path}
    {t : Term} (hleaf : (.var x, path) ∈ P.leaves false) (ht : C.toNested.at? path = some t)
    (hskip : (skipVariables && Term.isVar t) = false) :
    ∃ u, (P.finalBindings C skipVariables).value? x = some u := by
  have hmem : (x, t) ∈ P.occurrences C skipVariables :=
    mem_occurrences_iff.mpr ⟨path, hleaf, ht, hskip⟩
  rw [value?_finalBindings]
  exact Bindings.exists_value?_of_mem (List.mem_map_of_mem hmem)

/-- Leaf by leaf, what a match has to find in the candidate. -/
theorem unifies_iff {P C : Quad Atom} {skipVariables : Bool} :
    P.Unifies C skipVariables ↔
      ∀ a path, (a, path) ∈ P.leaves false →
        ∃ t, C.toNested.at? path = some t ∧ (a.isVar = false → t = .leaf a) ∧
          ∀ x, a = .var x → (skipVariables && Term.isVar t) = false →
            (P.finalBindings C skipVariables).value? x = some t := by
  constructor
  · intro h a path hleaf
    exact Meeting.agrees_iff.mp (h ⟨a, C.toNested.at? path⟩ (mem_meetings_iff.mpr ⟨path, hleaf, rfl⟩))
  · intro h m hm
    obtain ⟨path, hleaf, hfound⟩ := mem_meetings_iff.mp hm
    rw [Meeting.agrees_iff, ← hfound]
    exact h m.leaf path hleaf

theorem value?_of_found {P C : Quad Atom} {skipVariables : Bool} (h : P.Unifies C skipVariables)
    {x : String} {path : Path} {t : Term} (hleaf : (.var x, path) ∈ P.leaves false)
    (ht : C.toNested.at? path = some t) (hskip : (skipVariables && Term.isVar t) = false) :
    (P.finalBindings C skipVariables).value? x = some t := by
  obtain ⟨u, hu, -, hvar⟩ := unifies_iff.mp h (.var x) path hleaf
  cases ht.symm.trans hu
  exact hvar x rfl hskip

/-- The occurrences that a match takes in, by lookup of the variables of the pattern. -/
theorem occurrences_eq (P C : Quad Atom) (skipVariables : Bool) :
    P.occurrences C skipVariables = P.varLeaves.filterMap fun e =>
      (C.toNested.at? e.2).bind fun t =>
        if skipVariables && Term.isVar t then none else some (e.1, t) := by
  rw [occurrences, Meeting.occurrences, meetings, Unify.meetings, ← leaves_eq_frontier,
    List.filterMap_map, varLeaves, List.filterMap_filterMap]
  refine List.filterMap_congr fun e _ => ?_
  obtain ⟨a, path⟩ := e
  cases a with
  | var x =>
    simp only [Function.comp_apply, Atom.var?, Option.map_some, Option.bind_some]
    cases C.toNested.at? path <;> rfl
  | _ => simp [Meeting.occurrence?, Atom.var?]

/-- What is let through is what would otherwise stand for a variable. -/
theorem occurrences_true (P C : Quad Atom) :
    P.occurrences C true = (P.occurrences C false).filter fun e => !Term.isVar e.2 := by
  rw [occurrences_eq, occurrences_eq, List.filter_filterMap]
  refine List.filterMap_congr fun e _ => ?_
  cases C.toNested.at? e.2 with
  | none => rfl
  | some t => cases hvar : Term.isVar t <;> simp [Option.filter_some, hvar]

theorem names_occurrences {P C : Quad Atom} {skipVariables : Bool}
    (h : P.Unifies C skipVariables) :
    (P.occurrences C skipVariables).names =
      (P.varLeaves.filter fun e => !(skipVariables && C.hasVarAt e.2)).map Prod.fst := by
  rw [occurrences_eq, Bindings.names, List.map_filterMap, ← List.filterMap_eq_map,
    List.filterMap_filter]
  refine List.filterMap_congr fun e he => ?_
  obtain ⟨x, path⟩ := e
  obtain ⟨t, ht, -⟩ := unifies_iff.mp h (.var x) path (mem_varLeaves_iff.mp he)
  rw [ht, (leadsTo_iff.mpr ht).hasVarAt, Option.bind_some]
  cases skipVariables && Term.isVar t <;> rfl

/-- A match that succeeds binds the names with an occurrence that is not let through, in the order
of their first such occurrences. -/
theorem names_finalBindings {P C : Quad Atom} {skipVariables : Bool}
    (h : P.Unifies C skipVariables) :
    (P.finalBindings C skipVariables).names =
      ((P.varLeaves.filter fun e => !(skipVariables && C.hasVarAt e.2)).map
        Prod.fst).eraseDups := by
  rw [finalBindings, Bindings.names_offerAll_nil, names_occurrences h]

theorem names_finalBindings_false {P C : Quad Atom} (h : P.Unifies C false) :
    (P.finalBindings C false).names = P.varNames := by
  rw [names_finalBindings h]
  simp [varNames]

theorem matching_eq (P C : Quad Atom) (skipVariables : Bool) :
    P.matching C skipVariables =
      (decide (P.Unifies C skipVariables),
        MatchState.after {} (P.occurrences C skipVariables)) := by
  have hall : (P.meetings C).all (Meeting.agrees skipVariables (P.finalBindings C skipVariables)) =
      decide (P.Unifies C skipVariables) := by
    rw [Bool.eq_iff_iff, List.all_eq_true, decide_eq_true_iff, Unifies]
  rw [matching, Unify.compare_eq_runAll, Meeting.runAll_run, ← hall]
  rfl

/-- **Answer and conflicts of a match, read off the bindings with which it ends.** -/
theorem unify_eq (P C : Quad Atom) (options : MatchOptions) :
    P.unify C options =
      (if P.Unifies C options.skipVariables then
        if options.returnBindings then .bound (P.finalBindings C options.skipVariables)
        else .matched
      else .mismatch,
      (P.occurrences C options.skipVariables).filterMap
        (P.finalBindings C options.skipVariables).conflict?) := by
  rw [unify, matching_eq]
  simp only [decide_eq_true_eq, MatchState.after, List.nil_append]
  rfl

theorem unify_eq_matched_iff {P C : Quad Atom} {skipVariables : Bool} :
    (P.unify C { skipVariables := skipVariables }).1 = .matched ↔ P.Unifies C skipVariables := by
  rw [unify_eq]
  by_cases h : P.Unifies C skipVariables <;> simp [h]

theorem unify_eq_bound_iff {P C : Quad Atom} {skipVariables : Bool} {B : Bindings} :
    (P.unify C { skipVariables := skipVariables, returnBindings := true }).1 = .bound B ↔
      P.Unifies C skipVariables ∧ P.finalBindings C skipVariables = B := by
  rw [unify_eq]
  by_cases h : P.Unifies C skipVariables <;> simp [h]

theorem unify_ne_mismatch_iff {P C : Quad Atom} {options : MatchOptions} :
    (P.unify C options).1 ≠ .mismatch ↔ P.Unifies C options.skipVariables := by
  rw [unify_eq]
  by_cases h : P.Unifies C options.skipVariables
  · cases hreturn : options.returnBindings <;> simp [h]
  · simp [h]

/-- At the end of a match that succeeds, every occurrence agrees with the binding of its name. -/
theorem value?_of_mem_occurrences {P C : Quad Atom} {skipVariables : Bool}
    (h : P.Unifies C skipVariables) {e : String × Term} (he : e ∈ P.occurrences C skipVariables) :
    (P.finalBindings C skipVariables).value? e.1 = some e.2 := by
  obtain ⟨path, hleaf, ht, hskip⟩ := mem_occurrences_iff.mp he
  exact value?_of_found h hleaf ht hskip

theorem conflicts_eq_nil {P C : Quad Atom} {options : MatchOptions}
    (h : ∀ e ∈ P.occurrences C options.skipVariables,
      (P.finalBindings C options.skipVariables).value? e.1 = some e.2) :
    (P.unify C options).2 = [] := by
  rw [unify_eq, List.filterMap_eq_nil_iff]
  intro e he
  simp [Bindings.conflict?, h e he]

/-- **A match that succeeds reports no conflict.** -/
theorem conflicts_of_unifies {P C : Quad Atom} {options : MatchOptions}
    (h : P.Unifies C options.skipVariables) : (P.unify C options).2 = [] :=
  conflicts_eq_nil fun _ he => value?_of_mem_occurrences h he

theorem unify_of_unifies {P C : Quad Atom} {skipVariables : Bool} (h : P.Unifies C skipVariables) :
    P.unify C { skipVariables := skipVariables, returnBindings := true } =
      (.bound (P.finalBindings C skipVariables), []) :=
  Prod.ext (unify_eq_bound_iff.mpr ⟨h, rfl⟩) (conflicts_of_unifies h)

end RdfStar.Quad
