import RdfStar.Proofs.Match.Outcome

/-!
# The conflicts that a match reports

An occurrence of a variable is active if there is a term at its path in the candidate, and that
term is not a variable that is let through. The first active occurrence of a name decides what the
name stands for; every later one that finds another term is reported. Nothing else matters to the
report: neither the other leaves of the pattern nor whether the match succeeds.

Principal results: `activeLeaves_eq_occurrences` — the occurrences that a match takes in are the
active ones; `unify_reports_disagreements` — the messages of a match, one for each active occurrence
that differs from the first of its name.
-/

namespace RdfStar

/-! ## Active occurrences -/

namespace Quad

/-- The term at a path of a candidate, unless it is a variable that is let through. -/
def activeTerm? (C : Quad Atom) (skipVariables : Bool) (path : Path) : Option Term :=
  match (resolve C.toNested path.names).outcome.1 with
  | .ok t => if skipVariables && Term.isVar t then none else some t
  | .error _ => none

/-- The variables of a pattern with what they find in a candidate, in traversal order, as far as
they are active. -/
def activeLeaves (P C : Quad Atom) (skipVariables : Bool) : List (String × Term) :=
  P.varLeaves.filterMap fun e => (C.activeTerm? skipVariables e.2).map fun t => (e.1, t)

theorem activeTerm?_eq (C : Quad Atom) (skipVariables : Bool) (path : Path) :
    C.activeTerm? skipVariables path =
      (C.toNested.at? path).bind fun t =>
        if skipVariables && Term.isVar t then none else some t := by
  rw [activeTerm?]
  cases hfound : C.toNested.at? path with
  | some t =>
    have hlookup : (resolve C.toNested path.names).outcome = (.ok t, []) := leadsTo_iff.mpr hfound
    rw [hlookup]
    rfl
  | none =>
    cases hlookup : (resolve C.toNested path.names).outcome.1 with
    | ok t =>
      obtain ⟨other, hnames, ht⟩ := follow_eq_ok_iff.mp hlookup
      rw [Path.names_injective hnames, hfound] at ht
      cases ht
    | error e => rfl

theorem activeLeaves_eq_occurrences (P C : Quad Atom) (skipVariables : Bool) :
    P.activeLeaves C skipVariables = P.occurrences C skipVariables := by
  rw [occurrences_eq, activeLeaves]
  refine List.filterMap_congr fun e _ => ?_
  rw [activeTerm?_eq]
  cases C.toNested.at? e.2 with
  | none => rfl
  | some t => exact apply_ite (Option.map fun t => (e.1, t)) _ _ _

end Quad

/-! ## Disagreements -/

/-- The conflict of an entry with the first one of its name, if they have different terms. -/
def Bindings.disagreement? (entries : Bindings) (e : String × Term) : Option Conflict :=
  match entries.find? fun d => d.1 = e.1 with
  | none => none
  | some first => if first.2 = e.2 then none else some ⟨e.1, first.2, e.2⟩

theorem Bindings.value?_eq_find? (b : Bindings) (x : String) :
    b.value? x = (b.find? fun d => d.1 = x).map Prod.snd := by
  induction b with
  | nil => rfl
  | cons d rest ih =>
    obtain ⟨y, t⟩ := d
    by_cases hy : y = x
    · simp [value?, hy]
    · simp [value?, hy, ih]

/-- What is in conflict with the bindings that entries lead to disagrees with the first entry of
its name. -/
theorem Bindings.conflict?_offerAll_nil (entries : Bindings) :
    (offerAll [] entries).conflict? = entries.disagreement? := by
  funext e
  have hvalue : (offerAll [] entries).value? e.1 =
      (entries.find? fun d => d.1 = e.1).map Prod.snd := by
    rw [value?_offerAll, show value? [] e.1 = none from rfl, Option.none_or, value?_eq_find?]
  rw [conflict?, hvalue, disagreement?]
  cases entries.find? fun d => d.1 = e.1 <;> rfl

namespace Quad

theorem conflicts_eq (P C : Quad Atom) (options : MatchOptions) :
    (P.unify C options).2 =
      (P.activeLeaves C options.skipVariables).filterMap
        (Bindings.disagreement? (P.activeLeaves C options.skipVariables)) := by
  rw [unify_eq, finalBindings, Bindings.conflict?_offerAll_nil, activeLeaves_eq_occurrences]

/-- **A match reports one conflict, in traversal order, for each active occurrence of a variable
that finds another term than the first of its name, whatever else fails.** If it reports anything
it does not succeed, and the leaves that are no variables have no part in the report. -/
theorem unify_reports_disagreements (P C : Quad Atom) (options : MatchOptions) :
    (P.unify C options).2 =
        (P.activeLeaves C options.skipVariables).filterMap
          (Bindings.disagreement? (P.activeLeaves C options.skipVariables)) ∧
      (∀ c ∈ (P.unify C options).2, c.message =
        "?" ++ c.name ++ " is bound to " ++ c.bound.text ++ ", cannot match " ++ c.found.text) ∧
      ((P.unify C options).2 ≠ [] → (P.unify C options).1 = .mismatch) ∧
      ((P.unify C options).1 ≠ .mismatch → (P.unify C options).2 = []) ∧
      ∀ P' : Quad Atom, P'.varLeaves = P.varLeaves →
        (P'.unify C options).2 = (P.unify C options).2 := by
  have hsilent : (P.unify C options).1 ≠ .mismatch → (P.unify C options).2 = [] :=
    fun h => conflicts_of_unifies (unify_ne_mismatch_iff.mp h)
  refine ⟨conflicts_eq P C options, fun _ _ => rfl, fun hne => ?_, hsilent, fun P' hvars => ?_⟩
  · by_contra hmatch
    exact hne (hsilent hmatch)
  · rw [conflicts_eq, conflicts_eq, activeLeaves, hvars, activeLeaves]

/-- Two conflicts, one on each side of a leaf that finds another atom, and between them a quoted quad
that faces an atom, with occurrences that are not active. -/
theorem unify_reports_disagreements_around_failure :
    let x : Term := .leaf (.var "x")
    let b (label : String) : Term := .leaf (.blankNode label)
    let P : Quad Atom := ⟨.quad x x (b "z") x, .quad x x x x, x, b "z"⟩
    let C : Quad Atom := ⟨.quad (b "1") (b "2") (b "1") (b "1"), b "2", b "3", b "1"⟩
    (P.unify C {}).2 = [⟨"x", b "1", b "2"⟩, ⟨"x", b "1", b "3"⟩] ∧
      (P.unify C {}).1 = .mismatch ∧
      (P.unify C {}).2 =
        (P.activeLeaves C false).filterMap (Bindings.disagreement? (P.activeLeaves C false)) := by
  intro x b P C
  have hreport : (P.unify C {}).2 = [⟨"x", b "1", b "2"⟩, ⟨"x", b "1", b "3"⟩] := by decide
  obtain ⟨hexact, -, hmismatch, -⟩ := unify_reports_disagreements P C {}
  exact ⟨hreport, hmismatch (by rw [hreport]; nofun), hexact⟩

end Quad

end RdfStar
