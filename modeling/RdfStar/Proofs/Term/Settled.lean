import RdfStar.Proofs.Leaf.Address

/-!
# Settled literals

Some stores and methods keep of a tagged literal only its value and its tag, perhaps with the tag
rewritten. The literal that comes back has the datatype of tagged strings, whatever it had before;
a literal without a tag comes back as it is.

Principal results: `Term.settle_eq_self_iff` — a term comes back as it is exactly if all its tagged
literals have a tag that is not rewritten and the datatype of tagged strings; `Term.settle_settle` —
what came back once comes back as it is.
-/

namespace RdfStar

/-- What is left of a literal of which a tag is kept in some form and nothing else besides the
value. -/
def Literal.settle (keep : String → String) (x : Literal) : Literal :=
  if x.language = "" then x else .of x.value (keep x.language) Datatype.rdfLangString

namespace Literal

variable {keep : String → String} {x : Literal}

theorem settle_of_untagged (h : x.language = "") : x.settle keep = x := if_pos h

theorem settle_of_tagged (h : x.language ≠ "") :
    x.settle keep = of x.value (keep x.language) Datatype.rdfLangString := if_neg h

theorem settle_eq_self_iff :
    x.settle keep = x ↔
      (x.language ≠ "" → keep x.language = x.language ∧ x.datatype = Datatype.rdfLangString) := by
  by_cases tagged : x.language = ""
  · exact ⟨fun _ h => absurd tagged h, fun _ => settle_of_untagged tagged⟩
  · rw [settle_of_tagged tagged]
    constructor
    · intro h _
      have hlanguage := congrArg language h
      have hdatatype := congrArg datatype h
      rw [of_language] at hlanguage
      rw [of_rdfLangString_datatype] at hdatatype
      exact ⟨hlanguage, hdatatype.symm⟩
    · intro h
      obtain ⟨hkeep, hdatatype⟩ := h tagged
      rw [hkeep, ← hdatatype, of_self]

/-- To settle a literal again changes nothing, if a tag that was rewritten stays as it is. -/
theorem settle_settle (h : ∀ tag, keep (keep tag) = keep tag) :
    (x.settle keep).settle keep = x.settle keep := by
  refine settle_eq_self_iff.mpr fun tagged => ?_
  by_cases hx : x.language = ""
  · rw [settle_of_untagged hx] at tagged
    exact absurd hx tagged
  · rw [settle_of_tagged hx, of_language]
    exact ⟨h _, of_rdfLangString_datatype _ _⟩

/-- A literal that keeps its tag changes in its datatype only. -/
theorem settle_id_fields (x : Literal) :
    (x.settle id).value = x.value ∧ (x.settle id).language = x.language ∧
      (x.settle id).datatype = if x.language ≠ "" then Datatype.rdfLangString else x.datatype := by
  by_cases hx : x.language = ""
  · rw [settle_of_untagged hx]
    simp [hx]
  · rw [settle_of_tagged hx, of_rdfLangString_datatype]
    simp [hx]

end Literal

def Atom.settle (keep : String → String) : Atom → Atom
  | .literal x => .literal (x.settle keep)
  | a => a

/-- A term with every literal in it settled. -/
def Term.settle (keep : String → String) (t : Term) : Term := t.map (Atom.settle keep)

/-- Whether every tagged literal inside a term has a tag that stays and the datatype of tagged
strings. -/
def Term.Settled (keep : String → String) (t : Term) : Prop :=
  ∀ path x, t.at? path = some (.leaf (.literal x)) → x.language ≠ "" →
    keep x.language = x.language ∧ x.datatype = Datatype.rdfLangString

theorem Term.settle_eq_self_iff {keep : String → String} {t : Term} :
    Term.settle keep t = t ↔ Term.Settled keep t := by
  rw [settle, Nested.map_eq_self_iff]
  constructor
  · intro h path x hx
    exact Literal.settle_eq_self_iff.mp (Atom.literal.inj (h path _ hx))
  · intro h path a ha
    cases a with
    | literal x => exact congrArg Atom.literal (Literal.settle_eq_self_iff.mpr (h path x ha))
    | _ => rfl

theorem Term.settle_settle {keep : String → String} (h : ∀ tag, keep (keep tag) = keep tag)
    (t : Term) : Term.settle keep (Term.settle keep t) = Term.settle keep t := by
  rw [settle, settle, Nested.map_map]
  congr 1
  funext a
  cases a with
  | literal x => exact congrArg Atom.literal (Literal.settle_settle h)
  | _ => rfl

/-- A quad with every literal in it settled. -/
def Quad.settle (keep : String → String) (q : Quad Atom) : Quad Atom := q.map (Atom.settle keep)

theorem Quad.toNested_settle (keep : String → String) (q : Quad Atom) :
    (q.settle keep).toNested = Term.settle keep q.toNested := rfl

end RdfStar
