import RdfStar.Data
import RdfStar.Term.Basic

/-!
# Drafts

A draft is a term in the making: nested quads at whose leaves a value that is no term — a text, a
number, a list, or nothing — may stand where a term belongs.

Principal results: `Draft.toTerm?_ofTerm` — a term is a draft of itself; `Draft.toTerm?_eq_some_iff`
— a draft is a term exactly when it is the draft of one.
-/

namespace RdfStar

/-! ## Parts -/

/-- A leaf of a draft. -/
inductive Part where
  | atom (a : Atom)
  | foreign (v : Data)
  deriving DecidableEq, Repr

namespace Part

def text : Part → String
  | .atom a => a.text
  | .foreign v => v.shown

def isDefaultGraph : Part → Bool
  | .atom a => a.isDefaultGraph
  | .foreign _ => false

instance : Leaf Part where
  isDefaultGraph := isDefaultGraph
  text := text

def foreign? : Part → Option Data
  | .atom _ => none
  | .foreign v => some v

end Part

/-! ## Drafts -/

abbrev Draft := Nested Part

namespace Draft

def ofTerm (t : Term) : Draft := t.map .atom

/-- The draft of no term at all. -/
def absent : Draft := .leaf (.foreign .none)

/-- A draft, unless it is the absent one. -/
def present? (d : Draft) : Option Draft := if d = absent then none else some d

def toTerm? : Draft → Option Term
  | .leaf (.atom a) => some (.leaf a)
  | .leaf (.foreign _) => none
  | .quad s p o g => do
    return .quad (← toTerm? s) (← toTerm? p) (← toTerm? o) (← toTerm? g)

/-- Structural comparison, given how values that are no terms are compared. -/
def same (agree : Data → Data → Bool) : Draft → Draft → Bool
  | .leaf (.atom a), .leaf (.atom b) => a == b
  | .leaf (.foreign v), .leaf (.foreign w) => agree v w
  | .quad s p o g, .quad s' p' o' g' =>
    same agree s s' && same agree p p' && same agree o o' && same agree g g'
  | _, _ => false

theorem present?_ofTerm (t : Term) : present? (ofTerm t) = some (ofTerm t) :=
  if_neg (by cases t <;> simp [ofTerm, absent, Nested.map, Nested.bind])

theorem ofTerm_quad (s p o g : Term) :
    ofTerm (.quad s p o g) = .quad (ofTerm s) (ofTerm p) (ofTerm o) (ofTerm g) := rfl

theorem isDefaultGraph_ofTerm (t : Term) : (ofTerm t).isDefaultGraph = t.isDefaultGraph := by
  cases t <;> rfl

theorem toTerm?_ofTerm (t : Term) : toTerm? (ofTerm t) = some t := by
  induction t with
  | leaf => rfl
  | quad s p o g hs hp ho hg =>
    simp only [ofTerm, Nested.map] at hs hp ho hg
    simp [ofTerm, Nested.map, Nested.bind, toTerm?, hs, hp, ho, hg]

theorem eq_ofTerm_of_toTerm? {d : Draft} {t : Term} (h : toTerm? d = some t) : d = ofTerm t := by
  induction d generalizing t with
  | leaf part =>
    cases part with
    | atom a => simp only [toTerm?, Option.some.injEq] at h; subst h; rfl
    | foreign v => simp [toTerm?] at h
  | quad s p o g hs hp ho hg =>
    simp only [toTerm?, Option.pure_def, Option.bind_eq_bind, Option.bind_eq_some_iff,
      Option.some.injEq] at h
    obtain ⟨s', es, p', ep, o', eo, g', eg, rfl⟩ := h
    rw [hs es, hp ep, ho eo, hg eg]
    rfl

theorem toTerm?_eq_some_iff {d : Draft} {t : Term} : toTerm? d = some t ↔ d = ofTerm t :=
  ⟨eq_ofTerm_of_toTerm?, fun h => h ▸ toTerm?_ofTerm t⟩

end Draft

end RdfStar
