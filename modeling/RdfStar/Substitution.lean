import RdfStar.Term.Basic

/-!
# Bindings and substitutions

Bindings are a list of names with the terms bound to them, in the order in which they were bound.
Read as a substitution they replace variables by terms; a name without a binding stays a variable.

Principal results: `Term.substitute_none` — the substitution that binds nothing changes nothing;
`Term.substitute_substitute` — one substitution after another is the composed substitution.
-/

namespace RdfStar

/-! ## Bindings -/

abbrev Bindings := List (String × Term)

namespace Bindings

/-- The term bound to a name. -/
def value? : Bindings → String → Option Term
  | [], _ => none
  | (y, t) :: rest, x => if y = x then some t else value? rest x

def names (b : Bindings) : List String := b.map Prod.fst

/-- Binds a further name, after those bound before. -/
def bind (b : Bindings) (x : String) (t : Term) : Bindings := b ++ [(x, t)]

theorem value?_append (b c : Bindings) (x : String) :
    value? (b ++ c) x = (value? b x).or (value? c x) := by
  induction b with
  | nil => rfl
  | cons entry rest ih =>
    obtain ⟨y, t⟩ := entry
    by_cases h : y = x
    · simp [value?, h]
    · simp [value?, h, ih]

theorem value?_eq_none_iff {b : Bindings} {x : String} : b.value? x = none ↔ x ∉ b.names := by
  induction b with
  | nil => simp [value?, names]
  | cons entry rest ih =>
    obtain ⟨y, t⟩ := entry
    by_cases h : y = x
    · simp [value?, names, h]
    · simp only [value?, names, List.map_cons, List.mem_cons] at ih ⊢
      rw [if_neg h, ih]
      simp [Ne.symm h]

end Bindings

/-! ## Substitutions -/

/-- What becomes of an atom: a variable that has a value is replaced by it. -/
def Atom.substitute (σ : String → Option Term) : Atom → Term
  | .var x => (σ x).getD (.leaf (.var x))
  | a => .leaf a

/-- Gives a variable another name. -/
def Atom.rename (r : String → String) : Atom → Atom
  | .var x => .var (r x)
  | a => a

namespace Term

def substitute (σ : String → Option Term) (t : Term) : Term := t.bind (Atom.substitute σ)

def rename (r : String → String) (t : Term) : Term := t.map (Atom.rename r)

theorem substitute_none (t : Term) : substitute (fun _ => none) t = t := by
  have : Atom.substitute (fun _ => none) = Nested.leaf := by
    funext a; cases a <;> rfl
  rw [substitute, this, Nested.bind_leaf]

theorem substitute_substitute (σ τ : String → Option Term) (t : Term) :
    substitute τ (substitute σ t) =
      substitute (fun x => some (substitute τ ((σ x).getD (.leaf (.var x))))) t := by
  rw [substitute, substitute, Nested.bind_bind, substitute]
  congr 1
  funext a
  cases a <;> rfl

end Term

namespace Quad

def substitute (σ : String → Option Term) (q : Quad Atom) : Quad Atom :=
  q.bind (Atom.substitute σ)

def rename (r : String → String) (q : Quad Atom) : Quad Atom := q.map (Atom.rename r)

end Quad

end RdfStar
