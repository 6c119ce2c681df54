import RdfStar.Factory
import RdfStar.Text.Quoted

/-!
# Assembling a quad from named terms

A list of names and terms is collected into the four positions; a later entry replaces an earlier
one of the same name, and an entry may withdraw the term. What is missing is asked for, and a quad
is built only if nothing is missing then.

* `assembleThrough` — `from_named_positions` with its optional factory; `assemble` — the same, given
  how the quad is built.
* `AssemblyError` — what `MalformedQuadError` tells.

Principal results: `collect_eq_error_iff` — collecting fails exactly at the first entry whose name
is no position; `missing_eq_nil_iff` — nothing is missing exactly when every position has a term.
-/

namespace RdfStar

inductive AssemblyError where
  | unknownPosition (name : String)
  | missing (positions : List Position)
  deriving DecidableEq, Repr

namespace AssemblyError

/-- The names that the error is about. -/
def names : AssemblyError → List String
  | .unknownPosition name => [name]
  | .missing positions => Path.names positions

/-- What is said of positions that have no term. -/
def describe (names : List String) : String :=
  "Missing term for position(s): " ++ ", ".intercalate names

def message : AssemblyError → String
  | .unknownPosition name => "Unknown quad position: " ++ Text.quote name
  | .missing positions => describe (Path.names positions)

end AssemblyError

/-- What is known of the four positions so far. -/
abbrev Slots (τ : Type) := Position → Option τ

namespace Slots

variable {τ γ : Type}

def empty : Slots τ := fun _ => none

def put (slots : Slots τ) (position : Position) (value : Option τ) : Slots τ :=
  fun p => if p = position then value else slots p

def missing (slots : Slots τ) : List Position := Position.all.filter fun p => (slots p).isNone

/-- Enters named terms one after the other. -/
def collect (slots : Slots τ) : List (String × Option τ) → Except AssemblyError (Slots τ)
  | [] => .ok slots
  | (name, value) :: rest =>
    match Position.ofName? name with
    | some position => collect (slots.put position value) rest
    | none => .error (.unknownPosition name)

variable {m : Type → Type} [Monad m]

/-- Asks for the term of every position that has none. -/
def fill (slots : Slots τ) (fallback : Position → m (Option τ)) : m (Slots τ) :=
  Position.all.foldlM (fun filled p =>
    if (filled p).isSome then pure filled else return filled.put p (← fallback p)) slots

/-- The quad of four terms, if all are there. -/
def build (slots : Slots τ) (make : τ → τ → τ → τ → m γ) : ExceptT AssemblyError m γ :=
  match slots .subject, slots .predicate, slots .object, slots .graph with
  | some s, some p, some o, some g => ExceptT.lift (make s p o g)
  | _, _, _, _ => throw (.missing slots.missing)

theorem missing_eq_nil_iff {slots : Slots τ} :
    slots.missing = [] ↔ ∀ p, (slots p).isSome = true := by
  simp only [missing, List.filter_eq_nil_iff, Bool.not_eq_true, Option.isNone_eq_false_iff]
  exact ⟨fun h p => h p (Position.mem_all p), fun h p _ => h p⟩

theorem collect_eq_error_iff {slots : Slots τ} {entries : List (String × Option τ)}
    {e : AssemblyError} :
    slots.collect entries = .error e ↔
      ∃ name, (entries.map Prod.fst).find? (fun n => (Position.ofName? n).isNone) = some name ∧
        e = .unknownPosition name := by
  induction entries generalizing slots with
  | nil => simp [collect]
  | cons entry rest ih =>
    obtain ⟨name, value⟩ := entry
    cases known : Position.ofName? name with
    | some position => simp [collect, known, ih]
    | none => simp [collect, known, eq_comm]

end Slots

/-- Collects named terms into a quad, asking for missing ones if there is somebody to ask. -/
def assemble {τ γ : Type} {m : Type → Type} [Monad m] (entries : List (String × Option τ))
    (fallback : Option (Position → m (Option τ))) (make : τ → τ → τ → τ → m γ) :
    ExceptT AssemblyError m γ := do
  let slots ← ExceptT.mk (pure (Slots.empty.collect entries))
  let filled ← match fallback with
    | some ask => ExceptT.lift (slots.fill ask)
    | none => pure slots
  filled.build make

/-- Collects named terms into a quad, and builds it through the factory that is given or else
through the default one. -/
def assembleThrough {m : Type → Type} [Monad m] (entries : List (String × Option Draft))
    (fallback : Option (Position → m (Option Draft))) (fresh : m String)
    (given : Option (Factory m Draft) := none) : ExceptT AssemblyError m Draft :=
  assemble entries fallback (Factory.orDefault given fresh).quadOfDrafts

end RdfStar
