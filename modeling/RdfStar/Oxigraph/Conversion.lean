import RdfStar.Factory
import RdfStar.Log
import RdfStar.Oxigraph.Value

/-!
# Conversion to and from oxigraph

A term becomes an oxigraph value of its kind, and a nested quad a quoted triple, which only a quad
in the default graph has; the outermost quad may also become a quad with its graph. A refusal by
oxigraph inside a quad is reported for the innermost quad around it and passes further quads
unchanged. In the other direction every value becomes a term, built through a factory.

* `encode` — `to_oxigraph`; `encodeQuad` — `quad_to_oxigraph`.
* `decodeThrough` — `from_oxigraph` with its optional factory; `decode` — the same, given the
  factory; `decodeData` — what it does with a value that is not oxigraph's.
* `ConversionError` — what `InteropError` tells.
-/

namespace RdfStar.Oxigraph

/-! ## Failures and events -/

inductive ConversionError where
  | rejectedTriple (quad : Draft) (cause : Rejection)
  | rejectedQuad (quad : Draft) (cause : Rejection)
  | namedGraph (quad : Draft)
  | notTerm (value : Data)
  deriving DecidableEq, Repr

namespace ConversionError

/-- The text of an error; that of a refusal ends with the text of the exception. -/
def message : ConversionError → String
  | .rejectedTriple quad cause =>
    "Oxigraph rejected quoted triple " ++ quad.text ++ ": " ++ cause.text
  | .rejectedQuad quad cause => "Oxigraph rejected quad " ++ quad.text ++ ": " ++ cause.text
  | .namedGraph quad => "Quoted quad with a named graph has no oxigraph form: " ++ quad.text
  | .notTerm value => "Not a term: " ++ value.quoted

/-- The refusal behind an error, if there is one. -/
def cause? : ConversionError → Option Rejection
  | .rejectedTriple _ cause => some cause
  | .rejectedQuad _ cause => some cause
  | _ => none

end ConversionError

/-- A refusal that no quad has reported yet, or a reported failure. -/
inductive Failure where
  | rejected (cause : Rejection)
  | conversion (error : ConversionError)
  deriving DecidableEq, Repr

/-- Data where an oxigraph value is expected. -/
structure NotValue where
  value : Data
  deriving Repr

def NotValue.message (e : NotValue) : String := "Not an oxigraph term: " ++ e.value.quoted

inductive Event where
  | namedGraph (quad : Draft)
  | unsupported (kind : Data.Kind)
  deriving DecidableEq, Repr

def Event.message : Event → String
  | .namedGraph quad => "Cannot quote " ++ quad.text ++ " in oxigraph: named graph"
  | .unsupported kind => "Unsupported oxigraph value: " ++ kind.name

/-! ## From terms to values -/

/-- A refusal, as a failure of a conversion. -/
def refuse {β : Type} (x : Except Rejection β) : Logged Event Failure β :=
  match x with
  | .ok v => pure v
  | .error cause => throw (.rejected cause)

/-- Reports a refusal; everything else passes. -/
def wrap {β : Type} (report : Rejection → ConversionError) (x : Logged Event Failure β) :
    Logged Event Failure β :=
  tryCatch x fun failure =>
    match failure with
    | .rejected cause => throw (.conversion (report cause))
    | .conversion error => throw (.conversion error)

/-- The value of an atom. A literal with a tag passes its value and tag alone. -/
def encodeAtom [Lexicon] [Wording] : Atom → Except Rejection Value
  | .namedNode iri => Value.ofIri iri
  | .blankNode label => Value.ofLabel label
  | .literal x =>
    if x.language ≠ "" then Value.ofTagged x.value x.language
    else Value.ofTyped x.value x.datatype
  | .var name => Value.ofVarName name
  | .defaultGraph => .ok .defaultGraph

/-- The value of a term; a quad becomes a quoted triple. -/
def encode [Lexicon] [Placement] [Wording] : Draft → Logged Event Failure Value
  | .leaf (.atom a) => refuse (encodeAtom a)
  | .leaf (.foreign v) => throw (.conversion (.notTerm v))
  | .quad s p o g =>
    if g.isDefaultGraph then
      wrap (.rejectedTriple (.quad s p o g)) do
        let s ← encode s
        let p ← encode p
        let o ← encode o
        refuse (Value.ofTriple s p o)
    else do
      Logged.note (.namedGraph (.quad s p o g))
      throw (.conversion (.namedGraph (.quad s p o g)))

/-- The value of an outermost quad, which keeps its graph. -/
def encodeQuad [Lexicon] [Placement] [Wording] (q : Quad Part) : Logged Event Failure Value :=
  wrap (.rejectedQuad q.toNested) do
    let s ← encode q.subject
    let p ← encode q.predicate
    let o ← encode q.object
    let g ← encode q.graph
    refuse (Value.ofQuad s p o g)

/-! ## From values to terms -/

section Decode

variable {m : Type → Type} [Monad m] {τ : Type}

/-- The term of a value, built through a factory; a triple gets the factory's default graph. -/
def decode (F : Factory m τ) : Value → m τ
  | .namedNode iri => F.namedNode iri
  | .blankNode label => F.blankNode (some label)
  | .var name => F.var name
  | .defaultGraph => F.defaultGraph
  | .literal value language datatype =>
    match language with
    | some tag => F.literal value (if tag ≠ "" then .language tag else .datatype datatype)
    | none => F.literal value (.datatype datatype)
  | .triple s p o => do
    let s ← decode F s
    let p ← decode F p
    let o ← decode F o
    F.quad s p o none
  | .quad s p o g => do
    let s ← decode F s
    let p ← decode F p
    let o ← decode F o
    let g ← decode F g
    F.quad s p o (some g)

/-- The term of a value, built through the factory that is given or else through the default
one. -/
def decodeThrough (v : Value) (fresh : m String) (given : Option (Factory m Draft) := none) :
    m Draft :=
  decode (Factory.orDefault given fresh) v

end Decode

/-- What becomes of data where an oxigraph value is expected. -/
def decodeData {τ : Type} (v : Data) : Logged Event NotValue τ := do
  Logged.note (.unsupported v.kind)
  throw ⟨v⟩

end RdfStar.Oxigraph
