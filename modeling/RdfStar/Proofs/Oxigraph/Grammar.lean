import RdfStar.Proofs.Leaf.Address
import RdfStar.Proofs.Oxigraph.Encoding

/-!
# The quads that oxigraph takes

What is converted to oxigraph, said by a grammar of terms that knows nothing of conversions: a
subject is an IRI or a blank node, a predicate an IRI, an object one of these, a literal or a
quoted triple, and what is quoted is in the default graph. Every text has to be acceptable. Quads
are thus nested along their objects only, and every other part of a quad that is taken is a leaf.

Principal results: `Encodes.describes` — the kind of a value says what the grammar has for its term;
`exists_encodes_iff`, `exists_encodesQuad_iff` — the quads that have a value are those of the
grammar; `encode_succeeds_iff_star` — which conversions succeed, and where the leaves of what is
converted are.
-/

namespace RdfStar.Oxigraph

open Lexicon Placement

/-! ## The grammar -/

section Grammar

variable [Lexicon]

inductive IsIri : Term → Prop
  | namedNode {iri : String} (accepted : acceptsIri iri = true) : IsIri (.leaf (.namedNode iri))

inductive IsNode : Term → Prop
  | iri {t : Term} (iri : IsIri t) : IsNode t
  | blankNode {label : String} (accepted : acceptsLabel label = true) :
    IsNode (.leaf (.blankNode label))

/-- A literal with an acceptable tag, whatever its datatype, or without a tag and with an acceptable
datatype. -/
inductive IsLiteral : Term → Prop
  | tagged {x : Literal} (tagged : x.language ≠ "") (accepted : acceptsTag x.language = true) :
    IsLiteral (.leaf (.literal x))
  | untagged {x : Literal} (untagged : x.language = "") (accepted : acceptsIri x.datatype = true) :
    IsLiteral (.leaf (.literal x))

inductive IsObject : Term → Prop
  | node {t : Term} (node : IsNode t) : IsObject t
  | literal {t : Term} (literal : IsLiteral t) : IsObject t
  | triple {s p o : Term} (subject : IsNode s) (predicate : IsIri p) (object : IsObject o) :
    IsObject (.quad s p o (.leaf .defaultGraph))

inductive IsGraph : Term → Prop
  | node {t : Term} (node : IsNode t) : IsGraph t
  | defaultGraph : IsGraph (.leaf .defaultGraph)

/-- A quad that can be quoted. -/
structure IsStarTriple (q : Quad Atom) : Prop where
  subject : IsNode q.subject
  predicate : IsIri q.predicate
  object : IsObject q.object
  graph : q.graph = .leaf .defaultGraph

/-- A quad that can stand on its own. -/
structure IsStarQuad (q : Quad Atom) : Prop where
  subject : IsNode q.subject
  predicate : IsIri q.predicate
  object : IsObject q.object
  graph : IsGraph q.graph

theorem IsStarTriple.isStarQuad {q : Quad Atom} (h : IsStarTriple q) : IsStarQuad q :=
  ⟨h.subject, h.predicate, h.object, h.graph ▸ .defaultGraph⟩

/-! ## Where the leaves are -/

variable {t : Term} {q : Quad Atom}

/-- A path that goes from object to object before its last step. -/
def AlongObjects (path : Path) : Prop := ∃ n last, path = List.replicate n .object ++ [last]

theorem IsNode.exists_leaf (h : IsNode t) : ∃ a, t = .leaf a := by
  obtain ⟨⟨-⟩⟩ | ⟨-⟩ := h <;> exact ⟨_, rfl⟩

theorem IsGraph.exists_leaf (h : IsGraph t) : ∃ a, t = .leaf a := by
  cases h with
  | node node => exact node.exists_leaf
  | defaultGraph => exact ⟨_, rfl⟩

/-- Only the object of a quad of the grammar can be entered. -/
theorem IsStarQuad.exists_leaf (h : IsStarQuad q) {p : Position} (hp : p ≠ .object) :
    ∃ a, q.get p = .leaf a := by
  cases p with
  | subject => exact h.subject.exists_leaf
  | predicate => exact (IsNode.iri h.predicate).exists_leaf
  | object => exact absurd rfl hp
  | graph => exact h.graph.exists_leaf

/-- If the leaves of the object are found along objects, so are those of the quad. -/
theorem IsStarQuad.alongObjects_of_object (h : IsStarQuad q)
    (hobject : ∀ path a, q.object.at? path = some (.leaf a) → path = [] ∨ AlongObjects path)
    {path : Path} {a : Atom} (ha : q.toNested.at? path = some (.leaf a)) : AlongObjects path := by
  cases path with
  | nil => cases ha
  | cons p rest =>
    rw [Nested.at?_toNested_cons] at ha
    by_cases hp : p = .object
    · subst hp
      rcases hobject rest a ha with rfl | ⟨n, last, rfl⟩
      · exact ⟨0, .object, rfl⟩
      · exact ⟨n + 1, last, rfl⟩
    · obtain ⟨b, hb⟩ := h.exists_leaf hp
      rw [hb] at ha
      cases rest with
      | nil => exact ⟨0, p, rfl⟩
      | cons => cases ha

theorem IsObject.alongObjects (h : IsObject t) :
    ∀ path a, t.at? path = some (.leaf a) → path = [] ∨ AlongObjects path := by
  have hleaf : ∀ (b : Atom) path a, (Nested.leaf b).at? path = some (.leaf a) →
      path = [] ∨ AlongObjects path := by
    intro b path a ha
    cases path with
    | nil => exact .inl rfl
    | cons => cases ha
  induction h with
  | node node =>
    obtain ⟨b, rfl⟩ := node.exists_leaf
    exact hleaf b
  | literal literal => cases literal <;> exact hleaf _
  | @triple s p o subject predicate object ih =>
    have hquad : IsStarQuad ⟨s, p, o, .leaf .defaultGraph⟩ :=
      ⟨subject, predicate, object, .defaultGraph⟩
    exact fun path a ha => .inr (hquad.alongObjects_of_object ih ha)

theorem IsStarQuad.alongObjects (h : IsStarQuad q) {a : Atom} {path : Path}
    (ha : (a, path) ∈ q.leaves false) : AlongObjects path :=
  h.alongObjects_of_object h.object.alongObjects (Quad.mem_leaves_iff.mp ha)

/-! ## What is converted is in the grammar -/

/-- What the grammar has for the terms with a value of a given kind. -/
def Value.Describes : Value → Term → Prop
  | .namedNode _, t => IsIri t
  | .blankNode _, t => IsNode t
  | .literal _ _ _, t => IsLiteral t
  | .triple _ _ _, t => IsObject t
  | .defaultGraph, t => t = .leaf .defaultGraph
  | .var _, _ | .quad _ _ _ _, _ => True

variable {v : Value}

theorem EncodesAtom.describes {a : Atom} (h : EncodesAtom a v) : v.Describes (.leaf a) := by
  cases h with
  | namedNode accepted => exact .namedNode accepted
  | blankNode accepted => exact .blankNode accepted
  | tagged tagged accepted => exact .tagged tagged accepted
  | untagged untagged accepted => exact .untagged untagged accepted
  | var => exact trivial
  | defaultGraph => exact rfl

variable [Placement]

namespace Value.Describes

theorem isIri (h : v.Describes t) (taken : fits .predicate v = true) : IsIri t := by
  cases v with
  | namedNode => exact h
  | _ => simp at taken

theorem isNode (h : v.Describes t) (taken : fits .subject v = true) : IsNode t := by
  cases v with
  | namedNode => exact .iri h
  | blankNode => exact h
  | _ => simp at taken

theorem isObject (h : v.Describes t) (taken : fits .object v = true) : IsObject t := by
  cases v with
  | namedNode => exact .node (.iri h)
  | blankNode => exact .node h
  | literal => exact .literal h
  | triple => exact h
  | _ => simp at taken

theorem isGraph (h : v.Describes t) (taken : fits .graph v = true) : IsGraph t := by
  cases v with
  | namedNode => exact .node (.iri h)
  | blankNode => exact .node h
  | defaultGraph => exact (show t = _ from h) ▸ .defaultGraph
  | _ => simp at taken

end Value.Describes

omit [Lexicon] in
/-- What can be a subject can be an object and a graph. -/
theorem Value.fits_of_subject (h : fits .subject v = true) :
    fits .object v = true ∧ fits .graph v = true := by
  rcases fits_subject.mp h with hkind | hkind
  · exact ⟨fits_object.mpr (.inl hkind), fits_graph.mpr (.inl hkind)⟩
  · exact ⟨fits_object.mpr (.inr (.inl hkind)), fits_graph.mpr (.inr (.inl hkind))⟩

variable [Wording]

/-- **The kind of a value says what the grammar has for its term.** -/
theorem Encodes.describes (h : Encodes t v) : v.Describes t := by
  induction h with
  | atom made => exact (encodeAtom_eq_ok_iff.mp made).describes
  | triple _ _ _ made subject predicate object =>
    obtain ⟨⟨fits_s, fits_p, fits_o⟩, rfl⟩ := Value.ofTriple_eq_ok_iff.mp made
    exact .triple (subject.isNode fits_s) (predicate.isIri fits_p) (object.isObject fits_o)

/-! ## What is in the grammar is converted -/

theorem IsIri.encodes (h : IsIri t) : ∃ v, Encodes t v ∧ fits .predicate v = true := by
  obtain ⟨accepted⟩ := h
  exact ⟨_, (EncodesAtom.namedNode accepted).encodes, by simp⟩

theorem IsNode.encodes (h : IsNode t) : ∃ v, Encodes t v ∧ fits .subject v = true := by
  cases h with
  | iri iri =>
    obtain ⟨accepted⟩ := iri
    exact ⟨_, (EncodesAtom.namedNode accepted).encodes, by simp⟩
  | blankNode accepted =>
    exact ⟨_, (EncodesAtom.blankNode accepted).encodes, by simp⟩

theorem IsLiteral.encodes (h : IsLiteral t) : ∃ v, Encodes t v ∧ fits .object v = true := by
  cases h with
  | tagged tagged accepted =>
    exact ⟨_, (EncodesAtom.tagged tagged accepted).encodes, by simp⟩
  | untagged untagged accepted =>
    exact ⟨_, (EncodesAtom.untagged untagged accepted).encodes, by simp⟩

theorem IsObject.encodes (h : IsObject t) : ∃ v, Encodes t v ∧ fits .object v = true := by
  induction h with
  | node node =>
    obtain ⟨v, made, taken⟩ := node.encodes
    exact ⟨v, made, (Value.fits_of_subject taken).1⟩
  | literal literal => exact literal.encodes
  | triple subject predicate _ ih =>
    obtain ⟨s, made_s, fits_s⟩ := subject.encodes
    obtain ⟨p, made_p, fits_p⟩ := predicate.encodes
    obtain ⟨o, made_o, fits_o⟩ := ih
    exact ⟨_, .triple made_s made_p made_o
      (Value.ofTriple_eq_ok_iff.mpr ⟨⟨fits_s, fits_p, fits_o⟩, rfl⟩), by simp⟩

theorem IsGraph.encodes (h : IsGraph t) : ∃ v, Encodes t v ∧ fits .graph v = true := by
  cases h with
  | node node =>
    obtain ⟨v, made, taken⟩ := node.encodes
    exact ⟨v, made, (Value.fits_of_subject taken).2⟩
  | defaultGraph =>
    exact ⟨_, EncodesAtom.defaultGraph.encodes, by simp⟩

/-- **The quads that have a value where they are quoted are the triples of the grammar.** -/
theorem exists_encodes_iff : (∃ v, Encodes q.toNested v) ↔ IsStarTriple q := by
  obtain ⟨s, p, o, g⟩ := q
  constructor
  · rintro ⟨v, ⟨⟩ | ⟨subject, predicate, object, made⟩⟩
    obtain ⟨⟨fits_s, fits_p, fits_o⟩, -⟩ := Value.ofTriple_eq_ok_iff.mp made
    exact ⟨subject.describes.isNode fits_s, predicate.describes.isIri fits_p,
      object.describes.isObject fits_o, rfl⟩
  · rintro ⟨subject, predicate, object, rfl⟩
    obtain ⟨v, made, -⟩ := (IsObject.triple subject predicate object).encodes
    exact ⟨v, made⟩

/-- **The outermost quads that have a value are the quads of the grammar.** -/
theorem exists_encodesQuad_iff : (∃ v, EncodesQuad q v) ↔ IsStarQuad q := by
  constructor
  · rintro ⟨v, ⟨subject, predicate, object, graph, made⟩⟩
    obtain ⟨⟨fits_s, fits_p, fits_o, fits_g⟩, -⟩ := Value.ofQuad_eq_ok_iff.mp made
    exact ⟨subject.describes.isNode fits_s, predicate.describes.isIri fits_p,
      object.describes.isObject fits_o, graph.describes.isGraph fits_g⟩
  · rintro ⟨subject, predicate, object, graph⟩
    obtain ⟨s, made_s, fits_s⟩ := subject.encodes
    obtain ⟨p, made_p, fits_p⟩ := predicate.encodes
    obtain ⟨o, made_o, fits_o⟩ := object.encodes
    obtain ⟨g, made_g, fits_g⟩ := graph.encodes
    exact ⟨_, .quad made_s made_p made_o made_g
      (Value.ofQuad_eq_ok_iff.mpr ⟨⟨fits_s, fits_p, fits_o, fits_g⟩, rfl⟩)⟩

/-! ## Conversions -/

theorem encode_succeeds_iff :
    (∃ v, (encode (Draft.ofTerm q.toNested)).outcome.1 = .ok v) ↔ IsStarTriple q := by
  simp only [encode_eq_ok_iff, exists_encodes_iff]

theorem encodeQuad_succeeds_iff :
    (∃ v, (encodeQuad (q.map .atom)).outcome.1 = .ok v) ↔ IsStarQuad q := by
  simp only [encodeQuad_eq_ok_iff, exists_encodesQuad_iff]

/-- **A quad can be quoted in oxigraph exactly if it is a triple of the grammar, and stored on its
own exactly if it is a quad of the grammar.** Nothing else at the leaves of a draft than atoms is
taken, and all leaves of a quad that is taken are found along objects. -/
theorem encode_succeeds_iff_star :
    (∀ q : Quad Atom,
      (∃ v, (encode (Draft.ofTerm q.toNested)).outcome.1 = .ok v) ↔ IsStarTriple q) ∧
    (∀ q : Quad Atom, (∃ v, (encodeQuad (q.map .atom)).outcome.1 = .ok v) ↔ IsStarQuad q) ∧
    (∀ d : Quad Part, (∃ v, (encode d.toNested).outcome.1 = .ok v) ∨
        (∃ v, (encodeQuad d).outcome.1 = .ok v) →
      ∃ q : Quad Atom, d = q.map .atom) ∧
    ∀ q : Quad Atom, (∃ v, (encode (Draft.ofTerm q.toNested)).outcome.1 = .ok v) ∨
        (∃ v, (encodeQuad (q.map .atom)).outcome.1 = .ok v) →
      ∀ a path, (a, path) ∈ q.leaves false → ∃ n last, path = List.replicate n .object ++ [last] := by
  refine ⟨fun q => encode_succeeds_iff, fun q => encodeQuad_succeeds_iff, ?_, ?_⟩
  · rintro d (⟨v, h⟩ | ⟨v, h⟩)
    · exact exists_map_of_encode (Prod.ext h rfl)
    · exact exists_map_of_encodeQuad (Prod.ext h rfl)
  · rintro q h a path ha
    have hstar : IsStarQuad q := by
      rcases h with h | h
      · exact (encode_succeeds_iff.mp h).isStarQuad
      · exact encodeQuad_succeeds_iff.mp h
    exact hstar.alongObjects ha

end Grammar

/-- A literal with an upper-case tag and a datatype that is no IRI, below two quoted quads. -/
theorem encode_succeeds_iff_star_nested :
    let b : Term := .leaf (.blankNode "b")
    let p : Term := .leaf (.namedNode "http://example.org/p")
    let x : Literal := .of "chat" "FR-ca" "no iri"
    let q : Quad Atom :=
      ⟨b, p, .quad b p (.quad b p (.leaf (.literal x)) (.leaf .defaultGraph)) (.leaf .defaultGraph), p⟩
    let path : Path := [.object, .object, .object]
    (∃ v, (encodeQuad (q.map .atom)).outcome.1 = .ok v) ∧
      (∃ r : Quad Atom, q.map .atom = r.map Part.atom) ∧
      (.literal x, path) ∈ q.leaves false ∧
      ∃ n last, path = List.replicate n .object ++ [last] := by
  intro b p x q path
  have hb : IsNode b := .blankNode (by decide +kernel)
  have hp : IsIri p := .namedNode (by decide +kernel)
  have hx : IsObject (.leaf (.literal x)) := .literal (.tagged (by decide) (by decide +kernel))
  have hq : IsStarQuad q := ⟨hb, hp, .triple hb hp (.triple hb hp hx), .node (.iri hp)⟩
  obtain ⟨-, hencodes, hdrafts, hleaves⟩ := encode_succeeds_iff_star
  have hv := (hencodes q).mpr hq
  have hpath : (.literal x, path) ∈ q.leaves false := Quad.mem_leaves_iff.mpr rfl
  exact ⟨hv, hdrafts _ (.inr hv), hpath, hleaves q (.inr hv) _ path hpath⟩

end RdfStar.Oxigraph
