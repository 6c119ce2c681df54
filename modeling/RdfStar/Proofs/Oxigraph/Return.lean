import RdfStar.Proofs.Oxigraph.RoundTrip

/-!
# From oxigraph and back

Every value that oxigraph can hold is the value of a term, and a conversion from oxigraph finds
such a term, so it can be undone. Only one thing is not kept: a triple and the quad with the same
parts in the default graph are converted to the same term.

Principal results: `valid_iff_exists_encodes` — the valid values are those that terms are converted
to; `decode_encode_valid` — a valid value comes back from its term, and which values share a term.
-/

namespace RdfStar.Oxigraph

open Lexicon Placement

/-! ## Kinds of values -/

namespace Value

/-- Whether a value is an outermost quad, which no other value holds. -/
def isQuad : Value → Bool
  | .quad _ _ _ _ => true
  | _ => false

/-- A triple, and the quad that has its parts and the default graph. -/
def IsTripleOf (v w : Value) : Prop :=
  ∃ s p o, v = .triple s p o ∧ w = .quad s p o .defaultGraph

/-- No position takes an outermost quad. -/
theorem isQuad_of_fits [Placement] {v : Value} {position : Position} (h : fits position v = true) :
    v.isQuad = false := by
  cases v with
  | quad s p o g => cases position <;> simp at h
  | _ => rfl

end Value

section Return

variable [Lexicon] [Wording]

/-! ## Valid values are the values of terms -/

theorem encodeAtom_typed {value datatype : String} (h : acceptsIri datatype = true) :
    encodeAtom (.literal (.typed value datatype)) = .ok (.literal value none datatype) := by
  have hdatatype : (Literal.typed value datatype).datatype = datatype := by
    rw [Literal.typed, Literal.of_datatype, if_neg fun tagged => tagged.2 rfl]
  have huntagged : (Literal.typed value datatype).language = "" := Literal.of_language _ _ _
  rw [encodeAtom_untagged huntagged, hdatatype, Literal.typed, Literal.of_value]
  exact Value.ofTyped_eq_ok_iff.mpr ⟨h, rfl⟩

theorem encodeAtom_lowered {value tag : String} (h : acceptsTag tag = true)
    (hlower : lowerTag tag = tag) :
    encodeAtom (.literal (.tagged value tag)) =
      .ok (.literal value (some tag) Datatype.rdfLangString) := by
  have htag : (Literal.tagged value tag).language ≠ "" := by
    rw [Literal.tagged, Literal.of_language]
    exact acceptsTag_ne_empty h
  rw [encodeAtom_tagged htag, Literal.tagged, Literal.of_value, Literal.of_language]
  exact Value.ofTagged_eq_ok_iff.mpr ⟨h, by rw [hlower]⟩

variable [Placement]

theorem exists_encodes {v : Value} (h : v.Valid) (hquad : v.isQuad = false) : ∃ t, Encodes t v := by
  induction v with
  | namedNode iri => exact ⟨_, (EncodesAtom.namedNode h).encodes⟩
  | blankNode label => exact ⟨_, (EncodesAtom.blankNode h).encodes⟩
  | var name => exact ⟨_, (EncodesAtom.var h).encodes⟩
  | defaultGraph => exact ⟨_, EncodesAtom.defaultGraph.encodes⟩
  | literal value language datatype =>
    cases language with
    | none => exact ⟨_, .atom (encodeAtom_typed h)⟩
    | some tag =>
      obtain ⟨accepted, lowered, rfl⟩ := h
      exact ⟨_, .atom (encodeAtom_lowered accepted lowered)⟩
  | triple s p o hs hp ho =>
    -- no position takes an outermost quad, so the hypotheses apply to all three parts
    obtain ⟨taken, valid_s, valid_p, valid_o⟩ := h
    obtain ⟨_, subject⟩ := hs valid_s (Value.isQuad_of_fits taken.1)
    obtain ⟨_, predicate⟩ := hp valid_p (Value.isQuad_of_fits taken.2.1)
    obtain ⟨_, object⟩ := ho valid_o (Value.isQuad_of_fits taken.2.2)
    exact ⟨_, .triple subject predicate object (Value.ofTriple_eq_ok_iff.mpr ⟨taken, rfl⟩)⟩
  | quad => cases hquad

theorem exists_encodesQuad {s p o g : Value} (h : (Value.quad s p o g).Valid) :
    ∃ q, EncodesQuad q (.quad s p o g) := by
  obtain ⟨taken, valid_s, valid_p, valid_o, valid_g⟩ := h
  obtain ⟨_, subject⟩ := exists_encodes valid_s (Value.isQuad_of_fits taken.1)
  obtain ⟨_, predicate⟩ := exists_encodes valid_p (Value.isQuad_of_fits taken.2.1)
  obtain ⟨_, object⟩ := exists_encodes valid_o (Value.isQuad_of_fits taken.2.2.1)
  obtain ⟨_, graph⟩ := exists_encodes valid_g (Value.isQuad_of_fits taken.2.2.2)
  exact ⟨_, .quad subject predicate object graph (Value.ofQuad_eq_ok_iff.mpr ⟨taken, rfl⟩)⟩

theorem valid_of_encodeAtom {a : Atom} {v : Value} (h : encodeAtom a = .ok v) :
    v.Valid ∧ v.isQuad = false := by
  cases encodeAtom_eq_ok_iff.mp h with
  | namedNode accepted | blankNode accepted | var accepted => exact ⟨accepted, rfl⟩
  | untagged _ accepted => exact ⟨accepted, rfl⟩
  | tagged tagged =>
    rw [encodeAtom_tagged tagged] at h
    exact ⟨Value.ofTagged_valid h, rfl⟩
  | defaultGraph => exact ⟨trivial, rfl⟩

/-- **The values that terms are converted to are the valid ones, outermost quads apart.** -/
theorem valid_iff_exists_encodes {v : Value} :
    (v.Valid ∧ v.isQuad = false) ↔ ∃ t, Encodes t v := by
  constructor
  · rintro ⟨h, hquad⟩
    exact exists_encodes h hquad
  · rintro ⟨t, ht⟩
    induction ht with
    | atom made => exact valid_of_encodeAtom made
    | triple _ _ _ made hs hp ho =>
      have valid := Value.ofTriple_valid hs.1 hp.1 ho.1 made
      obtain ⟨-, rfl⟩ := Value.ofTriple_eq_ok_iff.mp made
      exact ⟨valid, rfl⟩

/-! ## Conversion back -/

/-- A valid value is converted to a term whose value it is. -/
theorem exists_decode_encodes {v : Value} (h : v.Valid) (hquad : v.isQuad = false) :
    ∃ t, decode Factory.standard v = pure t ∧ Encodes t v := by
  obtain ⟨t, ht⟩ := exists_encodes h hquad
  exact ⟨Term.settle lowerTag t, decode_of_encodes ht, ht.settle⟩

theorem exists_decode_encodesQuad {s p o g : Value} (h : (Value.quad s p o g).Valid) :
    ∃ q : Quad Atom, decode Factory.standard (.quad s p o g) = pure q.toNested ∧
      EncodesQuad q (.quad s p o g) := by
  obtain ⟨q, hq⟩ := exists_encodesQuad h
  exact ⟨q.settle lowerTag, decode_of_encodesQuad hq, hq.settle⟩

/-- Whether a value is what a term is converted to, where it is quoted or as an outermost quad. -/
def Value.IsValueOf (v : Value) (t : Term) : Prop :=
  Encodes t v ∨ ∃ q : Quad Atom, t = q.toNested ∧ EncodesQuad q v

theorem exists_decode {v : Value} (h : v.Valid) :
    ∃ t, decode Factory.standard v = pure t ∧ v.IsValueOf t := by
  cases v with
  | quad s p o g =>
    obtain ⟨q, hq, encodes_q⟩ := exists_decode_encodesQuad h
    exact ⟨_, hq, .inr ⟨q, rfl, encodes_q⟩⟩
  | _ =>
    obtain ⟨t, ht, encodes_t⟩ := exists_decode_encodes h rfl
    exact ⟨t, ht, .inl encodes_t⟩

/-! ## Values with the same term -/

theorem Encodes.unique {t : Term} {v w : Value} (hv : Encodes t v) (hw : Encodes t w) : v = w :=
  Except.ok.inj (congrArg Prod.fst (hv.outcome.symm.trans hw.outcome))

theorem EncodesQuad.unique {q : Quad Atom} {v w : Value} (hv : EncodesQuad q v)
    (hw : EncodesQuad q w) : v = w :=
  Except.ok.inj (congrArg Prod.fst (hv.outcome.symm.trans hw.outcome))

/-- A quad that can also be quoted is in the default graph, and becomes a triple of its parts. -/
theorem Encodes.isTripleOf {q : Quad Atom} {v w : Value} (hv : Encodes q.toNested v)
    (hw : EncodesQuad q w) : v.IsTripleOf w := by
  obtain ⟨subject, predicate, object, graph, made⟩ := hw
  obtain ⟨-, rfl⟩ := Value.ofQuad_eq_ok_iff.mp made
  obtain ⟨⟩ | ⟨subject', predicate', object', made'⟩ := hv
  obtain ⟨-, rfl⟩ := Value.ofTriple_eq_ok_iff.mp made'
  have hdefault : Encodes (.leaf .defaultGraph) .defaultGraph := .atom rfl
  rw [subject.unique subject', predicate.unique predicate', object.unique object',
    graph.unique hdefault]
  exact ⟨_, _, _, rfl, rfl⟩

omit [Lexicon] [Placement] [Wording] in
theorem Value.IsTripleOf.decode_eq {v w : Value} (h : v.IsTripleOf w) :
    decode Factory.standard v = decode Factory.standard w := by
  obtain ⟨s, p, o, rfl, rfl⟩ := h
  rfl

/-- Two values of one term, each in the way in which it is a value of it. -/
theorem Value.IsValueOf.eq_or_isTripleOf {t : Term} {v w : Value} (hv : v.IsValueOf t)
    (hw : w.IsValueOf t) : v = w ∨ v.IsTripleOf w ∨ w.IsTripleOf v := by
  rcases hv with hv | ⟨q, rfl, hv⟩
  · rcases hw with hw | ⟨r, rfl, hw⟩
    · exact .inl (hv.unique hw)
    · exact .inr (.inl (hv.isTripleOf hw))
  · rcases hw with hw | ⟨r, hr, hw⟩
    · exact .inr (.inr (hw.isTripleOf hv))
    · obtain rfl := Quad.toNested_injective hr
      exact .inl (hv.unique hw)

theorem decode_eq_decode_iff {v w : Value} (hv : v.Valid) (hw : w.Valid) :
    decode Factory.standard v = decode Factory.standard w ↔
      v = w ∨ v.IsTripleOf w ∨ w.IsTripleOf v := by
  constructor
  · intro h
    obtain ⟨t, ht, value_t⟩ := exists_decode hv
    obtain ⟨u, hu, value_u⟩ := exists_decode hw
    rw [ht, hu, LabelSupply.pure_eq_pure_iff] at h
    subst h
    exact value_t.eq_or_isTripleOf value_u
  · rintro (rfl | h | h)
    · rfl
    · exact h.decode_eq
    · exact h.decode_eq.symm

/-- **A valid value is converted to a term that is converted back to it, an outermost quad by the
conversion that keeps its graph. Two valid values share a term only if one is a triple and the
other the quad of its parts in the default graph.** -/
theorem decode_encode_valid :
    (∀ v : Value, v.Valid → v.isQuad = false →
      ∃ t, decode Factory.standard v = pure t ∧
        (encode (Draft.ofTerm t)).outcome = (.ok v, [])) ∧
    (∀ s p o g : Value, (Value.quad s p o g).Valid →
      ∃ q : Quad Atom, decode Factory.standard (.quad s p o g) = pure q.toNested ∧
        (encodeQuad (q.map .atom)).outcome = (.ok (.quad s p o g), [])) ∧
    ∀ v w : Value, v.Valid → w.Valid →
      (decode Factory.standard v = decode Factory.standard w ↔
        v = w ∨ v.IsTripleOf w ∨ w.IsTripleOf v) := by
  refine ⟨fun v h hquad => ?_, fun s p o g h => ?_, fun v w hv hw => decode_eq_decode_iff hv hw⟩
  · obtain ⟨t, ht, encodes_t⟩ := exists_decode_encodes h hquad
    exact ⟨t, ht, encodes_t.outcome⟩
  · obtain ⟨q, hq, encodes_q⟩ := exists_decode_encodesQuad h
    exact ⟨q, hq, encodes_q.outcome⟩

end Return

/-- A triple whose object is a triple around a tagged literal, and the quad with the same parts. -/
theorem decode_encode_valid_default_graph :
    let b : Value := .blankNode "b"
    let p : Value := .namedNode "http://example.org/p"
    let inner : Value := .triple b p (.literal "chat" (some "fr-ca") Datatype.rdfLangString)
    let v : Value := .triple b p inner
    let w : Value := .quad b p inner .defaultGraph
    (v.Valid ∧ w.Valid) ∧
      (∃ t, decode Factory.standard v = pure t ∧ (encode (Draft.ofTerm t)).outcome = (.ok v, [])) ∧
      (∃ q : Quad Atom, decode Factory.standard w = pure q.toNested ∧
        (encodeQuad (q.map .atom)).outcome = (.ok w, [])) ∧
      decode Factory.standard v = decode Factory.standard w := by
  intro b p inner v w
  have hb : b.Valid := show acceptsLabel "b" = true by decide +kernel
  have hp : p.Valid := show acceptsIri "http://example.org/p" = true by decide +kernel
  have hx : (Value.literal "chat" (some "fr-ca") Datatype.rdfLangString).Valid :=
    ⟨by decide +kernel, by decide +kernel, rfl⟩
  have hinner : inner.Valid := ⟨⟨rfl, rfl, rfl⟩, hb, hp, hx⟩
  have hv : v.Valid := ⟨⟨rfl, rfl, rfl⟩, hb, hp, hinner⟩
  have hw : w.Valid := ⟨⟨rfl, rfl, rfl, rfl⟩, hb, hp, hinner, trivial⟩
  have hsame := (decode_encode_valid.2.2 v w hv hw).mpr (.inr (.inl ⟨b, p, inner, rfl, rfl⟩))
  exact ⟨⟨hv, hw⟩, decode_encode_valid.1 v hv rfl, decode_encode_valid.2.1 _ _ _ _ hw, hsame⟩

end RdfStar.Oxigraph
