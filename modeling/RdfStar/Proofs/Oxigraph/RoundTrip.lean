import RdfStar.Proofs.Oxigraph.Encoding
import RdfStar.Proofs.Term.Settled

/-!
# To oxigraph and back

A term that is converted to oxigraph and back loses of a tagged literal what oxigraph does not
keep: the case of its tag, and a datatype of its own. Nothing else changes, at any depth: a quoted
quad gives up its default graph and gets one again.

Principal results: `decode_of_encodes` — what comes back; `Encodes.settle` — it becomes the same
value again; `encode_decode_settle` — both as statements on the conversions.
-/

namespace RdfStar.Oxigraph

open Lexicon

/-! ## Atoms -/

section Atoms

variable {m : Type → Type} [Monad m] {fresh : m String}

theorem decode_untagged (value datatype : String) :
    decode (Factory.plain id fresh) (.literal value none datatype) =
      pure (.leaf (.literal (.typed value datatype))) := rfl

theorem decode_tagged (value datatype : String) {tag : String} (h : tag ≠ "") :
    decode (Factory.plain id fresh) (.literal value (some tag) datatype) =
      pure (.leaf (.literal (.tagged value tag))) := by
  rw [decode, if_pos h]
  rfl

variable [Lexicon] [Wording] {a : Atom} {v : Value}

theorem decode_of_encodeAtom (h : encodeAtom a = .ok v) :
    decode (Factory.plain id fresh) v = pure (.leaf (a.settle lowerTag)) := by
  cases encodeAtom_eq_ok_iff.mp h with
  | tagged tagged accepted =>
    have lowered := lowerTag_ne_empty accepted
    rw [decode_tagged _ _ lowered, Literal.tagged_eq_of lowered, Atom.settle,
      Literal.settle_of_tagged tagged]
  | untagged untagged =>
    rw [decode_untagged, Literal.typed_of_untagged untagged, Atom.settle,
      Literal.settle_of_untagged untagged]
  | _ => rfl

theorem encodeAtom_settle (h : encodeAtom a = .ok v) : encodeAtom (a.settle lowerTag) = .ok v := by
  cases encodeAtom_eq_ok_iff.mp h with
  | tagged tagged accepted =>
    have lowered := lowerTag_ne_empty accepted
    rw [Atom.settle, Literal.settle_of_tagged tagged, encodeAtom_tagged (by simpa using lowered)]
    rw [Literal.of_value, Literal.of_language, Value.ofTagged_eq_ok_iff, lowerTag_lowerTag]
    exact ⟨acceptsTag_lowerTag accepted, rfl⟩
  | untagged untagged =>
    rw [Atom.settle, Literal.settle_of_untagged untagged]
    exact h
  | _ => exact h

end Atoms

section RoundTrip

variable [Lexicon] [Placement] [Wording]

/-! ## What comes back -/

section Decode

variable {m : Type → Type} [Monad m] [LawfulMonad m] {fresh : m String}

theorem decode_of_encodes {t : Term} {v : Value} (h : Encodes t v) :
    decode (Factory.plain id fresh) v = pure (Term.settle lowerTag t) := by
  induction h with
  | atom made => exact decode_of_encodeAtom made
  | triple _ _ _ made hs hp ho =>
    obtain ⟨-, rfl⟩ := Value.ofTriple_eq_ok_iff.mp made
    rw [decode, hs, hp, ho]
    simp only [pure_bind]
    rfl

theorem decode_of_encodesQuad {q : Quad Atom} {v : Value} (h : EncodesQuad q v) :
    decode (Factory.plain id fresh) v = pure (q.settle lowerTag).toNested := by
  obtain ⟨hs, hp, ho, hg, made⟩ := h
  obtain ⟨-, rfl⟩ := Value.ofQuad_eq_ok_iff.mp made
  rw [decode, decode_of_encodes hs, decode_of_encodes hp, decode_of_encodes ho,
    decode_of_encodes hg]
  simp only [pure_bind]
  rfl

end Decode

/-! ## What comes back is converted again -/

theorem Encodes.settle {t : Term} {v : Value} (h : Encodes t v) :
    Encodes (Term.settle lowerTag t) v := by
  induction h with
  | atom made => exact .atom (encodeAtom_settle made)
  | triple _ _ _ made hs hp ho => exact .triple hs hp ho made

theorem EncodesQuad.settle {q : Quad Atom} {v : Value} (h : EncodesQuad q v) :
    EncodesQuad (q.settle lowerTag) v := by
  obtain ⟨hs, hp, ho, hg, made⟩ := h
  exact .quad hs.settle hp.settle ho.settle hg.settle made

/-! ## The round trip -/

/-- **A term that becomes an oxigraph value comes back with its tagged literals settled, and
becomes the same value again; the same holds of an outermost quad.** -/
theorem encode_decode_settle :
    (∀ (t : Term) (v : Value), (encode (Draft.ofTerm t)).outcome.1 = .ok v →
      decode Factory.standard v = pure (Term.settle lowerTag t) ∧
      (decode Factory.standard v = pure t ↔ Term.Settled lowerTag t) ∧
      (encode (Draft.ofTerm (Term.settle lowerTag t))).outcome = (.ok v, [])) ∧
    ∀ (q : Quad Atom) (v : Value), (encodeQuad (q.map .atom)).outcome.1 = .ok v →
      decode Factory.standard v = pure (q.settle lowerTag).toNested ∧
      (decode Factory.standard v = pure q.toNested ↔ Term.Settled lowerTag q.toNested) ∧
      (encodeQuad ((q.settle lowerTag).map .atom)).outcome = (.ok v, []) := by
  refine ⟨fun t v h => ?_, fun q v h => ?_⟩
  · have hv : Encodes t v := encode_eq_ok_iff.mp h
    have hback : decode Factory.standard v = pure (Term.settle lowerTag t) := decode_of_encodes hv
    refine ⟨hback, ?_, hv.settle.outcome⟩
    rw [hback, LabelSupply.pure_eq_pure_iff]
    exact Term.settle_eq_self_iff
  · have hv : EncodesQuad q v := encodeQuad_eq_ok_iff.mp h
    have hback : decode Factory.standard v = pure (q.settle lowerTag).toNested :=
      decode_of_encodesQuad hv
    refine ⟨hback, ?_, hv.settle.outcome⟩
    rw [hback, LabelSupply.pure_eq_pure_iff, Quad.toNested_settle]
    exact Term.settle_eq_self_iff

end RoundTrip

/-- A literal with an upper-case tag and a datatype of its own, below two quoted quads. -/
theorem encode_decode_settle_upper_case :
    let b : Term := .leaf (.blankNode "b")
    let p : Term := .leaf (.namedNode "http://example.org/p")
    let q (x : Literal) : Quad Atom :=
      ⟨b, p, .quad b p (.quad b p (.leaf (.literal x)) (.leaf .defaultGraph)) (.leaf .defaultGraph), p⟩
    let given : Literal := .of "chat" "FR-ca" "http://example.org/d"
    let kept : Literal := .of "chat" "fr-ca" Datatype.rdfLangString
    ∃ v : Value, (encodeQuad ((q given).map .atom)).outcome.1 = .ok v ∧
      decode Factory.standard v = pure (q kept).toNested := by
  intro b p q given kept
  have hb : Encodes b (.blankNode "b") :=
    .atom (Value.ofLabel_eq_ok_iff.mpr ⟨by decide +kernel, rfl⟩)
  have hp : Encodes p (.namedNode "http://example.org/p") :=
    .atom (Value.ofIri_eq_ok_iff.mpr ⟨by decide +kernel, rfl⟩)
  have hx : Encodes (.leaf (.literal given))
      (.literal given.value (some (lowerTag given.language)) Datatype.rdfLangString) :=
    .atom ((encodeAtom_tagged (by decide)).trans
      (Value.ofTagged_eq_ok_iff.mpr ⟨by decide +kernel, rfl⟩))
  have hq : EncodesQuad (q given) _ := .quad hb hp (.triple hb hp (.triple hb hp hx rfl) rfl) hp rfl
  have hv := encodeQuad_eq_ok_iff.mpr hq
  have hkept : (q given).settle lowerTag = q kept := by decide +kernel
  exact ⟨_, hv, hkept ▸ (encode_decode_settle.2 (q given) _ hv).1⟩

end RdfStar.Oxigraph
