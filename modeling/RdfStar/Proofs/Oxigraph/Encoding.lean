import RdfStar.Oxigraph.Conversion

/-!
# The value that a term becomes

What a conversion to oxigraph does when it succeeds, as a relation between terms and values that
follows the term. A conversion that succeeds notes nothing.

Principal results: `encodeAtom_eq_ok_iff`, `encode_eq_ok_iff`, `encodeQuad_eq_ok_iff` — a conversion
succeeds with a value exactly if the relation gives the term that value; `exists_ofTerm_of_encode`
— no draft but a term is converted.
-/

namespace RdfStar.Oxigraph

open Lexicon

/-! ## The relation -/

section Relation

variable [Lexicon] [Placement] [Wording]

/-- An atom and the value that it becomes. -/
inductive EncodesAtom : Atom → Value → Prop
  | namedNode {iri : String} (accepted : acceptsIri iri = true) :
    EncodesAtom (.namedNode iri) (.namedNode iri)
  | blankNode {label : String} (accepted : acceptsLabel label = true) :
    EncodesAtom (.blankNode label) (.blankNode label)
  | tagged {x : Literal} (tagged : x.language ≠ "") (accepted : acceptsTag x.language = true) :
    EncodesAtom (.literal x)
      (.literal x.value (some (lowerTag x.language)) Datatype.rdfLangString)
  | untagged {x : Literal} (untagged : x.language = "") (accepted : acceptsIri x.datatype = true) :
    EncodesAtom (.literal x) (.literal x.value none x.datatype)
  | var {name : String} (accepted : acceptsVarName name = true) :
    EncodesAtom (.var name) (.var name)
  | defaultGraph : EncodesAtom .defaultGraph .defaultGraph

/-- A term and the value that it becomes where it is quoted. -/
inductive Encodes : Term → Value → Prop
  | atom {a : Atom} {v : Value} (made : encodeAtom a = .ok v) : Encodes (.leaf a) v
  | triple {s p o : Term} {s' p' o' v : Value} (subject : Encodes s s') (predicate : Encodes p p')
      (object : Encodes o o') (made : Value.ofTriple s' p' o' = .ok v) :
      Encodes (.quad s p o (.leaf .defaultGraph)) v

/-- An outermost quad and the value that it becomes. -/
inductive EncodesQuad : Quad Atom → Value → Prop
  | quad {s p o g : Term} {s' p' o' g' v : Value} (subject : Encodes s s')
      (predicate : Encodes p p') (object : Encodes o o') (graph : Encodes g g')
      (made : Value.ofQuad s' p' o' g' = .ok v) : EncodesQuad ⟨s, p, o, g⟩ v

end Relation

/-! ## Steps of a conversion -/

section Steps

variable {β : Type} {log noted : List Event} {v : β}

theorem refuse_after_eq_ok_iff {x : Except Rejection β} :
    (refuse x).after log = (.ok v, noted) ↔ x = .ok v ∧ noted = log := by
  cases x with
  | ok w => simp [refuse, Logged.pure_after, eq_comm]
  | error cause => simp [refuse, Logged.throw_after]

theorem wrap_after_eq_ok_iff {report : Rejection → ConversionError} {x : Logged Event Failure β} :
    (wrap report x).after log = (.ok v, noted) ↔ x.after log = (.ok v, noted) := by
  rw [wrap, Logged.tryCatch_after]
  obtain ⟨result, between⟩ := x.after log
  cases result with
  | ok w => rfl
  | error failure => cases failure <;> simp [Logged.throw_after]

end Steps

section Atoms

variable [Lexicon] [Wording]

theorem encodeAtom_untagged {x : Literal} (h : x.language = "") :
    encodeAtom (.literal x) = Value.ofTyped x.value x.datatype := if_neg (not_not_intro h)

theorem encodeAtom_tagged {x : Literal} (h : x.language ≠ "") :
    encodeAtom (.literal x) = Value.ofTagged x.value x.language := if_pos h

variable {a : Atom} {v : Value}

theorem encodeAtom_eq_ok_iff : encodeAtom a = .ok v ↔ EncodesAtom a v := by
  constructor
  · intro h
    cases a with
    | namedNode iri =>
      obtain ⟨accepted, rfl⟩ := Value.ofIri_eq_ok_iff.mp h
      exact .namedNode accepted
    | blankNode label =>
      obtain ⟨accepted, rfl⟩ := Value.ofLabel_eq_ok_iff.mp h
      exact .blankNode accepted
    | literal x =>
      by_cases tagged : x.language = ""
      · rw [encodeAtom_untagged tagged] at h
        obtain ⟨accepted, rfl⟩ := Value.ofTyped_eq_ok_iff.mp h
        exact .untagged tagged accepted
      · rw [encodeAtom_tagged tagged] at h
        obtain ⟨accepted, rfl⟩ := Value.ofTagged_eq_ok_iff.mp h
        exact .tagged tagged accepted
    | var name =>
      obtain ⟨accepted, rfl⟩ := Value.ofVarName_eq_ok_iff.mp h
      exact .var accepted
    | defaultGraph =>
      cases h
      exact .defaultGraph
  · intro h
    cases h with
    | namedNode accepted => exact Value.ofIri_eq_ok_iff.mpr ⟨accepted, rfl⟩
    | blankNode accepted => exact Value.ofLabel_eq_ok_iff.mpr ⟨accepted, rfl⟩
    | tagged tagged accepted =>
      rw [encodeAtom_tagged tagged]
      exact Value.ofTagged_eq_ok_iff.mpr ⟨accepted, rfl⟩
    | untagged untagged accepted =>
      rw [encodeAtom_untagged untagged]
      exact Value.ofTyped_eq_ok_iff.mpr ⟨accepted, rfl⟩
    | var accepted => exact Value.ofVarName_eq_ok_iff.mpr ⟨accepted, rfl⟩
    | defaultGraph => rfl

end Atoms

theorem EncodesAtom.encodes [Lexicon] [Placement] [Wording] {a : Atom} {v : Value}
    (h : EncodesAtom a v) : Encodes (.leaf a) v := .atom (encodeAtom_eq_ok_iff.mpr h)

/-! ## Conversions that succeed -/

section Success

variable [Lexicon] [Placement] [Wording] {log noted : List Event} {v : Value}

theorem encode_after_eq_ok_iff {t : Term} :
    (encode (Draft.ofTerm t)).after log = (.ok v, noted) ↔ Encodes t v ∧ noted = log := by
  induction t generalizing log noted v with
  | leaf a =>
    refine Iff.trans refuse_after_eq_ok_iff (and_congr_left fun _ => ⟨.atom, ?_⟩)
    rintro ⟨made⟩
    exact made
  | quad s p o g hs hp ho _ =>
    rw [Draft.ofTerm_quad, encode, Draft.isDefaultGraph_ofTerm]
    by_cases hg : g.isDefaultGraph = true
    · obtain rfl := Term.isDefaultGraph_iff.mp hg
      rw [if_pos hg, wrap_after_eq_ok_iff]
      simp only [Logged.bind_after_eq_ok_iff, refuse_after_eq_ok_iff, hs, hp, ho]
      constructor
      · rintro ⟨s', _, ⟨hs', rfl⟩, p', _, ⟨hp', rfl⟩, o', _, ⟨ho', rfl⟩, made, rfl⟩
        exact ⟨.triple hs' hp' ho' made, rfl⟩
      · rintro ⟨⟨⟩ | ⟨hs', hp', ho', made⟩, rfl⟩
        exact ⟨_, _, ⟨hs', rfl⟩, _, _, ⟨hp', rfl⟩, _, _, ⟨ho', rfl⟩, made, rfl⟩
    · rw [if_neg hg]
      constructor
      · intro h
        cases h
      · rintro ⟨⟨⟩ | ⟨-, -, -, -⟩, -⟩
        exact absurd rfl hg

theorem Encodes.outcome {t : Term} (h : Encodes t v) :
    (encode (Draft.ofTerm t)).outcome = (.ok v, []) := encode_after_eq_ok_iff.mpr ⟨h, rfl⟩

theorem encode_eq_ok_iff {t : Term} :
    (encode (Draft.ofTerm t)).outcome.1 = .ok v ↔ Encodes t v :=
  ⟨fun h => (encode_after_eq_ok_iff.mp (Prod.ext h rfl)).1, fun h => congrArg Prod.fst h.outcome⟩

theorem encodeQuad_after_eq_ok_iff {q : Quad Atom} :
    (encodeQuad (q.map .atom)).after log = (.ok v, noted) ↔ EncodesQuad q v ∧ noted = log := by
  obtain ⟨s, p, o, g⟩ := q
  have hquad : (Quad.mk s p o g).map Part.atom =
      ⟨Draft.ofTerm s, Draft.ofTerm p, Draft.ofTerm o, Draft.ofTerm g⟩ := rfl
  rw [hquad, encodeQuad, wrap_after_eq_ok_iff]
  simp only [Logged.bind_after_eq_ok_iff, refuse_after_eq_ok_iff, encode_after_eq_ok_iff]
  constructor
  · rintro ⟨s', _, ⟨hs, rfl⟩, p', _, ⟨hp, rfl⟩, o', _, ⟨ho, rfl⟩, g', _, ⟨hg, rfl⟩, made, rfl⟩
    exact ⟨.quad hs hp ho hg made, rfl⟩
  · rintro ⟨⟨hs, hp, ho, hg, made⟩, rfl⟩
    exact ⟨_, _, ⟨hs, rfl⟩, _, _, ⟨hp, rfl⟩, _, _, ⟨ho, rfl⟩, _, _, ⟨hg, rfl⟩, made, rfl⟩

theorem EncodesQuad.outcome {q : Quad Atom} (h : EncodesQuad q v) :
    (encodeQuad (q.map .atom)).outcome = (.ok v, []) := encodeQuad_after_eq_ok_iff.mpr ⟨h, rfl⟩

theorem encodeQuad_eq_ok_iff {q : Quad Atom} :
    (encodeQuad (q.map .atom)).outcome.1 = .ok v ↔ EncodesQuad q v :=
  ⟨fun h => (encodeQuad_after_eq_ok_iff.mp (Prod.ext h rfl)).1,
    fun h => congrArg Prod.fst h.outcome⟩

/-! ## Drafts

A conversion that succeeds has seen terms only: what it does not convert are graphs, and those it
tests for being the default graph. -/

omit [Lexicon] [Placement] [Wording] in
theorem eq_of_isDefaultGraph {d : Draft} (h : d.isDefaultGraph = true) :
    d = Draft.ofTerm (.leaf .defaultGraph) := by
  cases d with
  | leaf part =>
    cases part with
    | atom a => rw [Atom.isDefaultGraph_iff.mp h]; rfl
    | foreign v => cases h
  | quad s p o g => cases h

theorem exists_ofTerm_of_encode {d : Draft} (h : (encode d).after log = (.ok v, noted)) :
    ∃ t, d = Draft.ofTerm t := by
  induction d generalizing log noted v with
  | leaf part =>
    cases part with
    | atom a => exact ⟨.leaf a, rfl⟩
    | foreign v => cases h
  | quad s p o g hs hp ho _ =>
    rw [encode] at h
    by_cases hg : g.isDefaultGraph = true
    · rw [if_pos hg, wrap_after_eq_ok_iff] at h
      simp only [Logged.bind_after_eq_ok_iff] at h
      obtain ⟨_, _, subject, _, _, predicate, _, _, object, -⟩ := h
      obtain ⟨s, rfl⟩ := hs subject
      obtain ⟨p, rfl⟩ := hp predicate
      obtain ⟨o, rfl⟩ := ho object
      rw [eq_of_isDefaultGraph hg]
      exact ⟨.quad s p o (.leaf .defaultGraph), rfl⟩
    · rw [if_neg hg] at h
      cases h

theorem exists_map_of_encode {q : Quad Part} (h : (encode q.toNested).after log = (.ok v, noted)) :
    ∃ r : Quad Atom, q = r.map .atom := by
  obtain ⟨t, ht⟩ := exists_ofTerm_of_encode h
  cases t with
  | leaf a => cases ht
  | quad s p o g => exact ⟨⟨s, p, o, g⟩, Quad.toNested_injective ht⟩

theorem exists_map_of_encodeQuad {q : Quad Part} (h : (encodeQuad q).after log = (.ok v, noted)) :
    ∃ r : Quad Atom, q = r.map .atom := by
  obtain ⟨s, p, o, g⟩ := q
  rw [encodeQuad, wrap_after_eq_ok_iff] at h
  simp only [Logged.bind_after_eq_ok_iff] at h
  obtain ⟨_, _, subject, _, _, predicate, _, _, object, _, _, graph, -⟩ := h
  obtain ⟨s, rfl⟩ := exists_ofTerm_of_encode subject
  obtain ⟨p, rfl⟩ := exists_ofTerm_of_encode predicate
  obtain ⟨o, rfl⟩ := exists_ofTerm_of_encode object
  obtain ⟨g, rfl⟩ := exists_ofTerm_of_encode graph
  exact ⟨⟨s, p, o, g⟩, rfl⟩

end Success

end RdfStar.Oxigraph
