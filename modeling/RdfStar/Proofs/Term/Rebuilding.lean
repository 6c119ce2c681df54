import RdfStar.Proofs.Leaf.Rewriting
import RdfStar.Proofs.Term.Settled

/-!
# Terms built anew

A factory builds a draft anew from its leaves up. The factory of terms takes no label from its
supply for that, whatever the draft: blank nodes are built with the labels that they have. What it
builds is the term, with its tagged literals settled, since a literal with a tag is built from its
value and its tag alone. A draft that is no term is given up at the first foreign value in it.

Principal results: `Factory.rebuild_ofTerm`, `Factory.rebuild_of_foreign` — what comes of a term and
of any other draft; `Factory.rebuild_toNested` — to build a quad anew is to map its leaves;
`Factory.rebuild_settles` — all of this for the factory of terms, with the state of its supply.
-/

namespace RdfStar

/-! ## Foreign values in drafts -/

namespace Draft

/-- The first value in a draft that is no term, in the order of a traversal. -/
def foreign? (d : Draft) : Option Data := (d.leavesAt []).findSome? fun e => e.1.foreign?

theorem foreign?_quad (s p o g : Draft) :
    foreign? (.quad s p o g) =
      (foreign? s).or ((foreign? p).or ((foreign? o).or (foreign? g))) := by
  have hunder (position : Position) (d : Draft) :
      (under position (d.frontier false)).findSome? (fun e => e.1.foreign?) = foreign? d := by
    rw [foreign?, Nested.leavesAt_nil, under, List.findSome?_map]
    rfl
  rw [foreign?, Nested.leavesAt_nil, Nested.frontier]
  simp only [Bool.false_and, Bool.false_eq_true, if_false, List.findSome?_append, hunder,
    Option.or_assoc]

/-- A draft is a term exactly if there is no such value in it. -/
theorem foreign?_eq_none_iff {d : Draft} : foreign? d = none ↔ ∃ t, d = ofTerm t := by
  induction d with
  | leaf part =>
    cases part with
    | atom a => exact ⟨fun _ => ⟨.leaf a, rfl⟩, fun _ => rfl⟩
    | foreign v =>
      refine ⟨nofun, ?_⟩
      rintro ⟨t, ht⟩
      cases t <;> cases ht
  | quad s p o g hs hp ho hg =>
    rw [foreign?_quad]
    simp only [Option.or_eq_none_iff, hs, hp, ho, hg]
    constructor
    · rintro ⟨⟨s, rfl⟩, ⟨p, rfl⟩, ⟨o, rfl⟩, ⟨g, rfl⟩⟩
      exact ⟨.quad s p o g, rfl⟩
    · rintro ⟨t, ht⟩
      cases t with
      | leaf a => cases ht
      | quad s p o g =>
        cases ht
        exact ⟨⟨s, rfl⟩, ⟨p, rfl⟩, ⟨o, rfl⟩, ⟨g, rfl⟩⟩

end Draft

namespace Factory

/-! ## From the leaves up -/

section Leaves

variable {m : Type → Type} [Monad m] {τ : Type} (F : Factory m τ)

theorem rebuild_quad (s p o g : Draft) :
    F.rebuild (.quad s p o g) = (do
      let s ← F.rebuild s
      let p ← F.rebuild p
      let o ← F.rebuild o
      let g ← F.rebuild g
      ExceptT.lift (F.quad s p o (some g))) := rfl

/-- A draft is built anew by building its leaves anew, and the quads of what they become. -/
theorem rebuild_eq (d : Draft) (trail : Path) :
    F.rebuild d = d.rebuild (fun part _ => F.rebuild (.leaf part))
      (fun s p o g => ExceptT.lift (F.quad s p o (some g))) trail := by
  induction d generalizing trail with
  | leaf part => rfl
  | quad s p o g hs hp ho hg => rw [rebuild_quad, Nested.rebuild, ← hs, ← hp, ← ho, ← hg]

/-- **To build a quad anew is to map its leaves**, each to what it is when it is built anew. -/
theorem rebuild_toNested (Q : Quad Part) :
    F.rebuild Q.toNested = Q.mapLeaves (fun part _ => F.rebuild (.leaf part))
      fun s p o g => ExceptT.lift (F.quad s p o (some g)) := F.rebuild_eq Q.toNested []

end Leaves

/-! ## Terms and other drafts -/

section Plain

variable {m : Type → Type} [Monad m] [LawfulMonad m] {α : Type}

theorem rebuildAtom_plain (ofAtom : Atom → α) (fresh : m String) (a : Atom) :
    (plain ofAtom fresh).rebuildAtom a = pure (.leaf (ofAtom (a.settle id))) := by
  cases a with
  | literal x =>
    by_cases tagged : x.language = ""
    · simp [rebuildAtom, plain, tagged, Literal.annotated, Literal.typed_of_untagged tagged,
        Atom.settle, Literal.settle_of_untagged tagged]
    · simp [rebuildAtom, plain, tagged, Literal.annotated, Literal.tagged_eq_of tagged,
        Atom.settle, Literal.settle_of_tagged tagged]
  | _ => rfl

/-- **A term is built anew as it is, but for its literals, which are settled.** -/
theorem rebuild_ofTerm (ofAtom : Atom → α) (fresh : m String) (t : Term) :
    (plain ofAtom fresh).rebuild (Draft.ofTerm t) = pure ((Term.settle id t).map ofAtom) := by
  induction t with
  | leaf a =>
    have hleaf : (plain ofAtom fresh).rebuild (Draft.ofTerm (.leaf a)) =
        ExceptT.lift ((plain ofAtom fresh).rebuildAtom a) := rfl
    rw [hleaf, rebuildAtom_plain, ExceptT.lift_pure]
    rfl
  | quad s p o g hs hp ho hg =>
    rw [Draft.ofTerm_quad, rebuild_quad, hs, hp, ho, hg]
    simp only [pure_bind]
    exact ExceptT.lift_pure _

/-- **A draft that is no term fails at the first foreign value in it.** -/
theorem rebuild_of_foreign (ofAtom : Atom → α) (fresh : m String) {d : Draft} {v : Data}
    (h : d.foreign? = some v) : (plain ofAtom fresh).rebuild d = throw ⟨v⟩ := by
  induction d with
  | leaf part =>
    cases part with
    | atom a => cases h
    | foreign w =>
      cases h
      rfl
  | quad s p o g hs hp ho hg =>
    -- the part with the first foreign value fails, and all parts before it are terms
    rw [rebuild_quad]
    simp only [Draft.foreign?_quad, Option.or_eq_some_iff, Draft.foreign?_eq_none_iff] at h
    rcases h with hv | ⟨⟨s, rfl⟩, hv | ⟨⟨p, rfl⟩, hv | ⟨⟨o, rfl⟩, hv⟩⟩⟩
    · rw [hs hv, ExceptT.bind_throw]
    · rw [rebuild_ofTerm, pure_bind, hp hv, ExceptT.bind_throw]
    · rw [rebuild_ofTerm, pure_bind, rebuild_ofTerm, pure_bind, ho hv, ExceptT.bind_throw]
    · rw [rebuild_ofTerm, pure_bind, rebuild_ofTerm, pure_bind, rebuild_ofTerm, pure_bind, hg hv,
        ExceptT.bind_throw]

end Plain

/-! ## With a supply of labels -/

/-- **The factory of terms builds a term anew as it is, but gives every tagged literal the datatype
of tagged strings**, so that a term comes back unchanged exactly if all its tagged literals have
that datatype, and always the second time. A draft that is no term fails with its first foreign
value. In no case is a label taken from the supply. To build a quad anew, through any factory, is to
map its leaves to themselves built anew. -/
theorem rebuild_settles (supply : LabelSupply) :
    (∀ t : Term, (standard.rebuild (Draft.ofTerm t)).run.run supply =
        (.ok (Term.settle id t), supply) ∧
      (Term.settle id t = t ↔ ∀ path x, t.at? path = some (.leaf (.literal x)) →
        x.language ≠ "" → x.datatype = Datatype.rdfLangString) ∧
      (standard.rebuild (Draft.ofTerm (Term.settle id t))).run.run supply =
        (.ok (Term.settle id t), supply)) ∧
    (∀ x : Literal, (x.settle id).value = x.value ∧ (x.settle id).language = x.language ∧
      (x.settle id).datatype = if x.language ≠ "" then Datatype.rdfLangString else x.datatype) ∧
    (∀ d : Draft, (d.foreign? = none ↔ ∃ t, d = Draft.ofTerm t) ∧
      ∀ v, d.foreign? = some v →
        (standard.rebuild d).run.run supply = (.error ⟨v⟩, supply) ∧
        NotTerm.message ⟨v⟩ = "Not a term: " ++ v.quoted) ∧
    ∀ (m : Type → Type) [Monad m] (τ : Type) (F : Factory m τ) (Q : Quad Part),
      F.rebuild Q.toNested = Q.mapLeaves (fun part _ => F.rebuild (.leaf part))
        fun s p o g => ExceptT.lift (F.quad s p o (some g)) := by
  have hterm (t : Term) : (standard.rebuild (Draft.ofTerm t)).run.run supply =
      (.ok (Term.settle id t), supply) := by
    rw [standard, rebuild_ofTerm, Nested.map_id]
    rfl
  have hsettled (t : Term) : Term.settle id (Term.settle id t) = Term.settle id t :=
    Term.settle_settle (fun _ => rfl) t
  refine ⟨fun t => ⟨hterm t, ?_, ?_⟩, Literal.settle_id_fields,
    fun d => ⟨Draft.foreign?_eq_none_iff, fun v hv => ⟨?_, rfl⟩⟩,
    fun m _ τ F Q => F.rebuild_toNested Q⟩
  · rw [Term.settle_eq_self_iff, Term.Settled]
    simp only [id, true_and]
  · rw [hterm, hsettled]
  · rw [standard, rebuild_of_foreign id LabelSupply.generate hv]
    rfl

/-- A literal with a tag and a datatype of its own below a quoted quad, next to a blank node with an
empty label; and the same quad with a number in place of the blank node and a text as its graph. -/
theorem rebuild_settles_quoted_literal :
    let p : Term := .leaf (.namedNode "p")
    let dg : Term := .leaf .defaultGraph
    let quoted (datatype : String) : Term :=
      .quad p p (.leaf (.literal (.of "a" "en" datatype))) dg
    let t : Term := .quad (quoted "http://ex.org/d") p (.leaf (.blankNode "")) dg
    let d : Draft := .quad (Draft.ofTerm (quoted "http://ex.org/d")) (Draft.ofTerm p)
      (.leaf (.foreign (.integer 3))) (.leaf (.foreign (.text "g")))
    let supply : LabelSupply := ⟨"b", 7⟩
    (standard.rebuild (Draft.ofTerm t)).run.run supply =
        (.ok (.quad (quoted Datatype.rdfLangString) p (.leaf (.blankNode "")) dg), supply) ∧
      Term.settle id t ≠ t ∧
      (standard.rebuild d).run.run supply = (.error ⟨.integer 3⟩, supply) := by
  intro p dg quoted t d supply
  obtain ⟨hterms, -, hdrafts, -⟩ := rebuild_settles supply
  have hsettled :
      Term.settle id t = .quad (quoted Datatype.rdfLangString) p (.leaf (.blankNode "")) dg := by
    decide
  refine ⟨?_, ?_, ((hdrafts d).2 (.integer 3) ?_).1⟩
  · rw [(hterms t).1, hsettled]
  · rw [hsettled]
    decide
  · rw [Draft.foreign?, Nested.leavesAt_nil]
    rfl

end Factory

end RdfStar
