import RdfStar.Path
import RdfStar.Proofs.Oxigraph.Encoding

/-!
# The failures of a conversion

A conversion to oxigraph performs checks in a fixed order. A quoted quad has to be in the default
graph; then the terms at its positions are converted in order, quads by the same rule; and at last
they have to fit their positions. The outermost quad is converted with its graph and not checked
for it. Each check belongs to one quad: that of a leaf to the quad which holds the leaf. The first
check that fails decides the failure, which names the quad of the check and is what that quad would
give on its own, whatever stands around it.

Principal results: `exists_failsAlong` — where the quad of the first failing check stands;
`Performs.bind` — computations in sequence perform their checks in sequence; `wrap_wrap` — a report
is made once; `performs_encode` — a conversion performs the checks of its draft;
`conversion_fails_at_first_check` — which failure a conversion ends in, and what is said of it.
-/

namespace RdfStar.Oxigraph

open Lexicon Placement

/-! ## Checks -/

/-- How a quad is converted: as a quoted triple, or with its graph as the outermost quad. -/
inductive Role where
  | quoted
  | outermost
  deriving DecidableEq, Repr

namespace Role

/-- The positions whose terms are converted. -/
def positions : Role → List Position
  | .quoted => Position.ofTriple
  | .outermost => Position.all

/-- What is reported of a quad that oxigraph refuses. -/
def refusal : Role → Quad Part → Rejection → ConversionError
  | .quoted, q, cause => .rejectedTriple q.toNested cause
  | .outermost, q, cause => .rejectedQuad q.toNested cause

end Role

/-- Whether the text of an atom is acceptable. -/
def acceptable [Lexicon] : Atom → Bool
  | .namedNode iri => acceptsIri iri
  | .blankNode label => acceptsLabel label
  | .literal x => if x.language ≠ "" then acceptsTag x.language else acceptsIri x.datatype
  | .var name => acceptsVarName name
  | .defaultGraph => true

/-- What oxigraph says of an atom whose text is not acceptable. -/
def complaint [Wording] : Atom → String
  | .namedNode iri => Wording.iri iri
  | .blankNode label => Wording.label label
  | .literal x => if x.language ≠ "" then Wording.tag x.language else Wording.iri x.datatype
  | .var name => Wording.varName name
  | .defaultGraph => ""

/-- Whether a position takes what is converted from a draft, by the kind of the draft. -/
def takes : Position → Draft → Bool
  | .subject, .leaf (.atom (.namedNode _)) | .subject, .leaf (.atom (.blankNode _)) => true
  | .predicate, .leaf (.atom (.namedNode _)) => true
  | .object, .leaf (.atom (.namedNode _)) | .object, .leaf (.atom (.blankNode _))
  | .object, .leaf (.atom (.literal _)) | .object, .quad _ _ _ _ => true
  | .graph, .leaf (.atom (.namedNode _)) | .graph, .leaf (.atom (.blankNode _))
  | .graph, .leaf (.atom .defaultGraph) => true
  | _, _ => false

section Values

variable [Lexicon]

/-- The value of an atom whose text is acceptable. -/
def valueOfAtom : Atom → Value
  | .namedNode iri => .namedNode iri
  | .blankNode label => .blankNode label
  | .literal x =>
    if x.language ≠ "" then .literal x.value (some (lowerTag x.language)) Datatype.rdfLangString
    else .literal x.value none x.datatype
  | .var name => .var name
  | .defaultGraph => .defaultGraph

/-- The value of a draft whose checks pass. What is no term has none; like the variable given here
it fits no position. -/
def valueOf : Draft → Value
  | .leaf (.atom a) => valueOfAtom a
  | .leaf (.foreign _) => .var ""
  | .quad s p o _ => .triple (valueOf s) (valueOf p) (valueOf o)

/-- The value of an outermost quad whose checks pass. -/
def valueOfQuad (q : Quad Part) : Value :=
  .quad (valueOf q.subject) (valueOf q.predicate) (valueOf q.object) (valueOf q.graph)

/-- What oxigraph says of the values of a quad that do not fit their positions. -/
def Role.complaint [Wording] : Role → Quad Part → String
  | .quoted, q => Wording.triple (valueOf q.subject) (valueOf q.predicate) (valueOf q.object)
  | .outermost, q =>
    Wording.quad (valueOf q.subject) (valueOf q.predicate) (valueOf q.object) (valueOf q.graph)

end Values

/-- A check, with the quad that it belongs to. -/
inductive Check where
  /-- The quad is in the default graph. -/
  | inDefaultGraph (quad : Quad Part)
  /-- A leaf of the quad is a term, and its text is acceptable. -/
  | readable (role : Role) (quad : Quad Part) (part : Part)
  /-- The positions of the quad take its terms. -/
  | placed (role : Role) (quad : Quad Part)
  deriving DecidableEq, Repr

namespace Check

def quad : Check → Quad Part
  | .inDefaultGraph q => q
  | .readable _ q _ => q
  | .placed _ q => q

def passes [Lexicon] : Check → Bool
  | .inDefaultGraph q => q.isTriple
  | .readable _ _ (.atom a) => acceptable a
  | .readable _ _ (.foreign _) => false
  | .placed role q => role.positions.all fun p => takes p (q.get p)

/-- The error that the check ends in if it fails. -/
def error [Lexicon] [Wording] : Check → ConversionError
  | .inDefaultGraph q => .namedGraph q.toNested
  | .readable role q (.atom a) => role.refusal q ⟨.malformed, complaint a⟩
  | .readable _ _ (.foreign v) => .notTerm v
  | .placed role q => role.refusal q ⟨.misplaced, role.complaint q⟩

/-- What is noted if the check fails. -/
def events : Check → List Event
  | .inDefaultGraph q => [.namedGraph q.toNested]
  | .readable _ _ _ | .placed _ _ => []

end Check

/-- The checks of a draft that stands in a quad, in the order in which they are made. -/
def checksIn (role : Role) (owner : Quad Part) : Draft → List Check
  | .leaf part => [.readable role owner part]
  | .quad s p o g =>
    .inDefaultGraph ⟨s, p, o, g⟩ ::
      (checksIn .quoted ⟨s, p, o, g⟩ s ++ checksIn .quoted ⟨s, p, o, g⟩ p ++
        checksIn .quoted ⟨s, p, o, g⟩ o ++ [.placed .quoted ⟨s, p, o, g⟩])

/-- The checks of a quad in a role but for that of its graph: those of its terms in the order of
their positions, then that of the positions. -/
def checksOf (role : Role) (q : Quad Part) : List Check :=
  (role.positions.flatMap fun p => checksIn role q (q.get p)) ++ [.placed role q]

/-- The checks of a quoted quad. -/
def quotedChecks (q : Quad Part) : List Check := .inDefaultGraph q :: checksOf .quoted q

/-- The checks of an outermost quad. -/
def outermostChecks (q : Quad Part) : List Check := checksOf .outermost q

theorem checksIn_toNested (role : Role) (owner q : Quad Part) :
    checksIn role owner q.toNested = quotedChecks q := by
  simp [Quad.toNested, checksIn, quotedChecks, checksOf, Role.positions, Position.ofTriple,
    Quad.get]

section Lexical

variable [Lexicon]

/-- The first check that fails. -/
def firstFailing (checks : List Check) : Option Check := checks.find? fun c => !c.passes

theorem firstFailing_append (checks more : List Check) :
    firstFailing (checks ++ more) = (firstFailing checks).or (firstFailing more) :=
  List.find?_append

theorem firstFailing_cons (c : Check) (checks : List Check) :
    firstFailing (c :: checks) = if c.passes then firstFailing checks else some c := by
  cases h : c.passes <;> simp [firstFailing, h]

theorem eq_of_firstFailing_singleton {c d : Check} (h : firstFailing [d] = some c) : c = d :=
  List.mem_singleton.mp (List.mem_of_find?_eq_some h)

/-! ## Where the first failing check stands -/

variable {role : Role} {c : Check}

theorem firstFailing_checksOf {q : Quad Part} (h : firstFailing (checksOf role q) = some c) :
    c = .placed role q ∨ ∃ p, firstFailing (checksIn role q (q.get p)) = some c := by
  rw [checksOf, firstFailing_append, Option.or_eq_some_iff] at h
  rcases h with h | ⟨-, h⟩
  · rw [firstFailing, List.find?_flatMap] at h
    obtain ⟨p, -, hp⟩ := List.exists_of_findSome?_eq_some h
    exact .inr ⟨p, hp⟩
  · exact .inl (eq_of_firstFailing_singleton h)

theorem firstFailing_quotedChecks {q : Quad Part} (h : firstFailing (quotedChecks q) = some c) :
    c.quad = q ∨ ∃ p, firstFailing (checksIn .quoted q (q.get p)) = some c := by
  rw [quotedChecks, firstFailing_cons] at h
  split at h
  · refine (firstFailing_checksOf h).imp_left fun hplaced => ?_
    rw [hplaced, Check.quad]
  · rw [← Option.some.inj h]
    exact .inl rfl

/-- A check that fails first for a draft, and the quads between the draft and the quad of the check,
that quad included. -/
def FailsAlong (c : Check) (d : Draft) (path : Path) : Prop :=
  d.at? path = some c.quad.toNested ∧
    ∀ (r : Quad Part) (pre : Path), pre <+: path → d.at? pre = some r.toNested →
      firstFailing (quotedChecks r) = some c

theorem FailsAlong.nil (h : firstFailing (quotedChecks c.quad) = some c) :
    FailsAlong c c.quad.toNested [] := by
  refine ⟨rfl, fun r pre hpre hr => ?_⟩
  rw [List.prefix_nil.mp hpre] at hr
  rwa [← Quad.toNested_injective (Option.some.inj hr)]

theorem FailsAlong.cons {q : Quad Part} {p : Position} {path : Path}
    (hinside : FailsAlong c (q.get p) path) (hq : firstFailing (quotedChecks q) = some c) :
    FailsAlong c q.toNested (p :: path) := by
  obtain ⟨hpath, hfirst⟩ := hinside
  refine ⟨hpath, fun r pre hpre hr => ?_⟩
  rcases List.prefix_cons_iff.mp hpre with rfl | ⟨pre, rfl, hpre'⟩
  · rwa [← Quad.toNested_injective (Option.some.inj hr)]
  · exact hfirst r pre hpre' hr

/-- **The first check that fails belongs to the quad in which a draft stands, or to a quad inside the
draft. It is then also the first that fails of that quad and of every quad around it.** -/
theorem exists_failsAlong {owner : Quad Part} {d : Draft}
    (h : firstFailing (checksIn role owner d) = some c) :
    c.quad = owner ∨ ∃ path, FailsAlong c d path := by
  induction d using Nested.inductionByPosition generalizing role owner with
  | leaf part =>
    rw [eq_of_firstFailing_singleton h]
    exact .inl rfl
  | quad q ih =>
    rw [checksIn_toNested] at h
    right
    -- the check is one of the quad itself, or the hypothesis for a part applies to it
    rcases firstFailing_quotedChecks h with rfl | ⟨p, hp⟩
    · exact ⟨[], FailsAlong.nil h⟩
    · rcases ih p hp with rfl | ⟨path, hinside⟩
      · exact ⟨[], FailsAlong.nil h⟩
      · exact ⟨p :: path, hinside.cons h⟩

theorem exists_failsAlong_toNested {q : Quad Part} (h : firstFailing (quotedChecks q) = some c) :
    ∃ path, FailsAlong c q.toNested path := by
  have hin : firstFailing (checksIn .quoted q q.toNested) = some c := by rwa [checksIn_toNested]
  rcases exists_failsAlong hin with rfl | inside
  · exact ⟨[], FailsAlong.nil h⟩
  · exact inside

/-! ## Computations that perform checks -/

section Performing

variable {β γ : Type} {checks more : List Check} [Wording]

/-- A computation performs checks: the first that fails decides its error and what it notes, and if
none fails, it notes nothing and gives a certain value. -/
def Performs (x : Logged Event Failure β) (checks : List Check) (v : β) : Prop :=
  ∀ log, x.after log = match firstFailing checks with
    | some c => (.error (.conversion c.error), log ++ c.events)
    | none => (.ok v, log)

theorem Performs.outcome {x : Logged Event Failure β} {v : β} (hx : Performs x checks v) :
    x.outcome = match firstFailing checks with
      | some c => (.error (.conversion c.error), c.events)
      | none => (.ok v, []) := hx []

theorem Performs.outcome_of_fails {x : Logged Event Failure β} {v : β} {c : Check}
    (hx : Performs x checks v) (hc : firstFailing checks = some c) :
    x.outcome = (.error (.conversion c.error), c.events) := by
  rw [hx.outcome, hc]

/-- Computations in sequence perform their checks in sequence. -/
theorem Performs.bind {x : Logged Event Failure β} {f : β → Logged Event Failure γ} {v : β} {w : γ}
    (hx : Performs x checks v) (hf : Performs (f v) more w) :
    Performs (x >>= f) (checks ++ more) w := by
  intro log
  rw [firstFailing_append, Logged.bind_after, hx log]
  cases firstFailing checks with
  | some c => rfl
  | none => exact hf log

theorem Performs.of_error {x : Logged Event Failure β} {v : β} {c : Check} (hc : c.passes = false)
    (hx : ∀ log, x.after log = (.error (.conversion c.error), log ++ c.events)) :
    Performs x (c :: checks) v := by
  intro log
  rw [firstFailing_cons, hc]
  exact hx log

theorem Performs.cons {x : Logged Event Failure β} {v : β} {c : Check} (hc : c.passes = true)
    (hx : Performs x checks v) : Performs x (c :: checks) v := by
  intro log
  rw [firstFailing_cons, hc]
  exact hx log

/-- A step that is refused exactly if its check fails performs the check. -/
theorem performs_refuse {report : Rejection → ConversionError} {y : Except Rejection β} {v : β}
    {c : Check} (hpass : c.passes = true → y = .ok v)
    (hfail : c.passes = false →
      c.events = [] ∧ ∃ cause, y = .error cause ∧ c.error = report cause) :
    Performs (wrap report (refuse y)) [c] v := by
  cases hc : c.passes with
  | true =>
    rw [hpass hc]
    exact .cons hc fun log => rfl
  | false =>
    obtain ⟨hevents, cause, rfl, herror⟩ := hfail hc
    refine .of_error hc fun log => ?_
    rw [hevents, herror, List.append_nil]
    rfl

/-! ## Reports

A report turns a refusal into an error once. What has been reported passes every further report. -/

omit [Lexicon] [Wording]

theorem wrap_after (report : Rejection → ConversionError) (x : Logged Event Failure β)
    (log : List Event) :
    (wrap report x).after log =
      match x.after log with
      | (.ok v, noted) => (.ok v, noted)
      | (.error (.rejected cause), noted) => (.error (.conversion (report cause)), noted)
      | (.error (.conversion error), noted) => (.error (.conversion error), noted) := by
  rw [wrap, Logged.tryCatch_after]
  obtain ⟨(cause | error) | v, noted⟩ := x.after log <;> rfl

/-- What has been reported is not reported again. -/
theorem wrap_wrap (outer report : Rejection → ConversionError) (x : Logged Event Failure β) :
    wrap outer (wrap report x) = wrap report x := by
  funext log
  change (wrap outer (wrap report x)).after log = (wrap report x).after log
  rw [wrap_after, wrap_after]
  obtain ⟨(cause | error) | v, noted⟩ := x.after log <;> rfl

theorem wrap_bind (report : Rejection → ConversionError) (x : Logged Event Failure β)
    (f : β → Logged Event Failure γ) :
    wrap report (x >>= f) = wrap report x >>= fun v => wrap report (f v) := by
  funext log
  change (wrap report (x >>= f)).after log =
    (wrap report x >>= fun v => wrap report (f v)).after log
  rw [wrap_after, Logged.bind_after, Logged.bind_after, wrap_after]
  obtain ⟨(cause | error) | v, noted⟩ := x.after log
  · rfl
  · rfl
  · exact (wrap_after report (f v) noted).symm

end Performing

/-! ## The checks of a conversion -/

section Conversion

variable [Wording] {a : Atom} {q : Quad Part}

omit [Wording] in
theorem encodesAtom_valueOfAtom (h : acceptable a = true) : EncodesAtom a (valueOfAtom a) := by
  cases a with
  | namedNode => exact .namedNode h
  | blankNode => exact .blankNode h
  | literal x =>
    by_cases tagged : x.language = ""
    · rw [valueOfAtom, if_neg (not_not_intro tagged)]
      exact .untagged tagged ((if_neg (not_not_intro tagged)).symm.trans h)
    · rw [valueOfAtom, if_pos tagged]
      exact .tagged tagged ((if_pos tagged).symm.trans h)
  | var => exact .var h
  | defaultGraph => exact .defaultGraph

theorem encodeAtom_of_acceptable (h : acceptable a = true) : encodeAtom a = .ok (valueOfAtom a) :=
  encodeAtom_eq_ok_iff.mpr (encodesAtom_valueOfAtom h)

theorem encodeAtom_of_not_acceptable (h : acceptable a = false) :
    encodeAtom a = .error ⟨.malformed, complaint a⟩ := by
  cases a with
  | namedNode | blankNode | var => exact if_neg (Bool.eq_false_iff.mp h)
  | literal x =>
    by_cases tagged : x.language = ""
    · rw [encodeAtom_untagged tagged, complaint, if_neg (not_not_intro tagged)]
      exact if_neg (Bool.eq_false_iff.mp ((if_neg (not_not_intro tagged)).symm.trans h))
    · rw [encodeAtom_tagged tagged, complaint, if_pos tagged]
      exact if_neg (Bool.eq_false_iff.mp ((if_pos tagged).symm.trans h))
  | defaultGraph => cases h

theorem performs_atom (role : Role) (owner : Quad Part) (a : Atom) :
    Performs (wrap (role.refusal owner) (refuse (encodeAtom a))) [.readable role owner (.atom a)]
      (valueOfAtom a) :=
  performs_refuse encodeAtom_of_acceptable
    fun h => ⟨rfl, _, encodeAtom_of_not_acceptable h, rfl⟩

variable [Placement]

omit [Wording] in
/-- A position takes the value of a draft if it takes the draft. -/
theorem fits_valueOf (p : Position) (d : Draft) : fits p (valueOf d) = takes p d := by
  rw [Bool.eq_iff_iff]
  rcases d with (a | v) | _
  · cases a with
    | literal x =>
      by_cases tagged : x.language = "" <;> cases p <;> simp [valueOf, valueOfAtom, takes, tagged]
    | _ => cases p <;> simp [valueOf, valueOfAtom, takes]
  · cases p <;> simp [valueOf, takes]
  · cases p <;> simp [valueOf, takes]

theorem performs_ofTriple (q : Quad Part) :
    Performs (wrap (.rejectedTriple q.toNested)
        (refuse (Value.ofTriple (valueOf q.subject) (valueOf q.predicate) (valueOf q.object))))
      [.placed .quoted q] (valueOf q.toNested) := by
  have hplaced : (Check.placed .quoted q).passes = (fits .subject (valueOf q.subject) &&
      fits .predicate (valueOf q.predicate) && fits .object (valueOf q.object)) := by
    simp only [fits_valueOf]
    simp [Check.passes, Role.positions, Position.ofTriple, Quad.get, Bool.and_assoc]
  exact performs_refuse (fun h => if_pos (hplaced.symm.trans h)) fun h =>
    ⟨rfl, _, if_neg (Bool.eq_false_iff.mp (hplaced.symm.trans h)), rfl⟩

theorem performs_ofQuad (q : Quad Part) :
    Performs (wrap (.rejectedQuad q.toNested)
        (refuse (Value.ofQuad (valueOf q.subject) (valueOf q.predicate) (valueOf q.object)
          (valueOf q.graph))))
      [.placed .outermost q] (valueOfQuad q) := by
  have hplaced : (Check.placed .outermost q).passes = (fits .subject (valueOf q.subject) &&
      fits .predicate (valueOf q.predicate) && fits .object (valueOf q.object) &&
        fits .graph (valueOf q.graph)) := by
    simp only [fits_valueOf]
    simp [Check.passes, Role.positions, Position.all, Quad.get, Bool.and_assoc]
  exact performs_refuse (fun h => if_pos (hplaced.symm.trans h)) fun h =>
    ⟨rfl, _, if_neg (Bool.eq_false_iff.mp (hplaced.symm.trans h)), rfl⟩

/-- A quoted quad leaves nothing to report. -/
theorem wrap_encode_toNested (report : Rejection → ConversionError) (q : Quad Part) :
    wrap report (encode q.toNested) = encode q.toNested := by
  rw [Quad.toNested, encode]
  split
  · exact wrap_wrap _ _ _
  · rfl

/-- **A conversion performs the checks of its draft.** -/
theorem performs_encode (role : Role) (owner : Quad Part) (d : Draft) :
    Performs (wrap (role.refusal owner) (encode d)) (checksIn role owner d) (valueOf d) := by
  induction d using Nested.inductionByPosition generalizing role owner with
  | leaf part =>
    cases part with
    | atom a => exact performs_atom role owner a
    | foreign v =>
      refine .of_error rfl fun log => ?_
      rw [Check.events, List.append_nil]
      rfl
  | quad q ih =>
    rw [wrap_encode_toNested, checksIn_toNested, quotedChecks, Quad.toNested, encode]
    split
    · next hgraph =>
      -- every part is converted with the reports of this quad, and after them the quad is made
      simp only [wrap_bind]
      refine .cons hgraph ?_
      have hchecks : checksOf .quoted q = checksIn .quoted q q.subject ++
          (checksIn .quoted q q.predicate ++ (checksIn .quoted q q.object ++
            [.placed .quoted q])) := by
        simp [checksOf, Role.positions, Position.ofTriple, Quad.get]
      rw [hchecks]
      exact (ih .subject .quoted q).bind <| (ih .predicate .quoted q).bind <|
        (ih .object .quoted q).bind (performs_ofTriple q)
    · next hgraph =>
      exact .of_error (Bool.eq_false_iff.mpr hgraph) fun log => rfl

theorem performs_encode_toNested (q : Quad Part) :
    Performs (encode q.toNested) (quotedChecks q) (valueOf q.toNested) := by
  have h := performs_encode .quoted q q.toNested
  rwa [wrap_encode_toNested, checksIn_toNested] at h

theorem performs_encodeQuad (q : Quad Part) :
    Performs (encodeQuad q) (outermostChecks q) (valueOfQuad q) := by
  have hchecks : outermostChecks q = checksIn .outermost q q.subject ++
      (checksIn .outermost q q.predicate ++ (checksIn .outermost q q.object ++
        (checksIn .outermost q q.graph ++ [.placed .outermost q]))) := by
    simp [outermostChecks, checksOf, Role.positions, Position.all, Quad.get]
  simp only [encodeQuad, wrap_bind, hchecks]
  exact (performs_encode .outermost q _).bind <| (performs_encode .outermost q _).bind <|
    (performs_encode .outermost q _).bind <| (performs_encode .outermost q _).bind <|
      performs_ofQuad q

/-! ## Which failure a conversion ends in -/

/-- The only refusals that nothing reports are those of a text that is converted on its own. -/
theorem exists_atom_of_rejected {d : Draft} {cause : Rejection}
    (h : (encode d).outcome.1 = .error (.rejected cause)) :
    ∃ a, d = .leaf (.atom a) ∧ acceptable a = false ∧ cause = ⟨.malformed, complaint a⟩ := by
  cases d with
  | leaf part =>
    cases part with
    | foreign v => cases h
    | atom a =>
      refine ⟨a, rfl, ?_⟩
      cases ha : acceptable a with
      | true =>
        rw [encode, encodeAtom_of_acceptable ha] at h
        cases h
      | false =>
        rw [encode, encodeAtom_of_not_acceptable ha] at h
        cases h
        exact ⟨rfl, rfl⟩
  | quad s p o g =>
    have hperforms := (performs_encode_toNested ⟨s, p, o, g⟩).outcome
    rw [Quad.toNested] at hperforms
    rw [hperforms] at h
    split at h <;> cases h

/-- **A conversion of a quad fails exactly if one of its checks fails, always with a reported error:
that of the first check that fails, which is noted if it is the check of the graph. The quad of
that check, wherever it stands, and every quad around it in which it is quoted end in the same
failure. The error and the note give the text of the quad, and the error what oxigraph says where it
refuses the quad. Only a leaf that is converted on its own is refused with no report.** -/
theorem conversion_fails_at_first_check :
    (∀ (d : Draft) (cause : Rejection), (encode d).outcome.1 = .error (.rejected cause) →
      ∃ a, d = .leaf (.atom a) ∧ acceptable a = false ∧ cause = ⟨.malformed, complaint a⟩) ∧
    (∀ q : Quad Part, match firstFailing (quotedChecks q) with
      | some c => (encode q.toNested).outcome = (.error (.conversion c.error), c.events)
      | none => (encode q.toNested).outcome = (.ok (valueOf q.toNested), [])) ∧
    (∀ q : Quad Part, match firstFailing (outermostChecks q) with
      | some c => (encodeQuad q).outcome = (.error (.conversion c.error), c.events)
      | none => (encodeQuad q).outcome = (.ok (valueOfQuad q), [])) ∧
    (∀ (q : Quad Part) (c : Check), firstFailing (quotedChecks q) = some c →
      ∃ path, q.toNested.at? path = some c.quad.toNested ∧
        ∀ (r : Quad Part) (pre : Path), pre <+: path → q.toNested.at? pre = some r.toNested →
          (encode r.toNested).outcome = (encode q.toNested).outcome) ∧
    (∀ (q : Quad Part) (c : Check), firstFailing (outermostChecks q) = some c →
      c.quad = q ∨ ∃ p path, q.toNested.at? (p :: path) = some c.quad.toNested ∧
        ∀ (r : Quad Part) (pre : Path), pre <+: path → q.toNested.at? (p :: pre) = some r.toNested →
          (encode r.toNested).outcome = (encodeQuad q).outcome) ∧
    ∀ c : Check,
      (c.events.map Event.message = match c with
        | .inDefaultGraph q => ["Cannot quote " ++ q.text ++ " in oxigraph: named graph"]
        | .readable _ _ _ | .placed _ _ => []) ∧
      (c.error.message = match c with
        | .inDefaultGraph q =>
          "Quoted quad with a named graph has no oxigraph form: " ++ q.text
        | .readable .quoted q (.atom a) =>
          "Oxigraph rejected quoted triple " ++ q.text ++ ": " ++ complaint a
        | .readable .outermost q (.atom a) =>
          "Oxigraph rejected quad " ++ q.text ++ ": " ++ complaint a
        | .readable _ _ (.foreign v) => "Not a term: " ++ v.quoted
        | .placed .quoted q => "Oxigraph rejected quoted triple " ++ q.text ++ ": " ++
          Wording.triple (valueOf q.subject) (valueOf q.predicate) (valueOf q.object)
        | .placed .outermost q => "Oxigraph rejected quad " ++ q.text ++ ": " ++
          Wording.quad (valueOf q.subject) (valueOf q.predicate) (valueOf q.object)
            (valueOf q.graph)) ∧
      c.error.cause?.map Rejection.fault = match c with
        | .readable _ _ (.atom _) => some .malformed
        | .placed _ _ => some .misplaced
        | .inDefaultGraph _ | .readable _ _ (.foreign _) => none := by
  refine ⟨fun d cause h => exists_atom_of_rejected h, fun q => ?_, fun q => ?_, fun q c h => ?_,
    fun q c h => ?_, fun c => ?_⟩
  · have hperforms := (performs_encode_toNested q).outcome
    split at hperforms <;> exact hperforms
  · have hperforms := (performs_encodeQuad q).outcome
    split at hperforms <;> exact hperforms
  · obtain ⟨path, hpath, hfirst⟩ := exists_failsAlong_toNested h
    refine ⟨path, hpath, fun r pre hpre hr => ?_⟩
    rw [(performs_encode_toNested r).outcome_of_fails (hfirst r pre hpre hr),
      (performs_encode_toNested q).outcome_of_fails h]
  · rcases firstFailing_checksOf h with rfl | ⟨p, hp⟩
    · exact .inl rfl
    · refine (exists_failsAlong hp).imp_right ?_
      rintro ⟨path, hpath, hfirst⟩
      refine ⟨p, path, hpath, fun r pre hpre hr => ?_⟩
      rw [(performs_encode_toNested r).outcome_of_fails (hfirst r pre hpre hr),
        (performs_encodeQuad q).outcome_of_fails h]
  · obtain q | ⟨_ | _, q, _ | _⟩ | ⟨_ | _, q⟩ := c <;> exact ⟨rfl, rfl, rfl⟩

end Conversion

end Lexical

/-- A quad with four faults: of its subject, a triple in a place that takes none, the quoted object
is in a named graph, and the texts of its predicate and object are not acceptable. -/
theorem conversion_fails_at_first_check_four_faults :
    let _ : Wording := { Wording.silent with iri := fun _ => "No scheme found in an absolute IRI" }
    let b : Draft := .leaf (.atom (.blankNode "b"))
    let p : Draft := .leaf (.atom (.namedNode "http://example.org/p"))
    let bad : Draft := .leaf (.atom (.namedNode "no scheme"))
    let named : Quad Part := ⟨b, p, b, p⟩
    let triple : Quad Part := ⟨b, p, named.toNested, .leaf (.atom .defaultGraph)⟩
    let q : Quad Part := ⟨triple.toNested, bad, bad, .leaf (.atom .defaultGraph)⟩
    let error : ConversionError := .namedGraph named.toNested
    let failure : Except Failure Value × List Event :=
      (.error (.conversion error), [.namedGraph named.toNested])
    ((encode bad).outcome.1 =
        .error (.rejected ⟨.malformed, "No scheme found in an absolute IRI"⟩) ∧
        ∃ a, bad = .leaf (.atom a)) ∧
      (firstFailing (quotedChecks q) = some (.inDefaultGraph named) ∧
        (encode q.toNested).outcome = failure ∧
        ∃ path, q.toNested.at? path = some named.toNested ∧
          (encode named.toNested).outcome = failure) ∧
      (firstFailing (outermostChecks q) = some (.inDefaultGraph named) ∧
        (encodeQuad q).outcome = failure ∧
        ∃ p path, q.toNested.at? (p :: path) = some named.toNested ∧
          (encode named.toNested).outcome = failure) ∧
      error.message = "Quoted quad with a named graph has no oxigraph form: " ++ named.text ∧
        failure.2.map Event.message =
          ["Cannot quote " ++ named.text ++ " in oxigraph: named graph"] := by
  intro _ b p bad named triple q error failure
  obtain ⟨hatoms, hquoted, houtermost, hinside, hinsideQuad, htexts⟩ :=
    conversion_fails_at_first_check
  have hunacceptable : acceptable (.namedNode "no scheme") = false := by decide +kernel
  have hbad : (encode bad).outcome.1 =
      .error (.rejected ⟨.malformed, "No scheme found in an absolute IRI"⟩) := by
    rw [encode, encodeAtom_of_not_acceptable hunacceptable]
    rfl
  have hfirst : firstFailing (quotedChecks q) = some (.inDefaultGraph named) := by decide +kernel
  have hfirstQuad : firstFailing (outermostChecks q) = some (.inDefaultGraph named) := by
    decide +kernel
  have hfailure : (encode q.toNested).outcome = failure := by
    have h := hquoted q
    rwa [hfirst] at h
  have hfailureQuad : (encodeQuad q).outcome = failure := by
    have h := houtermost q
    rwa [hfirstQuad] at h
  obtain ⟨a, ha, -⟩ := hatoms bad _ hbad
  obtain ⟨path, hpath, hsame⟩ := hinside q _ hfirst
  have hne : named ≠ q := by decide
  obtain ⟨p, path', hpath', hsame'⟩ := (hinsideQuad q _ hfirstQuad).resolve_left hne
  obtain ⟨hnote, hmessage, -⟩ := htexts (.inDefaultGraph named)
  exact ⟨⟨hbad, a, ha⟩,
    ⟨hfirst, hfailure, path, hpath, (hsame named path List.prefix_rfl hpath).trans hfailure⟩,
    ⟨hfirstQuad, hfailureQuad, p, path', hpath',
      (hsame' named path' List.prefix_rfl hpath').trans hfailureQuad⟩, hmessage, hnote⟩

end RdfStar.Oxigraph
