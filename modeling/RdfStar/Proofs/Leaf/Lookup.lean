import RdfStar.Proofs.Leaf.Address

/-!
# Where a lookup ends

A lookup by path takes one step after another and ends at the first that it cannot take: the term
reached so far is no quad, or it is a quad and the step names no position. In a quad the paths that
can be taken to the end are those that some leaf's path begins with, since no nested quad is empty.

Principal results: `follow_names_append` — a lookup goes on from the term that it has reached;
`exists_blocked` — a lookup that fails has reached a term that blocks the next step;
`length_le_of_blocked` — no longer beginning of the path leads anywhere;
`resolve_ends_at_first_bad_step` — which lookups succeed, and what the others report.
-/

namespace RdfStar

/-! ## Lookup in two parts -/

/-- A lookup goes on from the term that it has reached. -/
theorem follow_names_append {whole rest : List String} {t u : Term} {path : Path}
    (h : t.at? path = some u) : follow whole t (path.names ++ rest) = follow whole u rest := by
  induction path generalizing t with
  | nil =>
    cases h
    rfl
  | cons position path ih =>
    cases t with
    | leaf a => cases h
    | quad s p o g =>
      rw [Path.names, List.map_cons, List.cons_append, follow, Position.ofName?_name]
      exact ih h

/-- The whole path that is given along shows in the report and nowhere else. -/
theorem follow_outcome_eq (whole other : List String) (t : Term) (segments : List String) :
    (follow whole t segments).outcome =
      ((follow other t segments).outcome.1,
        (follow other t segments).outcome.2.map fun stop => { stop with path := whole }) := by
  induction segments generalizing t with
  | nil => rfl
  | cons segment rest ih =>
    cases t with
    | leaf a => rfl
    | quad s p o g =>
      rw [follow, follow]
      cases Position.ofName? segment with
      | none => rfl
      | some position => exact ih _

/-! ## The step that cannot be taken -/

/-- There is nothing to find in the term under a text: the text names no position, or there is no
quad to have one. -/
def Term.Blocks (t : Term) (segment : String) : Prop :=
  ∀ position : Position, position.name = segment → t.at? [position] = none

theorem Term.blocks_quad_iff {q : Quad Atom} {segment : String} :
    Term.Blocks q.toNested segment ↔ Position.ofName? segment = none := by
  constructor
  · intro h
    refine Option.eq_none_iff_forall_not_mem.mpr fun position hname => ?_
    cases h position (Position.ofName?_eq_some_iff.mp hname).symm
  · rintro h position rfl
    cases h.symm.trans position.ofName?_name

/-- A lookup that fails has reached a term that blocks the next step. -/
theorem exists_blocked {whole segments : List String} {t : Term} {e : PathError}
    (h : (follow whole t segments).outcome.1 = .error e) :
    ∃ (path : Path) (segment : String) (rest : List String) (u : Term),
      segments = path.names ++ segment :: rest ∧ t.at? path = some u ∧ Term.Blocks u segment := by
  induction segments generalizing t with
  | nil => cases h
  | cons segment rest ih =>
    cases t with
    | leaf a => exact ⟨[], segment, rest, .leaf a, rfl, rfl, fun _ _ => rfl⟩
    | quad s p o g =>
      rw [follow] at h
      cases hsegment : Position.ofName? segment with
      | none =>
        have hblocks := Term.blocks_quad_iff (q := ⟨s, p, o, g⟩).mpr hsegment
        exact ⟨[], segment, rest, .quad s p o g, rfl, rfl, hblocks⟩
      | some position =>
        rw [hsegment] at h
        obtain ⟨path, next, more, u, hrest, hu, hblocks⟩ := ih h
        obtain rfl := Position.ofName?_eq_some_iff.mp hsegment
        exact ⟨position :: path, next, more, u, congrArg _ hrest, hu, hblocks⟩

/-- What a lookup reports at a term that blocks its next step. -/
theorem report_of_blocked {whole rest : List String} {u : Term} {segment : String} {e : PathError}
    (hblocks : Term.Blocks u segment)
    (he : (follow whole u (segment :: rest)).outcome.1 = .error e) :
    e.segment = segment ∧ e.found = Term.type u ∧
      (Term.type u = .quad →
        (∀ position : Position, position.name ≠ segment) ∧
        e.message = "Unknown quad position: " ++ Text.quote segment ∧
        (follow whole u (segment :: rest)).outcome.2 = []) ∧
      (Term.type u ≠ .quad →
        e.message = "Tried to get " ++ segment ++ " from term of type " ++ (Term.type u).name ∧
        (follow whole u (segment :: rest)).outcome.2 = [⟨whole, Term.type u, segment⟩] ∧
        (follow whole u (segment :: rest)).outcome.2.map PathStop.message =
          ["Path " ++ ("[" ++ ", ".intercalate (whole.map Text.quote) ++ "]") ++ " stops at " ++
            (Term.type u).name ++ " before " ++ segment]) := by
  cases u with
  | leaf a =>
    cases he
    have hatom : Term.type (.leaf a) ≠ .quad := by cases a <;> nofun
    exact ⟨rfl, rfl, fun hquad => absurd hquad hatom, fun _ => ⟨rfl, rfl, rfl⟩⟩
  | quad s p o g =>
    have hname := (Term.blocks_quad_iff (q := ⟨s, p, o, g⟩)).mp hblocks
    rw [follow, hname] at he ⊢
    cases he
    refine ⟨rfl, rfl, fun _ => ⟨?_, rfl, rfl⟩, fun hatom => absurd rfl hatom⟩
    rintro position rfl
    cases hname.symm.trans position.ofName?_name

/-- No path leads past a term that blocks the next step. -/
theorem length_le_of_blocked {t u v : Term} {path other : Path} {segment : String}
    {rest : List String} (hu : t.at? path = some u) (hblocks : Term.Blocks u segment)
    (hv : t.at? other = some v) (hbegin : other.names <+: path.names ++ segment :: rest) :
    other.length ≤ path.length := by
  refine Nat.not_lt.mp fun hlonger => ?_
  have hstep : path.names ++ [segment] <+: other.names := by
    refine List.prefix_of_prefix_length_le ⟨rest, by simp⟩ hbegin ?_
    simp only [Path.names, List.length_append, List.length_map, List.length_singleton]
    omega
  obtain ⟨more, hmore⟩ := hstep
  rw [List.append_assoc, List.singleton_append] at hmore
  obtain ⟨before, after, rfl, hbefore, hafter⟩ := List.map_eq_append_iff.mp hmore.symm
  obtain ⟨position, after, rfl, hposition, -⟩ := List.map_eq_cons_iff.mp hafter
  obtain rfl : before = path := Path.names_injective hbefore
  have hnone : u.at? ([position] ++ after) = none := by
    rw [Nested.at?_append, hblocks position hposition, Option.bind_none]
  rw [Nested.at?_append, hu, Option.bind_some] at hv
  cases hv.symm.trans hnone

/-! ## The beginnings of the paths of leaves -/

theorem Path.prefix_names_iff {path : Path} {segments : List String} :
    segments <+: path.names ↔ ∃ before : Path, before.names = segments ∧ before <+: path := by
  constructor
  · rintro ⟨rest, hrest⟩
    obtain ⟨before, after, rfl, hbefore, -⟩ := List.map_eq_append_iff.mp hrest.symm
    exact ⟨before, hbefore, after, rfl⟩
  · rintro ⟨before, rfl, after, rfl⟩
    exact ⟨names after, List.map_append.symm⟩

/-- **In a quad the lookups that succeed are those of the beginnings of leaf paths. A lookup that
fails reports the first step that it cannot take, and the type of the term reached by then**, which
is where the longest beginning of the path that leads anywhere leads to: if that is a quad, the step
names no position, and nothing is noted; if not, there is one note, whatever the step names, whose
text quotes the path as a whole and gives the type and the step. A lookup along a path in two parts
is a lookup from where the first part leads, but for the path that is noted. -/
theorem resolve_ends_at_first_bad_step :
    (∀ (Q : Quad Atom) (segments : List String),
      (∃ t, (resolve Q.toNested segments).outcome.1 = .ok t) ↔
        ∃ e ∈ Q.leaves false, segments <+: e.2.names) ∧
    (∀ (t : Term) (segments : List String) (e : PathError),
      (resolve t segments).outcome.1 = .error e →
      ∃ (k : Nat) (u : Term) (segment : String),
        segments[k]? = some segment ∧
        (resolve t (segments.take k)).outcome = (.ok u, []) ∧
        (∀ j ≤ segments.length, ∀ v,
          (resolve t (segments.take j)).outcome.1 = .ok v → j ≤ k) ∧
        e.segment = segment ∧ e.found = Term.type u ∧
        (Term.type u = .quad →
          (∀ position : Position, position.name ≠ segment) ∧
          e.message = "Unknown quad position: " ++ Text.quote segment ∧
          (resolve t segments).outcome.2 = []) ∧
        (Term.type u ≠ .quad →
          e.message = "Tried to get " ++ segment ++ " from term of type " ++ (Term.type u).name ∧
          (resolve t segments).outcome.2 = [⟨segments, Term.type u, segment⟩] ∧
          (resolve t segments).outcome.2.map PathStop.message =
            ["Path " ++ ("[" ++ ", ".intercalate (segments.map Text.quote) ++ "]") ++
              " stops at " ++ (Term.type u).name ++ " before " ++ segment])) ∧
    ∀ (t u : Term) (segments rest : List String),
      (resolve t segments).outcome.1 = .ok u →
      (resolve t (segments ++ rest)).outcome =
        ((resolve u rest).outcome.1,
          (resolve u rest).outcome.2.map fun stop => { stop with path := segments ++ rest }) := by
  refine ⟨fun Q segments => ?_, fun t segments e he => ?_, fun t u segments rest ht => ?_⟩
  · simp only [resolve, follow_eq_ok_iff, Path.prefix_names_iff, Quad.leaves_eq_frontier]
    constructor
    · rintro ⟨t, path, rfl, ht⟩
      obtain ⟨leaf, hleaf, hbegin⟩ := Nested.exists_at?_iff.mp ⟨t, ht⟩
      exact ⟨leaf, hleaf, path, rfl, hbegin⟩
    · rintro ⟨leaf, hleaf, path, rfl, hbegin⟩
      obtain ⟨t, ht⟩ := Nested.exists_at?_iff.mpr ⟨leaf, hleaf, hbegin⟩
      exact ⟨t, path, rfl, ht⟩
  · obtain ⟨path, segment, rest, u, rfl, hu, hblocks⟩ := exists_blocked he
    have hlength : path.names.length = path.length := List.length_map _
    refine ⟨path.length, u, segment, ?_, ?_, fun j hj v hv => ?_, ?_⟩
    · rw [List.getElem?_append_right (Nat.le_of_eq hlength), hlength, Nat.sub_self,
        List.getElem?_cons_zero]
    · rw [List.take_left' hlength]
      exact follow_names.mpr hu
    · obtain ⟨other, hother, hat⟩ := follow_eq_ok_iff.mp hv
      have hle := length_le_of_blocked hu hblocks hat (hother ▸ List.take_prefix _ _)
      have hj' := congrArg List.length hother
      rw [Path.names, List.length_map, List.length_take, Nat.min_eq_left hj] at hj'
      omega
    · rw [resolve, follow_names_append hu] at he ⊢
      exact report_of_blocked hblocks he
  · obtain ⟨path, rfl, hu⟩ := follow_eq_ok_iff.mp ht
    rw [resolve, follow_names_append hu]
    exact follow_outcome_eq _ rest u rest

/-- A path that goes on past a leaf, with a text that names no position: it is the leaf that is
reported, from the quad as from the whole. -/
theorem resolve_ends_at_first_bad_step_past_leaf :
    let p : Term := .leaf (.namedNode "p")
    let inner : Term := .quad p p p (.leaf .defaultGraph)
    let t : Term := .quad p p inner p
    let rest : List String := ["predicate", "colour", "subject"]
    let path : List String := ["object"] ++ rest
    (resolve t path).outcome.1 = .error (.notQuad "colour" .namedNode) ∧
      (∃ k u, path[k]? = some "colour" ∧ (resolve t (path.take k)).outcome = (.ok u, []) ∧
        (∀ j ≤ path.length, ∀ v, (resolve t (path.take j)).outcome.1 = .ok v → j ≤ k) ∧
        (resolve t path).outcome.2 = [⟨path, Term.type u, "colour"⟩]) ∧
      (resolve t path).outcome.2.map PathStop.message =
        ["Path ['object', 'predicate', 'colour', 'subject'] stops at NamedNode before colour"] ∧
      (resolve t ["object"]).outcome.1 = .ok inner ∧
      (resolve t path).outcome =
        ((resolve inner rest).outcome.1,
          (resolve inner rest).outcome.2.map fun stop => { stop with path := path }) := by
  intro p inner t rest path
  have herror : (resolve t path).outcome.1 = .error (.notQuad "colour" .namedNode) := rfl
  have hinner : (resolve t ["object"]).outcome.1 = .ok inner := rfl
  obtain ⟨-, hfailure, hparts⟩ := resolve_ends_at_first_bad_step
  obtain ⟨k, u, segment, hk, hu, hlongest, hsegment, htype, -, hleaf⟩ := hfailure t path _ herror
  obtain rfl : "colour" = segment := hsegment
  have hatom : Term.type u ≠ .quad := fun h => nomatch htype.trans h
  obtain ⟨-, hnoted, hnote⟩ := hleaf hatom
  have hquoted : "Path " ++ ("[" ++ ", ".intercalate (path.map Text.quote) ++ "]") ++
      " stops at " ++ TermType.namedNode.name ++ " before " ++ "colour" =
        "Path ['object', 'predicate', 'colour', 'subject'] stops at NamedNode before colour" := by
    decide +kernel
  rw [← htype] at hnote
  exact ⟨herror, ⟨k, u, hk, hu, hlongest, hnoted⟩, hnote.trans (congrArg (· :: []) hquoted), hinner,
    hparts t inner ["object"] rest hinner⟩

end RdfStar
