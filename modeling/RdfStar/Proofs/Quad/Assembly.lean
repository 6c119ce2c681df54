import RdfStar.Factory
import RdfStar.Quad.Assembly
import RdfStar.Quad.Positions

/-!
# Quads from named terms

What a list of named terms says in the end is what the last entry of each name says, so the order of
entries with different names does not matter. Who can be asked is asked for the positions that have
no term then, and for no others, one after the other in their order. A quad is built if all
positions have a term after that, and otherwise the positions without one are reported. An entry
whose name is no position comes before all of this: the first such name is reported, and nobody is
asked.

Callback and factory run in an arbitrary monad, so that an equation between computations says which
of them are called, on what and in which order.

Principal results: `Slots.collect_empty` — what the entries say in the end; `Slots.fill_eq` — who is
asked for what; `assemble_of_unknown`, `assemble_alone`, `assemble_asking` — what comes of entries;
`Quad.assembleThrough_default` — the way back from a quad where no factory is given;
`assemble_by_last_entries` — all of it, with the order of the entries and the way back in general.
-/

namespace RdfStar

namespace Slots

variable {τ γ : Type}

/-! ## Entries -/

/-- The first name that is no position's, in the order of the entries. -/
def unknownName? (entries : List (String × Option τ)) : Option String :=
  (entries.map Prod.fst).find? fun name => (Position.ofName? name).isNone

/-- What entries say in the end: of each position what the last entry with its name says. -/
def lastValues (entries : List (String × Option τ)) : Slots τ := fun p =>
  (entries.filter fun e => e.1 = p.name).getLast?.bind Prod.snd

theorem unknownName?_eq_none_iff {entries : List (String × Option τ)} :
    unknownName? entries = none ↔ ∀ e ∈ entries, ∃ p : Position, e.1 = p.name := by
  simp only [unknownName?, List.find?_eq_none, List.forall_mem_map, Bool.not_eq_true,
    Option.isNone_eq_false_iff, Option.isSome_iff_exists, Position.ofName?_eq_some_iff]

theorem put_self (slots : Slots τ) (p : Position) (value : Option τ) :
    slots.put p value p = value := if_pos rfl

theorem put_of_ne (slots : Slots τ) {p q : Position} (h : q ≠ p) (value : Option τ) :
    slots.put p value q = slots q := if_neg h

/-- To collect entries is to take the last one of each name, and what was there without one. -/
theorem collect_of_known {slots : Slots τ} {entries : List (String × Option τ)}
    (h : ∀ e ∈ entries, ∃ p : Position, e.1 = p.name) :
    slots.collect entries = .ok fun p =>
      (entries.filter fun e => e.1 = p.name).getLast?.elim (slots p) Prod.snd := by
  induction entries generalizing slots with
  | nil => rfl
  | cons entry rest ih =>
    obtain ⟨name, value⟩ := entry
    obtain ⟨⟨q, rfl⟩, hrest⟩ := List.forall_mem_cons.mp h
    simp only [collect, Position.ofName?_name]
    rw [ih hrest]
    refine congrArg Except.ok (funext fun p => ?_)
    by_cases hp : p = q
    · subst hp
      rw [List.filter_cons_of_pos (by simp), List.getLast?_cons, put_self]
      cases (rest.filter fun e => e.1 = p.name).getLast? <;> rfl
    · have hne : q.name ≠ p.name := fun heq => hp (Position.name_injective heq.symm)
      rw [List.filter_cons_of_neg (by simpa using hne), put_of_ne _ hp]

theorem collect_empty {entries : List (String × Option τ)} (h : unknownName? entries = none) :
    empty.collect entries = .ok (lastValues entries) := by
  rw [collect_of_known (unknownName?_eq_none_iff.mp h)]
  refine congrArg Except.ok (funext fun p => ?_)
  rw [lastValues]
  cases (entries.filter fun e => e.1 = p.name).getLast? <;> rfl

/-- Entries of different names can change places. -/
theorem lastValues_congr {entries others : List (String × Option τ)}
    (h : ∀ name : String,
      others.filter (fun e => e.1 = name) = entries.filter (fun e => e.1 = name)) :
    lastValues others = lastValues entries := by
  funext p
  rw [lastValues, lastValues, h]

theorem unknownName?_congr {entries others : List (String × Option τ)}
    (h : ∀ name : String,
      others.filter (fun e => e.1 = name) = entries.filter (fun e => e.1 = name))
    (hknown : unknownName? entries = none) : unknownName? others = none := by
  refine unknownName?_eq_none_iff.mpr fun e he => ?_
  have hmem : e ∈ entries.filter fun d => d.1 = e.1 := by
    rw [← h]
    exact List.mem_filter.mpr ⟨he, by simp⟩
  exact unknownName?_eq_none_iff.mp hknown e (List.mem_filter.mp hmem).1

/-! ## Building -/

section Build

variable {m : Type → Type} [Monad m] (make : τ → τ → τ → τ → m γ)

theorem build_of_missing {slots : Slots τ} (h : slots.missing ≠ []) :
    (slots.build make).run = pure (.error (.missing slots.missing)) := by
  unfold build
  split
  · refine absurd (missing_eq_nil_iff.mpr fun p => ?_) h
    cases p <;> simp [*]
  · rfl

theorem build_of_complete (t : Position → τ) :
    (build (fun p => some (t p)) make).run =
      .ok <$> make (t .subject) (t .predicate) (t .object) (t .graph) := rfl

end Build

/-- Nothing is missing exactly if there are four terms. -/
theorem exists_complete {slots : Slots τ} (h : slots.missing = []) :
    ∃ t : Position → τ, slots = fun p => some (t p) :=
  ⟨fun p => (slots p).get (missing_eq_nil_iff.mp h p), funext fun _ => (Option.some_get _).symm⟩

theorem missing_complete (t : Position → τ) : missing (fun p => some (t p)) = [] :=
  missing_eq_nil_iff.mpr fun _ => rfl

/-! ## Asking -/

/-- Enters values one after the other. -/
def putAll (slots : Slots τ) (values : List (Position × Option τ)) : Slots τ :=
  values.foldl (fun filled e => filled.put e.1 e.2) slots

theorem putAll_cons (slots : Slots τ) (e : Position × Option τ)
    (values : List (Position × Option τ)) :
    slots.putAll (e :: values) = (slots.put e.1 e.2).putAll values := rfl

variable {m : Type → Type} [Monad m] [LawfulMonad m]

/-- Going through positions, one asks for those that have no term at the start. -/
theorem foldlM_ask (ask : Position → m (Option τ)) {positions : List Position}
    (h : positions.Nodup) (slots : Slots τ) :
    positions.foldlM (fun filled p =>
        if (filled p).isSome then pure filled else return filled.put p (← ask p)) slots =
      slots.putAll <$> (positions.filter fun p => (slots p).isNone).mapM fun p => do
        return (p, ← ask p) := by
  induction positions generalizing slots with
  | nil => simp [putAll]
  | cons p rest ih =>
    obtain ⟨hp, hrest⟩ := List.nodup_cons.mp h
    simp only [bind_pure_comp] at ih ⊢
    rw [List.foldlM_cons]
    cases hslot : slots p with
    | some t => simp [hslot, ih hrest]
    | none =>
      -- an answer leaves open which of the positions after it have no term
      have hfilter (value : Option τ) : (rest.filter fun q => (slots.put p value q).isNone) =
          rest.filter fun q => (slots q).isNone := by
        refine List.filter_congr fun q hq => ?_
        rw [put_of_ne]
        rintro rfl
        exact hp hq
      simp [hslot, ih hrest, hfilter, putAll_cons]

/-- **Whoever can be asked is asked for the positions without a term**, once each and in order. -/
theorem fill_eq (slots : Slots τ) (ask : Position → m (Option τ)) :
    slots.fill ask = slots.putAll <$> slots.missing.mapM fun p => do return (p, ← ask p) :=
  foldlM_ask ask (by decide) slots

theorem fill_complete (t : Position → τ) (ask : Position → m (Option τ)) :
    fill (fun p => some (t p)) ask = pure fun p => some (t p) := by
  rw [fill_eq, missing_complete]
  simp [putAll]

end Slots

/-! ## Assembling -/

section Assemble

variable {τ γ : Type} {m : Type → Type} [Monad m] [LawfulMonad m]
  {entries : List (String × Option τ)} (fallback : Option (Position → m (Option τ)))
  (make : τ → τ → τ → τ → m γ)

theorem assemble_of_unknown {name : String} (h : Slots.unknownName? entries = some name) :
    (assemble entries fallback make).run = pure (.error (.unknownPosition name)) := by
  have hcollect : Slots.empty.collect entries = .error (.unknownPosition name) :=
    Slots.collect_eq_error_iff.mpr ⟨name, h, rfl⟩
  rw [assemble, hcollect, ExceptT.run_bind, ExceptT.run_mk, pure_bind]

/-- Nobody can be asked. -/
theorem assemble_alone (h : Slots.unknownName? entries = none) :
    (assemble entries none make).run = ((Slots.lastValues entries).build make).run := by
  rw [assemble, Slots.collect_empty h, ExceptT.run_bind, ExceptT.run_mk, pure_bind]
  simp

theorem assemble_asking (h : Slots.unknownName? entries = none)
    (ask : Position → m (Option τ)) :
    (assemble entries (some ask) make).run =
      (Slots.lastValues entries).fill ask >>= fun filled => (filled.build make).run := by
  rw [assemble, Slots.collect_empty h, ExceptT.run_bind, ExceptT.run_mk, pure_bind]
  simp

/-- If the entries say it all, nobody is asked. -/
theorem assemble_of_complete (h : Slots.unknownName? entries = none) {t : Position → τ}
    (ht : Slots.lastValues entries = fun p => some (t p)) :
    (assemble entries fallback make).run =
      .ok <$> make (t .subject) (t .predicate) (t .object) (t .graph) := by
  cases fallback with
  | none => rw [assemble_alone make h, ht, Slots.build_of_complete]
  | some ask =>
    rw [assemble_asking make h, ht, Slots.fill_complete, pure_bind, Slots.build_of_complete]

theorem assemble_congr {others : List (String × Option τ)} (h : Slots.unknownName? entries = none)
    (hsame : ∀ name : String,
      others.filter (fun e => e.1 = name) = entries.filter (fun e => e.1 = name)) :
    assemble others fallback make = assemble entries fallback make := by
  have hothers := Slots.unknownName?_congr hsame h
  refine ExceptT.ext ?_
  cases fallback with
  | none =>
    rw [assemble_alone make h, assemble_alone make hothers, Slots.lastValues_congr hsame]
  | some ask =>
    rw [assemble_asking make h, assemble_asking make hothers, Slots.lastValues_congr hsame]

end Assemble

/-! ## Named terms of a quad -/

namespace Quad

variable {α : Type} (q : Quad α)

/-- The terms of a quad as entries. -/
def namedEntries : List (String × Option (Nested α)) :=
  q.namedPositions.map fun e => (e.1, some e.2)

theorem unknownName?_namedEntries : Slots.unknownName? q.namedEntries = none := by
  refine Slots.unknownName?_eq_none_iff.mpr ?_
  simp only [namedEntries, namedPositions_eq, List.forall_mem_map]
  exact fun p _ => ⟨p, rfl⟩

theorem lastValues_namedEntries :
    Slots.lastValues q.namedEntries = fun p => some (q.get p) := by
  funext p
  cases p <;> rfl

section Assemble

variable {γ : Type} {m : Type → Type} [Monad m] [LawfulMonad m]

/-- The named terms of a quad are built into what there is to build of its four terms. -/
theorem assemble_namedEntries (fallback : Option (Position → m (Option (Nested α))))
    (make : Nested α → Nested α → Nested α → Nested α → m γ) :
    (assemble q.namedEntries fallback make).run =
      .ok <$> make q.subject q.predicate q.object q.graph :=
  assemble_of_complete fallback make q.unknownName?_namedEntries q.lastValues_namedEntries

/-- Without a factory the named terms of a quad give the quad again. -/
theorem assembleThrough_default (Q : Quad Atom) (fresh : m String)
    (fallback : Option (Position → m (Option Draft))) :
    (assembleThrough (Q.map Part.atom).namedEntries fallback fresh).run =
      pure (.ok (Draft.ofTerm Q.toNested)) := by
  have hbuild := Factory.orDefault_none_quadOfDrafts fresh Q.subject Q.predicate Q.object Q.graph
  rw [assembleThrough, assemble_namedEntries]
  exact (congrArg (Except.ok <$> ·) hbuild).trans (by simp [Factory.plain, Quad.toNested])

end Assemble

end Quad

/-- **A quad is assembled from what the last entry of each name says.** The first name that is no
position's is reported, and nobody is asked then. Otherwise the positions without a term are asked
for, if there is somebody to ask, and a quad is built of the four terms that there are then, or
those that are still missing are reported in their order. Entries of different names can change
places, and the named terms of a quad give the quad again. -/
theorem assemble_by_last_entries {τ γ : Type} {m : Type → Type} [Monad m] [LawfulMonad m]
    (entries : List (String × Option τ)) (make : τ → τ → τ → τ → m γ) :
    (∀ name, Slots.unknownName? entries = some name → ∀ fallback,
      (assemble entries fallback make).run = pure (.error (.unknownPosition name))) ∧
    (Slots.unknownName? entries = none →
      let v := Slots.lastValues entries
      (assemble entries none make).run = (v.build make).run ∧
      (∀ ask, (assemble entries (some ask) make).run = (do
        let answers ← v.missing.mapM fun p => do return (p, ← ask p)
        ((v.putAll answers).build make).run)) ∧
      ∀ others, (∀ name : String,
          others.filter (fun e => e.1 = name) = entries.filter (fun e => e.1 = name)) →
        ∀ fallback, assemble others fallback make = assemble entries fallback make) ∧
    (∀ slots : Slots τ,
      (slots.missing ≠ [] →
        (slots.build make).run = pure (.error (.missing slots.missing)) ∧
        (AssemblyError.missing slots.missing).names =
          (Position.all.filter fun p => (slots p).isNone).map Position.name) ∧
      (slots.missing = [] → ∃ t : Position → τ, (∀ p, slots p = some (t p)) ∧
        (slots.build make).run =
          .ok <$> make (t .subject) (t .predicate) (t .object) (t .graph))) ∧
    ∀ (Q : Quad Atom) (fresh : m String) (fallback : Option (Position → m (Option Term))),
      (assemble Q.namedEntries fallback fun s p o g =>
        (Factory.plain id fresh).quad s p o (some g)).run = pure (.ok Q.toNested) := by
  refine ⟨fun name h fallback => assemble_of_unknown fallback make h, fun h => ⟨?_, fun ask => ?_,
    fun others hsame fallback => assemble_congr fallback make h hsame⟩,
    fun slots => ⟨fun h => ⟨Slots.build_of_missing make h, rfl⟩, fun h => ?_⟩,
    fun Q fresh fallback => ?_⟩
  · exact assemble_alone make h
  · rw [assemble_asking make h, Slots.fill_eq, bind_map_left]
  · obtain ⟨t, rfl⟩ := Slots.exists_complete h
    exact ⟨t, fun _ => rfl, Slots.build_of_complete make t⟩
  · rw [Q.assemble_namedEntries]
    exact map_pure _ _

/-- Entries that name the subject twice and withdraw the object, with somebody to ask who has an
object only; and the same entries with two more that name no position. -/
theorem assemble_by_last_entries_withdrawn :
    let entries : List (String × Option String) :=
      [("graph", some "g"), ("subject", some "a"), ("object", some "b"), ("object", none),
        ("subject", some "c")]
    let ask (p : Position) : StateM (List Position) (Option String) := do
      modify (· ++ [p])
      return if p = .object then some "o" else none
    let make (s p o g : String) : StateM (List Position) String := return s ++ p ++ o ++ g
    let more : List (String × Option String) := [("Graph", some "h"), ("", none)]
    (assemble entries (some ask) make).run.run [] =
        (.error (.missing [.predicate]), [.predicate, .object]) ∧
      (assemble (entries ++ ("predicate", some "p") :: []) (some ask) make).run.run [] =
        (.ok "cpog", [.object]) ∧
      (assemble (entries ++ more) (some ask) make).run.run [] =
        (.error (.unknownPosition "Graph"), []) := by
  intro entries ask make more
  refine ⟨?_, ?_, ?_⟩
  · rw [((assemble_by_last_entries entries make).2.1 rfl).2.1 ask]
    rfl
  · rw [((assemble_by_last_entries (entries ++ [("predicate", some "p")]) make).2.1 rfl).2.1 ask]
    rfl
  · rw [(assemble_by_last_entries (entries ++ more) make).1 "Graph" rfl (some ask)]
    rfl

end RdfStar
