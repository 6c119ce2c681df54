import Mathlib.Data.List.Nodup
import RdfStar.Proofs.Leaf.Rewriting
import RdfStar.Proofs.Oxigraph.Reading
import RdfStar.Proofs.Term.Rebuilding
import RdfStar.Proofs.Term.Renaming

/-!
# Fresh labels

A program that uses a factory makes one request after another, and what it requests next may depend
on what it got before. It may ask for the leaves of a quad to be mapped and give a program of its
own for each of them, which uses the same factory in the middle of the traversal. Whatever the
program does, the blank nodes that it gets with fresh labels are numbered from 0 on, in the order in
which it got them: nothing but a request for such a blank node takes a label from the supply.

A run is watched through a factory that notes these blank nodes, and is otherwise the factory of
terms.

Principal results: `Script.numbers` — what any program notes, and that it runs the same unwatched;
`Factory.fresh_labels_numbered` — all of this from a new supply, with the labels that are kept and
the leaves that are mapped to fresh blank nodes.
-/

namespace RdfStar

/-! ## Numbered blank nodes -/

theorem LabelSupply.label_injective (stem : String) : Function.Injective (label stem) := by
  intro i j h
  have hnumeral : i.repr = j.repr := (String.append_right_inj stem).mp h
  rw [Nat.repr_eq_ofList_toDigits, Nat.repr_eq_ofList_toDigits, String.ofList_inj] at hnumeral
  -- a number is read back from its digits
  rw [← Nat.ofDigitChars_ten_toDigits (n := i), hnumeral, Nat.ofDigitChars_ten_toDigits]

/-- The blank nodes whose labels have the numbers from n on, a given number of them. -/
def generated (stem : String) (n count : Nat) : List Term :=
  (List.range' n count).map fun i => .leaf (.blankNode (LabelSupply.label stem i))

section Generated

variable (stem : String) (n k l : Nat)

theorem generated_append :
    generated stem n k ++ generated stem (n + k) l = generated stem n (k + l) := by
  rw [generated, generated, ← List.map_append, List.range'_append_1, generated]

theorem nodup_generated : (generated stem n k).Nodup := by
  refine List.Nodup.map ?_ List.nodup_range'
  intro i j h
  simp only [Nested.leaf.injEq, Atom.blankNode.injEq] at h
  exact LabelSupply.label_injective stem h

end Generated

/-! ## Programs -/

/-- What is raised where a term is expected: a value is not a term, data is not an oxigraph value,
or the program itself gives up. -/
inductive Fault (ε : Type) where
  | notTerm (error : NotTerm)
  | notValue (error : Oxigraph.NotValue)
  | raised (error : ε)

mutual

/-- A request that uses a factory. The leaves of a quad are mapped by a program for each. -/
inductive Request (ε : Type) where
  | namedNode (iri : String)
  | blankNode (label : Option String)
  | literal (value : String) (stated : Annotation)
  | var (name : String)
  | defaultGraph
  | quad (s p o : Term) (g : Option Term)
  | triple (s p o : Term)
  | rebuild (draft : Draft)
  | decode (value : Oxigraph.Value)
  | decodeData (value : Data)
  | mapLeaves (q : Quad Atom) (mapper : Atom → Path → Script ε)

/-- A program that makes requests: it ends, or goes on with the answer to a request. It may go on
after a failure. -/
inductive Script (ε : Type) where
  | finish (answer : Except (Fault ε) Term)
  | call (request : Request ε) (next : Except (Fault ε) Term → Script ε)

end

variable {ε : Type}

section Run

variable {m : Type → Type} [Monad m] (F : Factory m Term)

mutual

/-- The answer to a request. -/
def Request.perform : Request ε → ExceptT (Fault ε) m Term
  | .namedNode iri => ExceptT.lift (F.namedNode iri)
  | .blankNode label => ExceptT.lift (F.blankNode label)
  | .literal value stated => ExceptT.lift (F.literal value stated)
  | .var name => ExceptT.lift (F.var name)
  | .defaultGraph => ExceptT.lift F.defaultGraph
  | .quad s p o g => ExceptT.lift (F.quad s p o g)
  | .triple s p o => ExceptT.lift (F.triple s p o)
  | .rebuild draft => ExceptT.adapt .notTerm (F.rebuild draft)
  | .decode value => ExceptT.lift (Oxigraph.decode F value)
  | .decodeData value =>
    ExceptT.mk (pure ((Oxigraph.decodeData value).outcome.1.mapError .notValue))
  | .mapLeaves q mapper =>
    q.mapLeaves (fun a path => Script.run (mapper a path))
      fun s p o g => ExceptT.lift (F.quad s p o (some g))

/-- What a program ends with. -/
def Script.run : Script ε → ExceptT (Fault ε) m Term
  | .finish answer => ExceptT.mk (pure answer)
  | .call request next => ExceptT.mk do
    let answer ← (Request.perform request).run
    (Script.run (next answer)).run

end

end Run

/-! ## Watched factories -/

namespace Factory

section Watched

variable {m : Type → Type} [Monad m] {τ : Type}

/-- The same factory, but every blank node that it builds with a fresh label is noted. -/
def watched (F : Factory m τ) (note : τ → m Unit) : Factory m τ :=
  { F with
    blankNode := fun label => do
      let built ← F.blankNode label
      if label.isNone then note built
      return built }

variable [LawfulMonad m] (F : Factory m τ) (note : τ → m Unit)

theorem watched_blankNode_some (label : String) :
    (F.watched note).blankNode (some label) = F.blankNode (some label) := by
  simp [watched]

/-- Nothing is noted while a draft is built anew. -/
theorem rebuild_watched (d : Draft) : (F.watched note).rebuild d = F.rebuild d := by
  induction d with
  | leaf part =>
    cases part with
    | atom a =>
      cases a with
      | blankNode label => exact congrArg ExceptT.lift (F.watched_blankNode_some note label)
      | _ => rfl
    | foreign v => rfl
  | quad s p o g hs hp ho hg =>
    rw [rebuild_quad, rebuild_quad, hs, hp, ho, hg]
    rfl

/-- Nothing is noted while an oxigraph value is read. -/
theorem decode_watched (v : Oxigraph.Value) :
    Oxigraph.decode (F.watched note) v = Oxigraph.decode F v := by
  induction v with
  | blankNode label => exact F.watched_blankNode_some note label
  | triple s p o hs hp ho =>
    rw [Oxigraph.decode, Oxigraph.decode, hs, hp, ho]
    rfl
  | quad s p o g hs hp ho hg =>
    rw [Oxigraph.decode, Oxigraph.decode, hs, hp, ho, hg]
    rfl
  | _ => rfl

end Watched

/-- Computations that draw on a label supply and note blank nodes. -/
abbrev Watching := StateT (List Term) (StateM LabelSupply)

/-- The factory of terms that notes the blank nodes with fresh labels. -/
def watching : Factory Watching Term :=
  (plain id (liftM LabelSupply.generate)).watched fun built => modify fun noted => noted ++ [built]

end Factory

/-! ## What a run notes -/

/-- What comes second starts with the state that the first left. -/
theorem run_bind_of_run {σ α β : Type} {x : StateM σ α} {f : α → StateM σ β} {a : α} {s t : σ}
    (h : x.run s = (a, t)) : (x >>= f).run s = (f a).run t := by
  rw [StateT.run_bind, h]
  rfl

/-- A watched computation notes blank nodes numbered without a gap from where the supply is, the
supply moves on by as many, and without the notes it is the other computation. -/
def Numbers {α : Type} (x : Factory.Watching α) (y : StateM LabelSupply α) : Prop :=
  ∀ noted stem n, ∃ a k,
    (x.run noted).run ⟨stem, n⟩ = ((a, noted ++ generated stem n k), ⟨stem, n + k⟩) ∧
      y.run ⟨stem, n⟩ = (a, ⟨stem, n + k⟩)

namespace Numbers

variable {α β : Type}

theorem pure (a : α) : Numbers (Pure.pure a) (Pure.pure a) := by
  intro noted stem n
  refine ⟨a, 0, ?_, rfl⟩
  rw [generated, List.range'_zero, List.map_nil, List.append_nil]
  rfl

/-- What comes second is numbered from where the first stopped. -/
theorem bind {x : Factory.Watching α} {y : StateM LabelSupply α} {f : α → Factory.Watching β}
    {g : α → StateM LabelSupply β} (hx : Numbers x y) (hf : ∀ a, Numbers (f a) (g a)) :
    Numbers (x >>= f) (y >>= g) := by
  intro noted stem n
  obtain ⟨a, k, hwatched, hplain⟩ := hx noted stem n
  obtain ⟨b, l, hwatched', hplain'⟩ := hf a (noted ++ generated stem n k) stem (n + k)
  refine ⟨b, k + l, ?_, ?_⟩
  · rw [List.append_assoc, generated_append, Nat.add_assoc] at hwatched'
    rw [StateT.run_bind, run_bind_of_run hwatched]
    exact hwatched'
  · rw [Nat.add_assoc] at hplain'
    rw [run_bind_of_run hplain]
    exact hplain'

/-- **A blank node with a fresh label is noted**, and has the number where the supply is. -/
theorem fresh : Numbers (Factory.watching.blankNode none) (Factory.standard.blankNode none) := by
  intro noted stem n
  exact ⟨.leaf (.blankNode (LabelSupply.label stem n)), 1, rfl, rfl⟩

end Numbers

/-! ## With failures -/

/-- The same of computations that may fail; what was noted before a failure is kept. -/
def NumbersOrFails {ε α : Type} (x : ExceptT ε Factory.Watching α)
    (y : ExceptT ε (StateM LabelSupply) α) : Prop := Numbers x.run y.run

namespace NumbersOrFails

variable {ε α β : Type}

theorem ofExcept (a : Except ε α) : NumbersOrFails (ExceptT.mk (pure a)) (ExceptT.mk (pure a)) :=
  Numbers.pure a

theorem lift {x : Factory.Watching α} {y : StateM LabelSupply α} (h : Numbers x y) :
    NumbersOrFails (ExceptT.lift x : ExceptT ε Factory.Watching α) (ExceptT.lift y) := by
  unfold NumbersOrFails
  rw [ExceptT.run_lift, ExceptT.run_lift, map_eq_pure_bind, map_eq_pure_bind]
  exact h.bind fun a => Numbers.pure (Except.ok a)

theorem bind {x : ExceptT ε Factory.Watching α} {y : ExceptT ε (StateM LabelSupply) α}
    {f : α → ExceptT ε Factory.Watching β} {g : α → ExceptT ε (StateM LabelSupply) β}
    (hx : NumbersOrFails x y) (hf : ∀ a, NumbersOrFails (f a) (g a)) :
    NumbersOrFails (x >>= f) (y >>= g) := by
  unfold NumbersOrFails
  rw [ExceptT.run_bind, ExceptT.run_bind]
  refine Numbers.bind hx fun result => ?_
  cases result with
  | ok a => exact hf a
  | error e => exact Numbers.pure (Except.error e)

/-- A traversal notes what its callback notes, if nothing is noted to build a quad. -/
theorem rebuild {f : α → Path → ExceptT ε Factory.Watching β}
    {g : α → Path → ExceptT ε (StateM LabelSupply) β}
    {build : β → β → β → β → ExceptT ε Factory.Watching β}
    {build' : β → β → β → β → ExceptT ε (StateM LabelSupply) β}
    (hf : ∀ a path, NumbersOrFails (f a path) (g a path))
    (hbuild : ∀ s p o gr, NumbersOrFails (build s p o gr) (build' s p o gr)) (t : Nested α)
    (trail : Path) : NumbersOrFails (t.rebuild f build trail) (t.rebuild g build' trail) := by
  induction t generalizing trail with
  | leaf a => exact hf a trail.reverse
  | quad s p o g hs hp ho hg =>
    refine (hs _).bind fun s => (hp _).bind fun p => (ho _).bind fun o => (hg _).bind fun g => ?_
    exact hbuild s p o g

end NumbersOrFails

/-! ## Requests and programs -/

/-- A draft is built anew, or given up, in one way, wherever the labels come from. -/
theorem Factory.exists_rebuild_plain (d : Draft) :
    ∃ result : Except NotTerm Term, ∀ (m : Type → Type) [Monad m] [LawfulMonad m]
      (fresh : m String), (plain id fresh).rebuild d = ExceptT.mk (pure result) := by
  cases hforeign : d.foreign? with
  | none =>
    obtain ⟨t, rfl⟩ := Draft.foreign?_eq_none_iff.mp hforeign
    refine ⟨.ok (Term.settle id t), fun m _ _ fresh => ?_⟩
    rw [rebuild_ofTerm, Nested.map_id]
    rfl
  | some v => exact ⟨.error ⟨v⟩, fun m _ _ fresh => rebuild_of_foreign id fresh hforeign⟩

namespace Request

/-- Whether a request is neither for a fresh label nor runs programs that may ask for one. -/
def labelsNothing : Request ε → Bool
  | .blankNode none => false
  | .mapLeaves _ _ => false
  | _ => true

section Watched

variable {m : Type → Type} [Monad m] [LawfulMonad m]

theorem perform_watched (F : Factory m Term) (note : Term → m Unit) {r : Request ε}
    (h : r.labelsNothing = true) : r.perform (F.watched note) = r.perform F := by
  cases r with
  | blankNode label =>
    cases label with
    | some label => exact congrArg ExceptT.lift (F.watched_blankNode_some note label)
    | none => cases h
  | rebuild draft => exact congrArg (ExceptT.adapt Fault.notTerm) (F.rebuild_watched note draft)
  | decode value => exact congrArg ExceptT.lift (F.decode_watched note value)
  | mapLeaves q mapper => cases h
  | _ => rfl

end Watched

/-- Such a request has one answer, wherever a factory of terms gets its labels from. -/
theorem exists_answer {r : Request ε} (h : r.labelsNothing = true) :
    ∃ answer : Except (Fault ε) Term, ∀ (m : Type → Type) [Monad m] [LawfulMonad m]
      (fresh : m String), r.perform (Factory.plain id fresh) = ExceptT.mk (pure answer) := by
  have hlift (t : Term) (m : Type → Type) [Monad m] [LawfulMonad m] :
      (ExceptT.lift (pure t) : ExceptT (Fault ε) m Term) = ExceptT.mk (pure (.ok t)) :=
    ExceptT.lift_pure t
  cases r with
  | blankNode label =>
    cases label with
    | some label => exact ⟨_, fun m _ _ fresh => hlift _ m⟩
    | none => cases h
  | rebuild draft =>
    obtain ⟨result, hresult⟩ := Factory.exists_rebuild_plain draft
    refine ⟨result.mapError .notTerm, fun m _ _ fresh => ?_⟩
    rw [perform, hresult]
    apply ExceptT.ext
    rw [ExceptT.run_adapt]
    exact map_pure _ result
  | decode value =>
    refine ⟨.ok value.term, fun m _ _ fresh => ?_⟩
    rw [perform, Oxigraph.decode_plain, Nested.map_id]
    exact hlift _ m
  | decodeData value => exact ⟨_, fun m _ _ fresh => rfl⟩
  | mapLeaves q mapper => cases h
  | _ => exact ⟨_, fun m _ _ fresh => hlift _ m⟩

theorem numbers_of_labelsNothing {r : Request ε} (h : r.labelsNothing = true) :
    NumbersOrFails (r.perform Factory.watching) (r.perform Factory.standard) := by
  obtain ⟨answer, hanswer⟩ := exists_answer h
  rw [Factory.watching, perform_watched _ _ h, hanswer, Factory.standard, hanswer]
  exact NumbersOrFails.ofExcept answer

end Request

mutual

theorem Request.numbers : ∀ r : Request ε,
    NumbersOrFails (r.perform Factory.watching) (r.perform Factory.standard)
  | .blankNode none => .lift .fresh
  | .mapLeaves q mapper => by
    refine NumbersOrFails.rebuild (fun a path => ?_) (fun s p o g => ?_) q.toNested []
    · exact Script.numbers (mapper a path)
    · exact .lift (Numbers.pure (Nested.quad s p o g))
  | .namedNode _ | .blankNode (some _) | .literal _ _ | .var _ | .defaultGraph | .quad _ _ _ _
  | .triple _ _ _ | .rebuild _ | .decode _ | .decodeData _ => Request.numbers_of_labelsNothing rfl

/-- **Whatever a program does, the blank nodes that it gets with fresh labels are numbered without a
gap**, and it runs the same when they are not noted. -/
theorem Script.numbers : ∀ script : Script ε,
    NumbersOrFails (script.run Factory.watching) (script.run Factory.standard)
  | .finish answer => .ofExcept answer
  | .call request next => Numbers.bind (Request.numbers request) fun answer =>
      Script.numbers (next answer)

end

/-! ## Blank nodes of a term that is built anew -/

theorem Atom.settle_eq_blankNode_iff {keep : String → String} {a : Atom} {label : String} :
    a.settle keep = .blankNode label ↔ a = .blankNode label := by
  cases a <;> simp [settle]

/-- To settle literals leaves the blank nodes where they are. -/
theorem Term.at?_settle_blankNode_iff {keep : String → String} {t : Term} {path : Path}
    {label : String} :
    (Term.settle keep t).at? path = some (.leaf (.blankNode label)) ↔
      t.at? path = some (.leaf (.blankNode label)) := by
  rw [settle, Nested.at?_map, Option.map_eq_some_iff]
  constructor
  · rintro ⟨u, hu, hleaf⟩
    cases u with
    | leaf a =>
      have ha : a.settle keep = .blankNode label := Nested.leaf.inj hleaf
      rw [hu, Atom.settle_eq_blankNode_iff.mp ha]
    | quad s p o g => cases hleaf
  · intro h
    exact ⟨_, h, rfl⟩

/-! ## Leaves mapped to fresh blank nodes -/

/-- Blank nodes with labels numbered from n on, in place of leaves. -/
def numbered (stem : String) (n : Nat) (leaves : List (Atom × Path)) : List (Atom × Path) :=
  (leaves.zipIdx n).map fun e => (.blankNode (LabelSupply.label stem e.2), e.1.2)

theorem map_leaf_numbered (stem : String) (n : Nat) (leaves : List (Atom × Path)) :
    ((numbered stem n leaves).map Prod.fst).map Nested.leaf = generated stem n leaves.length := by
  rw [generated, ← List.zipIdx_map_snd n leaves, numbered, List.map_map, List.map_map, List.map_map]
  rfl

/-- A callback that gives each leaf a fresh blank node draws one label for each. -/
theorem gather_fresh (stem : String) (n : Nat) (leaves : List (Atom × Path)) :
    (Nested.gather (fun _ _ => Factory.standard.blankNode none) leaves).run ⟨stem, n⟩ =
      (numbered stem n leaves, ⟨stem, n + leaves.length⟩) := by
  induction leaves generalizing n with
  | nil => rfl
  | cons e rest ih =>
    have hfresh : (Factory.standard.blankNode none).run ⟨stem, n⟩ =
        (.leaf (.blankNode (LabelSupply.label stem n)), ⟨stem, n + 1⟩) := rfl
    have hlength : n + (e :: rest).length = n + 1 + rest.length := by
      rw [List.length_cons]
      omega
    rw [Nested.gather_cons, run_bind_of_run hfresh, run_bind_of_run (ih (n + 1)), hlength]
    rfl

/-- **A quad whose leaves are mapped to fresh blank nodes has them numbered in traversal order.** -/
theorem Quad.exists_mapLeaves_fresh (Q : Quad Atom) (stem : String) (n : Nat) :
    ∃ R : Quad Atom,
      (Q.mapLeaves (fun _ _ => Factory.standard.blankNode none)
          fun s p o g => Factory.standard.quad s p o (some g)).run ⟨stem, n⟩ =
        (R.toNested, ⟨stem, n + (Q.leaves false).length⟩) ∧
      R.leaves false = numbered stem n (Q.leaves false) := by
  let mapped := Q.mapLeaves (fun _ _ => Factory.standard.blankNode none)
    fun s p o g => Factory.standard.quad s p o (some g)
  obtain ⟨R, hR⟩ : ∃ R : Quad Atom, (mapped.run ⟨stem, n⟩).1 = R.toNested := ⟨⟨_, _, _, _⟩, rfl⟩
  have hgather := Q.toNested.frontier_rebuild fun _ _ => Factory.standard.blankNode none
  have hrun := congrArg (fun x => StateT.run x ⟨stem, n⟩) hgather
  simp only [gather_fresh, ← leaves_eq_frontier] at hrun
  -- the traversal and the list of its leaves run on the same supply
  have hleaves : ((mapped.run ⟨stem, n⟩).1.frontier false, (mapped.run ⟨stem, n⟩).2) =
      (numbered stem n (Q.leaves false), ⟨stem, n + (Q.leaves false).length⟩) := hrun
  rw [hR, Prod.mk.injEq] at hleaves
  refine ⟨R, Prod.ext hR hleaves.2, ?_⟩
  rw [leaves_eq_frontier R]
  exact hleaves.1

namespace Factory

/-! ## The factory of terms and its labels -/

/-- **Fresh labels never repeat.** From a new supply, the blank nodes that any program gets with
fresh labels are numbered from 0 on in the order in which it gets them, so no two are the same, and
the supply stands at their number. A request that is neither for such a blank node nor runs programs
leaves the supply as it is, and has the same answer wherever the supply is. Labels that are given
are kept, and so are those of the blank nodes in a term that is built anew and in an oxigraph value
that is read, each where it stands. Mapping every leaf of a quad to a fresh blank node draws as many
labels as there are leaves, in traversal order. -/
theorem fresh_labels_numbered (ε : Type) (stem : String) :
    (∀ script : Script ε, ∃ answer noted,
      ((script.run watching).run.run []).run (.new stem) =
          ((answer, noted), ⟨stem, noted.length⟩) ∧
        (script.run standard).run.run (.new stem) = (answer, ⟨stem, noted.length⟩) ∧
        noted = ((List.range noted.length).map fun i =>
          .leaf (.blankNode (stem ++ toString i))) ∧ noted.Nodup) ∧
    (∀ request : Request ε, request.labelsNothing = true → ∃ answer, ∀ n,
      (request.perform standard).run.run ⟨stem, n⟩ = (answer, ⟨stem, n⟩)) ∧
    (∀ label n, (standard.blankNode (some label)).run ⟨stem, n⟩ =
      (.leaf (.blankNode label), ⟨stem, n⟩)) ∧
    (∀ t : Term, ∃ u : Term,
      (∀ n, (standard.rebuild (Draft.ofTerm t)).run.run ⟨stem, n⟩ = (.ok u, ⟨stem, n⟩)) ∧
        ∀ path label, u.at? path = some (.leaf (.blankNode label)) ↔
          t.at? path = some (.leaf (.blankNode label))) ∧
    (∀ v : Oxigraph.Value, ∃ u : Term,
      (∀ n, (Oxigraph.decode standard v).run ⟨stem, n⟩ = (u, ⟨stem, n⟩)) ∧
        ∀ path label, u.at? path = some (.leaf (.blankNode label)) ↔
          v.at? path = some (.blankNode label)) ∧
    ∀ (Q : Quad Atom) (n : Nat), ∃ R : Quad Atom,
      (Q.mapLeaves (fun _ _ => standard.blankNode none)
          fun s p o g => standard.quad s p o (some g)).run ⟨stem, n⟩ =
        (R.toNested, ⟨stem, n + (Q.leaves false).length⟩) ∧
      R.leaves false = ((Q.leaves false).zipIdx n).map (fun e =>
        (.blankNode (stem ++ toString e.2), e.1.2)) ∧
      (R.allLeaves false).Nodup := by
  refine ⟨fun script => ?_, fun request h => ?_, fun label n => rfl, fun t => ?_, fun v => ?_,
    fun Q n => ?_⟩
  · obtain ⟨answer, k, hwatched, hplain⟩ := script.numbers [] stem 0
    have hlength : (generated stem 0 k).length = k := by
      rw [generated, List.length_map, List.length_range']
    rw [Nat.zero_add, List.nil_append] at hwatched
    rw [Nat.zero_add] at hplain
    refine ⟨answer, generated stem 0 k, ?_, ?_, ?_, nodup_generated stem 0 k⟩
    · rw [hlength]
      exact hwatched
    · rw [hlength]
      exact hplain
    · rw [hlength, List.range_eq_range']
      rfl
  · obtain ⟨answer, hanswer⟩ := Request.exists_answer h
    refine ⟨answer, fun n => ?_⟩
    rw [standard, hanswer]
    rfl
  · refine ⟨Term.settle id t, fun n => ?_, fun path label => Term.at?_settle_blankNode_iff⟩
    rw [standard, rebuild_ofTerm, Nested.map_id]
    rfl
  · refine ⟨v.term, fun n => ?_, fun path label => Oxigraph.Value.at?_term_blankNode_iff⟩
    rw [standard, Oxigraph.decode_plain, Nested.map_id]
    rfl
  · obtain ⟨R, hrun, hleaves⟩ := Q.exists_mapLeaves_fresh stem n
    refine ⟨R, hrun, hleaves, ?_⟩
    have hnodup := nodup_generated stem n (Q.leaves false).length
    rw [← map_leaf_numbered, ← hleaves] at hnodup
    exact hnodup.of_map Nested.leaf

/-- A mapper that draws a label at each variable and gives up at the second, after a fresh blank
node and before one more, with a blank node with an empty label built anew in between. -/
theorem fresh_labels_numbered_mapper_gives_up :
    let p : Term := .leaf (.namedNode "p")
    let Q : Quad Atom := ⟨.leaf (.var "x"), p, .leaf (.var "y"), .leaf .defaultGraph⟩
    let draw (next : Except (Fault Unit) Term → Script Unit) : Script Unit :=
      .call (.blankNode none) next
    let mapper : Atom → Path → Script Unit := fun a path =>
      if path = [.object] then draw fun _ => .finish (.error (.raised ()))
      else if a.isVar then draw .finish
      else .finish (.ok (.leaf a))
    let kept : Request Unit := .rebuild (.leaf (.atom (.blankNode "")))
    let script : Script Unit := draw fun _ =>
      .call (.mapLeaves Q mapper) fun _ => .call kept fun _ => draw .finish
    let noted : List Term := [.leaf (.blankNode "b0"), .leaf (.blankNode "b1"),
      .leaf (.blankNode "b2"), .leaf (.blankNode "b3")]
    ((script.run watching).run.run []).run (.new "b") =
        ((.ok (.leaf (.blankNode "b3")), noted), ⟨"b", 4⟩) ∧
      noted.Nodup ∧ kept.labelsNothing = true ∧
      ∃ answer, ∀ n, (kept.perform standard).run.run ⟨"b", n⟩ = (answer, ⟨"b", n⟩) := by
  intro p Q draw mapper kept script noted
  obtain ⟨hscripts, hkept, -⟩ := fresh_labels_numbered Unit "b"
  obtain ⟨answer, noted', hrun, -, -, hnodup⟩ := hscripts script
  have hcomputed : ((script.run watching).run.run []).run (.new "b") =
      ((.ok (.leaf (.blankNode "b3")), noted), ⟨"b", 4⟩) := rfl
  have hnoted : noted' = noted := congrArg (fun result => result.1.2) (hrun.symm.trans hcomputed)
  exact ⟨hcomputed, hnoted ▸ hnodup, rfl, hkept kept rfl⟩

end Factory

end RdfStar
