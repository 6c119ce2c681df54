import RdfStar.Leaf.Operations
import RdfStar.Proofs.Leaf.Order

/-!
# The calls of the operations on leaves

An operation on the leaves of a quad calls its callback on one leaf after another. To see the calls
we note each of them before it is made. A callback may have effects and may fail; what is noted of
it stays. All operations then make the same calls: those of the traversal in order, up to and
including the first that fails, whose failure is theirs. No operation stops early for any other
reason, so without a failure every leaf has been asked, and the operations differ only in what they
make of the answers.

Principal results: `Calls.foldlM_after` — what is noted of a fold is what `Calls.attempt` lists;
`Nested.rebuild_discard` — to rebuild a value is to call the callback on its leaves in order;
`Quad.leaf_operations_call_in_turn` — the calls and answers of the seven operations.
-/

namespace RdfStar

/-! ## Calls in turn -/

namespace Calls

variable {κ ε β γ σ : Type} {m : Type → Type}

/-- Computations that note calls while they run, and that may fail; what is noted stays. -/
abbrev Noting (κ ε : Type) (m : Type → Type) := ExceptT ε (StateT (List κ) m)

/-- What comes of a computation when some calls have been noted, with all that are then noted. -/
def after (x : Noting κ ε m β) (noted : List κ) : m (Except ε β × List κ) := x.run.run noted

/-- What comes of a computation, with the calls that it notes. -/
def outcome (x : Noting κ ε m β) : m (Except ε β × List κ) := after x []

/-- Another result from the same calls. -/
def yields (f : β → γ) : Except ε β × List κ → Except ε γ × List κ := fun r => (r.1.map f, r.2)

variable [Monad m]

/-- Notes a call and makes it. -/
def noting (call : κ) (x : ExceptT ε m β) : Noting κ ε m β :=
  ExceptT.mk <| StateT.mk fun noted => do
    let result ← x.run
    return (result, noted ++ [call])

/-- Makes calls in turn, each with what the one before it gave, up to and including the first that
fails: what comes of them, and the calls that are made. -/
def attempt (step : σ → κ → ExceptT ε m σ) : σ → List κ → m (Except ε σ × List κ)
  | acc, [] => pure (.ok acc, [])
  | acc, call :: rest => do
    match ← (step acc call).run with
    | .error failure => return (.error failure, [call])
    | .ok next =>
      let r ← attempt step next rest
      return (r.1, call :: r.2)

/-- One more call, its answer put after those before it. -/
def keep (f : κ → ExceptT ε m β) (given : List β) (call : κ) : ExceptT ε m (List β) :=
  (fun b => given ++ [b]) <$> f call

/-- Makes calls in turn and keeps their answers. -/
def answers (f : κ → ExceptT ε m β) : List κ → m (Except ε (List β) × List κ) := attempt (keep f) []

variable [LawfulMonad m]

theorem map_after (f : β → γ) (x : Noting κ ε m β) (noted : List κ) :
    after (f <$> x) noted = yields f <$> after x noted := by
  rw [after, ExceptT.run_map, StateT.run_map]
  rfl

theorem noting_map (call : κ) (f : β → γ) (x : ExceptT ε m β) :
    noting call (f <$> x) = f <$> noting call x := by
  refine ExceptT.ext (StateT.ext fun noted => ?_)
  rw [ExceptT.run_map, StateT.run_map, noting, noting, ExceptT.run_mk, ExceptT.run_mk,
    StateT.run_mk, StateT.run_mk, ExceptT.run_map, bind_map_left, map_bind]
  simp only [map_pure]

theorem noting_bind_after (call : κ) (x : ExceptT ε m β) (f : β → Noting κ ε m γ)
    (noted : List κ) :
    after (noting call x >>= f) noted = x.run >>= fun result =>
      match result with
      | .error failure => pure (.error failure, noted ++ [call])
      | .ok b => after (f b) (noted ++ [call]) := by
  rw [after, ExceptT.run_bind, StateT.run_bind, noting, ExceptT.run_mk, StateT.run_mk, bind_assoc]
  refine bind_congr fun result => ?_
  cases result <;> simp [after]

/-- **What a fold notes is what calls in turn list.** -/
theorem foldlM_after (step : σ → κ → ExceptT ε m σ) (start : σ) (calls noted : List κ) :
    after (calls.foldlM (fun acc call => noting call (step acc call)) start) noted =
      (fun r => (r.1, noted ++ r.2)) <$> attempt step start calls := by
  induction calls generalizing start noted with
  | nil => simp [attempt, after]
  | cons call rest ih =>
    rw [List.foldlM_cons, noting_bind_after, attempt, map_bind]
    refine bind_congr fun result => ?_
    cases result with
    | error failure => simp
    | ok next => simp [ih]

theorem foldlM_outcome (step : σ → κ → ExceptT ε m σ) (start : σ) (calls : List κ) :
    outcome (calls.foldlM (fun acc call => noting call (step acc call)) start) =
      attempt step start calls := by
  rw [outcome, foldlM_after]
  simp

theorem foldlM_keep {M : Type → Type} [Monad M] [LawfulMonad M] (f : κ → M β) (given : List β)
    (calls : List κ) :
    calls.foldlM (fun given call => (fun b => given ++ [b]) <$> f call) given =
      (given ++ ·) <$> calls.mapM f := by
  induction calls generalizing given with
  | nil => simp
  | cons call rest ih => simp [ih]

theorem mapM_outcome (f : κ → ExceptT ε m β) (calls : List κ) :
    outcome (calls.mapM fun call => noting call (f call)) = answers f calls := by
  have hfold := foldlM_keep (fun call => noting call (f call)) [] calls
  simp only [List.nil_append, id_map', ← noting_map] at hfold
  rw [← hfold]
  exact foldlM_outcome (keep f) [] calls

theorem map_mapM_outcome (g : List β → γ) (f : κ → ExceptT ε m β) (calls : List κ) :
    outcome (g <$> calls.mapM fun call => noting call (f call)) = yields g <$> answers f calls := by
  rw [outcome, map_after, ← mapM_outcome]
  rfl

/-! ## Callbacks whose answers are known -/

/-- The callback with given answers and failures. -/
def known (f : κ → Except ε β) (call : κ) : ExceptT ε m β := ExceptT.mk (pure (f call))

theorem run_keep_known (f : κ → Except ε β) (given : List β) (call : κ) :
    (keep (known f) given call : ExceptT ε m (List β)).run = pure (match f call with
      | .ok b => .ok (given ++ [b])
      | .error failure => .error failure) := by
  rw [keep, known, ExceptT.run_map, ExceptT.run_mk, map_pure]
  cases f call <;> rfl

/-- Calls that do not fail are all made. -/
theorem attempt_keep_known {f : κ → Except ε β} {before : List κ} {bs : List β}
    (h : before.map f = bs.map .ok) (given : List β) (rest : List κ) :
    attempt (keep (known f)) given (before ++ rest) =
      (fun r => (r.1, before ++ r.2)) <$>
        (attempt (keep (known f)) (given ++ bs) rest : m (Except ε (List β) × List κ)) := by
  induction before generalizing given bs with
  | nil =>
    obtain rfl : bs = [] := List.map_eq_nil_iff.mp h.symm
    simp
  | cons call before ih =>
    obtain ⟨b, bs, rfl, hb, hbs⟩ := List.map_eq_cons_iff.mp h.symm
    simp [attempt, run_keep_known, ← hb, ih hbs.symm]

theorem answers_of_ok {f : κ → Except ε β} {calls : List κ} {given : List β}
    (h : calls.map f = given.map .ok) :
    answers (known f) calls = (pure (.ok given, calls) : m (Except ε (List β) × List κ)) := by
  have hall := attempt_keep_known (m := m) h [] []
  simpa [answers, attempt] using hall

theorem answers_of_error {f : κ → Except ε β} {before rest : List κ} {call : κ} {given : List β}
    {failure : ε} (h : before.map f = given.map .ok) (hfails : f call = .error failure) :
    answers (known f) (before ++ call :: rest) =
      (pure (.error failure, before ++ [call]) : m (Except ε (List β) × List κ)) := by
  rw [answers, attempt_keep_known h, attempt, run_keep_known, hfails]
  simp

end Calls

/-! ## The operations as calls on the leaves -/

section Operations

variable {α β σ : Type} {m : Type → Type} [Monad m] [LawfulMonad m]

/-- The entries with a positive answer. -/
def chosen {κ : Type} (entries : List κ) (given : List Bool) : List κ :=
  ((entries.zip given).filter Prod.snd).map Prod.fst

theorem chosen_cons {κ : Type} (e : κ) (rest : List κ) (b : Bool) (given : List Bool) :
    chosen (e :: rest) (b :: given) =
      if b then e :: chosen rest given else chosen rest given := by
  cases b <;> rfl

theorem select_eq {κ : Type} (test : κ → m Bool) (entries : List κ) :
    select test entries = chosen entries <$> entries.mapM test := by
  induction entries with
  | nil => simp [select, chosen]
  | cons e rest ih => simp [select, ih, chosen_cons]

theorem forM_eq {κ : Type} (f : κ → m Unit) (entries : List κ) :
    entries.forM f = (fun _ => ()) <$> entries.mapM f := by
  induction entries with
  | nil => simp
  | cons e rest ih =>
    change (f e >>= fun _ => rest.forM f) = _
    simp [ih]

theorem mapM_under (f : α × Path → m β) (p : Position) (leaves : List (α × Path)) :
    (under p leaves).mapM f = leaves.mapM fun e => f (e.1, p :: e.2) := by
  rw [under, List.mapM_map]
  rfl

/-- What is done with the result of a computation does not matter to what follows without it. -/
theorem bind_of_discard {γ δ : Type} {x : m β} {y : m γ}
    (h : (fun _ => ()) <$> x = (fun _ => ()) <$> y) (k : m δ) :
    (x >>= fun _ => k) = y >>= fun _ => k := by
  have hbind := congrArg (fun z => z >>= fun _ => k) h
  simpa using hbind

variable [Leaf α]

/-- **To rebuild a value is to call the callback on its leaves in order.** -/
theorem Nested.rebuild_discard (t : Nested α) (f : α → Path → m β)
    (build : β → β → β → β → β) :
    (fun _ => ()) <$> t.rebuild f (fun s p o g => pure (build s p o g)) [] =
      (fun _ => ()) <$> (t.frontier false).mapM fun e => f e.1 e.2 := by
  induction t generalizing f with
  | leaf a => simp [rebuild, frontier]
  | quad s p o g hs hp ho hg =>
    simp only [rebuild_quad, frontier, Bool.false_and, Bool.false_eq_true, if_false,
      List.mapM_append, mapM_under, map_bind, map_pure, bind_assoc, pure_bind]
    simp only [bind_of_discard (hs _), bind_of_discard (hp _), bind_of_discard (ho _),
      bind_of_discard (hg _)]

namespace Quad

variable (q : Quad α)

theorem mapLeaves_discard (f : α → Path → m β) (build : β → β → β → β → β) :
    (fun _ => ()) <$> q.mapLeaves f (fun s p o g => pure (build s p o g)) =
      (fun _ => ()) <$> (q.leaves false).mapM fun e => f e.1 e.2 := by
  rw [leaves_eq_frontier]
  exact q.toNested.rebuild_discard f build

theorem forEachLeaf_eq (f : α → Path → m Unit) :
    q.forEachLeaf f = (fun _ => ()) <$> (q.leaves false).mapM fun e => f e.1 e.2 :=
  forM_eq _ _

theorem filterLeaves_eq (test : α → Path → m Bool) :
    q.filterLeaves test = (fun given => (chosen (q.leaves false) given).map Prod.fst) <$>
      (q.leaves false).mapM fun e => test e.1 e.2 := by
  simp [filterLeaves, select_eq]

theorem filterLeafPaths_eq (test : α → Path → m Bool) :
    q.filterLeafPaths test = (fun given => (chosen (q.leaves false) given).map Prod.snd) <$>
      (q.leaves false).mapM fun e => test e.1 e.2 := by
  simp [filterLeafPaths, select_eq]

theorem everyLeaf_eq (test : α → Path → m Bool) :
    q.everyLeaf test = (fun given => given.all id) <$>
      (q.leaves false).mapM fun e => test e.1 e.2 := by
  simp [everyLeaf]

theorem someLeaf_eq (test : α → Path → m Bool) :
    q.someLeaf test = (fun given => given.any id) <$>
      (q.leaves false).mapM fun e => test e.1 e.2 := by
  simp [someLeaf]

end Quad

/-! ## What the operations make of the answers -/

omit [Leaf α] in
/-- All entries are chosen exactly if all answers are positive. -/
theorem map_decide_chosen {κ : Type} [DecidableEq α] (test : κ → m Bool) (leaf : κ → α)
    (entries : List κ) :
    (fun given => decide ((chosen entries given).map leaf = entries.map leaf)) <$>
        entries.mapM test = (fun given => given.all id) <$> entries.mapM test := by
  induction entries with
  | nil => simp [chosen]
  | cons e rest ih =>
    simp only [List.mapM_cons, map_bind, map_pure, List.map_cons, List.all_cons, id_eq]
    refine bind_congr fun b => ?_
    cases b with
    | true => simpa [chosen_cons] using ih
    | false =>
      have hshort (given : List Bool) :
          (chosen rest given).map leaf ≠ leaf e :: rest.map leaf := by
        intro heq
        have hlength := congrArg List.length heq
        have hfilter := List.length_filter_le Prod.snd (rest.zip given)
        simp only [chosen, List.length_map, List.length_cons, List.length_zip] at hlength hfilter
        omega
      simp [chosen_cons, hshort]

/-- To do something with every answer is to do it with the list of them. -/
theorem mapM_map_answers {κ β γ : Type} (g : β → γ) (f : κ → m β) (entries : List κ) :
    (entries.mapM fun e => g <$> f e) = List.map g <$> entries.mapM f := by
  induction entries with
  | nil => simp
  | cons e rest ih => simp [ih]

theorem Quad.everyLeaf_eq_filterLeaves [DecidableEq α] (q : Quad α) (test : α → Path → m Bool) :
    q.everyLeaf test =
      (fun kept => decide (kept = q.allLeaves false)) <$> q.filterLeaves test := by
  rw [everyLeaf_eq, filterLeaves_eq, Functor.map_map, allLeaves, map_decide_chosen]

theorem Quad.someLeaf_eq_not_everyLeaf (q : Quad α) (test : α → Path → m Bool) :
    q.someLeaf test = not <$> q.everyLeaf fun a path => not <$> test a path := by
  rw [someLeaf_eq, everyLeaf_eq, mapM_map_answers, Functor.map_map, Functor.map_map]
  refine congrArg (· <$> _) (funext fun given => ?_)
  rw [List.any_eq_not_all_not, List.all_map]
  rfl

end Operations

/-! ## The same calls -/

namespace Quad

open Calls

/-- **All operations on leaves call their callback on the leaves in traversal order, up to and
including the first call that fails, and fail as it does; without a failure every leaf is asked
once.** What they give then depends on the answers alone: the filters choose the same leaves,
every leaf passes a test exactly if all are chosen, and some leaf passes exactly if not every leaf
fails. -/
theorem leaf_operations_call_in_turn (Q : Quad Atom) :
    (∀ (m : Type → Type) [Monad m] [LawfulMonad m] (ε : Type),
      (∀ f : Atom → Path → ExceptT ε m Unit,
        outcome (Q.forEachLeaf fun a path => noting (a, path) (f a path)) =
          yields (fun _ => ()) <$> answers (fun e => f e.1 e.2) (Q.leaves false)) ∧
      (∀ test : Atom → Path → ExceptT ε m Bool,
        let noted (a : Atom) (path : Path) := noting (a, path) (test a path)
        let asked := answers (fun e => test e.1 e.2) (Q.leaves false)
        outcome (Q.filterLeaves noted) =
          yields (fun given => (chosen (Q.leaves false) given).map Prod.fst) <$> asked ∧
        outcome (Q.filterLeafPaths noted) =
          yields (fun given => (chosen (Q.leaves false) given).map Prod.snd) <$> asked ∧
        outcome (Q.everyLeaf noted) = yields (fun given => given.all id) <$> asked ∧
        outcome (Q.someLeaf noted) = yields (fun given => given.any id) <$> asked) ∧
      (∀ (β : Type) (f : Atom → Path → ExceptT ε m β) (build : β → β → β → β → β),
        yields (fun _ => ()) <$>
            outcome (Q.mapLeaves (fun a path => noting (a, path) (f a path)) fun s p o g =>
              pure (build s p o g)) =
          yields (fun _ => ()) <$> answers (fun e => f e.1 e.2) (Q.leaves false)) ∧
      (∀ (σ : Type) (step : σ → Atom → Path → ExceptT ε m σ) (start : σ),
        outcome (Q.reduceLeaves (fun acc a path => noting (a, path) (step acc a path)) start) =
          attempt (fun acc e => step acc e.1 e.2) start (Q.leaves false)) ∧
      ∀ (β : Type) (f : Atom × Path → Except ε β) (given : List β),
        ((Q.leaves false).map f = given.map .ok →
          answers (known f) (Q.leaves false) =
            (pure (.ok given, Q.leaves false) : m (Except ε (List β) × List (Atom × Path)))) ∧
        ∀ before e rest failure, Q.leaves false = before ++ e :: rest →
          before.map f = given.map .ok → f e = .error failure →
          answers (known f) (Q.leaves false) =
            (pure (.error failure, before ++ [e]) :
              m (Except ε (List β) × List (Atom × Path)))) ∧
    ((Q.leaves false).map Prod.snd).Nodup ∧
    ∀ (m : Type → Type) [Monad m] [LawfulMonad m] (test : Atom → Path → m Bool),
      Q.everyLeaf test =
        (fun kept => decide (kept = Q.allLeaves false)) <$> Q.filterLeaves test ∧
      Q.someLeaf test = not <$> Q.everyLeaf fun a path => not <$> test a path := by
  refine ⟨fun m _ _ ε => ⟨fun f => ?_, fun test => ⟨?_, ?_, ?_, ?_⟩, fun β f build => ?_,
    fun σ step start => ?_, fun β f given => ⟨answers_of_ok, ?_⟩⟩, ?_, fun m _ _ test => ⟨?_, ?_⟩⟩
  · rw [forEachLeaf_eq, map_mapM_outcome]
  · rw [filterLeaves_eq, map_mapM_outcome]
  · rw [filterLeafPaths_eq, map_mapM_outcome]
  · rw [everyLeaf_eq, map_mapM_outcome]
  · rw [someLeaf_eq, map_mapM_outcome]
  · rw [outcome, ← map_after, mapLeaves_discard]
    exact map_mapM_outcome (fun _ => ()) (fun e => f e.1 e.2) (Q.leaves false)
  · exact foldlM_outcome (fun acc (e : Atom × Path) => step acc e.1 e.2) start (Q.leaves false)
  · intro before e rest failure hsplit hbefore hfails
    rw [hsplit]
    exact answers_of_error hbefore hfails
  · rw [leaves_eq_frontier]
    exact (Q.toNested.inOrder_frontier false).nodup_paths
  · exact Q.everyLeaf_eq_filterLeaves test
  · exact Q.someLeaf_eq_not_everyLeaf test

/-- A test that fails on variables, on a quad with two of them: the first stops every operation, here
below a quad quoted as subject. -/
theorem leaf_operations_call_in_turn_failing :
    let p : Term := .leaf (.namedNode "p")
    let x : Term := .leaf (.var "x")
    let Q : Quad Atom := ⟨.quad p p x p, p, x, p⟩
    let test (e : Atom × Path) : Except String Bool :=
      if e.1.isVar then .error "variable" else .ok false
    let noted (a : Atom) (path : Path) : Noting (Atom × Path) String Id Bool :=
      noting (a, path) (known test (a, path))
    let calls : List (Atom × Path) := [(.namedNode "p", [.subject, .subject]),
      (.namedNode "p", [.subject, .predicate]), (.var "x", [.subject, .object])]
    outcome (Q.everyLeaf noted) = (.error "variable", calls) ∧
      outcome (Q.filterLeaves noted) = (.error "variable", calls) ∧
      (yields fun _ => ()) (outcome (Q.mapLeaves noted fun s p o g => pure (s && p && o && g))) =
        (.error "variable", calls) := by
  intro p x Q test noted calls
  obtain ⟨hcalls, -, -⟩ := leaf_operations_call_in_turn Q
  obtain ⟨-, htests, hmap, -, hknown⟩ := hcalls Id String
  obtain ⟨hfilter, -, hevery, -⟩ := htests fun a path => known test (a, path)
  have hsplit : Q.leaves false = calls.take 2 ++ (.var "x", [.subject, .object]) ::
      [(.namedNode "p", [.subject, .graph]), (.namedNode "p", [.predicate]), (.var "x", [.object]),
        (.namedNode "p", [.graph])] := by
    rw [leaves_eq_frontier]
    rfl
  have hasked : answers (known test) (Q.leaves false) =
      (pure (.error "variable", calls) : Id (Except String (List Bool) × List (Atom × Path))) :=
    (hknown Bool test [false, false]).2 _ _ _ _ hsplit rfl rfl
  refine ⟨hevery.trans ?_, hfilter.trans ?_, (hmap Bool _ _).trans ?_⟩ <;>
    exact congrArg (yields _ <$> ·) hasked

end Quad

end RdfStar
