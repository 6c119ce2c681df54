import RdfStar.Leaf.Operations
import RdfStar.Log
import RdfStar.Proofs.Leaf.Postorder

/-!
# The calls that rebuild a quad

A quad is rebuilt by two parties, the callback on the leaves and the factory of the quads. Each may
keep a memory, even one that both share, and each may fail, so that an answer depends on all calls
before it and on their answers. Whatever they answer, they are called in post-order: once for every
node, the factory with what became of the four parts, up to and including the first call that fails.

Principal results: `Ran.bind` — computations in sequence make their calls in sequence;
`exists_ran` — a value is rebuilt by the steps of its walk; `keeps_rebuildBy` — what is noted of a
call is what was answered; `Quad.mapLeaves_calls_in_postorder` — the calls of a mapping, and the
quads that are built when the callback fails on a leaf.
-/

namespace RdfStar

variable {α β ε : Type}

/-! ## Calls and answers -/

/-- A call that is made when a value is rebuilt. -/
inductive Call (α β : Type) where
  /-- The callback is called on a leaf with its path. -/
  | rewrite (a : α) (path : Path)
  /-- The factory is called for a quad of what became of four parts. -/
  | build (s p o g : β)
  deriving DecidableEq, Repr

/-- Calls with what was answered, first to last. -/
abbrev History (α β ε : Type) := List (Call α β × Except ε β)

/-- What callback and factory answer to a call, in view of all calls before it and their answers. -/
abbrev Responder (α β ε : Type) := History α β ε → Call α β → Except ε β

/-- Makes a call, and notes it with its answer. -/
def Responder.ask (respond : Responder α β ε) (call : Call α β) :
    Logged (Call α β × Except ε β) ε β :=
  ExceptT.mk fun history => (respond history call, history ++ [(call, respond history call)])

/-- The call of a step, if the nodes before it became what `r` has at their paths. -/
def Step.call (r : Path → β) : Step α → Call α β
  | .rewrite a path => .rewrite a path
  | .build path => .build (r (path ++ [.subject])) (r (path ++ [.predicate]))
      (r (path ++ [.object])) (r (path ++ [.graph]))

/-- What is noted of a step that succeeds: its call, and what became of its node. -/
def Step.noted (r : Path → β) (step : Step α) : Call α β × Except ε β :=
  (step.call r, .ok (r step.path))

/-- The same call, made for a value that stands at a path. -/
def Call.at (base : Path) : Call α β → Call α β
  | .rewrite a path => .rewrite a (base ++ path)
  | .build s p o g => .build s p o g

@[simp] theorem Call.at_nil (call : Call α β) : call.at [] = call := by cases call <;> rfl

theorem Responder.ask_after (respond : Responder α β ε) (call : Call α β)
    (history : History α β ε) :
    (respond.ask call).after history =
      (respond history call, history ++ [(call, respond history call)]) := rfl

/-! ## Steps that are performed -/

/-- What is noted of a step that succeeds, if the value of which it is a step stands at a path. -/
def Step.notedAt (base : Path) (r : Path → β) (step : Step α) : Call α β × Except ε β :=
  ((step.call r).at base, .ok (r step.path))

theorem Step.notedAt_nil (r : Path → β) :
    (Step.notedAt [] r : Step α → Call α β × Except ε β) = Step.noted r :=
  funext fun step => congrArg (·, _) (step.call r).at_nil

/-- How it comes out to perform the steps of a value at a path: they all succeed and their nodes
become what `r` has at their paths, or one of them fails and no further step is performed. -/
def Ran (base : Path) (r : Path → β) (steps : List (Step α)) (value : β) (history : History α β ε)
    (outcome : Except ε β × History α β ε) : Prop :=
  outcome = (.ok value, history ++ steps.map (Step.notedAt base r)) ∨
  ∃ before step after failure, steps = before ++ step :: after ∧
    outcome = (.error failure, history ++
      (before.map (Step.notedAt base r) ++ [((step.call r).at base, .error failure)]))

theorem Ran.bind {base : Path} {r : Path → β} {steps more : List (Step α)} {value result : β}
    {history : History α β ε} {x : Logged (Call α β × Except ε β) ε β}
    {k : β → Logged (Call α β × Except ε β) ε β}
    (hx : Ran base r steps value history (x.after history))
    (hk : Ran base r more result (x.after history).2 ((k value).after (x.after history).2)) :
    Ran base r (steps ++ more) result history ((x >>= k).after history) := by
  rw [Logged.bind_after]
  rcases hx with hx | ⟨before, step, after, failure, rfl, hx⟩
  · rw [hx] at hk ⊢
    rcases hk with hk | ⟨before, step, after, failure, rfl, hk⟩
    · exact .inl (hk.trans (by simp))
    · exact .inr ⟨steps ++ before, step, after, failure, by simp, hk.trans (by simp)⟩
  · rw [hx]
    exact .inr ⟨before, step, after ++ more, failure, by simp, rfl⟩

theorem Step.call_below {r r' : Path → β} {p : Position} (h : ∀ path, r' (p :: path) = r path)
    (base : Path) (step : Step α) :
    ((step.below p).call r').at base = (step.call r).at (base ++ [p]) := by
  cases step <;> simp [below, call, Call.at, h]

theorem Step.map_notedAt_below {r r' : Path → β} {p : Position}
    (h : ∀ path, r' (p :: path) = r path) (base : Path) (steps : List (Step α)) :
    (steps.map (.below p)).map (Step.notedAt base r') =
      (steps.map (Step.notedAt (base ++ [p]) r) : History α β ε) := by
  rw [List.map_map]
  refine List.map_congr_left fun step _ => ?_
  rw [Function.comp_apply, notedAt, call_below h, path_below, h, notedAt]

/-- The steps of a part are performed as steps of the whole. -/
theorem Ran.below {base : Path} {r r' : Path → β} {p : Position} {steps : List (Step α)} {value : β}
    {history : History α β ε} {outcome : Except ε β × History α β ε}
    (hr : ∀ path, r' (p :: path) = r path)
    (h : Ran (base ++ [p]) r steps value history outcome) :
    Ran base r' (steps.map (.below p)) value history outcome := by
  rcases h with h | ⟨before, step, after, failure, rfl, h⟩
  · rw [← Step.map_notedAt_below hr] at h
    exact .inl h
  · rw [← Step.map_notedAt_below hr, ← Step.call_below hr] at h
    exact .inr ⟨before.map (.below p), step.below p, after.map (.below p), failure, by simp, h⟩

/-- A single step is performed by its call. -/
theorem ran_ask (respond : Responder α β ε) {base : Path} {r : Path → β} {step : Step α}
    {call : Call α β} {history : History α β ε} (hcall : (step.call r).at base = call)
    (hanswer : ∀ b, respond history call = .ok b → r step.path = b) :
    Ran base r [step] (r step.path) history ((respond.ask call).after history) := by
  rw [Responder.ask_after]
  cases hrespond : respond history call with
  | ok b => exact .inl (by simp [Step.notedAt, hcall, hanswer b hrespond])
  | error failure => exact .inr ⟨[], step, [], failure, rfl, by simp [hcall]⟩

/-- What became of the nodes of a quad: of the quad itself, and of those of its four parts. -/
def combine (result : β) (s p o g : Path → β) : Path → β
  | [] => result
  | .subject :: path => s path
  | .predicate :: path => p path
  | .object :: path => o path
  | .graph :: path => g path

/-- Rebuilds a value, whose path is given last step first, by calls. -/
def Nested.rebuildBy (respond : Responder α β ε) (t : Nested α) (trail : Path) :
    Logged (Call α β × Except ε β) ε β :=
  t.rebuild (fun a path => respond.ask (.rewrite a path))
    (fun s p o g => respond.ask (.build s p o g)) trail

theorem Nested.rebuildBy_quad (respond : Responder α β ε) (s p o g : Nested α) (trail : Path) :
    (Nested.quad s p o g).rebuildBy respond trail = (do
      let s ← s.rebuildBy respond (.subject :: trail)
      let p ← p.rebuildBy respond (.predicate :: trail)
      let o ← o.rebuildBy respond (.object :: trail)
      let g ← g.rebuildBy respond (.graph :: trail)
      respond.ask (.build s p o g)) := rfl

/-- **A value is rebuilt by the steps of its walk.** -/
theorem exists_ran [Inhabited β] (respond : Responder α β ε) (t : Nested α) (trail : Path)
    (history : History α β ε) :
    ∃ r : Path → β, Ran trail.reverse r t.walk (r []) history
      ((t.rebuildBy respond trail).after history) := by
  induction t generalizing trail history with
  | leaf a =>
    refine ⟨fun _ => (respond history (.rewrite a trail.reverse)).toOption.getD default, ?_⟩
    refine ran_ask respond (by simp [Step.call, Call.at]) fun b hb => ?_
    rw [hb]
    rfl
  | quad s p o g hs hp ho hg =>
    -- a part is looked at after what was noted before it, whether or not all of that succeeded
    let since (t : Nested α) (position : Position) (history : History α β ε) : History α β ε :=
      ((t.rebuildBy respond (position :: trail)).after history).2
    let noted := since o .object (since p .predicate (since s .subject history))
    obtain ⟨rs, hs⟩ := hs (.subject :: trail) history
    obtain ⟨rp, hp⟩ := hp (.predicate :: trail) (since s .subject history)
    obtain ⟨ro, ho⟩ := ho (.object :: trail) (since p .predicate (since s .subject history))
    obtain ⟨rg, hg⟩ := hg (.graph :: trail) noted
    simp only [List.reverse_cons] at hs hp ho hg
    let call : Call α β := .build (rs []) (rp []) (ro []) (rg [])
    let result := (respond (since g .graph noted) call).toOption.getD default
    let r : Path → β := combine result rs rp ro rg
    have hbuild : Ran trail.reverse r [.build []] (r []) (since g .graph noted)
        ((respond.ask call).after (since g .graph noted)) := by
      refine ran_ask respond rfl fun b hb => ?_
      simp only [r, Step.path, combine, result, hb]
      rfl
    refine ⟨r, ?_⟩
    rw [Nested.walk, Nested.rebuildBy_quad]
    simp only [List.append_assoc]
    exact (hs.below fun _ => rfl).bind ((hp.below fun _ => rfl).bind
      ((ho.below fun _ => rfl).bind ((hg.below fun _ => rfl).bind hbuild)))

/-! ## What is noted is what was answered -/

/-- Every noted answer is what the call gets after all that was noted before. -/
def Responder.Answers (respond : Responder α β ε) (history : History α β ε) : Prop :=
  ∀ before call answer after, history = before ++ (call, answer) :: after →
    answer = respond before call

/-- A computation that notes what is answered. -/
def Keeps (respond : Responder α β ε) (x : Logged (Call α β × Except ε β) ε β) : Prop :=
  ∀ history, respond.Answers history → respond.Answers (x.after history).2

theorem answers_nil (respond : Responder α β ε) : respond.Answers [] := by
  intro before call answer after h
  cases before <;> cases h

theorem keeps_ask (respond : Responder α β ε) (call : Call α β) :
    Keeps respond (respond.ask call) := by
  intro history hanswers before call' answer after h
  rw [Responder.ask_after] at h
  rcases List.eq_nil_or_concat after with rfl | ⟨rest, last, rfl⟩
  · obtain ⟨rfl, hlast⟩ := List.append_inj' h rfl
    cases hlast
    rfl
  · rw [List.concat_eq_append, ← List.cons_append, ← List.append_assoc] at h
    exact hanswers before call' answer rest (List.append_inj' h rfl).1

theorem Keeps.bind {respond : Responder α β ε} {x : Logged (Call α β × Except ε β) ε β}
    {k : β → Logged (Call α β × Except ε β) ε β} (hx : Keeps respond x)
    (hk : ∀ b, Keeps respond (k b)) : Keeps respond (x >>= k) := by
  intro history hanswers
  have hnoted := hx history hanswers
  rw [Logged.bind_after]
  cases hrun : x.after history with
  | mk result noted =>
    rw [hrun] at hnoted
    cases result with
    | ok b => exact hk b noted hnoted
    | error failure => exact hnoted

theorem keeps_rebuildBy (respond : Responder α β ε) (t : Nested α) (trail : Path) :
    Keeps respond (t.rebuildBy respond trail) := by
  induction t generalizing trail with
  | leaf a => exact keeps_ask respond _
  | quad s p o g hs hp ho hg =>
    rw [Nested.rebuildBy_quad]
    exact (hs _).bind fun _ => (hp _).bind fun _ => (ho _).bind fun _ => (hg _).bind fun _ =>
      keeps_ask respond _

/-! ## The calls of a mapping -/

namespace Quad

/-- Maps the leaves of a quad by calls: what comes of it, and the calls with their answers. -/
def mapLeavesBy (q : Quad α) (respond : Responder α β ε) : Except ε β × History α β ε :=
  (q.mapLeaves (fun a path => respond.ask (.rewrite a path)) fun s p o g =>
    respond.ask (.build s p o g)).outcome

/-- A mapping performs the steps of the walk, all of them or up to one that fails. -/
theorem exists_mapLeavesBy_eq [Inhabited β] (q : Quad α) (respond : Responder α β ε) :
    ∃ r : Path → β,
      q.mapLeavesBy respond = (.ok (r []), q.toNested.walk.map (Step.noted r)) ∨
      ∃ before step after failure, q.toNested.walk = before ++ step :: after ∧
        q.mapLeavesBy respond =
          (.error failure, before.map (Step.noted r) ++ [(step.call r, .error failure)]) := by
  obtain ⟨r, h⟩ := exists_ran respond q.toNested [] []
  simp only [Ran, List.reverse_nil, Step.notedAt_nil, Call.at_nil, List.nil_append] at h
  exact ⟨r, h⟩

theorem answers_mapLeavesBy (q : Quad α) (respond : Responder α β ε) :
    respond.Answers (q.mapLeavesBy respond).2 :=
  keeps_rebuildBy respond q.toNested [] [] (answers_nil respond)

theorem error_not_mem_noted {r : Path → β} {steps : List (Step α)} {call : Call α β} {failure : ε} :
    (call, Except.error failure) ∉ steps.map (Step.noted r) := by
  intro h
  obtain ⟨step, -, hstep⟩ := List.mem_map.mp h
  exact nomatch congrArg Prod.snd hstep

/-- A leaf on which the callback fails is that of the last step. -/
theorem eq_rewrite_of_mem_failed {r : Path → β} {steps : List (Step α)} {step : Step α}
    {failure failure' : ε} {a : α} {path : Path}
    (h : (Call.rewrite a path, Except.error failure') ∈
      steps.map (Step.noted r) ++ [(step.call r, .error failure)]) :
    step = .rewrite a path ∧ failure = failure' := by
  rcases List.mem_append.mp h with hdone | hlast
  · exact absurd hdone error_not_mem_noted
  · cases step <;> simp_all [Step.call]

/-- **A mapping calls callback and factory in post-order**: the callback on the leaves as they are
traversed, the factory once for every quad with what became of its four parts, for the quad as a
whole at last, whose result is returned. The calls go on to the end or to the first that fails, and
each is answered in view of those before it. If the callback fails on a leaf, the quads built by
then are those whose leaves all come before that leaf. -/
theorem mapLeaves_calls_in_postorder (Q : Quad Atom) :
    (Q.toNested.walk.filterMap Step.leaf? = Q.leaves false ∧
      Q.toNested.walk.getLast? = some (.build [])) ∧
    (Q.toNested.quadPaths.Nodup ∧ Q.toNested.quadPaths.length = Q.toNested.quads ∧
      ∀ path, path ∈ Q.toNested.quadPaths ↔ ∃ q : Quad Atom, Q.LeadsTo path q.toNested) ∧
    ∀ (β ε : Type) [Inhabited β] (respond : Responder Atom β ε), ∃ r : Path → β,
      (Q.mapLeavesBy respond = (.ok (r []), Q.toNested.walk.map (Step.noted r)) ∨
        ∃ before step after failure, Q.toNested.walk = before ++ step :: after ∧
          Q.mapLeavesBy respond =
            (.error failure, before.map (Step.noted r) ++ [(step.call r, .error failure)])) ∧
      (∀ before call answer after,
        (Q.mapLeavesBy respond).2 = before ++ (call, answer) :: after →
          answer = respond before call) ∧
      ∀ a path failure, (.rewrite a path, .error failure) ∈ (Q.mapLeavesBy respond).2 →
        ∃ before after steps, Q.leaves false = before ++ (a, path) :: after ∧
          Q.mapLeavesBy respond =
            (.error failure, steps.map (Step.noted r) ++ [(.rewrite a path, .error failure)]) ∧
          steps <+: Q.toNested.walk ∧ steps.filterMap Step.leaf? = before ∧
          steps.filterMap Step.built? = Q.toNested.quadPaths.filter fun quadPath =>
            ∀ e ∈ Q.leaves false, quadPath <+: e.2 → e ∈ before := by
  refine ⟨⟨?_, ?_⟩, ⟨Q.toNested.nodup_quadPaths, Q.toNested.length_quadPaths, fun path => ?_⟩,
    fun β ε _ respond => ?_⟩
  · rw [leaves_eq_frontier]
    exact Q.toNested.filterMap_leaf?_walk
  · rw [Nested.walk_toNested]
    exact List.getLast?_concat
  · simp only [leadsTo_iff]
    exact Nested.mem_quadPaths_iff
  · obtain ⟨r, hrun⟩ := Q.exists_mapLeavesBy_eq respond
    refine ⟨r, hrun, Q.answers_mapLeavesBy respond, fun a path failure hfailed => ?_⟩
    rcases hrun with hrun | ⟨steps, step, rest, failure', hsplit, hrun⟩
    · rw [hrun] at hfailed
      exact absurd hfailed error_not_mem_noted
    · rw [hrun] at hfailed
      obtain ⟨rfl, rfl⟩ := eq_rewrite_of_mem_failed hfailed
      have hleaves : Q.leaves false =
          steps.filterMap Step.leaf? ++ (a, path) :: rest.filterMap Step.leaf? := by
        rw [leaves_eq_frontier, ← Nested.filterMap_leaf?_walk, hsplit, List.filterMap_append]
        rfl
      refine ⟨_, _, steps, hleaves, hrun, ⟨_, hsplit.symm⟩, rfl, ?_⟩
      rw [leaves_eq_frontier]
      exact Nested.built_before_leaf hsplit

/-- A callback that fails on variables, and a factory that exchanges subject and object. The
variable is a leaf of the quad in object position: that quad and the whole are not built, but the
quads in it and beside it that are done by then. -/
theorem mapLeaves_calls_in_postorder_failing :
    let p : Term := .leaf (.namedNode "p")
    let q : Term := .leaf (.namedNode "q")
    let x : Term := .leaf (.var "x")
    let Q : Quad Atom := ⟨.quad p p q p, p, .quad (.quad q p p p) x p p, p⟩
    let respond : Responder Atom Term String := fun _ call =>
      match call with
      | .rewrite a _ => if a.isVar then .error "variable" else .ok (.leaf a)
      | .build s p o g => .ok (.quad o p s g)
    let failed : Call Atom Term × Except String Term :=
      (.rewrite (.var "x") [.object, .predicate], .error "variable")
    ((Q.mapLeavesBy respond).2.filter fun e => e.1 matches .build _ _ _ _) =
        [(.build p p q p, .ok (.quad q p p p)), (.build q p p p, .ok (.quad p p q p))] ∧
      failed ∈ (Q.mapLeavesBy respond).2 ∧
      ∃ (r : Path → Term) (before after : List (Atom × Path)) (steps : List (Step Atom)),
        Q.leaves false = before ++ (.var "x", [.object, .predicate]) :: after ∧
        Q.mapLeavesBy respond = (.error "variable", steps.map (Step.noted r) ++ [failed]) ∧
        steps.filterMap Step.built? = Q.toNested.quadPaths.filter fun quadPath =>
          ∀ e ∈ Q.leaves false, quadPath <+: e.2 → e ∈ before := by
  intro p q x Q respond failed
  have hfailed : failed ∈ (Q.mapLeavesBy respond).2 := by
    have hlast : (Q.mapLeavesBy respond).2.getLast? = some failed := rfl
    exact List.mem_of_getLast? hlast
  refine ⟨rfl, hfailed, ?_⟩
  have : Inhabited Term := ⟨p⟩
  obtain ⟨r, -, -, hleaf⟩ := (mapLeaves_calls_in_postorder Q).2.2 Term String respond
  obtain ⟨before, after, steps, hleaves, hrun, -, -, hbuilt⟩ := hleaf _ _ _ hfailed
  exact ⟨r, before, after, steps, hleaves, hrun, hbuilt⟩

end Quad

end RdfStar
