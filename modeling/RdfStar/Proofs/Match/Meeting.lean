import Mathlib.Data.List.Basic
import RdfStar.Match.Unify
import RdfStar.Proofs.Leaf.Address
import RdfStar.Proofs.Match.Offer

/-!
# A match as a sequence of meetings

A match compares the leaves of the pattern, in traversal order, with what the candidate has at
their paths. The bindings with which it ends decide every comparison made on the way, whether or
not another one failed.

Principal results: `Unify.compare_eq_runAll` — matching a pattern is comparing leaf after leaf;
`Meeting.runAll_run` — verdict and state after a sequence of comparisons, read off the bindings at
its end.
-/

namespace RdfStar

/-! ## Meetings -/

/-- A leaf of a pattern, with the term at its path in the candidate if there is one. -/
structure Meeting where
  leaf : Atom
  found : Option Term
  deriving DecidableEq, Repr

namespace Meeting

/-- The comparison of the leaf with what it meets. -/
def run (skipVariables : Bool) (m : Meeting) : StateM MatchState Bool :=
  match m.found with
  | none => pure false
  | some other => Unify.compare skipVariables (.leaf m.leaf) other

/-- Comparisons in order; those after a failure are made as well. -/
def runAll (skipVariables : Bool) : List Meeting → StateM MatchState Bool
  | [] => pure true
  | m :: rest => do
    let first ← m.run skipVariables
    let others ← runAll skipVariables rest
    return first && others

theorem runAll_append (skipVariables : Bool) (ms ns : List Meeting) :
    runAll skipVariables (ms ++ ns) = do
      let first ← runAll skipVariables ms
      let others ← runAll skipVariables ns
      return first && others := by
  induction ms with
  | nil => simp only [runAll, List.nil_append, pure_bind, Bool.true_and, bind_pure]
  | cons m rest ih =>
    simp only [runAll, List.cons_append, ih, bind_assoc, pure_bind, Bool.and_assoc]

theorem runAll_unmet {skipVariables : Bool} {ms : List Meeting} (hne : ms ≠ [])
    (hms : ∀ m ∈ ms, m.found = none) : runAll skipVariables ms = pure false := by
  induction ms with
  | nil => exact absurd rfl hne
  | cons m rest ih =>
    have hm : m.run skipVariables = pure false := by
      rw [run, hms m List.mem_cons_self]
    by_cases hrest : rest = []
    · simp [runAll, hm, hrest]
    · simp [runAll, hm, ih hrest fun n hn => hms n (List.mem_cons_of_mem _ hn)]

end Meeting

namespace Unify

/-- The leaves of a pattern, in traversal order, with what the candidate has at their paths. -/
def meetings (pattern candidate : Term) : List Meeting :=
  (pattern.frontier false).map fun e => ⟨e.1, candidate.at? e.2⟩

theorem meetings_quad (q r : Quad Atom) :
    meetings q.toNested r.toNested =
      Position.all.flatMap fun p => meetings (q.get p) (r.get p) := by
  rw [meetings, Nested.frontier_quad, List.map_flatMap]
  simp only [under, List.map_map]
  rfl

theorem meetings_unmet {q : Quad Atom} {a : Atom} :
    ∀ m ∈ meetings q.toNested (.leaf a), m.found = none := by
  intro m hm
  obtain ⟨e, he, rfl⟩ := List.mem_map.mp hm
  exact Nested.at?_leaf_of_mem_frontier he a

theorem meetings_ne_nil (t c : Term) : meetings t c ≠ [] := by
  obtain ⟨e, he⟩ := t.exists_mem_frontier false
  exact List.ne_nil_of_mem (List.mem_map_of_mem he)

/-- **Matching a pattern is comparing its leaves one after another.** -/
theorem compare_eq_runAll (skipVariables : Bool) (t c : Term) :
    compare skipVariables t c = Meeting.runAll skipVariables (meetings t c) := by
  induction t generalizing c with
  | leaf a => simp [meetings, Nested.frontier, Meeting.runAll, Meeting.run, Nested.at?]
  | quad s p o g hs hp ho hg =>
    cases c with
    | leaf b =>
      -- a quad that faces an atom is not entered, and none of its leaves meets anything
      have hunmet := meetings_unmet (q := ⟨s, p, o, g⟩) (a := b)
      rw [show compare skipVariables (.quad s p o g) (.leaf b) = pure false from rfl]
      exact (Meeting.runAll_unmet (meetings_ne_nil (.quad s p o g) (.leaf b)) hunmet).symm
    | quad s' p' o' g' =>
      have hquads := compare_quad skipVariables ⟨s, p, o, g⟩ ⟨s', p', o', g'⟩
      have hsplit := meetings_quad ⟨s, p, o, g⟩ ⟨s', p', o', g'⟩
      rw [Quad.toNested, Quad.toNested] at hquads hsplit
      rw [hquads, hsplit]
      simp [Quad.everyPosition, Quad.entries, Position.all, Quad.get, hs, hp, ho, hg,
        Meeting.runAll_append]

end Unify

/-! ## The state after a sequence of meetings -/

/-- The conflict to report where a name bound in b occurs for a term. -/
def Bindings.conflict? (b : Bindings) (e : String × Term) : Option Conflict :=
  match b.value? e.1 with
  | none => none
  | some bound => if bound = e.2 then none else some ⟨e.1, bound, e.2⟩

theorem Bindings.conflict?_offerAll {b : Bindings} {e : String × Term} (he : e.1 ∈ b.names)
    (more : Bindings) : (b.offerAll more).conflict? e = b.conflict? e := by
  rw [conflict?, value?_offerAll_of_mem he]
  rfl

/-- The state after further occurrences of variables. -/
def MatchState.after (st : MatchState) (entries : Bindings) : MatchState where
  bindings := st.bindings.offerAll entries
  conflicts := st.conflicts ++ entries.filterMap (st.bindings.offerAll entries).conflict?

theorem MatchState.after_nil (st : MatchState) : st.after [] = st := by
  simp [after, Bindings.offerAll]

theorem MatchState.after_free {st : MatchState} {x : String} {t : Term}
    (hx : st.bindings.value? x = none) : st.after [(x, t)] = st.bind x t := by
  simp [after, bind, Bindings.offerAll, Bindings.offer, Bindings.conflict?, hx,
    Bindings.value?_bind_self hx]

theorem MatchState.after_bound {st : MatchState} {x : String} {bound t : Term}
    (hx : st.bindings.value? x = some bound) :
    st.after [(x, t)] = if bound = t then st else st.report ⟨x, bound, t⟩ := by
  by_cases heq : bound = t <;>
    simp [after, report, Bindings.offerAll, Bindings.offer, Bindings.conflict?, hx, heq]

theorem MatchState.after_append (st : MatchState) (entries more : Bindings) :
    st.after (entries ++ more) = (st.after entries).after more := by
  have hkept : entries.filterMap ((st.bindings.offerAll entries).offerAll more).conflict? =
      entries.filterMap (st.bindings.offerAll entries).conflict? :=
    List.filterMap_congr fun e he => Bindings.conflict?_offerAll
      (Bindings.mem_names_offerAll.mpr (.inr (List.mem_map_of_mem he))) more
  simp only [after, Bindings.offerAll_append, List.filterMap_append, hkept, List.append_assoc]

namespace Meeting

/-- The name and the term that it occurs for, if the leaf is a variable that is not let through. -/
def occurrence? (skipVariables : Bool) (m : Meeting) : Option (String × Term) :=
  match m.leaf, m.found with
  | .var x, some other => if skipVariables && Term.isVar other then none else some (x, other)
  | _, _ => none

def occurrences (skipVariables : Bool) (ms : List Meeting) : Bindings :=
  ms.filterMap (occurrence? skipVariables)

/-- Whether the comparison holds under given bindings. -/
def agrees (skipVariables : Bool) (b : Bindings) (m : Meeting) : Bool :=
  match m.leaf, m.found with
  | _, none => false
  | .var x, some other =>
    (skipVariables && Term.isVar other) || decide (b.value? x = some other)
  | a, some other => decide (Nested.leaf a = other)

variable {skipVariables : Bool}

theorem agrees_offerAll (b more : Bindings) (m : Meeting) :
    m.agrees skipVariables ((b.offerAll (m.occurrence? skipVariables).toList).offerAll more) =
      m.agrees skipVariables (b.offerAll (m.occurrence? skipVariables).toList) := by
  obtain ⟨a, found⟩ := m
  cases found with
  | none => cases a <;> rfl
  | some other =>
    cases a with
    | var x =>
      by_cases hskip : (skipVariables && Term.isVar other) = true
      · simp [agrees, hskip]
      · have hx : x ∈ (b.offerAll [(x, other)]).names :=
          Bindings.mem_names_offerAll.mpr (.inr List.mem_cons_self)
        simp only [occurrence?, if_neg hskip, Option.toList_some, agrees]
        rw [Bindings.value?_offerAll_of_mem hx]
    | _ => rfl

/-- An occurrence that is not let through binds a free name, and is checked against a bound one. -/
theorem compareVar_run {x : String} {other : Term}
    (hskip : (skipVariables && Term.isVar other) = false) (st : MatchState) :
    (Unify.compareVar skipVariables x other).run st =
      (decide ((st.after [(x, other)]).bindings.value? x = some other), st.after [(x, other)]) := by
  have hchecked : Unify.compareVar skipVariables x other = Unify.compareVar false x other := by
    funext st
    simp only [Unify.compareVar, hskip, Bool.false_and]
  rw [hchecked]
  cases hx : st.bindings.value? x with
  | none =>
    have hbound : (st.bind x other).bindings.value? x = some other :=
      Bindings.value?_bind_self hx other
    rw [Unify.compareVar_free hx, MatchState.after_free hx, hbound, decide_eq_true rfl]
  | some bound =>
    have hafter := MatchState.after_bound (t := other) hx
    have hvalue : (st.after [(x, other)]).bindings.value? x = some bound := by
      rw [hafter]; split <;> exact hx
    rw [Unify.compareVar_bound hx, hvalue, hafter]
    by_cases heq : bound = other <;> simp [heq]

/-- One comparison: the state takes in the occurrence, and its bindings decide the verdict. -/
theorem run_run (m : Meeting) (st : MatchState) :
    (m.run skipVariables).run st =
      (m.agrees skipVariables (st.after (m.occurrence? skipVariables).toList).bindings,
        st.after (m.occurrence? skipVariables).toList) := by
  obtain ⟨a, found⟩ := m
  cases found with
  | none => cases a <;> exact congrArg (Prod.mk false) st.after_nil.symm
  | some other =>
    cases a with
    | var x =>
      by_cases hskip : (skipVariables && Term.isVar other) = true
      · obtain ⟨rfl, hvar⟩ := Bool.and_eq_true_iff.mp hskip
        simp only [occurrence?, agrees, hskip, if_true, Option.toList_none, Bool.true_or,
          MatchState.after_nil]
        exact Unify.compareVar_skip hvar
      · simp only [occurrence?, agrees, hskip, Bool.false_or]
        exact compareVar_run (Bool.eq_false_iff.mpr hskip) st
    | _ => exact congrArg (Prod.mk _) st.after_nil.symm

/-- **Comparisons in order: the bindings at the end decide every one of them.** -/
theorem runAll_run (ms : List Meeting) (st : MatchState) :
    (runAll skipVariables ms).run st =
      (ms.all (agrees skipVariables (st.after (occurrences skipVariables ms)).bindings),
        st.after (occurrences skipVariables ms)) := by
  induction ms generalizing st with
  | nil => exact congrArg (Prod.mk true) st.after_nil.symm
  | cons m rest ih =>
    have hsplit : occurrences skipVariables (m :: rest) =
        (m.occurrence? skipVariables).toList ++ occurrences skipVariables rest := by
      rw [occurrences, List.filterMap_cons]
      cases m.occurrence? skipVariables <;> rfl
    rw [hsplit, MatchState.after_append, List.all_cons]
    have hfirst : m.agrees skipVariables ((st.bindings.offerAll _).offerAll _) = _ :=
      agrees_offerAll st.bindings (occurrences skipVariables rest) m
    simp only [runAll, StateT.run_bind, run_run, ih, StateT.run_pure]
    exact congrArg (fun holds => (holds && _, _)) hfirst.symm

theorem occurrence?_eq_some_iff {m : Meeting} {x : String} {t : Term} :
    m.occurrence? skipVariables = some (x, t) ↔
      m.leaf = .var x ∧ m.found = some t ∧ (skipVariables && Term.isVar t) = false := by
  obtain ⟨a, found⟩ := m
  cases found with
  | none => cases a <;> simp [occurrence?]
  | some other =>
    cases a with
    | var y =>
      simp only [occurrence?, Atom.var.injEq, Option.some.injEq]
      split <;> grind
    | _ => simp [occurrence?]

theorem agrees_var {b : Bindings} {x : String} {t : Term} :
    agrees skipVariables b ⟨.var x, some t⟩ = true ↔
      ((skipVariables && Term.isVar t) = false → b.value? x = some t) := by
  rw [agrees, Bool.or_eq_true, decide_eq_true_iff]
  cases skipVariables && Term.isVar t <;> simp

theorem agrees_of_not_var {b : Bindings} {a : Atom} {t : Term} (ha : a.isVar = false) :
    agrees skipVariables b ⟨a, some t⟩ = true ↔ t = .leaf a := by
  cases a with
  | var x => cases ha
  | _ => exact decide_eq_true_iff.trans eq_comm

/-- What it takes for a comparison to hold. -/
theorem agrees_iff {b : Bindings} {m : Meeting} :
    m.agrees skipVariables b = true ↔
      ∃ t, m.found = some t ∧ (m.leaf.isVar = false → t = .leaf m.leaf) ∧
        ∀ x, m.leaf = .var x → (skipVariables && Term.isVar t) = false → b.value? x = some t := by
  obtain ⟨a, found⟩ := m
  cases found with
  | none => cases a <;> simp [agrees]
  | some t =>
    constructor
    · intro h
      refine ⟨t, rfl, fun ha => (agrees_of_not_var ha).mp h, ?_⟩
      rintro x ⟨⟩
      exact agrees_var.mp h
    · rintro ⟨_, ⟨⟩, hatom, hvar⟩
      cases a with
      | var x => exact agrees_var.mpr (hvar x rfl)
      | _ => exact (agrees_of_not_var rfl).mpr (hatom rfl)

end Meeting

end RdfStar
