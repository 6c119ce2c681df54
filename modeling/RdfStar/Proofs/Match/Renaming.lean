import Mathlib.Logic.Equiv.Basic
import RdfStar.Proofs.Match.Outcome
import RdfStar.Proofs.Term.Renaming

/-!
# Renaming the two sides of a match

The variables of a pattern and those of a candidate have nothing to do with each other, also where
their names are the same: the candidate's count as constants. So each side may be renamed on its
own, as long as its names are kept apart; names may be shared, swapped or made to clash across the
two sides. Whatever a match did it then does on the renamed quads, in the renamed form.

Principal results: `Quad.meetings_rename`, `Bindings.offerAll_rename` — the leaves that are
compared, and the bindings that they lead to, are renamed; `Quad.unify_rename` — so are the answer
and the conflicts of a match.
-/

namespace RdfStar

/-! ## Renamed parts of a match

The first renaming is that of the pattern, the second that of the candidate. -/

def Bindings.rename (r k : String → String) (b : Bindings) : Bindings :=
  b.map fun e => (r e.1, Term.rename k e.2)

def Conflict.rename (r k : String → String) (c : Conflict) : Conflict :=
  ⟨r c.name, Term.rename k c.bound, Term.rename k c.found⟩

def MatchAnswer.rename (r k : String → String) : MatchAnswer → MatchAnswer
  | .mismatch => .mismatch
  | .matched => .matched
  | .bound b => .bound (b.rename r k)

def Meeting.rename (r k : String → String) (m : Meeting) : Meeting :=
  ⟨m.leaf.rename r, m.found.map (Term.rename k)⟩

variable {r k : String → String} {skipVariables : Bool}

/-! ## What is compared -/

theorem Quad.meetings_rename (P C : Quad Atom) (r k : String → String) :
    (P.rename r).meetings (C.rename k) = (P.meetings C).map (Meeting.rename r k) := by
  rw [meetings, Unify.meetings, toNested_rename, toNested_rename, Term.rename, Term.rename,
    Nested.frontier_map, List.map_map, meetings, Unify.meetings, List.map_map]
  refine List.map_congr_left fun e _ => ?_
  rw [Function.comp_apply, Nested.at?_map]
  rfl

theorem Meeting.occurrence?_rename (m : Meeting) :
    (m.rename r k).occurrence? skipVariables =
      (m.occurrence? skipVariables).map fun e => (r e.1, Term.rename k e.2) := by
  obtain ⟨a, found⟩ := m
  cases found with
  | none => cases a <;> rfl
  | some other =>
    cases a with
    | var x =>
      simp only [rename, Atom.rename, Option.map_some, occurrence?, Term.isVar_rename]
      split <;> rfl
    | _ => rfl

theorem Meeting.occurrences_rename (ms : List Meeting) :
    occurrences skipVariables (ms.map (rename r k)) =
      (occurrences skipVariables ms).rename r k := by
  rw [occurrences, List.filterMap_map, Bindings.rename, occurrences, List.map_filterMap]
  exact List.filterMap_congr fun m _ => m.occurrence?_rename

theorem Quad.occurrences_rename (P C : Quad Atom) :
    (P.rename r).occurrences (C.rename k) skipVariables =
      (P.occurrences C skipVariables).rename r k := by
  rw [occurrences, meetings_rename, Meeting.occurrences_rename, occurrences]

/-! ## Bindings

The names are taken from a set S on which the renaming of the pattern is injective, the terms from a
set T on which the renaming of the candidate is. -/

namespace Bindings

variable {S : Set String} {T : Set Term}

theorem value?_rename (hr : S.InjOn r) {b : Bindings} (hb : ∀ y ∈ b.names, y ∈ S) {x : String}
    (hx : x ∈ S) : (b.rename r k).value? (r x) = (b.value? x).map (Term.rename k) := by
  induction b with
  | nil => rfl
  | cons e rest ih =>
    obtain ⟨y, t⟩ := e
    have hy : y ∈ S := hb y List.mem_cons_self
    have hrest := ih fun z hz => hb z (List.mem_cons_of_mem _ hz)
    have hcons : rename r k ((y, t) :: rest) = (r y, Term.rename k t) :: rename r k rest := rfl
    rw [hcons, value?, value?, hrest]
    by_cases hyx : y = x
    · rw [if_pos hyx, if_pos (congrArg r hyx)]
      rfl
    · rw [if_neg hyx, if_neg fun h => hyx (hr hy hx h)]

theorem offer_rename (hr : S.InjOn r) {b : Bindings} (hb : ∀ y ∈ b.names, y ∈ S) {x : String}
    (hx : x ∈ S) (t : Term) :
    (b.rename r k).offer (r x) (Term.rename k t) = (b.offer x t).rename r k := by
  rw [offer, value?_rename hr hb hx, offer]
  cases b.value? x with
  | none => simp [bind, rename]
  | some u => rfl

theorem offerAll_rename (hr : S.InjOn r) {b entries : Bindings} (hb : ∀ y ∈ b.names, y ∈ S)
    (hentries : ∀ y ∈ entries.names, y ∈ S) :
    (b.rename r k).offerAll (entries.rename r k) = (b.offerAll entries).rename r k := by
  induction entries generalizing b with
  | nil => rfl
  | cons e rest ih =>
    have hx : e.1 ∈ S := hentries e.1 List.mem_cons_self
    have hcons : rename r k (e :: rest) = (r e.1, Term.rename k e.2) :: rename r k rest := rfl
    rw [hcons, offerAll_cons, offerAll_cons, offer_rename hr hb hx]
    refine ih (fun y hy => ?_) fun y hy => hentries y (List.mem_cons_of_mem _ hy)
    have hy : y ∈ (b.offerAll [e]).names := hy
    rcases mem_names_offerAll.mp hy with hy | hy
    · exact hb y hy
    · exact (List.mem_singleton.mp hy) ▸ hx

theorem value?_rename_eq_some_iff (hr : S.InjOn r) (hk : T.InjOn (Term.rename k)) {b : Bindings}
    (hb : ∀ e ∈ b, e.1 ∈ S ∧ e.2 ∈ T) {x : String} {t : Term} (hx : x ∈ S) (ht : t ∈ T) :
    (b.rename r k).value? (r x) = some (Term.rename k t) ↔ b.value? x = some t := by
  rw [value?_rename hr (List.forall_mem_map.mpr fun e he => (hb e he).1) hx]
  cases hvalue : b.value? x with
  | none => simp
  | some u => simp [hk.eq_iff (hb _ (mem_of_value? hvalue)).2 ht]

theorem conflict?_rename (hr : S.InjOn r) (hk : T.InjOn (Term.rename k)) {b : Bindings}
    (hb : ∀ e ∈ b, e.1 ∈ S ∧ e.2 ∈ T) {e : String × Term} (he : e.1 ∈ S ∧ e.2 ∈ T) :
    (b.rename r k).conflict? (r e.1, Term.rename k e.2) =
      (b.conflict? e).map (Conflict.rename r k) := by
  rw [conflict?, value?_rename hr (List.forall_mem_map.mpr fun e he => (hb e he).1) he.1, conflict?]
  cases hvalue : b.value? e.1 with
  | none => rfl
  | some u =>
    have hu := (hb _ (mem_of_value? hvalue)).2
    by_cases heq : u = e.2
    · simp [heq]
    · simp [heq, hk.eq_iff hu he.2, Conflict.rename]

theorem conflicts_rename (hr : S.InjOn r) (hk : T.InjOn (Term.rename k)) {b entries : Bindings}
    (hb : ∀ e ∈ b, e.1 ∈ S ∧ e.2 ∈ T) (hentries : ∀ e ∈ entries, e.1 ∈ S ∧ e.2 ∈ T) :
    (entries.rename r k).filterMap (b.rename r k).conflict? =
      (entries.filterMap b.conflict?).map (Conflict.rename r k) := by
  have hmap : entries.rename r k = entries.map fun e => (r e.1, Term.rename k e.2) := rfl
  rw [hmap, List.filterMap_map, List.map_filterMap]
  exact List.filterMap_congr fun e he => conflict?_rename hr hk hb (hentries e he)

end Bindings

theorem Meeting.agrees_rename {S : Set String} {T : Set Term} (hr : S.InjOn r)
    (hk : T.InjOn (Term.rename k)) {b : Bindings} (hb : ∀ e ∈ b, e.1 ∈ S ∧ e.2 ∈ T) {m : Meeting}
    (hleaf : ∀ x, m.leaf = .var x → x ∈ S) (hfound : ∀ t, m.found = some t → t ∈ T) :
    (m.rename r k).agrees skipVariables (b.rename r k) = m.agrees skipVariables b := by
  obtain ⟨a, found⟩ := m
  cases found with
  | none => cases a <;> rfl
  | some t =>
    rw [Bool.eq_iff_iff]
    by_cases ha : a.isVar = true
    · obtain ⟨x, rfl⟩ := Atom.exists_var_of_isVar ha
      have hvalue := Bindings.value?_rename_eq_some_iff hr hk hb (hleaf x rfl) (hfound t rfl)
      refine agrees_var.trans (Iff.trans ?_ agrees_var.symm)
      rw [Term.isVar_rename, hvalue]
    · have ha := Bool.eq_false_iff.mpr ha
      rw [rename, Option.map_some, Atom.rename_of_not_var r ha, agrees_of_not_var ha,
        agrees_of_not_var ha, Term.rename_eq_leaf_iff ha]

/-! ## The match on renamed quads -/

namespace Quad

variable {P C : Quad Atom}

/-- The terms inside a quad. -/
def parts (q : Quad Atom) : Set Term := {t | ∃ path, q.toNested.at? path = some t}

theorem injOn_rename_parts (hk : Set.InjOn k {y | y ∈ C.varNames}) :
    C.parts.InjOn (Term.rename k) := by
  refine (Term.injOn_rename hk).mono ?_
  rintro t ⟨path, ht⟩ x hx
  exact hasVar_toNested_iff.mp (hx.of_at? ht)

theorem mem_of_mem_occurrences {e : String × Term} (he : e ∈ P.occurrences C skipVariables) :
    e.1 ∈ {x | x ∈ P.varNames} ∧ e.2 ∈ C.parts := by
  obtain ⟨path, hleaf, ht, -⟩ := mem_occurrences_iff.mp he
  exact ⟨mem_varNames_iff.mpr ⟨path, hleaf⟩, path, ht⟩

theorem mem_of_mem_finalBindings {e : String × Term}
    (he : e ∈ P.finalBindings C skipVariables) :
    e.1 ∈ {x | x ∈ P.varNames} ∧ e.2 ∈ C.parts := by
  obtain ⟨path, hleaf, ht, -⟩ := exists_leaf_of_value? (keyed_finalBindings _ _ _ e he)
  exact ⟨mem_varNames_iff.mpr ⟨path, hleaf⟩, path, ht⟩

theorem finalBindings_rename (hr : Set.InjOn r {x | x ∈ P.varNames}) :
    (P.rename r).finalBindings (C.rename k) skipVariables =
      (P.finalBindings C skipVariables).rename r k := by
  have hnames : ∀ y ∈ (P.occurrences C skipVariables).names, y ∈ {x | x ∈ P.varNames} :=
    List.forall_mem_map.mpr fun e he => (mem_of_mem_occurrences he).1
  rw [finalBindings, occurrences_rename]
  exact Bindings.offerAll_rename (b := []) hr (fun _ h => absurd h List.not_mem_nil) hnames

theorem unifies_rename (hr : Set.InjOn r {x | x ∈ P.varNames})
    (hk : Set.InjOn k {y | y ∈ C.varNames}) :
    (P.rename r).Unifies (C.rename k) skipVariables ↔ P.Unifies C skipVariables := by
  rw [Unifies, meetings_rename, finalBindings_rename hr, List.forall_mem_map]
  refine forall₂_congr fun m hm => ?_
  obtain ⟨path, hleaf, hfound⟩ := mem_meetings_iff.mp hm
  rw [Meeting.agrees_rename hr (injOn_rename_parts hk) (fun _ he => mem_of_mem_finalBindings he)]
  · intro x hx
    exact mem_varNames_iff.mpr ⟨path, hx ▸ hleaf⟩
  · intro t ht
    exact ⟨path, hfound.trans ht⟩

theorem conflicts_rename (hr : Set.InjOn r {x | x ∈ P.varNames})
    (hk : Set.InjOn k {y | y ∈ C.varNames}) :
    ((P.rename r).occurrences (C.rename k) skipVariables).filterMap
        ((P.rename r).finalBindings (C.rename k) skipVariables).conflict? =
      ((P.occurrences C skipVariables).filterMap
        (P.finalBindings C skipVariables).conflict?).map (Conflict.rename r k) := by
  rw [occurrences_rename, finalBindings_rename hr]
  exact Bindings.conflicts_rename hr (injOn_rename_parts hk)
    (fun _ he => mem_of_mem_finalBindings he) fun _ he => mem_of_mem_occurrences he

/-- **A match of quads whose variables are renamed on either side is the match of the quads,
renamed**: it succeeds if that does, with the renamed names bound in the same order to the renamed
terms, and it reports the renamed conflicts. -/
theorem unify_rename (P C : Quad Atom) {r k : String → String}
    (hr : Set.InjOn r {x | x ∈ P.varNames}) (hk : Set.InjOn k {y | y ∈ C.varNames})
    (options : MatchOptions) :
    (P.rename r).unify (C.rename k) options =
      ((P.unify C options).1.rename r k, (P.unify C options).2.map (Conflict.rename r k)) := by
  rw [unify_eq, unify_eq, conflicts_rename hr hk]
  refine Prod.ext ?_ rfl
  simp only [unifies_rename hr hk, finalBindings_rename hr]
  by_cases h : P.Unifies C options.skipVariables
  · cases hreturn : options.returnBindings <;> simp [h, MatchAnswer.rename]
  · simp [h, MatchAnswer.rename]

/-- The names of the pattern are exchanged, and a name of the candidate becomes one of the pattern;
variables are let through, and one is bound inside a quad. -/
theorem unify_rename_clashing :
    let x : Term := .leaf (.var "x")
    let y : Term := .leaf (.var "y")
    let p : Term := .leaf (.namedNode "p")
    let P : Quad Atom := ⟨x, p, .quad y p x p, .leaf (.var "g")⟩
    let C : Quad Atom := ⟨.quad x p y p, p, .quad x p (.quad x p y p) p, p⟩
    let r := Equiv.swap "x" "y"
    let k := Equiv.swap "y" "g"
    (Set.InjOn r {x | x ∈ P.varNames} ∧ Set.InjOn k {y | y ∈ C.varNames}) ∧
      (P.rename r).unify (C.rename k) { skipVariables := true, returnBindings := true } =
        (.bound [("y", .quad x p (.leaf (.var "g")) p), ("g", p)], []) := by
  intro x y p P C r k
  have hr : Set.InjOn r {x | x ∈ P.varNames} := r.injective.injOn
  have hk : Set.InjOn k {y | y ∈ C.varNames} := k.injective.injOn
  refine ⟨⟨hr, hk⟩, ?_⟩
  rw [unify_rename P C hr hk]
  decide

end Quad

end RdfStar
