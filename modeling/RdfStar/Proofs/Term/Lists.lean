import Mathlib.Data.List.Induction
import Mathlib.Data.List.Perm.Basic
import RdfStar.Term.Draft
import RdfStar.TermList

/-!
# Terms without repetitions, and terms by type

A list is de-duplicated in one pass, which remembers what it has seen and keeps what it has not seen
before. What such a pass keeps of a list does not depend on where the list is cut: the entries
before the cut only make it leave out those of their own. The pass therefore commutes with every
selection, and with the selection of terms by type above all, since equal terms have the same type.

Principal results: `Sieve.kept_run` — what a pass keeps that has seen something before;
`eraseDups_eq_firsts` — the entries that equal no earlier one; `filter_eraseDups` — repetitions are
dropped before or after a selection alike; `flatMap_filter_perm` — a list is a permutation of its
parts by key; `TermList.uniq_keeps_first_occurrences` and `TermList.split_partitions` —
de-duplication of terms, and the six types.
-/

namespace RdfStar

variable {α : Type}

/-! ## A pass that drops repetitions -/

/-- The state of a pass: the entries that it has seen, and those that it has kept, first to last. -/
structure Sieve (α : Type) where
  seen : List α
  kept : List α
  deriving DecidableEq, Repr

namespace Sieve

/-- A pass that has not begun. -/
def start : Sieve α := ⟨[], []⟩

variable [BEq α] [LawfulBEq α]

/-- An entry is kept if it has not been seen. -/
def step (s : Sieve α) (x : α) : Sieve α :=
  if x ∈ s.seen then s else ⟨x :: s.seen, s.kept ++ [x]⟩

def run (s : Sieve α) (entries : List α) : Sieve α := entries.foldl step s

variable (s : Sieve α) (x : α) (entries more : List α)

theorem run_append : s.run (entries ++ more) = (s.run entries).run more := List.foldl_append

theorem run_concat : s.run (entries ++ [x]) = (s.run entries).step x := s.run_append entries [x]

theorem mem_seen_step {y : α} : y ∈ (s.step x).seen ↔ y ∈ s.seen ∨ y = x := by
  unfold step
  split
  · rename_i hseen
    constructor
    · exact Or.inl
    · rintro (hy | rfl)
      · exact hy
      · exact hseen
  · simp [or_comm]

theorem kept_step : (s.step x).kept = s.kept ++ if x ∈ s.seen then [] else [x] := by
  unfold step
  split <;> simp

/-- What has been seen after a pass is what was seen before, and what it went through. -/
theorem mem_seen_run {y : α} : y ∈ (s.run entries).seen ↔ y ∈ s.seen ∨ y ∈ entries := by
  induction entries using List.reverseRecOn with
  | nil => simp [run]
  | append_singleton entries x ih =>
    rw [run_concat, mem_seen_step, ih]
    simp [or_assoc]

/-- A pass may keep one list for both purposes, last entry first. -/
theorem loop_eq_kept_run (before : List α) :
    List.eraseDupsBy.loop (· == ·) entries before =
      (run ⟨before, before.reverse⟩ entries).kept := by
  induction entries generalizing before with
  | nil => rfl
  | cons x rest ih =>
    have hrun : run ⟨before, before.reverse⟩ (x :: rest) =
        (step ⟨before, before.reverse⟩ x).run rest := rfl
    rw [hrun, step]
    by_cases hseen : x ∈ before
    · have hany : before.any (x == ·) = true := List.any_eq_true.mpr ⟨x, hseen, by simp⟩
      rw [if_pos hseen, List.eraseDupsBy.loop, hany]
      exact ih before
    · have hany : before.any (x == ·) = false := by
        rw [List.any_eq_false]
        intro y hy
        simpa using fun heq : x = y => hseen (heq ▸ hy)
      rw [if_neg hseen, List.eraseDupsBy.loop, hany]
      simpa using ih (x :: before)

end Sieve

section EraseDups

variable [BEq α] [LawfulBEq α]

theorem eraseDups_eq_kept_run (entries : List α) :
    entries.eraseDups = (Sieve.start.run entries).kept :=
  Sieve.loop_eq_kept_run entries []

/-- One further entry is kept if it is not among those before it. -/
theorem eraseDups_concat (entries : List α) (x : α) :
    (entries ++ [x]).eraseDups = entries.eraseDups ++ if x ∈ entries then [] else [x] := by
  rw [eraseDups_eq_kept_run, Sieve.run_concat, Sieve.kept_step, ← eraseDups_eq_kept_run]
  simp [Sieve.mem_seen_run, Sieve.start]

/-- **A pass that has seen some entries keeps what is kept of the further ones, without what it has
seen.** -/
theorem Sieve.kept_run (s : Sieve α) (entries : List α) :
    (s.run entries).kept = s.kept ++ entries.eraseDups.filter (· ∉ s.seen) := by
  induction entries using List.reverseRecOn with
  | nil => simp [run]
  | append_singleton entries x ih =>
    rw [run_concat, kept_step, ih, eraseDups_concat]
    simp only [mem_seen_run, List.filter_append, List.append_assoc]
    by_cases hentries : x ∈ entries
    · simp [hentries]
    · by_cases hseen : x ∈ s.seen <;> simp [hentries, hseen]

/-! ## First occurrences -/

/-- A second list adds those of its entries that the first does not have. -/
theorem eraseDups_append_eq (entries more : List α) :
    (entries ++ more).eraseDups = entries.eraseDups ++ more.eraseDups.filter (· ∉ entries) := by
  rw [eraseDups_eq_kept_run, Sieve.run_append, Sieve.kept_run, ← eraseDups_eq_kept_run]
  simp [Sieve.mem_seen_run, Sieve.start]

/-- **The entries that equal no earlier one**, in the order in which they stand. -/
theorem eraseDups_eq_firsts (entries : List α) :
    entries.eraseDups = (entries.zipIdx.filter fun e => e.1 ∉ entries.take e.2).map Prod.fst := by
  induction entries using List.reverseRecOn with
  | nil => rfl
  | append_singleton entries x ih =>
    have hbefore : (entries.zipIdx.filter fun e => e.1 ∉ (entries ++ [x]).take e.2) =
        entries.zipIdx.filter fun e => e.1 ∉ entries.take e.2 := by
      refine List.filter_congr fun e he => ?_
      have hindex : e.2 < entries.length := List.snd_lt_of_mem_zipIdx he
      rw [List.take_append_of_le_length (Nat.le_of_lt hindex)]
    rw [eraseDups_concat, ih, List.zipIdx_append, List.filter_append, List.map_append, hbefore]
    by_cases hx : x ∈ entries <;> simp [hx]

theorem nodup_eraseDups (entries : List α) : entries.eraseDups.Nodup := by
  induction entries using List.reverseRecOn with
  | nil => exact List.nodup_nil
  | append_singleton entries x ih =>
    rw [eraseDups_concat]
    by_cases hx : x ∈ entries
    · simpa [hx] using ih
    · rw [if_neg hx]
      refine List.nodup_append.mpr ⟨ih, List.pairwise_singleton _ x, ?_⟩
      intro y hy z hz heq
      rw [List.mem_singleton.mp hz] at heq
      exact hx (List.mem_eraseDups.mp (heq ▸ hy))

theorem eraseDups_of_nodup {entries : List α} (h : entries.Nodup) :
    entries.eraseDups = entries := by
  induction entries using List.reverseRecOn with
  | nil => rfl
  | append_singleton entries x ih =>
    obtain ⟨hentries, -, hdisjoint⟩ := List.nodup_append.mp h
    have hx : x ∉ entries := fun hmem => hdisjoint x hmem x (List.mem_singleton_self x) rfl
    rw [eraseDups_concat, ih hentries, if_neg hx]

/-- **Repetitions are dropped before or after a selection alike.** -/
theorem filter_eraseDups (test : α → Bool) (entries : List α) :
    entries.eraseDups.filter test = (entries.filter test).eraseDups := by
  induction entries using List.reverseRecOn with
  | nil => rfl
  | append_singleton entries x ih =>
    rw [eraseDups_concat, List.filter_append, List.filter_append, ih]
    cases htest : test x with
    | false => by_cases hx : x ∈ entries <;> simp [htest, hx]
    | true =>
      have hmem : x ∈ entries.filter test ↔ x ∈ entries := by simp [htest]
      have hone : [x].filter test = [x] := by simp [htest]
      rw [hone, eraseDups_concat]
      by_cases hx : x ∈ entries <;> simp [hmem, htest, hx]

end EraseDups

/-! ## De-duplication of terms -/

/-- Terms are compared as drafts are: structurally, to any depth. -/
theorem Draft.same_ofTerm_iff {agree : Data → Data → Bool} {t u : Term} :
    same agree (ofTerm t) (ofTerm u) = true ↔ t = u := by
  induction t generalizing u with
  | leaf a =>
    cases u with
    | leaf b => exact beq_iff_eq.trans (by simp)
    | quad => exact ⟨nofun, nofun⟩
  | quad s p o g hs hp ho hg =>
    cases u with
    | leaf => exact ⟨nofun, nofun⟩
    | quad s' p' o' g' =>
      simp only [ofTerm_quad, same, Bool.and_eq_true, hs, hp, ho, hg, Nested.quad.injEq, and_assoc]

/-- **De-duplication keeps exactly the terms that equal no earlier one**, in order, where terms are
equal if a comparison by structure finds them the same. So no term is kept twice and none is lost, a
second time changes nothing, and of two lists in a row the second adds what it keeps by itself and
the first does not have. -/
theorem TermList.uniq_keeps_first_occurrences (xs : List Term) :
    uniq xs = (xs.zipIdx.filter fun e => e.1 ∉ xs.take e.2).map Prod.fst ∧
    (∀ (agree : Data → Data → Bool) (t u : Term),
      Draft.same agree (Draft.ofTerm t) (Draft.ofTerm u) = true ↔ t = u) ∧
    (uniq xs).Nodup ∧ (∀ t, t ∈ uniq xs ↔ t ∈ xs) ∧ uniq (uniq xs) = uniq xs ∧
    ∀ ys, uniq (xs ++ ys) = uniq xs ++ (uniq ys).filter (· ∉ xs) := by
  refine ⟨eraseDups_eq_firsts xs, fun _ t u => Draft.same_ofTerm_iff, nodup_eraseDups xs,
    fun t => List.mem_eraseDups, ?_, fun ys => eraseDups_append_eq xs ys⟩
  exact eraseDups_of_nodup (nodup_eraseDups xs)

/-- Two quads that differ in the tag of a nested literal only, each twice. -/
example :
    let p : Term := .leaf (.namedNode "p")
    let quoting (tag : String) : Term :=
      .quad p p (.quad p p (.leaf (.literal (.tagged "a" tag))) p) p
    TermList.uniq [quoting "en", p, quoting "EN", quoting "en", p, quoting "EN"] =
      [quoting "en", p, quoting "EN"] := by
  decide

/-! ## Parts by key -/

/-- **A list is a permutation of its parts by key**, one after the other, if every key that occurs
is among those that are gone through and none of them is gone through twice. -/
theorem flatMap_filter_perm {κ : Type} [DecidableEq κ] (key : α → κ) {keys : List κ}
    (hkeys : keys.Nodup) {entries : List α} (hall : ∀ e ∈ entries, key e ∈ keys) :
    (keys.flatMap fun k => entries.filter fun e => key e == k).Perm entries := by
  -- on the keys: what has the first one is taken off, and the other keys cover the rest
  induction keys generalizing entries with
  | nil =>
    obtain rfl : entries = [] := List.eq_nil_iff_forall_not_mem.mpr fun e he => nomatch hall e he
    exact List.Perm.refl _
  | cons k keys ih =>
    obtain ⟨hk, hkeys⟩ := List.nodup_cons.mp hkeys
    let rest := entries.filter fun e => !(key e == k)
    have hrest : ∀ e ∈ rest, key e ∈ keys := by
      intro e he
      obtain ⟨hmem, hne⟩ := List.mem_filter.mp he
      exact (List.mem_cons.mp (hall e hmem)).resolve_left (by simpa using hne)
    have hsame : (keys.flatMap fun k' => rest.filter fun e => key e == k') =
        keys.flatMap fun k' => entries.filter fun e => key e == k' := by
      refine List.flatMap_congr fun k' hk' => ?_
      rw [List.filter_filter]
      refine List.filter_congr fun e _ => ?_
      by_cases he : key e = k'
      · have hne : k' ≠ k := fun heq => hk (heq ▸ hk')
        simp [he, hne]
      · simp [he]
    calc ((k :: keys).flatMap fun k' => entries.filter fun e => key e == k')
        = (entries.filter fun e => key e == k) ++
            keys.flatMap fun k' => rest.filter fun e => key e == k' := by
          rw [List.flatMap_cons, hsame]
      _ |>.Perm ((entries.filter fun e => key e == k) ++ rest) := (ih hkeys hrest).append_left _
      _ |>.Perm entries := List.filter_append_perm _ entries

/-! ## The six types -/

theorem TermType.mem_all (type : TermType) : type ∈ all := by cases type <;> decide

namespace TermList

theorem split_perm (terms : List Term) : ((split terms).flatMap Prod.snd).Perm terms := by
  rw [split_eq, List.flatMap_map]
  exact flatMap_filter_perm Term.type (by decide) fun t _ => t.type.mem_all

theorem ofTypeName_name (type : TermType) (terms : List Term) :
    ofTypeName type.name terms = .ok (ofType type terms) :=
  ofTypeName_eq_ok_iff.mpr ⟨type, TermType.ofName?_name type, rfl⟩

theorem disjoint_ofType {type other : TermType} (h : type ≠ other) (terms : List Term) :
    (ofType type terms).Disjoint (ofType other terms) := by
  intro t ht hother
  exact h ((mem_ofType.mp ht).2.symm.trans (mem_ofType.mp hother).2)

theorem pairwise_disjoint_split (terms : List Term) :
    (split terms).Pairwise fun e e' => e.2.Disjoint e'.2 := by
  have hall : TermType.all.Nodup := by decide
  rw [split_eq]
  exact List.pairwise_map.mpr (hall.imp fun h => disjoint_ofType h terms)

/-- **The six types divide a list of terms**: each takes its terms in the order of the list, no term
is taken by two, and all that is taken together is the list in another order. **Repetitions may be
dropped before or after a type is selected.** -/
theorem split_partitions (ts : List Term) :
    ((split ts).map Prod.fst = [.namedNode, .blankNode, .literal, .var, .defaultGraph, .quad] ∧
      (split ts).Pairwise (fun e e' => e.2.Disjoint e'.2) ∧
      ((split ts).flatMap Prod.snd).Perm ts) ∧
    ∀ type : TermType, (type, ofType type ts) ∈ split ts ∧ (ofType type ts).Sublist ts ∧
      (∀ t, t ∈ ofType type ts ↔ t ∈ ts ∧ t.type = type) ∧
      ofTypeName type.name ts = .ok (ofType type ts) ∧
      ofTypeName type.name (uniq ts) = .ok (uniq (ofType type ts)) := by
  refine ⟨⟨rfl, pairwise_disjoint_split ts, split_perm ts⟩, fun type => ?_⟩
  refine ⟨?_, List.filter_sublist, fun t => mem_ofType, ofTypeName_name type ts, ?_⟩
  · rw [split_eq]
    exact List.mem_map_of_mem type.mem_all
  · rw [ofTypeName_name, ofType, ofType, uniq, uniq, filter_eraseDups]

end TermList

end RdfStar
