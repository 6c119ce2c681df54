import Mathlib.Tactic.Tauto
import RdfStar.Substitution

/-!
# Offering bindings

A match offers its bindings every occurrence of a variable that it meets. The first one for a name
is taken, so bindings hold each name once, in the order of first occurrences, and what a name is
bound to never changes.

Principal results: `Bindings.value?_offerAll` and `Bindings.names_offerAll_nil` — the terms and the
names that are bound after a list of offers; `Bindings.filter_offerAll` — selecting from bindings is
offering less; `Bindings.Keyed.offerAll` — no name gets two entries.
-/

namespace RdfStar

namespace Bindings

/-- Binds a name, unless it is bound already. -/
def offer (b : Bindings) (x : String) (t : Term) : Bindings :=
  match b.value? x with
  | none => b.bind x t
  | some _ => b

/-- Offers entries in order: of several for one name the first counts. -/
def offerAll (b entries : Bindings) : Bindings := entries.foldl (fun b e => b.offer e.1 e.2) b

theorem offerAll_cons (b : Bindings) (e : String × Term) (rest : Bindings) :
    b.offerAll (e :: rest) = (b.offer e.1 e.2).offerAll rest := rfl

theorem offerAll_append (b entries more : Bindings) :
    b.offerAll (entries ++ more) = (b.offerAll entries).offerAll more :=
  List.foldl_append

theorem value?_bind_self {b : Bindings} {x : String} (hx : b.value? x = none) (t : Term) :
    (b.bind x t).value? x = some t := by
  simp [bind, value?_append, value?, hx]

theorem value?_offer (b : Bindings) (x y : String) (t : Term) :
    (b.offer x t).value? y = (b.value? y).or (value? [(x, t)] y) := by
  unfold offer
  split
  · exact value?_append b [(x, t)] y
  · rename_i u hx
    by_cases hxy : x = y
    · subst hxy; rw [hx]; rfl
    · simp [value?, hxy]

/-- **The first entry offered for a free name binds it, and a bound name keeps its term.** -/
theorem value?_offerAll (b entries : Bindings) (x : String) :
    (b.offerAll entries).value? x = (b.value? x).or (entries.value? x) := by
  induction entries generalizing b with
  | nil => simp [offerAll, value?]
  | cons e rest ih =>
    rw [offerAll_cons, ih, value?_offer, Option.or_assoc, ← value?_append, List.singleton_append]

theorem value?_offerAll_of_mem {b : Bindings} {x : String} (hx : x ∈ b.names) (more : Bindings) :
    (b.offerAll more).value? x = b.value? x := by
  rw [value?_offerAll]
  cases h : b.value? x with
  | none => exact absurd hx (value?_eq_none_iff.mp h)
  | some t => rfl

theorem mem_of_value? {b : Bindings} {x : String} {t : Term} (h : b.value? x = some t) :
    (x, t) ∈ b := by
  induction b with
  | nil => cases h
  | cons e rest ih =>
    obtain ⟨y, u⟩ := e
    by_cases hyx : y = x
    · simp only [value?, if_pos hyx, Option.some.injEq] at h
      subst hyx; subst h
      exact List.mem_cons_self
    · simp only [value?, if_neg hyx] at h
      exact List.mem_cons_of_mem _ (ih h)

theorem exists_value?_of_mem {b : Bindings} {x : String} (hx : x ∈ b.names) :
    ∃ t, b.value? x = some t := by
  cases h : b.value? x with
  | none => exact absurd hx (value?_eq_none_iff.mp h)
  | some t => exact ⟨t, rfl⟩

theorem names_offer (b : Bindings) (x : String) (t : Term) :
    (b.offer x t).names = if x ∈ b.names then b.names else b.names ++ [x] := by
  unfold offer
  split
  · rename_i h
    rw [if_neg (value?_eq_none_iff.mp h), bind, names, List.map_append]
    rfl
  · rename_i u h
    have hx : x ∈ b.names := List.mem_map_of_mem (mem_of_value? h)
    rw [if_pos hx]

theorem names_offerAll (b entries : Bindings) :
    (b.offerAll entries).names =
      b.names ++ (entries.names.filter fun x => x ∉ b.names).eraseDups := by
  induction entries generalizing b with
  | nil => simp [offerAll, names]
  | cons e rest ih =>
    rw [offerAll_cons, ih, names_offer, show names (e :: rest) = e.1 :: names rest from rfl]
    by_cases hx : e.1 ∈ b.names
    · rw [if_pos hx, List.filter_cons_of_neg (by simpa using hx)]
    · rw [if_neg hx, List.filter_cons_of_pos (by simpa using hx), List.eraseDups_cons,
        List.filter_filter, List.append_assoc, List.singleton_append]
      congr 4
      funext y
      simp [and_comm, Bool.beq_eq_decide_eq]

theorem mem_names_offerAll {b entries : Bindings} {x : String} :
    x ∈ (b.offerAll entries).names ↔ x ∈ b.names ∨ x ∈ entries.names := by
  rw [names_offerAll, List.mem_append, List.mem_eraseDups, List.mem_filter, decide_eq_true_iff]
  tauto

/-- **Names are bound in the order of their first entries.** -/
theorem names_offerAll_nil (entries : Bindings) :
    (offerAll [] entries).names = entries.names.eraseDups := by
  rw [names_offerAll, show names [] = [] from rfl, List.nil_append,
    List.filter_eq_self.mpr fun x _ => by simp]

/-! ## Selecting from bindings -/

theorem offer_of_mem {b : Bindings} {x : String} (hx : x ∈ b.names) (t : Term) :
    b.offer x t = b := by
  obtain ⟨u, hu⟩ := exists_value?_of_mem hx
  rw [offer, hu]

theorem offer_of_not_mem {b : Bindings} {x : String} (hx : x ∉ b.names) (t : Term) :
    b.offer x t = b.bind x t := by
  rw [offer, value?_eq_none_iff.mpr hx]

/-- An entry that agrees with the binding of its name is offered to selected bindings if it is
itself selected. -/
theorem filter_offer {b : Bindings} {x : String} {t : Term}
    (hx : (b.offer x t).value? x = some t) (keep : String × Term → Bool) :
    (b.offer x t).filter keep = offerAll (b.filter keep) ([(x, t)].filter keep) := by
  by_cases hmem : x ∈ b.names
  · rw [offer_of_mem hmem] at hx ⊢
    by_cases hkeep : keep (x, t) = true
    · have hkept : (x, t) ∈ b.filter keep := List.mem_filter.mpr ⟨mem_of_value? hx, hkeep⟩
      have hname : x ∈ names (b.filter keep) := List.mem_map_of_mem hkept
      rw [List.filter_cons_of_pos hkeep]
      exact (offer_of_mem hname t).symm
    · rw [List.filter_cons_of_neg hkeep]
      rfl
  · rw [offer_of_not_mem hmem, bind, List.filter_append]
    by_cases hkeep : keep (x, t) = true
    · have hname : x ∉ names (b.filter keep) := fun h =>
        hmem ((List.filter_sublist.map Prod.fst).subset h)
      rw [List.filter_cons_of_pos hkeep]
      exact (offer_of_not_mem hname t).symm
    · rw [List.filter_cons_of_neg hkeep]
      exact List.append_nil _

/-- **If all entries agree with the bindings at the end, selecting from these bindings is offering
the selected entries.** -/
theorem filter_offerAll {b entries : Bindings}
    (hend : ∀ e ∈ entries, (b.offerAll entries).value? e.1 = some e.2)
    (keep : String × Term → Bool) :
    (b.offerAll entries).filter keep = offerAll (b.filter keep) (entries.filter keep) := by
  induction entries generalizing b with
  | nil => rfl
  | cons e rest ih =>
    obtain ⟨x, t⟩ := e
    simp only [offerAll_cons] at hend ⊢
    -- once offered, the name keeps its term, so what holds at the end holds here already
    have hbound : x ∈ (b.offerAll [(x, t)]).names :=
      mem_names_offerAll.mpr (.inr List.mem_cons_self)
    have hx : (b.offer x t).value? x = some t :=
      (value?_offerAll_of_mem hbound rest).symm.trans (hend (x, t) List.mem_cons_self)
    rw [ih fun e he => hend e (List.mem_cons_of_mem _ he), filter_offer hx, ← offerAll_append,
      ← List.filter_append, List.singleton_append]

/-! ## One entry for each name -/

/-- Every entry is the one that its name finds: no name has two entries. -/
def Keyed (b : Bindings) : Prop := ∀ e ∈ b, b.value? e.1 = some e.2

theorem Keyed.offer {b : Bindings} (hb : b.Keyed) (x : String) (t : Term) : (b.offer x t).Keyed := by
  intro e he
  rw [value?_offer]
  unfold Bindings.offer at he
  split at he
  · rename_i hx
    rcases List.mem_append.mp he with he | he
    · rw [hb e he]; rfl
    · rw [List.mem_singleton.mp he, hx]
      simp [value?]
  · rw [hb e he]; rfl

theorem Keyed.offerAll {b : Bindings} (hb : b.Keyed) (entries : Bindings) :
    (b.offerAll entries).Keyed := by
  induction entries generalizing b with
  | nil => exact hb
  | cons e rest ih => exact ih (hb.offer e.1 e.2)

theorem keyed_offerAll_nil (entries : Bindings) : (offerAll [] entries).Keyed :=
  Keyed.offerAll (fun _ he => absurd he List.not_mem_nil) entries

theorem Keyed.mem_iff {b : Bindings} (hb : b.Keyed) {x : String} {t : Term} :
    (x, t) ∈ b ↔ b.value? x = some t :=
  ⟨fun h => hb (x, t) h, mem_of_value?⟩

theorem nodup_names_offer {b : Bindings} (hb : b.names.Nodup) (x : String) (t : Term) :
    (b.offer x t).names.Nodup := by
  rw [names_offer]
  split
  · exact hb
  · rename_i hx
    simpa [List.nodup_append] using ⟨hb, fun y hy heq => hx (heq ▸ hy)⟩

theorem nodup_names_offerAll {b : Bindings} (hb : b.names.Nodup) (entries : Bindings) :
    (b.offerAll entries).names.Nodup := by
  induction entries generalizing b with
  | nil => exact hb
  | cons e rest ih => exact ih (nodup_names_offer hb e.1 e.2)

/-- Bindings without repeated names are determined by their names and a value for each. -/
theorem Keyed.map_eq {b : Bindings} (hb : b.Keyed) {γ : Type} (f : String → Term → γ)
    {g : String → γ} (hg : ∀ x t, b.value? x = some t → f x t = g x) :
    b.map (fun e => f e.1 e.2) = b.names.map g := by
  rw [names, List.map_map]
  exact List.map_congr_left fun e he => hg e.1 e.2 (hb e he)

end Bindings

end RdfStar
