/-!
# Computations that report events

A computation that notes events while it runs and may fail; what was noted before a failure is
kept.

Principal result: `bind_after_eq_ok_iff` — when a computation in two steps succeeds.
-/

namespace RdfStar

abbrev Logged (event error : Type) := ExceptT error (StateM (List event))

namespace Logged

variable {event error α β : Type}

def note (e : event) : Logged event error Unit := modify fun log => log ++ [e]

/-- The outcome of a computation with the events that it noted, first to last. -/
def outcome (x : Logged event error α) : Except error α × List event := (ExceptT.run x).run []

/-! ## Runs that succeed -/

/-- The outcome of a computation that starts when some events have been noted. -/
def after (x : Logged event error α) (log : List event) : Except error α × List event :=
  (ExceptT.run x).run log

theorem pure_after (a : α) (log : List event) :
    (pure a : Logged event error α).after log = (.ok a, log) := rfl

theorem throw_after (e : error) (log : List event) :
    (throw e : Logged event error α).after log = (.error e, log) := rfl

theorem bind_after (x : Logged event error α) (f : α → Logged event error β) (log : List event) :
    (x >>= f).after log =
      match x.after log with
      | (.ok a, noted) => (f a).after noted
      | (.error e, noted) => (.error e, noted) := by
  unfold after ExceptT.run StateT.run
  simp only [bind, ExceptT.bind, ExceptT.mk, StateT.bind]
  obtain ⟨result, noted⟩ := x log
  cases result <;> rfl

theorem tryCatch_after (x : Logged event error α) (handle : error → Logged event error α)
    (log : List event) :
    (tryCatch x handle).after log =
      match x.after log with
      | (.ok a, noted) => (.ok a, noted)
      | (.error e, noted) => (handle e).after noted := by
  unfold after ExceptT.run StateT.run
  simp only [tryCatch, tryCatchThe, MonadExceptOf.tryCatch, ExceptT.tryCatch, ExceptT.mk, bind,
    StateT.bind]
  obtain ⟨result, noted⟩ := x log
  cases result <;> rfl

/-- A computation in two steps succeeds if both do, the second with what the first noted. -/
theorem bind_after_eq_ok_iff {x : Logged event error α} {f : α → Logged event error β}
    {log noted : List event} {b : β} :
    (x >>= f).after log = (.ok b, noted) ↔
      ∃ a between, x.after log = (.ok a, between) ∧ (f a).after between = (.ok b, noted) := by
  rw [bind_after]
  obtain ⟨result, between⟩ := x.after log
  cases result with
  | error e => simp
  | ok a =>
    constructor
    · intro h
      exact ⟨a, between, rfl, h⟩
    · rintro ⟨_, _, hx, hf⟩
      cases hx
      exact hf

end Logged

end RdfStar
