import RdfStar.Proofs.Leaf.Rewriting

/-!
# Rewriting leaves twice

The leaves of a quad are rewritten, and then the leaves of the result. One pass does the same, if
it treats at once what the first callback makes of a leaf: a leaf goes to the second callback with
its path, and the leaves of a new quad go to it with their paths from the root of the whole. The
quads that were there before are built by both passes alike.

The first callback must have no effect, since its calls come before all others in two passes and in
between them in one. The second callback and the way in which quads are built may have any.

Principal results: `Nested.rebuild_bindAt` — to rebuild what was grafted is to rebuild with what the
grafted parts give; `Quad.rewriteLeaves_twice` — two passes over the leaves are one.
-/

namespace RdfStar

variable {α β γ : Type} {m : Type → Type} [Monad m]

namespace Nested

/-- **To rebuild what was grafted is to rebuild with what the grafted parts give.** -/
theorem rebuild_bindAt (t : Nested α) (f : α → Path → Nested β) (g : β → Path → m γ)
    (build : γ → γ → γ → γ → m γ) :
    (t.bindAt f).rebuild g build [] =
      t.rebuild (fun a path => (f a path).rebuild g build path.reverse) build [] := by
  induction t generalizing f g with
  | leaf a => rfl
  | quad s p o c hs hp ho hc =>
    simp only [bindAt, rebuild_quad, hs, hp, ho, hc, List.reverse_cons, rebuild_concat]

/-- What a callback makes of a value that stands at a path: of a leaf what it makes of the leaf
there, and of a quad what it makes of the leaves of the quad, with their paths from where the path
begins. -/
def mapAt (t : Nested α) (f : α → Path → m β) (build : β → β → β → β → m β) (path : Path) : m β :=
  match t with
  | .leaf a => f a path
  | .quad s p o g => (Quad.mk s p o g).mapLeaves (fun a rest => f a (path ++ rest)) build

theorem rebuild_eq_mapAt (t : Nested α) (f : α → Path → m β) (build : β → β → β → β → m β)
    (path : Path) : t.rebuild f build path.reverse = t.mapAt f build path := by
  cases t with
  | leaf a => rw [rebuild, List.reverse_reverse, mapAt]
  | quad s p o g => exact (Nested.quad s p o g).rebuild_append f build [] path

end Nested

/-! ## Terms at a path -/

namespace Term

/-- Rewrites a term that stands at a path: a leaf becomes what it stands for, and the leaves of a
quad are rewritten, with their paths from where the path begins. -/
def rewriteAt (t : Term) (f : Atom → Path → Term) (path : Path) : StateM LabelSupply Term :=
  match t with
  | .leaf a => pure (f a path)
  | .quad s p o g => (Quad.mk s p o g).rewriteLeaves fun a rest => f a (path ++ rest)

theorem rewriteAt_eq_mapAt (t : Term) (f : Atom → Path → Term) (path : Path) :
    t.rewriteAt f path = t.mapAt (fun a path => pure (f a path))
      (fun s p o g => Factory.standard.quad s p o (some g)) path := by
  cases t <;> rfl

theorem rewriteAt_eq_pure (t : Term) (f : Atom → Path → Term) (path : Path) :
    t.rewriteAt f path = pure (t.bindAt fun a rest => f a (path ++ rest)) := by
  cases t with
  | leaf a => simp [rewriteAt, Nested.bindAt]
  | quad s p o g => exact Quad.rewriteLeaves_eq_bindAt _ _

end Term

namespace Quad

/-! ## Two passes -/

theorem mapLeaves_bindAt (q : Quad α) (f : α → Path → Nested β) (g : β → Path → m γ)
    (build : γ → γ → γ → γ → m γ) :
    (q.bindAt f).mapLeaves g build =
      q.mapLeaves (fun a path => (f a path).mapAt g build path) build := by
  simp only [← Nested.rebuild_eq_mapAt]
  exact q.toNested.rebuild_bindAt f g build

/-- One substitution after another, on an atom. -/
theorem bind_substitute (σ τ : String → Option Term) (a : Atom) :
    (a.substitute σ).bind (Atom.substitute τ) =
      a.substitute fun x => ((σ x).map (Term.substitute τ)).or (τ x) := by
  cases a with
  | var x => cases hx : σ x <;> simp [Atom.substitute, Nested.bind, Term.substitute, hx]
  | _ => rfl

/-- **To rewrite the leaves of a quad and then those of the result is to rewrite them once**, by the
callback that rewrites what each leaf became: a leaf with its path, and the leaves of a quad with
their paths from the root. The second pass may have effects, and may build its quads in any way. So
one substitution after another is a substitution. -/
theorem rewriteLeaves_twice (Q : Quad Atom) :
    (∀ f : Atom → Path → Term, ∃ R : Quad Atom, Q.rewriteLeaves f = pure R.toNested ∧
      (∀ g : Atom → Path → Term, ∃ h : Atom → Path → Term,
        (∀ a path, Term.rewriteAt (f a path) g path = pure (h a path)) ∧
        R.rewriteLeaves g = Q.rewriteLeaves h) ∧
      ∀ (m : Type → Type) [Monad m] (γ : Type) (g : Atom → Path → m γ)
        (build : γ → γ → γ → γ → m γ),
        R.mapLeaves g build = Q.mapLeaves (fun a path => (f a path).mapAt g build path) build) ∧
    ∀ σ τ : String → Option Term, ∃ R : Quad Atom,
      (Q.rewriteLeaves fun a _ => a.substitute σ) = pure R.toNested ∧
      (R.rewriteLeaves fun a _ => a.substitute τ) =
        Q.rewriteLeaves fun a _ => a.substitute fun x =>
          ((σ x).map (Term.substitute τ)).or (τ x) := by
  refine ⟨fun f => ⟨Q.bindAt f, Q.rewriteLeaves_eq_bindAt f, fun g => ?_, fun m _ γ g build => ?_⟩,
    fun σ τ => ⟨Q.substitute σ, Q.rewriteLeaves_eq _, ?_⟩⟩
  · refine ⟨fun a path => (f a path).bindAt fun b rest => g b (path ++ rest),
      fun a path => Term.rewriteAt_eq_pure _ _ _, ?_⟩
    rw [rewriteLeaves, mapLeaves_bindAt, rewriteLeaves]
    simp only [← Term.rewriteAt_eq_mapAt, Term.rewriteAt_eq_pure]
  · exact Q.mapLeaves_bindAt f g build
  · rw [rewriteLeaves_eq, rewriteLeaves_eq, substitute, toNested_bind, toNested_bind,
      Nested.bind_bind]
    simp only [bind_substitute]
    rfl

end Quad

end RdfStar
