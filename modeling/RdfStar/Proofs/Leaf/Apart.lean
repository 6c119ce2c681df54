import Mathlib.Data.List.Nodup
import RdfStar.Proofs.Leaf.Order
import RdfStar.Proofs.Leaf.Rewriting

/-!
# Variables renamed apart

A quad is linear if no two of its leaves are the same variable. Any quad becomes linear when each
variable is given its path, written with dots, as its name: no position has a dot in its name, so
the text determines the path.

Principal results: `Path.splitOn_dotted` — the text of a path falls into the names of its
positions; `Path.dotted_injective` — it determines the path; `Quad.linear_apart` — a quad whose
variables are named by their paths is linear.
-/

namespace RdfStar

/-! ## Paths written with dots -/

theorem Position.dot_not_mem_name (p : Position) : '.' ∉ p.name.toList := by
  cases p <;> decide

namespace Path

theorem splitOn_dotted {path : Path} (h : path ≠ []) :
    path.dotted.toList.splitOn '.' = path.names.map String.toList := by
  rw [dotted, String.toList_intercalate]
  refine List.splitOn_intercalate '.' ?_ (by simpa [names] using h)
  intro text htext
  obtain ⟨name, hname, rfl⟩ := List.mem_map.mp htext
  obtain ⟨p, -, rfl⟩ := List.mem_map.mp hname
  exact p.dot_not_mem_name

theorem dotted_ne_empty {path : Path} (h : path ≠ []) : path.dotted ≠ "" := by
  intro hempty
  obtain ⟨p, rest, rfl⟩ := List.exists_cons_of_ne_nil h
  have hsplit := splitOn_dotted h
  rw [hempty] at hsplit
  cases p <;> simp [names, Position.name] at hsplit

/-- The text of a path determines the path. -/
theorem dotted_injective {p q : Path} (h : p.dotted = q.dotted) : p = q := by
  by_cases hp : p = []
  · by_contra hne
    subst hp
    exact dotted_ne_empty (Ne.symm hne) h.symm
  by_cases hq : q = []
  · subst hq
    exact absurd h (dotted_ne_empty hp)
  have hnames : p.names.map String.toList = q.names.map String.toList := by
    rw [← splitOn_dotted hp, ← splitOn_dotted hq, h]
  exact names_injective (List.map_injective_iff.mpr (fun _ _ => String.toList_inj.mp) hnames)

end Path

/-! ## Linear quads -/

namespace Quad

/-- No name stands at two leaves of the quad. -/
def Linear (q : Quad Atom) : Prop := (q.varLeaves.map Prod.fst).Nodup

theorem Linear.path_unique {q : Quad Atom} (h : q.Linear) {x : String} {path other : Path}
    (hpath : (.var x, path) ∈ q.leaves false) (hother : (.var x, other) ∈ q.leaves false) :
    path = other :=
  congrArg Prod.snd (List.inj_on_of_nodup_map h (mem_varLeaves_iff.mpr hpath)
    (mem_varLeaves_iff.mpr hother) rfl)

theorem nodup_paths_varLeaves (q : Quad Atom) : (q.varLeaves.map Prod.snd).Nodup := by
  have horder : InOrder (q.leaves false) := by
    rw [leaves_eq_frontier]
    exact q.toNested.inOrder_frontier false
  refine List.pairwise_map.mpr (List.pairwise_filterMap.mpr (horder.imp ?_))
  -- two leaves with one path would precede themselves
  intro e e' hprecedes d hd d' hd' heq
  obtain ⟨x, -, rfl⟩ := Option.map_eq_some_iff.mp hd
  obtain ⟨x', -, rfl⟩ := Option.map_eq_some_iff.mp hd'
  dsimp only at heq
  rw [heq] at hprecedes
  exact Path.not_precedes_self _ hprecedes

end Quad

/-! ## Renaming apart -/

/-- A variable named by its path; other atoms stay. -/
def Atom.apart : Atom → Path → Atom
  | .var _, path => .var path.dotted
  | a, _ => a

theorem Atom.isVar_apart (a : Atom) (path : Path) : (a.apart path).isVar = a.isVar := by
  cases a <;> rfl

theorem Atom.apart_of_not_var {a : Atom} (h : a.isVar = false) (path : Path) :
    a.apart path = a := by
  cases a with
  | var x => cases h
  | _ => rfl

theorem Atom.var?_apart (a : Atom) (path : Path) :
    (a.apart path).var? = a.var?.map fun _ => path.dotted := by
  cases a <;> rfl

namespace Quad

/-- The quad with every variable named by its path. -/
def apart (q : Quad Atom) : Quad Atom := q.bindAt fun a path => .leaf (a.apart path)

theorem leaves_apart (q : Quad Atom) :
    q.apart.leaves false = (q.leaves false).map fun e => (e.1.apart e.2, e.2) := by
  rw [apart, leaves_bindAt, List.map_eq_flatMap]
  rfl

theorem varLeaves_apart (q : Quad Atom) :
    q.apart.varLeaves = q.varLeaves.map fun e => (e.2.dotted, e.2) := by
  rw [varLeaves, leaves_apart, List.filterMap_map, varLeaves, List.map_filterMap]
  refine List.filterMap_congr fun e _ => ?_
  simp only [Function.comp_apply, Atom.var?_apart, Option.map_map]
  rfl

/-- **A quad whose variables are named by their paths is linear.** -/
theorem linear_apart (q : Quad Atom) : q.apart.Linear := by
  have hnames : q.apart.varLeaves.map Prod.fst = (q.varLeaves.map Prod.snd).map Path.dotted := by
    rw [varLeaves_apart, List.map_map, List.map_map]
    rfl
  rw [Linear, hnames]
  exact q.nodup_paths_varLeaves.map fun _ _ => Path.dotted_injective

end Quad

end RdfStar
