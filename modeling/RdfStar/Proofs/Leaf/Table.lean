import Mathlib.Data.List.Forall2
import RdfStar.Leaf.Table
import RdfStar.Proofs.Leaf.Apart
import RdfStar.Proofs.Leaf.Omission
import RdfStar.Proofs.Term.Renaming

/-!
# What the table of leaves tells

A row of the table of leaves says where a leaf stands, and of the leaf its type and its value. The
text of the path can be split again, and leads to the leaf. So the table tells everything about a
quad but what the literals in it state besides their values, whether or not default graphs are left
out.

Principal results: `LeafRow.ofLeaf_eq_iff` — what a row tells of a leaf; `Quad.leafTable_faithful` —
what the rows say is so, and which quads have the same table.
-/

namespace RdfStar

/-! ## Erased annotations -/

/-- An atom with the language and the datatype of a literal erased. -/
def Atom.bare : Atom → Atom
  | .literal x => .literal (.plain x.value)
  | a => a

theorem Literal.plain_inj {v w : String} : plain v = plain w ↔ v = w := by
  constructor
  · intro h
    simpa [plain] using congrArg value h
  · rintro rfl
    rfl

namespace Atom

theorem isDefaultGraph_bare (a : Atom) : Leaf.isDefaultGraph a.bare = Leaf.isDefaultGraph a := by
  cases a <;> rfl

/-- What is left of an atom is its type and its value. -/
theorem bare_eq_bare_iff {a b : Atom} : a.bare = b.bare ↔ a.type = b.type ∧ a.value = b.value := by
  cases a <;> cases b <;> simp [bare, type, value, Literal.plain_inj]

end Atom

/-- A quad with the language and the datatype of every literal in it erased. -/
def Quad.bare (q : Quad Atom) : Quad Atom := q.map Atom.bare

/-! ## Rows -/

namespace LeafRow

/-- The path of a row, split at its dots. -/
def segments (row : LeafRow) : List String := (row.path.toList.splitOn '.').map String.ofList

theorem segments_ofLeaf (a : Atom) {path : Path} (h : path ≠ []) :
    (ofLeaf a path).segments = path.names := by
  rw [segments, ofLeaf, Path.splitOn_dotted h, List.map_map]
  simp [Function.comp_def]

/-- A row tells the path of a leaf, its type and its value, and nothing else. -/
theorem ofLeaf_eq_iff {a b : Atom} {p q : Path} :
    ofLeaf a p = ofLeaf b q ↔ a.bare = b.bare ∧ p = q := by
  rw [Atom.bare_eq_bare_iff]
  constructor
  · intro h
    have hpath := congrArg path h
    have htype := congrArg type h
    have hvalue := congrArg value h
    exact ⟨⟨TermType.name_injective htype, hvalue⟩, Path.dotted_injective hpath⟩
  · rintro ⟨⟨htype, hvalue⟩, rfl⟩
    rw [ofLeaf, ofLeaf, htype, hvalue]

/-- What a row says of a leaf in a quad, given with its path, is so: the path of the row, split at its
dots, leads to the leaf, and to its type and value. -/
structure Describes (Q : Quad Atom) (e : Atom × Path) (row : LeafRow) : Prop where
  found : (resolve Q.toNested row.segments).outcome = (.ok (.leaf e.1), [])
  path_names : row.segments = e.2.names
  last_step : row.segments.getLast? = some row.position
  steps : row.segments.length = row.depth + 1
  type_name : row.type = (Term.type (.leaf e.1)).name
  value : row.value = Term.value (.leaf e.1)

theorem describes_ofLeaf {Q : Quad Atom} {a : Atom} {path : Path} (hpath : path ≠ [])
    (hleaf : Q.toNested.at? path = some (.leaf a)) : (ofLeaf a path).Describes Q (a, path) := by
  have hsegments := segments_ofLeaf a hpath
  have hlength := List.length_pos_of_ne_nil hpath
  refine ⟨?_, hsegments, ?_, ?_, rfl, rfl⟩
  · rw [hsegments]
    exact Quad.leadsTo_iff.mpr hleaf
  · obtain ⟨p, hp⟩ := Option.ne_none_iff_exists'.mp (mt List.getLast?_eq_none_iff.mp hpath)
    rw [hsegments]
    simp [Path.names, ofLeaf, hp]
  · rw [hsegments]
    simp only [Path.names, List.length_map, ofLeaf]
    omega

end LeafRow

/-! ## Reported leaves -/

namespace Nested

variable {α β : Type} [Leaf α] [Leaf β]

/-- A map that makes and unmakes no default graph keeps every leaf in its place. -/
theorem frontier_map_of_isDefaultGraph {f : α → β}
    (hf : ∀ a, Leaf.isDefaultGraph (f a) = Leaf.isDefaultGraph a) (t : Nested α)
    (dropDefault : Bool) :
    (t.map f).frontier dropDefault = (t.frontier dropDefault).map fun e => (f e.1, e.2) := by
  cases dropDefault with
  | false => exact t.frontier_map f
  | true =>
    rw [frontier_true, frontier_true, frontier_map, List.filter_map]
    refine congrArg _ (List.filter_congr fun e _ => ?_)
    simp [staysReported, hf]

/-- Whether or not default graphs are left out, a leaf that is reported is found at its path. -/
theorem at?_of_mem_frontier {t : Nested α} {dropDefault : Bool} {e : α × Path}
    (he : e ∈ t.frontier dropDefault) : t.at? e.2 = some (.leaf e.1) := by
  cases dropDefault with
  | false => exact mem_frontier_iff.mp he
  | true =>
    rw [frontier_true] at he
    exact mem_frontier_iff.mp (List.mem_of_mem_filter he)

end Nested

/-! ## The table -/

namespace Quad

theorem leaves_bare (q : Quad Atom) (dropDefault : Bool) :
    q.bare.leaves dropDefault = (q.leaves dropDefault).map fun e => (e.1.bare, e.2) := by
  rw [leaves_eq_frontier, leaves_eq_frontier]
  exact q.toNested.frontier_map_of_isDefaultGraph Atom.isDefaultGraph_bare dropDefault

theorem nodup_paths_leafTable (q : Quad Atom) (dropDefault : Bool) :
    ((q.leafTable dropDefault).map LeafRow.path).Nodup := by
  have hpaths : (q.leafTable dropDefault).map LeafRow.path =
      ((q.leaves dropDefault).map Prod.snd).map Path.dotted := by
    rw [leafTable, List.map_map, List.map_map]
    rfl
  rw [hpaths, leaves_eq_frontier]
  exact (q.toNested.inOrder_frontier dropDefault).nodup_paths.map fun _ _ => Path.dotted_injective

theorem describes_leafTable (q : Quad Atom) (dropDefault : Bool) :
    List.Forall₂ (fun e row => row.Describes q e) (q.leaves dropDefault)
      (q.leafTable dropDefault) := by
  rw [leafTable, List.forall₂_map_right_iff, List.forall₂_same, leaves_eq_frontier]
  rintro ⟨a, path⟩ he
  refine LeafRow.describes_ofLeaf ?_ (Nested.at?_of_mem_frontier he)
  rintro rfl
  exact Nested.nil_not_mem_frontier_quad he

/-- Tables are the same exactly if the leaves are, but for the annotations of literals. -/
theorem leafTable_eq_iff {Q R : Quad Atom} {dropDefault : Bool} :
    Q.leafTable dropDefault = R.leafTable dropDefault ↔
      Q.bare.leaves dropDefault = R.bare.leaves dropDefault := by
  rw [leafTable, leafTable, leaves_bare, leaves_bare, ← List.forall₂_eq_eq_eq (α := LeafRow),
    ← List.forall₂_eq_eq_eq (α := Atom × Path)]
  simp only [List.forall₂_map_left_iff, List.forall₂_map_right_iff, LeafRow.ofLeaf_eq_iff,
    Prod.mk.injEq]

/-- **Rows and leaves correspond one to one**, in the order of the traversal: the path of a row,
split at its dots, leads to the leaf, of which the row gives type and value, and it has the position
of the row as its last step and one step more than the depth of the row. No path occurs twice, and
two quads have the same rows exactly if they are the same with the annotations of their literals
erased. All of this holds with and without default graphs. -/
theorem leafTable_faithful (dropDefault : Bool) :
    (∀ Q : Quad Atom,
      List.Forall₂ (fun e row => row.Describes Q e) (Q.leaves dropDefault)
        (Q.leafTable dropDefault) ∧
      ((Q.leafTable dropDefault).map LeafRow.path).Nodup) ∧
    ∀ Q R : Quad Atom, Q.leafTable dropDefault = R.leafTable dropDefault ↔ Q.bare = R.bare := by
  refine ⟨fun Q => ⟨Q.describes_leafTable dropDefault, Q.nodup_paths_leafTable dropDefault⟩,
    fun Q R => leafTable_eq_iff.trans ⟨fun h => ?_, fun h => by rw [h]⟩⟩
  rw [leaves_eq_frontier, leaves_eq_frontier] at h
  exact toNested_injective (Term.eq_of_mem_frontier_iff fun e => by rw [h])

end Quad

end RdfStar
