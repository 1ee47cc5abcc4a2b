import BoxDiagram.Graph.Basic

/-!
# The forest of objects

Nesting makes the objects of a graph a forest: each root with its children in the order of their
declaration, each child with its own. An object below a missing parent is not part of it. Ids grow on
the way from a parent to its children, so recursions along the children come to an end.
-/

namespace BoxDiagram

/-- An object with the trees of its children. -/
structure Tree where
  object : Object
  children : List Tree
  deriving Repr

namespace Tree

mutual

/-- The objects of a tree, each before those below it. -/
def objects : Tree → List Object
  | ⟨object, children⟩ => object :: objectsAll children

/-- The objects of trees one after the other. -/
def objectsAll : List Tree → List Object
  | [] => []
  | t :: rest => objects t ++ objectsAll rest

end

end Tree

namespace Graph

variable (g : Graph)

def longest : Nat := (g.objects.map (·.id.length)).foldr max 0

theorem le_foldr_max {n : Nat} {ns : List Nat} (h : n ∈ ns) : n ≤ ns.foldr max 0 := by
  induction ns with
  | nil => simp at h
  | cons m rest ih =>
    rw [List.foldr_cons]
    rcases List.mem_cons.1 h with rfl | h
    · omega
    · have := ih h
      omega

theorem length_le_longest {o : Object} (h : o ∈ g.objects) : o.id.length ≤ g.longest :=
  le_foldr_max (List.mem_map_of_mem h)

theorem length_lt_of_mem_childObjects {o : Object} {parent : String}
    (h : o ∈ g.childObjects (some parent)) :
    parent.length < o.id.length ∧ o.id.length ≤ g.longest := by
  simp only [childObjects, List.mem_filter, decide_eq_true_eq] at h
  exact ⟨Dotted.length_lt_of_parent? (o.parent_eq ▸ h.2), g.length_le_longest h.1⟩

theorem length_lt_of_mem_children {id parent : String} (h : id ∈ g.children (some parent)) :
    parent.length < id.length ∧ id.length ≤ g.longest := by
  obtain ⟨o, ho, rfl⟩ := List.mem_map.1 h
  exact g.length_lt_of_mem_childObjects ho

/-- The number of ids that are passed on the way through all that is below an id, itself included. -/
def extent (id : String) : Nat :=
  ((g.children (some id)).attach.map fun ⟨c, h⟩ =>
    have := g.length_lt_of_mem_children h
    extent c).foldr (· + ·) 0 + 1
termination_by g.longest - id.length

/-- The number of ids that are passed on the way through all that is below some ids, themselves
included. -/
def extents (ids : List String) : Nat := (ids.map g.extent).foldr (· + ·) 0

theorem extent_eq (id : String) : g.extent id = g.extents (g.children (some id)) + 1 := by
  rw [extent, extents]
  simp

theorem extents_cons (id : String) (ids : List String) :
    g.extents (id :: ids) = g.extent id + g.extents ids := rfl

theorem extents_append (ids rest : List String) :
    g.extents (ids ++ rest) = g.extents ids + g.extents rest := by
  induction ids with
  | nil => exact (Nat.zero_add _).symm
  | cons id ids ih => rw [List.cons_append, extents_cons, extents_cons, ih, Nat.add_assoc]

/-- The tree of an object. -/
def tree (o : Object) : Tree :=
  ⟨o, (g.childObjects (some o.id)).attach.map fun ⟨c, h⟩ =>
    have := g.length_lt_of_mem_childObjects h
    tree c⟩
termination_by g.longest - o.id.length

theorem tree_eq (o : Object) : g.tree o = ⟨o, (g.childObjects (some o.id)).map g.tree⟩ := by
  rw [tree]
  simp

def forest : List Tree := (g.childObjects none).map g.tree

end Graph

end BoxDiagram
