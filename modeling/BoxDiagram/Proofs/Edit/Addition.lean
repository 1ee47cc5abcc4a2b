import BoxDiagram.Proofs.Edit.Created
import BoxDiagram.Proofs.Graph.Ancestors

/-!
# Additions: what creating puts at the end

Creating never fails on a key without an attribute part, and whatever it does is done at the end of
the graph (`creation_adds`). An object comes after those of its ancestors that are missing, under an
id that is free (`isFreshFor_freePath`); a connection comes behind all edges, after the missing
ancestors of its source, its source, and what is then missing of its target.
-/

namespace BoxDiagram

open Dotted Edit

namespace Graph

variable {g h : Graph} {key id : String}

/-- **The id that a path is given**: its own if that is free, and otherwise the first free one that
has a number after the last name, counted from 2 on. -/
inductive IsFreshFor (g : Graph) (path : List String) : String → Prop
  | plain (hfree : join path ∉ g.ids) : IsFreshFor g path (join path)
  | numbered {n : Nat} (htaken : join path ∈ g.ids) (hn : 2 ≤ n)
      (hfree : join path ++ " " ++ toString n ∉ g.ids)
      (hleast : ∀ m, 2 ≤ m → m < n → join path ++ " " ++ toString m ∈ g.ids) :
      IsFreshFor g path (join path ++ " " ++ toString n)

theorem IsFreshFor.notMem {path : List String} (h : g.IsFreshFor path id) : id ∉ g.ids := by
  cases h with
  | plain hfree => exact hfree
  | numbered htaken hn hfree hleast => exact hfree

/-- **The id that creating chooses is the one that its path is given.** -/
theorem isFreshFor_freePath {path : List String} (hne : path ≠ []) :
    g.IsFreshFor path (g.freePath path) := by
  by_cases hmem : join path ∈ g.ids
  · obtain ⟨n, hchosen, hfree, htaken⟩ := exists_freePath_of_mem hne hmem
    rw [hchosen]
    refine .numbered hmem (Nat.le_add_left 2 n) hfree fun m hm hlt => ?_
    obtain ⟨i, rfl⟩ := Nat.exists_eq_add_of_le' hm
    exact htaken i (by omega)
  · rw [freePath_of_free hne hmem]
    exact .plain hmem

/-- What is missing of two ids and their ancestors: first that of the source, then that of the
target. -/
def missingEnds (g : Graph) (source target : String) : List String :=
  (ancestors source ++ [source]).filter (· ∉ g.ids) ++
    (ancestors target ++ [target]).filter fun x => x ∉ g.ids ∧ x ∉ ancestors source ++ [source]

/-- **Adding both ends of a connection** adds what is missing of them. -/
theorem Integral.ensure_ensure_eq (hg : g.Integral) (source target : String) :
    (g.ensure source).ensure target =
      g.addObjects ((g.missingEnds source target).map Object.blank) := by
  have hids : (g.ensure source).ids =
      g.ids ++ (ancestors source ++ [source]).filter (· ∉ g.ids) := by
    rw [hg.ensure_eq, ids_addObjects_blank]
  have hmissing : ((ancestors target ++ [target]).filter (· ∉ (g.ensure source).ids)) =
      (ancestors target ++ [target]).filter fun x =>
        x ∉ g.ids ∧ x ∉ ancestors source ++ [source] := by
    refine List.filter_congr fun x _ => ?_
    rw [decide_eq_decide, hids, List.mem_append, List.mem_filter, decide_eq_true_iff, not_or]
    exact and_congr_right fun hx => not_congr (and_iff_left hx)
  unfold missingEnds
  rw [(hg.ensure source).ensure_eq, hmissing, hg.ensure_eq, addObjects_addObjects, List.map_append]

/-- **What creating by a key leaves, and its answer**: for a path, the missing ancestors and the
object under the id that the path is given, all of them without attributes; for a connection, what is
missing of its ends and one edge without attributes, with the number of edges that led from the one
end to the other already. -/
inductive Creates (g : Graph) : Key → Graph → String → Prop
  | object {path : List String} {id : String} (hid : g.IsFreshFor path id) :
      Creates g (.object path [])
        (g.addObjects (((ancestors id).filter (· ∉ g.ids) ++ [id]).map Object.blank)) id
  | connection {k : EdgeKey} (hattr : k.attr = []) :
      Creates g (.edge k)
        ((g.addObjects ((g.missingEnds k.sourceId k.targetId).map Object.blank)).addEdge
          (.blank k.sourceId k.arrow k.targetId))
        (indexedEdgeKey k.sourceId k.arrow k.targetId
          (g.edges.countP (Edge.joins k.sourceId k.targetId)))

theorem creates_of_create (hg : g.Integral) (hc : g.create key = .ok (h, id)) :
    ∃ k, Key.parse key = .ok k ∧ g.Creates k h id := by
  obtain ⟨k, hparse⟩ := exists_parse_of_create hc
  refine ⟨k, hparse, ?_⟩
  cases k with
  | object path attr =>
    obtain ⟨rfl, hpath, rfl, rfl⟩ := of_create_object hparse hc
    have hfresh : g.IsFreshFor path (g.freePath path) := isFreshFor_freePath hpath.ne_nil
    rw [hg.ensure_eq, List.filter_append, List.filter_singleton, decide_eq_true hfresh.notMem]
    exact .object hfresh
  | edge k =>
    obtain ⟨hattr, rfl, rfl⟩ := of_create_edge hparse hc
    rw [hg.ensure_ensure_eq, length_edgesBetween]
    exact .connection hattr

theorem exists_create_of_parse {k : Key} (hparse : Key.parse key = .ok k) (hattr : k.attr = []) :
    ∃ h id, g.create key = .ok (h, id) := by
  cases k with
  | object path attr =>
    obtain rfl : attr = [] := hattr
    have hne : path ≠ [] := (Key.isObjectPath_of_parse hparse).ne_nil
    rw [create_of_parse_object hparse, if_neg (by simp [hne])]
    exact ⟨_, _, rfl⟩
  | edge k =>
    have hnone : k.attr = [] := hattr
    rw [create_of_parse_edge hparse, if_neg (not_not.mpr hnone)]
    exact ⟨_, _, rfl⟩

/-- **Creating adds exactly what is asked for.** In an integral graph it succeeds for each key without
an attribute part. What it leaves is the graph with objects without attributes at the end, the object
of a path under an id that is fresh for the path and after its missing ancestors, the ends of a
connection after theirs, and for a connection with one edge behind all others, numbered among those
between its ends. Nothing else changes. -/
theorem creation_adds (hg : g.Integral) :
    (∀ k, Key.parse key = .ok k → k.attr = [] → ∃ h id, g.create key = .ok (h, id)) ∧
      ∀ h id, g.create key = .ok (h, id) → ∃ k, Key.parse key = .ok k ∧ g.Creates k h id :=
  ⟨fun _ hparse hattr => exists_create_of_parse hparse hattr,
    fun _ _ hc => creates_of_create hg hc⟩

/-- A graph in which an id and the first numbered one are taken, with two edges between two objects,
one of them to the left. -/
def crowded : Graph where
  objects := [.blank "a", .blank "a.b", .blank "a.b 2"]
  edges := [.blank "a" .forward "a.b", .blank "a.b" .forward "a", .blank "a" .backward "a.b"]
  board := ∅
  statements := none

/-- The next free number is 3; ends of one lineage are each added once; and an edge between ends that
are there is numbered behind the two others, whatever the index of its key. -/
theorem creation_adds_crowded : crowded.Integral ∧
    (∃ h, crowded.create "a . b" = .ok (h, "a.b 3") ∧
      h.ids = ["a", "a.b", "a.b 2", "a.b 3"] ∧
      crowded.Creates (.object ["a", "b"] []) h "a.b 3") ∧
    (∃ h, crowded.create "x.y.z -- x.w" = .ok (h, "(x.y.z -- x.w)[0]") ∧
      h.ids = ["a", "a.b", "a.b 2", "x", "x.y", "x.y.z", "x.w"] ∧
      crowded.Creates (.edge ⟨["x", "y", "z"], ["x", "w"], .plain, none, []⟩) h
        "(x.y.z -- x.w)[0]") ∧
    ∃ h, crowded.create "(a <-> a.b)[7]" = .ok (h, "(a <-> a.b)[2]") ∧
      h = crowded.addEdge (.blank "a" .both "a.b") := by
  have hintegral : crowded.Integral := by decide +kernel
  have hpath : Key.parse "a . b" = .ok (.object ["a", "b"] []) := by decide +kernel
  have hends : Key.parse "x.y.z -- x.w" =
      .ok (.edge ⟨["x", "y", "z"], ["x", "w"], .plain, none, []⟩) := by decide +kernel
  have hobject : crowded.create "a . b" = .ok (crowded.addObjects [.blank "a.b 3"], "a.b 3") := by
    decide +kernel
  have hconnection : crowded.create "x.y.z -- x.w" = .ok ((crowded.addObjects
      [.blank "x", .blank "x.y", .blank "x.y.z", .blank "x.w"]).addEdge
        (.blank "x.y.z" .plain "x.w"), "(x.y.z -- x.w)[0]") := by decide +kernel
  have hparallel : crowded.create "(a <-> a.b)[7]" =
      .ok (crowded.addEdge (.blank "a" .both "a.b"), "(a <-> a.b)[2]") := by decide +kernel
  refine ⟨hintegral, ⟨_, hobject, by decide +kernel, ?_⟩, ⟨_, hconnection, by decide +kernel, ?_⟩,
    _, hparallel, rfl⟩
  · obtain ⟨k, hk, hcreates⟩ := (creation_adds hintegral).2 _ _ hobject
    obtain rfl := Except.ok.inj (hpath.symm.trans hk)
    exact hcreates
  · obtain ⟨k, hk, hcreates⟩ := (creation_adds hintegral).2 _ _ hconnection
    obtain rfl := Except.ok.inj (hends.symm.trans hk)
    exact hcreates

end Graph

end BoxDiagram
