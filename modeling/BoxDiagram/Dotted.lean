/-!
# Dotted texts: paths and ids

An id is a path of names joined by dots, `system.database`. Its parent is the path without the last
name, its leaf that last name. An id lies within another one when it is that id or continues it
after a dot.
-/

namespace BoxDiagram.Dotted

/-- The texts between the dots; always at least one. -/
def segments (s : String) : List String := (s.toList.splitOn '.').map String.ofList

/-- The text that has the given segments. -/
def join (ss : List String) : String := ".".intercalate ss

/-- The last segment. -/
def leaf (id : String) : String := (segments id).getLast?.getD ""

/-- The path without its last segment; none at the root. -/
def parent? (id : String) : Option String :=
  match (segments id).dropLast with
  | [] => none
  | ss => some (join ss)

/-- The id that a name has below a parent, or at the root if there is none. -/
def below (parent : Option String) (name : String) : String :=
  match parent with
  | some p => p ++ "." ++ name
  | none => name

/-- `id` is `top` itself or continues it after a dot. -/
def isWithin (id top : String) : Bool := id == top || (top ++ ".").toList.isPrefixOf id.toList

/-- What follows `top` in an id within it: nothing, or a dot and a path. -/
def remainder (id top : String) : String := String.ofList (id.toList.drop top.toList.length)

/-- The non-empty prefixes of a list, the shortest first. -/
def prefixes {α : Type} : List α → List (List α)
  | [] => []
  | x :: rest => [x] :: (prefixes rest).map (x :: ·)

/-- The id, its parent, the parent of that, and so on up to the root. -/
def lineage (id : String) : List String := ((prefixes (segments id)).map join).reverse

theorem segments_ne_nil (s : String) : segments s ≠ [] := by
  simp [segments]

theorem toList_join (ss : List String) :
    (join ss).toList = ['.'].intercalate (ss.map String.toList) := String.toList_intercalate

/-- The segments make up the text. -/
theorem join_segments (s : String) : join (segments s) = s := by
  apply String.toList_injective
  rw [toList_join, segments, List.map_map]
  simp [Function.comp_def, List.intercalate_splitOn]

theorem join_append_singleton (ss : List String) (s : String) (h : ss ≠ []) :
    join (ss ++ [s]) = join ss ++ "." ++ s := by
  simp [join, String.intercalate_append_of_ne_nil h]

/-- A parent is shorter than its child. -/
theorem length_lt_of_parent? {id p : String} (h : parent? id = some p) : p.length < id.length := by
  have hlen : id.length = (join ((segments id).dropLast ++
      [(segments id).getLast (segments_ne_nil id)])).length := by
    rw [List.dropLast_concat_getLast, join_segments]
  simp only [parent?] at h
  split at h
  · simp at h
  · next hcut =>
    cases h
    rw [hlen, join_append_singleton _ _ fun hn => hcut hn]
    simp only [String.length_append]
    have : ".".length = 1 := rfl
    omega

theorem isWithin_self (id : String) : isWithin id id = true := by
  simp [isWithin]

end BoxDiagram.Dotted
