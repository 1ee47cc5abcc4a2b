import BoxDiagram.Proofs.Attribute
import BoxDiagram.Proofs.Graph.Integrity
import BoxDiagram.Proofs.TextMap

/-!
# Well-formed graphs

A graph is well formed if it is integral, its ids are made of names that are no keywords, and its
attributes pass the checks. Ids and attributes are looked at apart, since an edit may spoil the
names and leave the rest intact: a graph is *named* by a property if all segments of its ids have
it, and *attributed* if all its attributes are valid. Each step that edits and commands are made of
keeps either.
-/

namespace BoxDiagram

open Dotted

/-! ### Ids segment by segment -/

/-- All segments of the id have a property. -/
def EverySegment (p : String → Prop) (id : String) : Prop := ∀ s ∈ segments id, p s

section EverySegment

variable {p q : String → Prop} {id : String}

theorem EverySegment.imp (h : EverySegment p id) (hpq : ∀ s, p s → q s) : EverySegment q id :=
  fun s hs => hpq s (h s hs)

theorem EverySegment.of_isWithin {top : String} (h : EverySegment p id)
    (hw : isWithin id top = true) : EverySegment p top :=
  fun s hs => h s ((isWithin_iff.mp hw).subset hs)

theorem everySegment_below {parent : Option String} {name : String}
    (hparent : ∀ id ∈ parent, EverySegment p id) (hdot : '.' ∉ name.toList) (hname : p name) :
    EverySegment p (below parent name) := by
  unfold EverySegment
  rw [segments_below hdot]
  intro s hs
  rcases List.mem_append.mp hs with hs | hs
  · cases parent with
    | none => simp at hs
    | some id => exact hparent id rfl s hs
  · exact List.mem_singleton.mp hs ▸ hname

theorem EverySegment.append_remainder {top new : String} (h : EverySegment p id)
    (hw : isWithin id top = true) (hnew : EverySegment p new) :
    EverySegment p (new ++ remainder id top) := by
  unfold EverySegment
  rw [segments_append_remainder hw]
  intro s hs
  rcases List.mem_append.mp hs with hs | hs
  · exact hnew s hs
  · exact h s (List.mem_of_mem_drop hs)

end EverySegment

/-! ### Ids of segments -/

section Segments

variable {id : String} (h : EverySegment IsSegment id)
include h

theorem EverySegment.trimmed : Text.trimmed id = id := by
  have hopens := opensSolid_join (segments_ne_nil id) h
  have hcloses := closesSolid_join (segments_ne_nil id) h
  rw [join_segments] at hopens hcloses
  rw [Text.trimmed, Text.trim_eq_self hopens hcloses, String.ofList_toList]

theorem EverySegment.allowed : ∀ c ∈ id.toList, c ∉ Key.forbidden := by
  have hall := forall_mem_join (p := (· ∉ Key.forbidden)) (by decide) fun n hn => (h n hn).allowed
  rwa [join_segments] at hall

end Segments

/-! ### Ids that can be written -/

/-- **An id that can be written**: its segments are names and no keywords. -/
def IsId : String → Prop := EverySegment IsObjectName

instance : DecidablePred IsId := fun id =>
  inferInstanceAs (Decidable (∀ s ∈ segments id, IsObjectName s))

theorem IsId.isObjectPath {id : String} (h : IsId id) : IsObjectPath (segments id) :=
  ⟨segments_ne_nil id, h⟩

theorem IsId.free {id : String} (h : IsId id) : Arrow.Free id.toList := by
  have hfree := h.isObjectPath.isPath.free
  rwa [join_segments] at hfree

theorem IsId.everySegment {id : String} (h : IsId id) : EverySegment IsSegment id :=
  EverySegment.imp h fun _ hs => hs.toIsSegment

theorem IsId.leaf {id : String} (h : IsId id) : IsObjectName (leaf id) := h _ (leaf_mem_segments id)

theorem isId_join {path : List String} (h : IsObjectPath path) : IsId (join path) := by
  unfold IsId EverySegment
  rw [h.isPath.segments_join]
  exact h.names

/-- The attribute in a slot can have the value. -/
def Slot.Admits : Slot → Option String → Prop
  | .board name, value | .object _ name, value => ∀ v ∈ value, Attribute.IsValid name v
  | .edge _ name, value => ∀ v ∈ value, Attribute.IsValidOnConnection name v

theorem Slot.admits_none (slot : Slot) : slot.Admits none := by
  cases slot <;> simp [Slot.Admits]

namespace Graph

variable {g : Graph}

/-- All segments of all ids have a property. -/
def Named (p : String → Prop) (g : Graph) : Prop := ∀ id ∈ g.ids, EverySegment p id

/-- All attributes are valid. -/
structure Attributed (g : Graph) : Prop where
  board : Attributes.Valid g.board
  objects : ∀ o ∈ g.objects, Attributes.Valid o.attributes
  edges : ∀ e ∈ g.edges, Attributes.ValidOnConnection e.attributes

/-- **A well-formed graph**: integral, with ids that can be written and attributes that are
valid. -/
structure WellFormed (g : Graph) : Prop extends g.Integral where
  named : g.Named IsObjectName
  attributed : g.Attributed

instance : DecidablePred Integral := fun g =>
  decidable_of_iff (g.ids.Nodup ∧ (∀ id ∈ g.ids, ∀ p ∈ parent? id, p ∈ g.ids) ∧
      ∀ e ∈ g.edges, e.source ∈ g.ids ∧ e.target ∈ g.ids)
    ⟨fun ⟨hnodup, hparents, hends⟩ => ⟨hnodup, hparents, hends⟩,
      fun h => ⟨h.nodup, h.parents, h.endpoints⟩⟩

instance : DecidablePred Attributed := fun g =>
  decidable_of_iff (Attributes.Valid g.board ∧ (∀ o ∈ g.objects, Attributes.Valid o.attributes) ∧
      ∀ e ∈ g.edges, Attributes.ValidOnConnection e.attributes)
    ⟨fun ⟨hboard, hobjects, hedges⟩ => ⟨hboard, hobjects, hedges⟩,
      fun h => ⟨h.board, h.objects, h.edges⟩⟩

instance : DecidablePred WellFormed := fun g =>
  decidable_of_iff (g.Integral ∧ (∀ id ∈ g.ids, IsId id) ∧ g.Attributed)
    ⟨fun ⟨hintegral, hnamed, hattributed⟩ => ⟨hintegral, hnamed, hattributed⟩,
      fun h => ⟨h.toIntegral, h.named, h.attributed⟩⟩

theorem attributed_empty : (∅ : Graph).Attributed := ⟨nofun, nofun, nofun⟩

/-! ### Ids -/

section Named

variable {p : String → Prop} (h : g.Named p)
include h

theorem Named.ensure {id : String} (hid : EverySegment p id) : (g.ensure id).Named p := by
  intro x hx
  rw [ids_ensure, List.mem_append] at hx
  rcases hx with hx | hx
  · exact h x hx
  · exact hid.of_isWithin (of_mem_missing hx).2

theorem Named.assign (value : Option String) (slot : Slot) : (g.assign value slot).Named p := by
  unfold Named
  rw [ids_assign]
  exact h

theorem Named.removeObjects (removed : List String) : (g.removeObjects removed).Named p :=
  fun id hid => h id (mem_ids_removeObjects.mp hid).1

end Named

theorem Named.foldl_ensure {p : String → Prop} (h : g.Named p) {ids : List String}
    (hids : ∀ id ∈ ids, EverySegment p id) : (ids.foldl Graph.ensure g).Named p := by
  induction ids generalizing g with
  | nil => exact h
  | cons id ids ih =>
    obtain ⟨hid, hids⟩ := List.forall_mem_cons.mp hids
    exact ih (h.ensure hid) hids

theorem named_remap {p : String → Prop} {f : String → String} (hnodup : (g.ids.map f).Nodup)
    (hf : ∀ id ∈ g.ids, EverySegment p (f id)) : (g.remap f).Named p := by
  intro x hx
  rw [ids_remap hnodup] at hx
  obtain ⟨id, hid, rfl⟩ := List.mem_map.mp hx
  exact hf id hid

/-! ### Attributes -/

theorem Attributed.ensure (h : g.Attributed) (id : String) : (g.ensure id).Attributed where
  board := h.board
  objects := by
    refine List.forall_mem_append.mpr ⟨h.objects, fun o ho => ?_⟩
    obtain ⟨x, -, rfl⟩ := List.mem_map.mp ho
    exact nofun
  edges := h.edges

theorem Attributed.foldl_ensure (h : g.Attributed) (ids : List String) :
    (ids.foldl Graph.ensure g).Attributed := by
  induction ids generalizing g with
  | nil => exact h
  | cons id ids ih => exact ih (h.ensure id)

/-- **Writing a value that a slot admits** keeps the attributes valid. -/
theorem Attributed.assign (h : g.Attributed) {value : Option String} (slot : Slot)
    (hv : slot.Admits value) : (g.assign value slot).Attributed := by
  cases slot with
  | board name => exact ⟨TextMap.forall_entries_assign h.board hv, h.objects, h.edges⟩
  | object id name =>
    refine ⟨h.board, fun o ho => ?_, h.edges⟩
    obtain ⟨o', ho', rfl⟩ := List.mem_map.mp ho
    split_ifs
    · exact TextMap.forall_entries_assign (h.objects o' ho') hv
    · exact h.objects o' ho'
  | edge i name =>
    refine ⟨h.board, h.objects, fun e he => ?_⟩
    obtain ⟨j, hj, rfl⟩ := List.getElem_of_mem he
    have hj' : j < g.edges.length := by simpa [Graph.assign, assignEdge] using hj
    have hold := h.edges g.edges[j] (List.getElem_mem hj')
    simp only [Graph.assign, assignEdge, List.getElem_modify]
    split_ifs
    · exact TextMap.forall_entries_assign hold hv
    · exact hold

theorem Attributed.addEdges (h : g.Attributed) {es : List Edge}
    (hes : ∀ e ∈ es, Attributes.ValidOnConnection e.attributes) :
    Attributed { g with edges := g.edges ++ es } :=
  ⟨h.board, h.objects, List.forall_mem_append.mpr ⟨h.edges, hes⟩⟩

theorem Attributed.removeEdge (h : g.Attributed) (i : Nat) : (g.removeEdge i).Attributed :=
  ⟨h.board, h.objects, fun e he => h.edges e (List.mem_of_mem_eraseIdx he)⟩

theorem Attributed.removeObjects (h : g.Attributed) (removed : List String) :
    (g.removeObjects removed).Attributed :=
  ⟨h.board, fun o ho => h.objects o (List.mem_of_mem_filter ho),
    fun e he => h.edges e (List.mem_of_mem_filter he)⟩

theorem Attributed.withStatements (h : g.Attributed) (statements : Option (List Statement)) :
    (g.withStatements statements).Attributed := ⟨h.board, h.objects, h.edges⟩

theorem Attributed.remap (h : g.Attributed) {f : String → String} (hnodup : (g.ids.map f).Nodup) :
    (g.remap f).Attributed where
  board := h.board
  objects := by
    rw [objects_remap hnodup]
    intro o ho
    obtain ⟨o', ho', rfl⟩ := List.mem_map.mp ho
    exact h.objects o' ho'
  edges e he := by
    obtain ⟨e', he', rfl⟩ := List.mem_map.mp he
    exact h.edges e' he'

end Graph

end BoxDiagram
