import BoxDiagram.Edit.Request
import BoxDiagram.Proofs.Edit.Mapping
import BoxDiagram.Proofs.Edit.Slot
import BoxDiagram.Proofs.Key

/-!
# What an edit can do

A successful edit does one of nine things to a graph (`Edited`), each with what its checks have made
sure of. From this it follows what edits keep: a graph stays integral (`Edited.integral`) and
attributed (`Edited.attributed`), and its ids keep what all names have (`Edited.named`), where the
names that a renaming gives may hold arrows and those of keys may not.
-/

namespace BoxDiagram

open Dotted Attribute

/-- The action is a renaming whose new name holds an arrow. -/
def Action.namesArrow : Action → Bool
  | rename newName => Arrow.occursIn newName
  | _ => false

/-- The attribute part of a key. -/
def Key.attr : Key → List String
  | .object _ attr => attr
  | .edge k => k.attr

/-! ### Ids as keys -/

theorem Key.parse_of_isId {id : String} (h : IsId id) :
    Key.parse id = .ok (.object (segments id) []) := by
  have hparse := Key.parse_join h.isObjectPath
  rwa [join_segments] at hparse

theorem Edit.objectId_of_isId {id : String} (h : IsId id) : Edit.objectId id = .ok id := by
  unfold Edit.objectId Edit.parseKey
  rw [Key.parse_of_isId h]
  show (if [] = [] ∧ segments id ≠ [] then Except.ok (join (segments id)) else _) = _
  rw [if_pos ⟨rfl, segments_ne_nil id⟩, join_segments]

namespace Graph

variable {g k : Graph} {a : Action}

/-- **What a successful edit does**, and what it has checked. -/
inductive Edited (g : Graph) : Action → Graph → Prop
  | unchanged {a : Action} : Edited g a g
  | added {a : Action} {id : String} (hid : IsId id) : Edited g a (g.ensure id)
  | connected {a : Action} {source target : String} {arrow : Arrow} (hsource : IsId source)
      (htarget : IsId target) :
      Edited g a (((g.ensure source).ensure target).addEdge (.blank source arrow target))
  | labelled {a : Action} {id : String} {value : Option String} (hid : IsId id) :
      Edited g a ((g.ensure id).assign value (.object id "label"))
  | assigned {a : Action} (slot : Slot) {value : Option String} (hvalue : slot.Admits value) :
      Edited g a (g.assign value slot)
  | removed {a : Action} {id : String} (hid : id ∈ g.ids) :
      Edited g a (g.removeObjects (g.subtree id))
  | disconnected {a : Action} {i : Nat} : Edited g a (g.removeEdge i)
  | moved {a : Action} {old new : String} {moves : List (String × String)} (hold : old ∈ g.ids)
      (hnew : IsId new) (hmoves : moves = g.transplant old new ∨ moves = g.hoist old new)
      (hcheck : g.checkMapping (TextMap.ofList moves) [] (TextMap.ofList moves).entries = .ok ()) :
      Edited g a ((g.applyMapping (TextMap.ofList moves)).ensureParent new)
  | renamed {newName old name : String} (hold : old ∈ g.ids) (hname : IsSegment name)
      (hreserved : isReserved name = false)
      (harrow : Arrow.Free name.toList ↔ Arrow.Free newName.toList)
      (hfree : below (parent? old) name ∉ g.ids) :
      Edited g (.rename newName) (g.applyMapping (TextMap.ofList
        (g.transplant old (below (parent? old) name))))

/-! ### What edits keep -/

theorem relocates_of_moves (h : g.Integral) {old new : String} {moves : List (String × String)}
    (hold : old ∈ g.ids) (hmoves : moves = g.transplant old new ∨ moves = g.hoist old new) :
    g.Relocates (newId moves) old new := by
  rcases hmoves with rfl | rfl
  · exact h.relocates_transplant hold new
  · exact h.relocates_hoist new hold

theorem Named.ensureParent {p : String → Prop} (h : g.Named p) {id : String}
    (hid : EverySegment p id) : (g.ensureParent id).Named p := by
  unfold Graph.ensureParent
  cases hp : parent? id with
  | none => exact h
  | some parent => exact h.ensure (hid.of_isWithin (isWithin_parent hp))

theorem Attributed.ensureParent (h : g.Attributed) (id : String) :
    (g.ensureParent id).Attributed := by
  unfold Graph.ensureParent
  cases parent? id with
  | none => exact h
  | some p => exact h.ensure p

/-- **Every edit keeps a graph integral.** -/
theorem Edited.integral (he : g.Edited a k) (h : g.Integral) : k.Integral := by
  cases he with
  | unchanged => exact h
  | added => exact h.ensure _
  | @connected _ source target arrow hsource htarget =>
    have hs : source ∈ ((g.ensure source).ensure target).ids :=
      mem_ids_ensure_of_mem (mem_ids_ensure g source) target
    have ht : target ∈ ((g.ensure source).ensure target).ids := mem_ids_ensure _ target
    refine ((h.ensure source).ensure target).addEdges fun e he => ?_
    rw [List.mem_singleton.mp he]
    exact ⟨hs, ht⟩
  | labelled => exact (h.ensure _).assign _ _
  | assigned => exact h.assign _ _
  | removed hid => exact h.removeSubtree hid
  | disconnected => exact h.removeEdge _
  | moved hold hnew hmoves hcheck =>
    exact h.moved (relocates_of_moves h hold hmoves) (injective_of_checkMapping hcheck)
  | renamed hold hname hreserved harrow hfree => exact h.renamed hold hname.noDot hfree

/-- **Every edit keeps the attributes valid.** -/
theorem Edited.attributed (he : g.Edited a k) (h : g.Integral) (ha : g.Attributed) :
    k.Attributed := by
  cases he with
  | unchanged => exact ha
  | added => exact ha.ensure _
  | connected => exact ((ha.ensure _).ensure _).addEdges (by simpa using nofun)
  | @labelled _ id value =>
    refine (ha.ensure id).assign (.object id "label") fun v _ => ?_
    exact (isValidOnConnection_label v).toIsValid
  | assigned slot hvalue => exact ha.assign slot hvalue
  | removed => exact ha.removeObjects _
  | disconnected => exact ha.removeEdge _
  | moved hold hnew hmoves hcheck =>
    exact (ha.remap (h.nodup.map_on (injective_of_checkMapping hcheck))).ensureParent _
  | renamed hold hname hreserved harrow hfree =>
    exact ha.remap (h.nodup.map_on (h.injective_transplant hold hfree))

/-- **What the names of all keys have, the segments of all ids keep**, if the names that a renaming
gives have it too. -/
theorem Edited.named {p : String → Prop} (he : g.Edited a k) (h : g.Integral) (hn : g.Named p)
    (hkey : ∀ s, IsObjectName s → p s)
    (hrename : ∀ newName name, a = .rename newName → IsSegment name → isReserved name = false →
      (Arrow.Free name.toList ↔ Arrow.Free newName.toList) → p name) : k.Named p := by
  cases he with
  | unchanged => exact hn
  | added hid => exact hn.ensure (hid.imp hkey)
  | connected hs ht => exact (hn.ensure (hs.imp hkey)).ensure (ht.imp hkey)
  | labelled hid => exact (hn.ensure (hid.imp hkey)).assign _ _
  | assigned => exact hn.assign _ _
  | removed => exact hn.removeObjects _
  | disconnected => exact hn
  | moved hold hnew hmoves hcheck =>
    have hids := (relocates_of_moves h hold hmoves).names p hn (hnew.imp hkey)
    exact (named_remap (h.nodup.map_on (injective_of_checkMapping hcheck)) hids).ensureParent
      (hnew.imp hkey)
  | @renamed newName old name hold hname hreserved hiff hfree =>
    have hparent : ∀ q ∈ parent? old, EverySegment p q := fun q hq => hn q (h.parents old hold q hq)
    have hnew : EverySegment p (below (parent? old) name) :=
      everySegment_below hparent hname.noDot (hrename newName name rfl hname hreserved hiff)
    exact named_remap (h.nodup.map_on (h.injective_transplant hold hfree))
      ((h.relocates_transplant hold _).names p hn hnew)

/-! ### What the actions do -/

section Keys

variable {key newKey : String} {path attr : List String} {tag value : Option String}

theorem existing_eq_ok_iff {id : String} :
    g.existing path = .ok id ↔ join path ∈ g.ids ∧ join path = id := by
  unfold existing
  dsimp only
  rw [← contains_iff]
  split_ifs with hc <;> simp [hc]

theorem mem_ids_of_existing {id : String} (h : g.existing path = .ok id) : id ∈ g.ids := by
  obtain ⟨hmem, rfl⟩ := existing_eq_ok_iff.mp h
  exact hmem

theorem exists_parse_of_objectId {id : String} (h : Edit.objectId key = .ok id) :
    ∃ path, Key.parse key = .ok (.object path []) ∧ join path = id := by
  unfold Edit.objectId Edit.parseKey at h
  simp only [bind_eq_ok, mapError_eq_ok] at h
  obtain ⟨k, hk, h⟩ := h
  split at h
  · split_ifs at h with hobject
    obtain ⟨rfl, -⟩ := hobject
    exact ⟨_, hk, Except.ok.inj h⟩
  · simp at h

theorem isId_of_objectId {id : String} (h : Edit.objectId key = .ok id) : IsId id := by
  obtain ⟨path, hparse, rfl⟩ := exists_parse_of_objectId h
  exact isId_join (Key.isObjectPath_of_parse hparse)

/-! ### Creating -/

theorem below_dropLast (hne : path ≠ []) :
    below (if path.dropLast = [] then none else some (join path.dropLast)) (path.getLast?.getD "") =
      join path := by
  obtain ⟨front, last, rfl⟩ : ∃ front last, path = front ++ [last] :=
    ⟨_, _, (List.dropLast_append_getLast hne).symm⟩
  rw [List.dropLast_concat, List.getLast?_concat, Option.getD_some]
  split_ifs with hfront
  · rw [hfront, List.nil_append, join_singleton]
    rfl
  · rw [join_append_singleton _ _ hfront]
    rfl

/-- The id that is chosen for an object path. -/
def freePath (g : Graph) (path : List String) : String :=
  g.freeId (if path.dropLast = [] then none else some (join path.dropLast)) (path.getLast?.getD "")

theorem isId_freePath (hpath : IsObjectPath path) : IsId (g.freePath path) := by
  have hlast : path.getLast?.getD "" ∈ path := by
    rw [List.getLast?_eq_some_getLast hpath.ne_nil]
    exact List.getLast_mem hpath.ne_nil
  refine isId_freeId g (fun p hp => ?_) (hpath.names _ hlast)
  rw [Option.mem_def] at hp
  split_ifs at hp with hroot
  rw [← Option.some.inj hp]
  exact isId_join ⟨hroot, fun n hn => hpath.names n (List.mem_of_mem_dropLast hn)⟩

/-- **What creating an object does**: it adds one under the id that is chosen for its path. -/
theorem create_of_parse_object (hparse : Key.parse key = .ok (.object path attr)) :
    g.create key = if attr ≠ [] ∨ path = [] then .error (.attributeCreated key)
      else .ok (g.ensure (g.freePath path), g.freePath path) := by
  unfold create Edit.parseKey
  rw [hparse]
  rfl

theorem of_create_object {id : String} (hparse : Key.parse key = .ok (.object path attr))
    (h : g.create key = .ok (k, id)) :
    attr = [] ∧ IsObjectPath path ∧ id = g.freePath path ∧ k = g.ensure id := by
  rw [create_of_parse_object hparse] at h
  split_ifs at h with hattr
  obtain ⟨rfl, rfl⟩ := Prod.mk.inj (Except.ok.inj h)
  obtain ⟨rfl, -⟩ := not_or.mp hattr |>.imp_left not_not.mp
  exact ⟨rfl, Key.isObjectPath_of_parse hparse, rfl, rfl⟩

/-- **What creating a connection does**: it adds its endpoints, and an edge at the end. -/
theorem create_of_parse_edge {e : EdgeKey} (hparse : Key.parse key = .ok (.edge e)) :
    g.create key = if e.attr ≠ [] then .error (.attributeCreated key)
      else .ok (((g.ensure e.sourceId).ensure e.targetId).addEdge
        (.blank e.sourceId e.arrow e.targetId), indexedEdgeKey e.sourceId e.arrow e.targetId
          (g.edgesBetween e.sourceId e.targetId).length) := by
  unfold create Edit.parseKey
  rw [hparse]
  rfl

theorem of_create_edge {e : EdgeKey} {id : String} (hparse : Key.parse key = .ok (.edge e))
    (h : g.create key = .ok (k, id)) : e.attr = [] ∧
      k = ((g.ensure e.sourceId).ensure e.targetId).addEdge
        (.blank e.sourceId e.arrow e.targetId) ∧
      id = indexedEdgeKey e.sourceId e.arrow e.targetId
        (g.edgesBetween e.sourceId e.targetId).length := by
  rw [create_of_parse_edge hparse] at h
  split_ifs at h with hattr
  obtain ⟨rfl, rfl⟩ := Prod.mk.inj (Except.ok.inj h)
  exact ⟨not_not.mp hattr, rfl, rfl⟩

theorem exists_parse_of_create {id : String} (h : g.create key = .ok (k, id)) :
    ∃ parsed, Key.parse key = .ok parsed := by
  unfold create Edit.parseKey at h
  rw [bind_eq_ok] at h
  obtain ⟨parsed, hparsed, -⟩ := h
  exact ⟨parsed, mapError_eq_ok.mp hparsed⟩

theorem edited_of_create {id : String} (h : g.create key = .ok (k, id)) : g.Edited a k := by
  obtain ⟨parsed, hparsed⟩ := exists_parse_of_create h
  cases parsed with
  | object path attr =>
    obtain ⟨-, hpath, rfl, rfl⟩ := of_create_object hparsed h
    exact .added (isId_freePath hpath)
  | edge e =>
    obtain ⟨-, rfl, -⟩ := of_create_edge hparsed h
    obtain ⟨hs, ht⟩ := Key.isObjectPath_of_parse_edge hparsed
    exact .connected (isId_join hs) (isId_join ht)

/-! ### Setting -/

theorem of_applyTag {p : String → Prop} (tag : Option String) (hp : ∀ n ∈ path, p n)
    (hne : attr = [] → path ≠ []) :
    (∀ n ∈ (Edit.applyTag tag path attr).1, p n) ∧
      ((Edit.applyTag tag path attr).2 = [] → (Edit.applyTag tag path attr).1 ≠ []) := by
  unfold Edit.applyTag
  split
  · exact ⟨hp, hne⟩
  · split_ifs with h₁ h₂
    · exact ⟨hp, hne⟩
    · exact ⟨fun n hn => hp n (List.mem_of_mem_dropLast hn), by simp⟩
    · exact ⟨hp, by simp⟩

theorem isValid_of_checkValue {name : String} (hname : nameOf attr = .ok name)
    (h : Edit.checkValue name value = .ok ()) : ∀ v ∈ value, IsValid name v := by
  intro v hv
  rw [Option.mem_def.mp hv] at h
  exact isValid_of_nameOf hname (mapError_eq_ok.mp h)

theorem edited_of_setObject (hnames : ∀ n ∈ path, IsObjectName n)
    (hne : attr = [] → path ≠ []) (h : g.setObject path attr value = .ok k) : g.Edited a k := by
  unfold setObject Edit.attributeName at h
  split_ifs at h with hattr hpath
  · rw [← eq_of_write h]
    exact .labelled (isId_join ⟨hne hattr, hnames⟩)
  · simp only [bind_eq_ok, mapError_eq_ok] at h
    obtain ⟨name, hname, ⟨⟩, hcheck, h⟩ := h
    rw [← eq_of_write h]
    exact .assigned (.board name) (isValid_of_checkValue hname hcheck)
  · simp only [bind_eq_ok, mapError_eq_ok] at h
    obtain ⟨name, hname, ⟨⟩, hcheck, id, -, h⟩ := h
    rw [← eq_of_write h]
    exact .assigned (.object id name) (isValid_of_checkValue hname hcheck)

theorem nameOf_of_connectionAttribute {name : String}
    (h : Edit.connectionAttribute tag attr = .ok name) : ∃ path, nameOf path = .ok name := by
  unfold Edit.connectionAttribute Edit.attributeName at h
  split at h
  · exact ⟨_, mapError_eq_ok.mp h⟩
  · split_ifs at h
    · exact ⟨["label"], Except.ok.inj h ▸ by decide⟩
    · exact ⟨_, mapError_eq_ok.mp h⟩

theorem edited_of_setEdge {e : EdgeKey} (h : g.setEdge e tag value = .ok k) : g.Edited a k := by
  unfold setEdge Edit.checkConnectionName at h
  simp only [bind_eq_ok, mapError_eq_ok] at h
  obtain ⟨i, -, name, hname, ⟨⟩, hcarried, ⟨⟩, hcheck, h⟩ := h
  obtain ⟨path, hpath⟩ := nameOf_of_connectionAttribute hname
  rw [← eq_of_write h]
  exact .assigned (.edge i name) fun v hv =>
    ⟨isValid_of_checkValue hpath hcheck v hv, hcarried⟩

theorem edited_of_set (h : g.set key tag value = .ok k) : g.Edited a k := by
  unfold set Edit.parseKey at h
  simp only [bind_eq_ok, mapError_eq_ok] at h
  obtain ⟨parsed, hparsed, h⟩ := h
  split at h
  · next path attr =>
    obtain ⟨hnames, hne⟩ := Key.of_parse_object hparsed
    obtain ⟨hnames', hne'⟩ := of_applyTag tag hnames hne
    exact edited_of_setObject hnames' hne' h
  · exact edited_of_setEdge h

/-! ### Deleting -/

/-- **What a deletion that succeeds has done**: it has removed the subtree of an object, or one edge,
or it has emptied the slot of an attribute. -/
theorem of_delete (h : g.delete key = .ok k) : ∃ parsed, Key.parse key = .ok parsed ∧
    ((∃ path id, parsed = .object path [] ∧ g.existing path = .ok id ∧
        k = g.removeObjects (g.subtree id)) ∨
      (∃ e i, parsed = .edge e ∧ e.attr = [] ∧ g.resolve e = .ok i ∧ k = g.removeEdge i) ∨
      parsed.attr ≠ [] ∧ ∃ slot, g.attributeSlot parsed = .ok slot ∧ k = g.assign none slot) := by
  unfold delete Edit.parseKey at h
  obtain ⟨parsed, hparse, h⟩ := bind_eq_ok.mp h
  refine ⟨parsed, mapError_eq_ok.mp hparse, ?_⟩
  cases parsed with
  | object path attr =>
    cases attr with
    | nil =>
      obtain ⟨id, hid, h⟩ := bind_eq_ok.mp h
      exact Or.inl ⟨path, id, rfl, hid, (pure_eq_ok.mp h).symm⟩
    | cons name rest =>
      obtain ⟨slot, hslot, h⟩ := bind_eq_ok.mp h
      exact Or.inr (Or.inr ⟨List.cons_ne_nil name rest, slot, hslot, (eq_of_write h).symm⟩)
  | edge e =>
    obtain ⟨source, target, arrow, index, attr⟩ := e
    cases attr with
    | nil =>
      obtain ⟨i, hi, h⟩ := bind_eq_ok.mp h
      exact Or.inr (Or.inl ⟨_, i, rfl, rfl, hi, (pure_eq_ok.mp h).symm⟩)
    | cons name rest =>
      obtain ⟨slot, hslot, h⟩ := bind_eq_ok.mp h
      exact Or.inr (Or.inr ⟨List.cons_ne_nil name rest, slot, hslot, (pure_eq_ok.mp h).symm⟩)

theorem edited_of_delete (h : g.delete key = .ok k) : g.Edited a k := by
  obtain ⟨parsed, -, ⟨path, id, -, hid, rfl⟩ | ⟨e, i, -, -, -, rfl⟩ | ⟨-, slot, -, rfl⟩⟩ := of_delete h
  · exact .removed (mem_ids_of_existing hid)
  · exact .disconnected
  · exact .assigned slot slot.admits_none

/-! ### Moving and renaming -/

/-- The new ids that a move gives, with the old ones. -/
def moves (g : Graph) (old new : String) (withDescendants : Bool) : List (String × String) :=
  if withDescendants then g.transplant old new else g.hoist old new

/-- **What moving an object does**: nothing if it is to stay where it is; otherwise it replaces ids by
a mapping that passes the check, and adds the missing ancestors. -/
theorem move_eq_ok_iff {withDescendants : Bool} : g.move key newKey withDescendants = .ok k ↔
    ∃ old new, Edit.objectId key = .ok old ∧ Edit.objectId newKey = .ok new ∧ old ∈ g.ids ∧
      (new = old ∧ k = g ∨ new ≠ old ∧ ¬ isWithin new old = true ∧
        g.checkMapping (TextMap.ofList (g.moves old new withDescendants)) []
          (TextMap.ofList (g.moves old new withDescendants)).entries = .ok () ∧
        k = (g.applyMapping (TextMap.ofList (g.moves old new withDescendants))).ensureParent new) := by
  unfold move
  rw [bind_eq_ok]
  refine exists_congr fun old => ?_
  rw [exists_and_left]
  refine and_congr_right fun _ => ?_
  by_cases hold : old ∈ g.ids
  · have hc : ¬ (!g.contains old) = true := by simp [contains_iff.mpr hold]
    rw [if_neg hc, bind_eq_ok]
    refine exists_congr fun new => and_congr_right fun _ => ?_
    by_cases hsame : new = old
    · rw [if_pos hsame, pure_eq_ok]
      constructor
      · rintro rfl
        exact ⟨hold, Or.inl ⟨hsame, rfl⟩⟩
      · rintro ⟨-, ⟨-, rfl⟩ | ⟨hne, -⟩⟩
        · rfl
        · exact absurd hsame hne
    by_cases hwithin : isWithin new old = true
    · simp [hsame, hwithin]
    rw [if_neg hsame, if_neg hwithin]
    simp only [bind_eq_ok, pure_eq_ok]
    constructor
    · rintro ⟨⟨⟩, hcheck, rfl⟩
      exact ⟨hold, Or.inr ⟨hsame, hwithin, hcheck, rfl⟩⟩
    · rintro ⟨-, ⟨he, -⟩ | ⟨-, -, hcheck, rfl⟩⟩
      · exact absurd he hsame
      · exact ⟨(), hcheck, rfl⟩
  · have hc : (!g.contains old) = true := by simp [contains_eq_false_iff.mpr hold]
    simp [hc, hold]

theorem edited_of_move {withDescendants : Bool} (h : g.move key newKey withDescendants = .ok k) :
    g.Edited a k := by
  obtain ⟨old, new, -, hnew, hold, ⟨-, rfl⟩ | ⟨-, -, hcheck, rfl⟩⟩ := move_eq_ok_iff.mp h
  · exact .unchanged
  · refine .moved hold (isId_of_objectId hnew) ?_ hcheck
    cases withDescendants with
    | true => exact Or.inl rfl
    | false => exact Or.inr rfl

/-- What is read as a new name: a segment that is no keyword, and that holds an arrow exactly if the
text does. -/
theorem of_newName {text name : String} (h : Edit.newName text = .ok name) :
    IsSegment name ∧ isReserved name = false ∧
      (Arrow.Free name.toList ↔ Arrow.Free text.toList) := by
  unfold Edit.newName at h
  simp only [bind_eq_ok, mapError_eq_ok] at h
  obtain ⟨names, hnames, h⟩ := h
  split at h
  · split_ifs at h with hres
    obtain rfl := Except.ok.inj h
    refine ⟨((Key.isSegment_of_readPath hnames).2 _ (List.mem_singleton_self _)).1,
      by simpa using hres, ?_⟩
    rw [Key.toList_of_readPath_singleton hnames, free_trim_iff]
  · simp at h

/-- The id of an object to be renamed, and its new id: the old one, or one that is free. -/
theorem of_renameTarget {newName old new : String} (h : g.renameTarget key newName = .ok (old, new)) :
    Edit.objectId key = .ok old ∧ old ∈ g.ids ∧ ∃ name, Edit.newName newName = .ok name ∧
      (below (parent? old) name = old ∧ new = old ∨ new = g.freeId (parent? old) name) := by
  unfold renameTarget at h
  simp only [bind_eq_ok] at h
  obtain ⟨parsed, -, h⟩ := h
  split at h
  · simp at h
  · simp only [bind_eq_ok] at h
    obtain ⟨id, hobject, h⟩ := h
    by_cases hc : (!g.contains id) = true
    · simp [hc] at h
    rw [if_neg hc] at h
    simp only [bind_eq_ok] at h
    obtain ⟨name, hname, h⟩ := h
    have hid : id ∈ g.ids := contains_iff.mp (by simpa using hc)
    split_ifs at h with hsame
    · obtain ⟨rfl, rfl⟩ := Prod.mk.inj (pure_eq_ok.mp h)
      exact ⟨hobject, hid, name, hname, Or.inl ⟨hsame, rfl⟩⟩
    · obtain ⟨rfl, rfl⟩ := Prod.mk.inj (pure_eq_ok.mp h)
      exact ⟨hobject, hid, name, hname, Or.inr rfl⟩

/-- **What renaming an object does**: nothing if the id stays, and otherwise it replaces the ids of the
subtree. -/
theorem rename_eq_ok_iff {newName new : String} : g.rename key newName = .ok (k, new) ↔
    ∃ old, g.renameTarget key newName = .ok (old, new) ∧
      k = if old = new then g else g.applyMapping (TextMap.ofList (g.transplant old new)) := by
  unfold rename
  rw [bind_eq_ok]
  constructor
  · rintro ⟨⟨old, new'⟩, htarget, h⟩
    dsimp only at h
    split_ifs at h with hsame
    · obtain ⟨rfl, rfl⟩ := Prod.mk.inj (pure_eq_ok.mp h)
      exact ⟨old, htarget, (if_pos hsame).symm⟩
    · obtain ⟨rfl, rfl⟩ := Prod.mk.inj (pure_eq_ok.mp h)
      exact ⟨old, htarget, (if_neg hsame).symm⟩
  · rintro ⟨old, htarget, rfl⟩
    refine ⟨(old, new), htarget, ?_⟩
    dsimp only
    split_ifs <;> rfl

theorem edited_of_rename {newName id : String} (h : g.rename key newName = .ok (k, id)) :
    g.Edited (.rename newName) k := by
  obtain ⟨old, htarget, rfl⟩ := rename_eq_ok_iff.mp h
  obtain ⟨-, hold, name, hname, hnew⟩ := of_renameTarget htarget
  split_ifs with hsame
  · exact .unchanged
  · rcases hnew with ⟨-, he⟩ | rfl
    · exact absurd he.symm hsame
    obtain ⟨hsegment, hreserved, hiff⟩ := of_newName hname
    obtain ⟨n, hn, hnsegment, hnreserved, hniff⟩ :=
      g.exists_freeId_eq (parent? old) hsegment hreserved
    have hfree := (g.freeId_spec (parent? old) name).1
    rw [hn] at hfree ⊢
    exact .renamed hold hnsegment hnreserved (hniff.trans hiff) hfree

end Keys

/-- **A successful action is one of the edits.** -/
theorem edited_of_act {key newKey : String} (h : g.act key a = .ok (k, newKey)) : g.Edited a k := by
  cases a with
  | create => exact edited_of_create h
  | set tag value =>
    simp only [act, bind_eq_ok, pure_eq_ok, Prod.mk.injEq] at h
    obtain ⟨k', hk', rfl, -⟩ := h
    exact edited_of_set hk'
  | delete =>
    simp only [act, bind_eq_ok, pure_eq_ok, Prod.mk.injEq] at h
    obtain ⟨k', hk', rfl, -⟩ := h
    exact edited_of_delete hk'
  | move newKey' withDescendants =>
    simp only [act, bind_eq_ok, pure_eq_ok, Prod.mk.injEq] at h
    obtain ⟨k', hk', rfl, -⟩ := h
    exact edited_of_move hk'
  | rename newName => exact edited_of_rename h

/-- Performing an action does what the action does on the root board, and leaves the canonical
statements behind. -/
theorem perform_eq_ok_iff {board : List String} {key newKey : String} :
    g.perform board key a = .ok (k, newKey) ↔
      board = [] ∧ ∃ h, g.act key a = .ok (h, newKey) ∧ k = h.refresh := by
  unfold perform checkBoard
  simp only [bind_eq_ok, pure_eq_ok, Prod.mk.injEq]
  constructor
  · rintro ⟨⟨⟩, hboard, ⟨h, id⟩, hact, rfl, rfl⟩
    split_ifs at hboard with hroot
    exact ⟨hroot, h, hact, rfl⟩
  · rintro ⟨hroot, h, hact, rfl⟩
    exact ⟨(), if_pos hroot, (h, newKey), hact, rfl, rfl⟩

end Graph

end BoxDiagram
